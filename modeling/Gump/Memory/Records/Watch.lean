/-
  Memory/Records/Watch.lean --- the bounded change log behind watches
  (`records/watch.rs`).

  `WatchHistory` is a window in the sense of `Foundation/Feed.lean`: its batches
  are stamped with revisions and `compactedThrough` is the floor.  Every pruning
  rule of the source --- the floor itself, age, the revision count and the byte
  budget --- is either a raise of the floor or a loop that drops from the front.
-/
import Gump.Foundation.Feed
import Gump.Memory.Records.Record

set_option autoImplicit false

namespace Gump.Memory

open Gump.Foundation

/-- Retain at most 10,000 revisions of watch history. -/
def maxWatchRevisions : Nat := 10000

/-- Retain at most 10 minutes of watch history (milliseconds). -/
def maxWatchAgeMs : Nat := 10 * 60 * 1000

/-- Ordered change visible to watchers after a revision. -/
inductive WatchChange where
  | put (key : RecordKey) (revision : Nat) (digest : Digest)
  | delete (key : RecordKey) (revision : Nat)
  /-- Lease revoked (expiry or explicit revoke). -/
  | leaseRevoked (leaseId revision : Nat)
  deriving DecidableEq, Repr

/-- The changes committed by one command. -/
structure WatchBatch where
  revision : Nat
  atMs : Nat
  changes : List WatchChange
  deriving DecidableEq, Repr

/-- The answer to a watcher that lags behind the floor. -/
structure Compacted where
  compactionFloor : Nat
  deriving DecidableEq, Repr

/-- Bytes charged for one change. -/
def changeBytes : WatchChange → Nat
  | .put key _ _ => 40 + key.display.utf8ByteSize
  | .delete key _ => 16 + key.display.utf8ByteSize
  | .leaseRevoked _ _ => 24

/-- Bytes charged for a batch: revision, time and changes. -/
def batchBytes (batch : WatchBatch) : Nat :=
  16 + (batch.changes.map changeBytes).sum

/-- Bounded committed-change log for watches. -/
structure WatchHistory where
  /-- Highest revision that has been compacted away (unavailable). -/
  compactedThrough : Nat
  batches : List WatchBatch
  /-- Approximate bytes charged toward the history budget cap. -/
  approxBytes : Nat
  deriving DecidableEq, Repr

namespace WatchHistory

/-- The history of a fresh machine. -/
def empty : WatchHistory := ⟨0, [], 0⟩

/-- The compaction floor. -/
def floor (w : WatchHistory) : Nat := w.compactedThrough

/-- Bytes charged for a list of batches. -/
def bytesOf (batches : List WatchBatch) : Nat := (batches.map batchBytes).sum

/-- Set the byte count to that of the batches held. -/
def recomputeBytes (w : WatchHistory) : WatchHistory :=
  { w with approxBytes := bytesOf w.batches }

/-- Discard the batches at or below the floor. -/
def pruneCompacted (w : WatchHistory) : WatchHistory :=
  { w with batches := itemsAfter WatchBatch.revision w.compactedThrough w.batches
  }.recomputeBytes

/-- Compact away revisions up to `through`. -/
def compactThrough (w : WatchHistory) (through : Nat) : WatchHistory :=
  { w with compactedThrough := max w.compactedThrough through }.pruneCompacted

/-- The front batch is older than the cutoff. -/
def aged (cutoff : Nat) : List WatchBatch → Bool
  | [] => false
  | first :: _ => decide (first.atMs < cutoff)

/-- More batches than the history may keep. -/
def overCount (batches : List WatchBatch) : Bool := decide (batches.length > maxWatchRevisions)

/-- More bytes than the history budget. -/
def overBytes (historyBudget : Nat) (batches : List WatchBatch) : Bool :=
  decide (bytesOf batches > historyBudget)

/-- One dropping loop of `retain`. -/
def dropWhile (w : WatchHistory) (cond : List WatchBatch → Bool) : WatchHistory :=
  let r := dropFrontWhile WatchBatch.revision cond w.compactedThrough w.batches
  { w with compactedThrough := r.1, batches := r.2 }

/-- Prune by compacted floor, age (from `nowMs`), revision count and history
budget, in this order. -/
def retain (w : WatchHistory) (nowMs historyBudget : Nat) : WatchHistory :=
  let cutoff := nowMs - maxWatchAgeMs
  ((((w.pruneCompacted).dropWhile (aged cutoff)).dropWhile overCount).dropWhile
    (overBytes historyBudget)).recomputeBytes

/-- Append a batch and charge its bytes. -/
def append (w : WatchHistory) (batch : WatchBatch) : WatchHistory :=
  { w with
    approxBytes := saturatingAdd w.approxBytes (batchBytes batch)
    batches := w.batches ++ [batch] }

/-- Append a batch and prune. -/
def push (w : WatchHistory) (batch : WatchBatch) (nowMs historyBudget : Nat) : WatchHistory :=
  (w.append batch).retain nowMs historyBudget

/-- Events with revision strictly greater than `after`. -/
def watchAfter (w : WatchHistory) (after : Nat) : Except Compacted (List WatchBatch) :=
  if after < w.compactedThrough then .error ⟨w.compactedThrough⟩
  else .ok (itemsAfter WatchBatch.revision after w.batches)

/-! ## The history is a window over the committed batches -/

/-- The history covers `log`: it holds exactly the batches above its floor. -/
def CoversLog (w : WatchHistory) (log : List WatchBatch) : Prop :=
  Covers WatchBatch.revision w.compactedThrough w.batches log

variable {w : WatchHistory} {log : List WatchBatch}

theorem CoversLog.dropWhile (hlog : Increasing WatchBatch.revision log)
    (h : w.CoversLog log) (cond : List WatchBatch → Bool) :
    (w.dropWhile cond).CoversLog log :=
  Covers.dropFrontWhile hlog h

theorem CoversLog.compactThrough (h : w.CoversLog log) (through : Nat) :
    (w.compactThrough through).CoversLog log :=
  Covers.raise h (le_max_left _ _)

theorem CoversLog.pruneCompacted (h : w.CoversLog log) : w.pruneCompacted.CoversLog log :=
  Covers.raise h (le_refl _)

/-- What remains of `retain` once the window covers the log after its first
pruning. -/
theorem coversLog_retain_of_prune (hlog : Increasing WatchBatch.revision log)
    (h : w.pruneCompacted.CoversLog log) (nowMs historyBudget : Nat) :
    (w.retain nowMs historyBudget).CoversLog log := by
  have haged := h.dropWhile hlog (aged (nowMs - maxWatchAgeMs))
  have hcount := haged.dropWhile hlog overCount
  exact hcount.dropWhile hlog (overBytes historyBudget)

theorem CoversLog.retain (hlog : Increasing WatchBatch.revision log)
    (h : w.CoversLog log) (nowMs historyBudget : Nat) :
    (w.retain nowMs historyBudget).CoversLog log :=
  coversLog_retain_of_prune hlog h.pruneCompacted nowMs historyBudget

/-- Pushing a batch onto history and log together. -/
theorem CoversLog.push {batch : WatchBatch} (h : w.CoversLog log)
    (hlog : Increasing WatchBatch.revision (log ++ [batch])) (nowMs historyBudget : Nat) :
    (w.push batch nowMs historyBudget).CoversLog (log ++ [batch]) := by
  have hprune : (w.append batch).pruneCompacted.CoversLog (log ++ [batch]) := Covers.push h batch
  exact coversLog_retain_of_prune hlog hprune nowMs historyBudget

/-- A watcher at or above the floor receives the committed batches after its
revision. -/
theorem CoversLog.watchAfter (h : w.CoversLog log) (after : Nat) :
    w.watchAfter after =
      if after < w.floor then .error ⟨w.floor⟩
      else .ok (itemsAfter WatchBatch.revision after log) := by
  unfold WatchHistory.watchAfter floor
  split
  · rfl
  · rename_i hfloor
    rw [Covers.read h (not_lt.mp hfloor)]

variable {b : WatchBatch}

/-- A batch at or below the floor is not in the history. -/
theorem CoversLog.not_mem_of_le_floor (h : w.CoversLog log) (hb : b.revision ≤ w.floor) :
    b ∉ w.batches := by
  intro hmem
  rw [show w.batches = itemsAfter WatchBatch.revision w.compactedThrough log from h] at hmem
  exact absurd (mem_itemsAfter.mp hmem).2 (not_lt.mpr hb)

/-! ## The floor -/

theorem floor_le_dropWhile (w : WatchHistory) (cond : List WatchBatch → Bool) :
    w.floor ≤ (w.dropWhile cond).floor :=
  le_dropFrontWhile cond w.compactedThrough w.batches

theorem floor_le_retain (w : WatchHistory) (nowMs historyBudget : Nat) :
    w.floor ≤ (w.retain nowMs historyBudget).floor := by
  have haged := floor_le_dropWhile w.pruneCompacted (aged (nowMs - maxWatchAgeMs))
  have hcount := floor_le_dropWhile
    (w.pruneCompacted.dropWhile (aged (nowMs - maxWatchAgeMs))) overCount
  have hbytes := floor_le_dropWhile
    ((w.pruneCompacted.dropWhile (aged (nowMs - maxWatchAgeMs))).dropWhile overCount)
    (overBytes historyBudget)
  exact haged.trans (hcount.trans hbytes)

theorem floor_le_push (w : WatchHistory) (batch : WatchBatch) (nowMs historyBudget : Nat) :
    w.floor ≤ (w.push batch nowMs historyBudget).floor :=
  floor_le_retain (w.append batch) nowMs historyBudget

/-- Floor and batches stay at or below `bound`. -/
def Within (w : WatchHistory) (bound : Nat) : Prop :=
  w.floor ≤ bound ∧ ∀ b ∈ w.batches, b.revision ≤ bound

variable {bound : Nat}

theorem Within.mono {bound' : Nat} (h : w.Within bound) (hle : bound ≤ bound') : w.Within bound' :=
  ⟨h.1.trans hle, fun b hb => (h.2 b hb).trans hle⟩

theorem Within.pruneCompacted (h : w.Within bound) : w.pruneCompacted.Within bound :=
  ⟨h.1, fun b hb => h.2 b (mem_itemsAfter.mp hb).1⟩

theorem Within.dropWhile (h : w.Within bound) (cond : List WatchBatch → Bool) :
    (w.dropWhile cond).Within bound := by
  refine ⟨dropFrontWhile_le h.1 h.2, ?_⟩
  intro b hb
  exact h.2 b ((dropFrontWhile_suffix cond w.compactedThrough w.batches).subset hb)

theorem Within.compactThrough {through : Nat} (h : w.Within bound) (hthrough : through ≤ bound) :
    (w.compactThrough through).Within bound := by
  refine ⟨max_le h.1 hthrough, ?_⟩
  intro b hb
  exact h.2 b (mem_itemsAfter.mp hb).1

theorem Within.retain (h : w.Within bound) (nowMs historyBudget : Nat) :
    (w.retain nowMs historyBudget).Within bound :=
  ((h.pruneCompacted.dropWhile _).dropWhile _).dropWhile _

theorem Within.push {batch : WatchBatch} (h : w.Within bound) (hbatch : batch.revision ≤ bound)
    (nowMs historyBudget : Nat) : (w.push batch nowMs historyBudget).Within bound := by
  apply Within.retain
  refine ⟨h.1, ?_⟩
  intro b hb
  rcases List.mem_append.mp hb with hold | hnew
  · exact h.2 b hold
  · rw [List.mem_singleton.mp hnew]
    exact hbatch

/-! ## Why a batch leaves the history -/

/-- A retention rule lets go of the batch `b`, out of the batches `held` when
`retain` runs: it is too old, there are too many batches, or too many bytes. -/
def RetentionDrops (held : List WatchBatch) (nowMs historyBudget : Nat) (b : WatchBatch) :
    Prop :=
  b ∈ held ∧
    (b.atMs < nowMs - maxWatchAgeMs ∨ maxWatchRevisions < held.length ∨
      historyBudget < bytesOf held)

theorem aged_cons_iff {cutoff : Nat} {rest : List WatchBatch} :
    aged cutoff (b :: rest) = true ↔ b.atMs < cutoff := by
  simp only [aged, decide_eq_true_eq]

variable {historyBudget : Nat}

theorem overBytes_iff {batches : List WatchBatch} :
    overBytes historyBudget batches = true ↔ historyBudget < bytesOf batches := by
  simp only [overBytes, gt_iff_lt, decide_eq_true_eq]

theorem overCount_iff {batches : List WatchBatch} :
    overCount batches = true ↔ maxWatchRevisions < batches.length := by
  simp only [overCount, gt_iff_lt, decide_eq_true_eq]

theorem bytesOf_le_of_sublist {xs ys : List WatchBatch} (h : xs.Sublist ys) :
    bytesOf xs ≤ bytesOf ys :=
  (h.map batchBytes).sum_le_sum (fun _ _ => Nat.zero_le _)

theorem RetentionDrops.mono {held held' : List WatchBatch} {nowMs : Nat}
    (h : RetentionDrops held nowMs historyBudget b) (hsub : held.Sublist held') :
    RetentionDrops held' nowMs historyBudget b := by
  obtain ⟨hmem, haged | hcount | hbytes⟩ := h
  · exact ⟨hsub.subset hmem, Or.inl haged⟩
  · exact ⟨hsub.subset hmem, Or.inr (Or.inl (lt_of_lt_of_le hcount hsub.length_le))⟩
  · exact ⟨hsub.subset hmem, Or.inr (Or.inr (lt_of_lt_of_le hbytes (bytesOf_le_of_sublist hsub)))⟩

/-- A floor that `retain` raises past `bound` was raised by a batch above `bound`
that a retention rule dropped. -/
theorem retentionDrops_of_lt_retain {nowMs : Nat} (hfloor : w.floor ≤ bound)
    (h : bound < (w.retain nowMs historyBudget).floor) :
    ∃ b, bound < b.revision ∧ b.revision ≤ (w.retain nowMs historyBudget).floor ∧
      RetentionDrops w.batches nowMs historyBudget b := by
  -- the three loops run one after the other; the first one to pass `bound` is the
  -- one whose condition we report
  let w₁ := w.pruneCompacted.dropWhile (aged (nowMs - maxWatchAgeMs))
  let w₂ := w₁.dropWhile overCount
  have hle₂ : w₁.floor ≤ w₂.floor := floor_le_dropWhile w₁ overCount
  have hle₃ : w₂.floor ≤ (w.retain nowMs historyBudget).floor :=
    floor_le_dropWhile w₂ (overBytes historyBudget)
  have hp : w.pruneCompacted.batches.Sublist w.batches := List.filter_sublist
  have hs₁ : w₁.batches <:+ w.pruneCompacted.batches := dropFrontWhile_suffix _ _ _
  have hs₂ : w₂.batches <:+ w₁.batches := dropFrontWhile_suffix _ _ _
  by_cases haged : bound < w₁.floor
  · obtain ⟨pre, b, post, hsplit, hlt, hcond, hle⟩ :=
      exists_dropped_of_lt_dropFrontWhile hfloor haged
    have hmem : b ∈ w.pruneCompacted.batches := by simp [hsplit]
    exact ⟨b, hlt, hle.trans (hle₂.trans hle₃), hp.subset hmem, Or.inl (aged_cons_iff.mp hcond)⟩
  · by_cases hcount : bound < w₂.floor
    · obtain ⟨pre, b, post, hsplit, hlt, hcond, hle⟩ :=
        exists_dropped_of_lt_dropFrontWhile (not_lt.mp haged) hcount
      have hsuf : (b :: post) <:+ w.pruneCompacted.batches :=
        (List.suffix_append pre (b :: post)).trans (hsplit ▸ hs₁)
      have hmem : b ∈ w.batches := hp.subset (hsuf.subset List.mem_cons_self)
      have hlen : maxWatchRevisions < w.batches.length :=
        lt_of_lt_of_le (overCount_iff.mp hcond) (hsuf.length_le.trans hp.length_le)
      exact ⟨b, hlt, hle.trans hle₃, hmem, Or.inr (Or.inl hlen)⟩
    · obtain ⟨pre, b, post, hsplit, hlt, hcond, hle⟩ :=
        exists_dropped_of_lt_dropFrontWhile (not_lt.mp hcount) h
      have hsuf : (b :: post) <:+ w.pruneCompacted.batches :=
        (List.suffix_append pre (b :: post)).trans (hsplit ▸ (hs₂.trans hs₁))
      have hmem : b ∈ w.batches := hp.subset (hsuf.subset List.mem_cons_self)
      have hbytes : historyBudget < bytesOf w.batches :=
        lt_of_lt_of_le (overBytes_iff.mp hcond) (bytesOf_le_of_sublist (hsuf.sublist.trans hp))
      exact ⟨b, hlt, hle, hmem, Or.inr (Or.inr hbytes)⟩

end WatchHistory

end Gump.Memory
