/-
  Memory/Records/Resume.lean --- when a fresh relist can resume its watch.

  A watcher that relists at the current revision is served from there on as long
  as the compaction floor does not pass that revision.  The age, count and byte
  rules raise the floor only to revisions of batches that exist; `Compact` raises
  it to whatever the command says.  A `Compact` past the current revision
  therefore puts the floor above revisions that have not been issued, and every
  watcher is refused until the counter catches up.

  The results below give the exact condition: the floor stays at or below the
  revision in every state of a run if and only if no `Compact` of the run names a
  revision the machine has not reached.
-/
import Gump.Memory.Records.ChangeFeed

set_option autoImplicit false

namespace Gump.Memory

open Gump.Foundation

namespace TypedRecordMachine

/-- A compaction stays within the revisions that have been issued. -/
def CompactWithin (m : TypedRecordMachine) (op : MachineOp) : Prop :=
  ∀ through, op = .command (.compact through) → through ≤ m.revision

/-- The transitions of the record machine. -/
abbrev MachineTransition : Type :=
  Transition TypedRecordMachine MachineOp (List WatchChange)

/-- A step takes from a watcher at revision `after` something committed later: an
explicit compaction past `after`, or a retention rule (age, count or bytes) that
drops a batch above `after` which was held before the step or committed by it. -/
def PrunesPast (after : Nat) (t : MachineTransition) : Prop :=
  (∃ through, t.input = .command (.compact through) ∧ after < through) ∨
    ∃ b, after < b.revision ∧ b ∉ t.after.watch.batches ∧
      WatchHistory.RetentionDrops
        (t.before.watch.batches ++ stepBatches t.after t.output)
        t.after.nowMs t.before.budgets.historyBytes b

/-! ## The floor and one step -/

variable {op : MachineOp}

theorem Pruning.within {m m' : TypedRecordMachine} {w : WatchHistory} {bound : Nat}
    (h : Pruning m m' op w) (hm : m.watch.Within bound)
    (hcompact : ∀ through, op = .command (.compact through) → through ≤ bound) :
    w.Within bound := by
  cases h with
  | none => exact hm
  | retention => exact hm.retain _ _
  | compaction hop => exact hm.compactThrough (hcompact _ hop)

/-- A step whose compactions stay within the issued revisions keeps floor and
batches at or below the revision. -/
theorem Advance.within {m m' : TypedRecordMachine} {changes : List WatchChange}
    (h : Advance m op m' changes) (hp : m.pending = []) (hmax : m.revision ≤ u64Max)
    (hm : m.watch.Within m.revision) (hcompact : CompactWithin m op) :
    m'.watch.Within m'.revision := by
  obtain ⟨w, hprune, hwatch⟩ := h.watch hp
  have hle := (h.revision_le hmax).1
  have hw : w.Within m'.revision := (hprune.within hm hcompact).mono hle
  rw [hwatch]
  unfold WatchHistory.record
  split
  · exact hw
  · exact hw.push (le_refl _) _ _

/-- A compaction past the current revision leaves the floor above it. -/
theorem lt_floor_of_compact [Blake3] {m : TypedRecordMachine} {through : Nat}
    (h : m.revision < through) :
    (m.step (.command (.compact through))).1.revision <
      (m.step (.command (.compact through))).1.compactionFloor :=
  lt_of_lt_of_le h (le_max_right _ _)

theorem Pruning.batches_sublist {m m' : TypedRecordMachine} {w : WatchHistory}
    (h : Pruning m m' op w) : w.batches.Sublist m.watch.batches := by
  cases h with
  | none => exact List.Sublist.refl _
  | retention =>
    have hprune : m.watch.pruneCompacted.batches.Sublist m.watch.batches := List.filter_sublist
    exact ((dropFrontWhile_suffix _ _ _).sublist.trans
      ((dropFrontWhile_suffix _ _ _).sublist.trans
        (dropFrontWhile_suffix _ _ _).sublist)).trans hprune
  | compaction _ => exact List.filter_sublist

theorem floor_le_record (w : WatchHistory) (batch : WatchBatch) (historyBudget : Nat) :
    w.floor ≤ (w.record batch historyBudget).floor := by
  unfold WatchHistory.record
  split
  · exact le_refl _
  · exact w.floor_le_push batch batch.atMs historyBudget

/-- A step that raises the floor past `after` takes something committed after it. -/
theorem Advance.prunesPast {m m' : TypedRecordMachine} {changes : List WatchChange}
    {log : List WatchBatch} {after : Nat} (h : Advance m op m' changes) (hinv : FeedInv m log)
    (hlt : m'.revision < u64Max) (hfloor : m.compactionFloor ≤ after)
    (hraised : after < m'.compactionFloor) : PrunesPast after ⟨m, op, changes, m'⟩ := by
  obtain ⟨w, hprune, hwatch⟩ := h.watch hinv.pending
  have hcovers := (hinv.advance h hlt).covers
  by_cases hw : after < w.floor
  · -- the pruning before the commit already passed `after`
    have hle : w.floor ≤ m'.watch.floor := by
      rw [hwatch]
      exact floor_le_record w _ _
    cases hprune with
    | none => exact absurd hw (not_lt.mpr hfloor)
    | retention =>
      obtain ⟨b, hb, hbfloor, hdrop⟩ := WatchHistory.retentionDrops_of_lt_retain hfloor hw
      exact Or.inr ⟨b, hb, hcovers.not_mem_of_le_floor (hbfloor.trans hle),
        hdrop.mono (List.sublist_append_left _ _)⟩
    | @compaction through hop =>
      refine Or.inl ⟨through, hop, ?_⟩
      exact (lt_max_iff.mp hw).resolve_left (not_lt.mpr hfloor)
  · -- the retention that follows the committed batch passed it
    by_cases hnil : changes = []
    · have hsame : m'.watch = w := by
        rw [hwatch]
        exact if_pos hnil
      have hraised' : after < m'.watch.floor := hraised
      rw [hsame] at hraised'
      exact absurd hraised' hw
    · have hpush : m'.watch =
          (w.append (batchOf m' changes)).retain m'.nowMs m.budgets.historyBytes := by
        rw [hwatch]
        exact if_neg hnil
      have hraised' : after < m'.watch.floor := hraised
      rw [hpush] at hraised'
      obtain ⟨b, hb, hbfloor, hdrop⟩ :=
        WatchHistory.retentionDrops_of_lt_retain (w := w.append (batchOf m' changes))
          (not_lt.mp hw) hraised'
      have hsub : (w.batches ++ [batchOf m' changes]).Sublist
          (m.watch.batches ++ stepBatches m' changes) := by
        rw [stepBatches, if_neg hnil]
        exact hprune.batches_sublist.append (List.Sublist.refl _)
      rw [← hpush] at hbfloor
      exact Or.inr ⟨b, hb, hcovers.not_mem_of_le_floor hbfloor, hdrop.mono hsub⟩

theorem watchAfter_revision {m : TypedRecordMachine} (h : m.compactionFloor ≤ m.revision) :
    ∃ batches, m.watchAfter m.revision = .ok batches :=
  ⟨_, if_neg (not_lt.mpr h)⟩

/-! ## Runs -/

section Runs

variable [Blake3]

/-- A watcher at `after` is refused after a run only if a step of the run took
something from it. -/
theorem prunesPast_of_lt_floor_run {m : TypedRecordMachine} {log : List WatchBatch} {after : Nat}
    (hinv : FeedInv m log) {ops : List MachineOp} (hlt : (runFrom step m ops).revision < u64Max)
    (hfloor : m.compactionFloor ≤ after) (hraised : after < (runFrom step m ops).compactionFloor) :
    ∃ t ∈ transitions step m ops, PrunesPast after t := by
  induction ops generalizing m log with
  | nil => exact absurd hraised (not_lt.mpr hfloor)
  | cons op rest ih =>
    have hadv := m.step_advance op
    have hnext : (m.step op).1.revision < u64Max :=
      lt_of_le_of_lt (revision_le_run (hadv.revision_le hinv.bounded).2 rest).1 hlt
    by_cases hstep : after < (m.step op).1.compactionFloor
    · exact ⟨_, List.mem_cons_self, hadv.prunesPast hinv hnext hfloor hstep⟩
    · obtain ⟨t, ht, hprunes⟩ := ih (hinv.advance hadv hnext) hlt (not_lt.mp hstep) hraised
      exact ⟨t, List.mem_cons_of_mem _ ht, hprunes⟩

/-- A fresh relist at `m` can resume: the floor does not exceed the revision, the
watch after the current revision is served, and as long as revisions do not
saturate, every later state serves exactly the batches committed since, unless a
step in between pruned past the relisted revision. -/
def RelistResumes (m : TypedRecordMachine) : Prop :=
  m.compactionFloor ≤ m.revision ∧
    (∃ batches, m.watchAfter m.revision = .ok batches) ∧
    ∀ later, (runFrom step m later).revision < u64Max →
      (runFrom step m later).watchAfter m.revision =
          .ok (committedBatches (transitions step m later)) ∨
        ∃ t ∈ transitions step m later, PrunesPast m.revision t

/-- Queue and floor after a run whose compactions stay within the issued
revisions. -/
theorem within_reached {budgets : MemoryBudgets} {ops : List MachineOp}
    (h : ∀ t ∈ transitions step (new budgets) ops, CompactWithin t.before t.input) :
    (reached budgets ops).pending = [] ∧ (reached budgets ops).revision ≤ u64Max ∧
      (reached budgets ops).watch.Within (reached budgets ops).revision := by
  induction ops using List.reverseRecOn with
  | nil =>
    refine ⟨rfl, Nat.zero_le _, Nat.zero_le _, ?_⟩
    intro b hb
    simp [reached, new, WatchHistory.empty] at hb
  | append_singleton pre op ih =>
    rw [transitions_concat] at h
    obtain ⟨hpending, hmax, hwithin⟩ := ih (fun t ht => h t (List.mem_append_left _ ht))
    have hcompact : CompactWithin (reached budgets pre) op :=
      h ⟨_, op, _, _⟩ (List.mem_append_right _ List.mem_cons_self)
    have hadv := (reached budgets pre).step_advance op
    unfold reached at *
    rw [runFrom_concat]
    exact ⟨hadv.pending hpending, (hadv.revision_le hmax).2,
      hadv.within hpending hmax hwithin hcompact⟩

/-- **Resumption, exactly.**  Every state of a run lets a fresh relist resume if
and only if no compaction of the run names a revision above the one the machine
has reached. -/
theorem relist_resumes_iff_compact_within (budgets : MemoryBudgets) (ops : List MachineOp) :
    (∀ pre post, ops = pre ++ post → RelistResumes (reached budgets pre)) ↔
      ∀ t ∈ transitions step (new budgets) ops, CompactWithin t.before t.input := by
  constructor
  · intro h t ht through hop
    obtain ⟨pre, post, hsplit, hbefore, _, _⟩ := exists_split_of_mem_transitions ht
    by_contra hgt
    have hlt := lt_floor_of_compact (not_le.mp hgt)
    have hafter := (h (pre ++ [t.input]) post (by rw [hsplit]; simp)).1
    unfold reached at hafter
    rw [runFrom_concat, ← hbefore, hop] at hafter
    exact absurd hafter (not_le.mpr hlt)
  · intro h pre post hsplit
    have hpre : ∀ t ∈ transitions step (new budgets) pre, CompactWithin t.before t.input := by
      intro t ht
      apply h
      rw [hsplit, transitions_append]
      exact List.mem_append_left _ ht
    obtain ⟨hpending, hmax, hwithin⟩ := within_reached hpre
    refine ⟨hwithin.1, watchAfter_revision hwithin.1, ?_⟩
    intro later hlt
    have hinv := feedInv_reached (lt_of_le_of_lt (revision_le_run hmax later).1 hlt)
    by_cases hraised : (reached budgets pre).revision <
        (runFrom step (reached budgets pre) later).compactionFloor
    · exact Or.inr (prunesPast_of_lt_floor_run hinv hlt hwithin.1 hraised)
    · refine Or.inl ?_
      rw [watchAfter_run hinv hlt, if_neg hraised]

end Runs

/-- One `Compact` through revision 1 on an empty machine, still at revision 0,
refuses the watcher that relists right after it. -/
theorem compact_past_revision_refuses_relist :
    ¬ ∃ _ : Blake3, RelistResumes (reached MemoryBudgets.default [.command (.compact 1)]) := by
  rintro ⟨_, hfloor, _, _⟩
  exact absurd hfloor (not_le.mpr (lt_floor_of_compact (m := new MemoryBudgets.default)
    (show (0 : Nat) < 1 from Nat.zero_lt_one)))

end TypedRecordMachine

end Gump.Memory
