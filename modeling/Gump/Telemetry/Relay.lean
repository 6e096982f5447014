/-
  Telemetry/Relay.lean --- the bounded window of a telemetry keeper (`relay.rs`).

  A keeper takes batches of records, or the records of another keeper one by one.  It
  keeps a set of the identities it holds, so that a record that comes again is passed
  over, and drops its oldest records to make room.  The set and the queue stay in step
  through every eviction: an identity that is dropped in the middle of a batch may come
  in again with a later record of the same batch.
-/
import Gump.Foundation.Run
import Gump.Foundation.Words
import Mathlib.Data.Finset.Basic

set_option autoImplicit false

namespace Gump.Telemetry

open Gump.Foundation

/-- Maximum records of a batch. -/
def maxBatchRecords : Nat := 256

/-- The identity by which a record is told to come again. -/
structure DedupId where
  executionId : Nat
  attemptId : Nat
  topic : String
  sequence : Nat
  deriving DecidableEq, Repr

/-- What a session presents with a batch. -/
structure BatchAuth where
  sessionId : Nat
  attemptFenceDigest : Octets 32
  deriving DecidableEq, Repr

structure RelayRecord where
  dedup : DedupId
  payload : List UInt8
  deriving DecidableEq, Repr

structure TelemetryBatch where
  shardKey : List UInt8
  auth : BatchAuth
  records : List RelayRecord
  deriving DecidableEq, Repr

inductive RelayError where
  | emptyBatch
  | batchTooLarge (len max : Nat)
  | unauthorized (sessionId : Nat)
  deriving DecidableEq, Repr

structure StoredRecord where
  record : RelayRecord
  bytes : Nat
  deriving DecidableEq, Repr

structure KeeperStore where
  nodeId : Nat
  maxBytes : Nat
  entries : List StoredRecord
  totalBytes : Nat
  seen : Finset DedupId
  accepted : Nat
  droppedOldest : Nat
  rejectedAuth : Nat
  deriving DecidableEq

namespace KeeperStore

def new (nodeId maxBytes : Nat) : KeeperStore where
  nodeId := nodeId
  maxBytes := max maxBytes 1
  entries := []
  totalBytes := 0
  seen := ∅
  accepted := 0
  droppedOldest := 0
  rejectedAuth := 0

/-- Drop the oldest entry, `old`. -/
def dropFront (s : KeeperStore) (old : StoredRecord) (rest : List StoredRecord) : KeeperStore :=
  { s with
    entries := rest
    totalBytes := s.totalBytes - old.bytes
    seen := s.seen.erase old.record.dedup
    droppedOldest := (s.droppedOldest + 1) % 2 ^ 64 }

/-- The loop of `evictUntil` over the entries of the store. -/
def evictLoop (needed : Nat) : List StoredRecord → KeeperStore → KeeperStore
  | [], s => s
  | old :: rest, s =>
    if saturatingAdd s.totalBytes needed > s.maxBytes then
      evictLoop needed rest (s.dropFront old rest)
    else s

/-- Drop the oldest entries until `needed` more bytes fit or none is left. -/
def evictUntil (s : KeeperStore) (needed : Nat) : KeeperStore := evictLoop needed s.entries s

/-- Append a record that the store does not hold. -/
def append (s : KeeperStore) (rec : RelayRecord) (bytes : Nat) : KeeperStore :=
  { s with
    seen := insert rec.dedup s.seen
    entries := s.entries ++ [⟨rec, bytes⟩]
    totalBytes := saturatingAdd s.totalBytes bytes
    accepted := (s.accepted + 1) % 2 ^ 64 }

/-- One record of a batch, with the number taken so far. -/
def acceptRecord : KeeperStore × Nat → RelayRecord → KeeperStore × Nat
  | (s, newly), rec =>
    if rec.dedup ∈ s.seen then (s, newly)
    else
      let bytes := saturatingAdd rec.payload.length 32
      ((s.evictUntil bytes).append rec bytes, newly + 1)

/-- Take a batch; the number of records that are new. -/
def accept (s : KeeperStore) (batch : TelemetryBatch) (expectedAuth : BatchAuth) :
    KeeperStore × Except RelayError Nat :=
  if batch.records.isEmpty then (s, .error .emptyBatch)
  else if batch.records.length > maxBatchRecords then
    (s, .error (.batchTooLarge batch.records.length maxBatchRecords))
  else if batch.auth ≠ expectedAuth then
    ({ s with rejectedAuth := (s.rejectedAuth + 1) % 2 ^ 64 },
      .error (.unauthorized batch.auth.sessionId))
  else
    let (s, newly) := batch.records.foldl acceptRecord (s, 0)
    (s, .ok newly)

/-- One record of a transfer, with the number taken so far. -/
def transferRecord (expectedAuth : BatchAuth) :
    KeeperStore × Nat → StoredRecord → KeeperStore × Nat
  | (dst, n), e =>
    let (dst, result) := dst.accept ⟨[], expectedAuth, [e.record]⟩ expectedAuth
    (dst, if result.toOption.getD 0 > 0 then n + 1 else n)

/-- Transfer the records of `src` into `dst`. -/
def transferInto (src dst : KeeperStore) (expectedAuth : BatchAuth) : KeeperStore × Nat :=
  src.entries.foldl (transferRecord expectedAuth) (dst, 0)

end KeeperStore

/-- A call on a store: a batch, or a transfer from another store. -/
inductive KeeperCall where
  | accept (batch : TelemetryBatch) (expectedAuth : BatchAuth)
  | transferFrom (src : KeeperStore) (expectedAuth : BatchAuth)

def KeeperStore.call (s : KeeperStore) : KeeperCall → KeeperStore × Except RelayError Nat
  | .accept batch expectedAuth => s.accept batch expectedAuth
  | .transferFrom src expectedAuth =>
    let (s, n) := src.transferInto s expectedAuth
    (s, .ok n)

namespace KeeperStore

/-! ## The set and the queue -/

/-- The identities of the entries, in order. -/
def heldIds (s : KeeperStore) : List DedupId := s.entries.map (·.record.dedup)

/-- The sizes of the entries together. -/
def heldBytes (s : KeeperStore) : Nat := (s.entries.map (·.bytes)).sum

/-- The set, the queue and the counters of a store agree.  The byte counter stops at the
largest word, and the other counters wrap; the entries pass the budget only alone, or where
the budget is that word. -/
structure Sound (s : KeeperStore) : Prop where
  seen : s.seen = s.heldIds.toFinset
  nodup : s.heldIds.Nodup
  sizes : ∀ e ∈ s.entries, e.bytes ≤ u64Max
  total : s.totalBytes = min s.heldBytes u64Max
  within : s.heldBytes ≤ s.maxBytes ∨ s.entries.length ≤ 1 ∨ u64Max ≤ s.maxBytes
  accepted : s.accepted = (s.entries.length + s.droppedOldest) % 2 ^ 64

theorem new_sound (nodeId maxBytes : Nat) : (new nodeId maxBytes).Sound where
  seen := rfl
  nodup := List.nodup_nil
  sizes := fun _ h => absurd h List.not_mem_nil
  total := rfl
  within := .inl (Nat.zero_le _)
  accepted := rfl

variable {s : KeeperStore}

/-- A store that has to drop an entry counts its bytes exactly. -/
theorem Sound.total_exact (h : s.Sound) (hmax : s.maxBytes < u64Max) :
    s.totalBytes = s.heldBytes := by
  rw [h.total, Nat.min_eq_left]
  rcases h.within with hle | hone | hword
  · omega
  · have hsizes := h.sizes
    unfold heldBytes
    cases hentries : s.entries with
    | nil => exact Nat.zero_le _
    | cons e rest =>
      rw [hentries, List.length_cons] at hone
      have hrest : rest = [] := List.length_eq_zero_iff.mp (by omega)
      subst hrest
      simpa using hsizes e (hentries ▸ List.mem_cons_self)
  · omega

theorem Sound.dropFront (h : s.Sound) {old : StoredRecord} {rest : List StoredRecord}
    (hentries : s.entries = old :: rest) (hmax : s.maxBytes < u64Max) :
    (s.dropFront old rest).Sound := by
  have hids : s.heldIds = old.record.dedup :: rest.map (·.record.dedup) := by
    rw [heldIds, hentries, List.map_cons]
  have hbytes : s.heldBytes = old.bytes + (rest.map (·.bytes)).sum := by
    rw [heldBytes, hentries, List.map_cons, List.sum_cons]
  have htotal := h.total_exact hmax
  have hnodup := h.nodup
  rw [hids, List.nodup_cons] at hnodup
  have hle : s.totalBytes ≤ u64Max := h.total ▸ Nat.min_le_right _ _
  refine ⟨?_, hnodup.2, fun e he => h.sizes e (hentries ▸ List.mem_cons_of_mem _ he), ?_, ?_, ?_⟩
  · show s.seen.erase old.record.dedup = (rest.map (·.record.dedup)).toFinset
    rw [h.seen, hids, List.toFinset_cons,
      Finset.erase_insert (fun hmem => hnodup.1 (List.mem_toFinset.mp hmem))]
  · show s.totalBytes - old.bytes = min (rest.map (·.bytes)).sum u64Max
    omega
  · show (rest.map (·.bytes)).sum ≤ s.maxBytes ∨ rest.length ≤ 1 ∨ u64Max ≤ s.maxBytes
    rcases h.within with hle | hone | hword
    · exact .inl (by omega)
    · rw [hentries, List.length_cons] at hone
      exact .inr (.inl (by omega))
    · exact .inr (.inr hword)
  · show s.accepted = (rest.length + (s.droppedOldest + 1) % 2 ^ 64) % 2 ^ 64
    rw [h.accepted, hentries, List.length_cons]
    omega

/-- After the loop the store is still sound, holds only what it held before, and has room
or is empty. -/
theorem evictUntil_sound (h : s.Sound) (needed : Nat) :
    (s.evictUntil needed).Sound ∧ (s.evictUntil needed).heldIds <:+ s.heldIds ∧
      (s.evictUntil needed).maxBytes = s.maxBytes ∧
      ((s.evictUntil needed).entries = [] ∨
        saturatingAdd (s.evictUntil needed).totalBytes needed ≤ s.maxBytes) := by
  unfold evictUntil
  generalize hentries : s.entries = entries
  induction entries generalizing s with
  | nil => exact ⟨h, List.suffix_rfl, rfl, .inl hentries⟩
  | cons old rest ih =>
    rw [evictLoop]
    split
    · next hfull =>
      have hmax : s.maxBytes < u64Max := Nat.lt_of_lt_of_le hfull (Nat.min_le_right _ _)
      obtain ⟨hsound, hsuffix, hsame, hroom⟩ := ih (h.dropFront hentries hmax) rfl
      refine ⟨hsound, hsuffix.trans ?_, hsame, hroom⟩
      rw [heldIds, heldIds, hentries]
      exact List.suffix_cons _ _
    · next hfits => exact ⟨h, List.suffix_rfl, rfl, .inr (Nat.le_of_not_lt hfits)⟩

/-- A record whose identity is not held is appended where there is room for it. -/
theorem Sound.append (h : s.Sound) {rec : RelayRecord} {bytes : Nat} (hnew : rec.dedup ∉ s.heldIds)
    (hbytes : bytes ≤ u64Max)
    (hroom : s.entries = [] ∨ saturatingAdd s.totalBytes bytes ≤ s.maxBytes) :
    (s.append rec bytes).Sound := by
  have hids : (s.append rec bytes).heldIds = s.heldIds ++ [rec.dedup] := by
    simp [heldIds, KeeperStore.append]
  have hsum : (s.append rec bytes).heldBytes = s.heldBytes + bytes := by
    simp [heldBytes, KeeperStore.append]
  refine ⟨?_, ?_, ?_, ?_, ?_, ?_⟩
  · rw [hids]
    show insert rec.dedup s.seen = (s.heldIds ++ [rec.dedup]).toFinset
    ext id
    rw [Finset.mem_insert, h.seen, List.mem_toFinset, List.mem_toFinset, List.mem_append,
      List.mem_singleton, or_comm]
  · rw [hids, List.nodup_append]
    refine ⟨h.nodup, List.nodup_singleton _, fun a ha b hb heq => hnew ?_⟩
    rwa [← List.mem_singleton.mp hb, ← heq]
  · intro e he
    rcases List.mem_append.mp he with hold | hlast
    · exact h.sizes e hold
    · rw [List.mem_singleton.mp hlast]
      exact hbytes
  · rw [hsum]
    show saturatingAdd s.totalBytes bytes = _
    have htotal := h.total
    simp only [saturatingAdd]
    omega
  · rw [hsum]
    show _ ≤ s.maxBytes ∨ (s.entries ++ [_]).length ≤ 1 ∨ u64Max ≤ s.maxBytes
    rcases hroom with hempty | hfits
    · rw [hempty]
      exact .inr (.inl (Nat.le_refl 1))
    · have htotal := h.total
      simp only [saturatingAdd] at hfits
      omega
  · show (s.accepted + 1) % 2 ^ 64 = ((s.entries ++ [_]).length + s.droppedOldest) % 2 ^ 64
    rw [h.accepted, List.length_append, List.length_singleton]
    omega

theorem acceptRecord_sound (h : s.Sound) (newly : Nat) (rec : RelayRecord) :
    (acceptRecord (s, newly) rec).1.Sound := by
  by_cases hseen : rec.dedup ∈ s.seen
  · rw [acceptRecord, if_pos hseen]
    exact h
  · obtain ⟨hsound, hsuffix, hsame, hroom⟩ :=
      evictUntil_sound h (saturatingAdd rec.payload.length 32)
    -- What is held after the eviction was held before, so the identity is still new.
    have hnew : rec.dedup ∉ (s.evictUntil (saturatingAdd rec.payload.length 32)).heldIds :=
      fun hheld => hseen (h.seen ▸ List.mem_toFinset.mpr (hsuffix.mem hheld))
    rw [acceptRecord, if_neg hseen]
    exact hsound.append hnew (saturatingAdd_le _ _) (hsame ▸ hroom)

theorem foldl_acceptRecord_sound (records : List RelayRecord) (h : s.Sound) (newly : Nat) :
    (records.foldl acceptRecord (s, newly)).1.Sound := by
  induction records generalizing s newly with
  | nil => exact h
  | cons rec records ih => exact ih (acceptRecord_sound h newly rec) _

/-- A batch is refused before any entry changes, or taken. -/
theorem accept_cases (s : KeeperStore) (batch : TelemetryBatch) (expectedAuth : BatchAuth) :
    (∃ e rejected, s.accept batch expectedAuth = ({ s with rejectedAuth := rejected }, .error e)) ∨
      s.accept batch expectedAuth = ((batch.records.foldl acceptRecord (s, 0)).1,
        .ok (batch.records.foldl acceptRecord (s, 0)).2) := by
  unfold accept
  split
  · exact .inl ⟨_, _, rfl⟩
  · split
    · exact .inl ⟨_, _, rfl⟩
    · split
      · exact .inl ⟨_, _, rfl⟩
      · exact .inr rfl

theorem accept_sound (h : s.Sound) (batch : TelemetryBatch) (expectedAuth : BatchAuth) :
    (s.accept batch expectedAuth).1.Sound := by
  rcases s.accept_cases batch expectedAuth with ⟨e, rejected, heq⟩ | heq
  · rw [heq]
    exact ⟨h.seen, h.nodup, h.sizes, h.total, h.within, h.accepted⟩
  · rw [heq]
    exact foldl_acceptRecord_sound _ h 0

theorem transfer_sound (expectedAuth : BatchAuth) (moved : List StoredRecord) {dst : KeeperStore}
    (h : dst.Sound) (n : Nat) : (moved.foldl (transferRecord expectedAuth) (dst, n)).1.Sound := by
  induction moved generalizing dst n with
  | nil => exact h
  | cons e moved ih =>
    have hstep : transferRecord expectedAuth (dst, n) e =
        ((dst.accept ⟨[], expectedAuth, [e.record]⟩ expectedAuth).1,
          (transferRecord expectedAuth (dst, n) e).2) := rfl
    rw [List.foldl_cons, hstep]
    exact ih (accept_sound h _ _) _

theorem call_sound (s : KeeperStore) (c : KeeperCall) (h : s.Sound) : (s.call c).1.Sound := by
  cases c with
  | accept batch expectedAuth => exact accept_sound h batch expectedAuth
  | transferFrom src expectedAuth => exact transfer_sound expectedAuth src.entries h 0

/-- After any calls on a new store, the set is the identities of the entries, each held
once; the bytes are those of the entries, as far as a word counts them, and pass the
budget only where one entry is held; what was accepted is held or was dropped, in the
arithmetic of 64-bit words; and a batch that is refused changes no entry. -/
theorem keeper_window_consistent (nodeId maxBytes : Nat) (calls : List KeeperCall) :
    let s := runFrom call (new nodeId maxBytes) calls
    s.seen = s.heldIds.toFinset ∧ s.heldIds.Nodup ∧
      (s.heldBytes ≤ u64Max → s.totalBytes = s.heldBytes) ∧
      (s.maxBytes < s.totalBytes → s.entries.length = 1) ∧
      s.accepted = (s.entries.length + s.droppedOldest) % 2 ^ 64 ∧
      ∀ batch expectedAuth e, (s.accept batch expectedAuth).2 = .error e →
        (s.accept batch expectedAuth).1.entries = s.entries := by
  intro s
  have h : s.Sound := runFrom_invariant call_sound (new_sound nodeId maxBytes) calls
  refine ⟨h.seen, h.nodup, fun hword => ?_, fun hover => ?_, h.accepted, ?_⟩
  · rw [h.total, Nat.min_eq_left hword]
  · have htotal := h.total
    rcases h.within with hle | hone | hword
    · omega
    · refine Nat.le_antisymm hone (Nat.pos_of_ne_zero fun hempty => ?_)
      have hnone : s.heldBytes = 0 := by
        rw [heldBytes, List.length_eq_zero_iff.mp hempty]
        rfl
      omega
    · omega
  · intro batch expectedAuth e herror
    rcases s.accept_cases batch expectedAuth with ⟨e', rejected, heq⟩ | heq
    · rw [heq]
    · rw [heq] at herror
      cases herror

end KeeperStore

end Gump.Telemetry
