/-
  Memory/Receipts.lean --- how the receipts of a cluster state move.

  The source keeps a cached least receipt time beside the receipt map and updates
  it on every path.  The invariant `ReceiptInv` says that the cache is right; under
  it every receipt operation is one operation of a ranked store, and a command
  acts on the map as `ReceiptStep` says: receipts past their lifetime are dropped,
  and an applied envelope trims the map and adds its receipt.
-/
import Gump.Foundation.RankedStore
import Gump.Memory.ClusterStep

set_option autoImplicit false

namespace Gump.Memory

open Gump.Foundation

/-- The least receipt time. -/
def oldestOf (receipts : OrdMap Id16 IdempotencyEntry) : Option Nat :=
  (receipts.values.map IdempotencyEntry.recordedAtMs).min?

/-- Whether a receipt is within its lifetime. -/
def fresh (nowMs ttlMs : Nat) (_ : Id16) (e : IdempotencyEntry) : Bool :=
  decide (nowMs - e.recordedAtMs ≤ ttlMs)

/-- The receipts within their lifetime. -/
def freshReceipts (nowMs ttlMs : Nat) (receipts : OrdMap Id16 IdempotencyEntry) :
    OrdMap Id16 IdempotencyEntry :=
  receipts.retain (fresh nowMs ttlMs)

variable {receipts : OrdMap Id16 IdempotencyEntry}

theorem oldestOf_eq_some_iff {oldest : Nat} : oldestOf receipts = some oldest ↔
      (∃ id e, receipts.get id = some e ∧ e.recordedAtMs = oldest) ∧
        ∀ id e, receipts.get id = some e → oldest ≤ e.recordedAtMs := by
  unfold oldestOf
  rw [List.min?_eq_some_iff]
  simp only [List.mem_map, OrdMap.mem_values_iff]
  constructor
  · rintro ⟨⟨e, ⟨id, hget⟩, htime⟩, hleast⟩
    exact ⟨⟨id, e, hget, htime⟩, fun id' e' hget' => hleast _ ⟨e', ⟨id', hget'⟩, rfl⟩⟩
  · rintro ⟨⟨id, e, hget, htime⟩, hleast⟩
    refine ⟨⟨e, ⟨id, hget⟩, htime⟩, ?_⟩
    rintro _ ⟨e', ⟨id', hget'⟩, rfl⟩
    exact hleast id' e' hget'

theorem oldestOf_eq_none_iff : oldestOf receipts = none ↔ receipts = OrdMap.empty := by
  unfold oldestOf
  rw [List.min?_eq_none_iff, List.map_eq_nil_iff, OrdMap.values, List.map_eq_nil_iff]
  exact ⟨fun h => OrdMap.eq_of_entries h, fun h => by rw [h]; rfl⟩

/-- A new receipt is the oldest, or the oldest stays. -/
theorem oldestOf_insert {id : Id16} (hnew : receipts.get id = none) (e : IdempotencyEntry) :
    oldestOf (receipts.insert id e) =
      some (((oldestOf receipts).map (fun o => min o e.recordedAtMs)).getD e.recordedAtMs) := by
  rw [oldestOf_eq_some_iff]
  cases hold : oldestOf receipts with
  | none =>
    have hempty := oldestOf_eq_none_iff.mp hold
    refine ⟨⟨id, _, OrdMap.get_insert_self _ _ _, rfl⟩, fun id' e' hget' => ?_⟩
    rw [OrdMap.get_insert, hempty] at hget'
    split at hget'
    · rw [← Option.some.inj hget']
      exact le_refl _
    · simp at hget'
  | some oldest =>
    obtain ⟨⟨id₀, e₀, hget₀, htime₀⟩, hleast⟩ := oldestOf_eq_some_iff.mp hold
    simp only [Option.map_some, Option.getD_some]
    constructor
    · rcases le_total oldest e.recordedAtMs with hle | hle
      · refine ⟨id₀, e₀, ?_, by rw [htime₀, min_eq_left hle]⟩
        rw [OrdMap.get_insert_of_ne _ _ (fun hid => ?_)]
        · exact hget₀
        · rw [hid, hnew] at hget₀
          simp at hget₀
      · exact ⟨id, _, OrdMap.get_insert_self _ _ _, by rw [min_eq_right hle]⟩
    · intro id' e' hget'
      rw [OrdMap.get_insert] at hget'
      split at hget'
      · rw [← Option.some.inj hget']
        exact min_le_right _ _
      · exact (min_le_left _ _).trans (hleast id' e' hget')

theorem get_freshReceipts_iff {nowMs ttlMs : Nat} {id : Id16} {e : IdempotencyEntry} :
    (freshReceipts nowMs ttlMs receipts).get id = some e ↔
      receipts.get id = some e ∧ nowMs - e.recordedAtMs ≤ ttlMs := by
  unfold freshReceipts
  rw [OrdMap.get_retain, Option.filter_eq_some_iff]
  simp [fresh]

/-- The eviction order tells receipts apart by their ids. -/
theorem receiptOrder_key {e e' : Id16 × IdempotencyEntry}
    (h : ClusterState.receiptOrder e = ClusterState.receiptOrder e') : e.1 = e'.1 := by
  unfold ClusterState.receiptOrder at h
  simp only [EmbeddingLike.apply_eq_iff_eq, Prod.mk.injEq] at h
  exact h.2

/-- Earlier receipts sort first. -/
theorem recordedAtMs_le_of_receiptOrder_le {e e' : Id16 × IdempotencyEntry}
    (h : ClusterState.receiptOrder e ≤ ClusterState.receiptOrder e') :
    e.2.recordedAtMs ≤ e'.2.recordedAtMs := by
  unfold ClusterState.receiptOrder at h
  rcases Prod.Lex.le_iff.mp h with hlt | ⟨heq, _⟩
  · exact hlt.le
  · exact heq.le

namespace ClusterState

/-! ## Operations under a right cache -/

/-- The state with other receipts, and the cache that belongs to them. -/
def withReceipts (s : ClusterState) (receipts : OrdMap Id16 IdempotencyEntry) : ClusterState :=
  { s with idempotency := receipts, idempotencyOldestMs := oldestOf receipts }

/-- The cached least receipt time is right. -/
def CacheRight (s : ClusterState) : Prop := s.idempotencyOldestMs = oldestOf s.idempotency

variable {s : ClusterState}

theorem CacheRight.withReceipts_self (h : s.CacheRight) : s.withReceipts s.idempotency = s := by
  unfold withReceipts
  rw [← h]

theorem expireIdempotencyTtl_eq (h : s.CacheRight) : s.expireIdempotencyTtl = s.withReceipts
      (freshReceipts s.records.nowMs s.idempotencyTtlMs s.idempotency) := by
  have hkeep : ∀ oldest, oldestOf s.idempotency = some oldest →
      s.records.nowMs - oldest ≤ s.idempotencyTtlMs →
      freshReceipts s.records.nowMs s.idempotencyTtlMs s.idempotency = s.idempotency := by
    intro oldest hsome hle
    refine OrdMap.retain_of_forall (fun id e hget => ?_)
    have hleast := (oldestOf_eq_some_iff.mp hsome).2 id e hget
    simp only [fresh, decide_eq_true_eq]
    omega
  unfold expireIdempotencyTtl
  cases hcache : s.idempotencyOldestMs with
  | none =>
    have hempty : s.idempotency = OrdMap.empty := oldestOf_eq_none_iff.mp (h.symm.trans hcache)
    have hsame : freshReceipts s.records.nowMs s.idempotencyTtlMs s.idempotency =
        s.idempotency := by
      rw [hempty]
      rfl
    have hsize : s.idempotency.size = 0 := by
      rw [hempty]
      rfl
    simp only [hsize, Option.isNone_none, bne_self_eq_false, Bool.and_false, Bool.false_eq_true,
      if_false, hcache]
    rw [hsame, h.withReceipts_self]
  | some oldest =>
    simp only [Option.isNone_some, Bool.false_and, Bool.false_eq_true, if_false, hcache]
    split
    · rename_i hle
      rw [hkeep oldest (h.symm.trans hcache) hle, h.withReceipts_self]
    · rfl

theorem evictOneIdempotencyByKey_eq (h : s.CacheRight) : s.evictOneIdempotencyByKey =
      s.withReceipts (s.idempotency.evictLeast receiptOrder) := by
  unfold evictOneIdempotencyByKey OrdMap.evictLeast
  cases hmin : s.idempotency.entries.argmin receiptOrder with
  | none => exact h.withReceipts_self.symm
  | some e =>
    obtain ⟨hget, hleast⟩ := OrdMap.argmin_spec hmin
    have hcache : s.idempotencyOldestMs = some e.2.recordedAtMs := by
      rw [h]
      refine oldestOf_eq_some_iff.mpr ⟨⟨e.1, e.2, hget, rfl⟩, fun id e' hget' => ?_⟩
      exact recordedAtMs_le_of_receiptOrder_le (hleast id e' hget')
    simp only [hcache, if_true]
    rfl

theorem evictToCeiling_eq (h : s.CacheRight) (turns : Nat) : evictToCeiling turns s = s.withReceipts
      (OrdMap.evictWhile receiptOrder s.idempotencyMaxEntries turns s.idempotency) := by
  induction turns generalizing s with
  | zero => exact h.withReceipts_self.symm
  | succ turns ih =>
    unfold evictToCeiling OrdMap.evictWhile
    split
    · rename_i hfull
      rw [evictOneIdempotencyByKey_eq h]
      exact ih rfl
    · exact h.withReceipts_self.symm

variable {id : Id16}

/-- Recording a receipt trims the store and inserts into it. -/
theorem recordReceipt_eq (h : s.CacheRight) (hnew : s.idempotency.get id = none) (digest : Digest)
    (response : RaftResponse) : s.recordReceipt id digest response = s.withReceipts
      ((s.idempotency.trim receiptOrder s.idempotencyMaxEntries).insert id
        ⟨digest, response, s.records.nowMs⟩) := by
  unfold recordReceipt
  rw [evictToCeiling_eq h]
  have hgone : (s.idempotency.trim receiptOrder s.idempotencyMaxEntries).get id = none :=
    OrdMap.get_trim_eq_none hnew _
  simp only [noteIdempotencyTime, withReceipts]
  congr 1
  -- the cached time is the least of the old one and the new receipt
  exact (oldestOf_insert hgone ⟨digest, response, s.records.nowMs⟩).symm

/-! ## The invariant -/

/-- The cache is right, receipts are not from the future, and they are within a
positive ceiling. -/
structure ReceiptInv (s : ClusterState) : Prop where
  cache : s.CacheRight
  past : ∀ id e, s.idempotency.get id = some e → e.recordedAtMs ≤ s.records.nowMs
  bounded : s.idempotency.size ≤ s.idempotencyMaxEntries
  ceiling : 0 < s.idempotencyMaxEntries

theorem receiptInv_withIdempotencyLimits (maxEntries ttlMs : Nat) :
    ReceiptInv (withIdempotencyLimits maxEntries ttlMs) where
  cache := rfl
  past := fun id e hget => by simp [withIdempotencyLimits, new] at hget
  bounded := Nat.zero_le _
  ceiling := lt_of_lt_of_le Nat.zero_lt_one (le_max_right maxEntries 1)

theorem ReceiptInv.expire (h : ReceiptInv s) : ReceiptInv s.expireIdempotencyTtl := by
  rw [expireIdempotencyTtl_eq h.cache]
  refine ⟨rfl, fun id e hget => ?_, ?_, h.ceiling⟩
  · exact h.past id e (get_freshReceipts_iff.mp hget).1
  · exact (OrdMap.size_retain_le _ _).trans h.bounded

/-- The invariant depends on the receipts and on the clock, which moves forward. -/
theorem ReceiptInv.of_receipts_eq {s' : ClusterState} (h : ReceiptInv s)
    (hreceipts : s'.receipts = s.receipts) (hnow : s.records.nowMs ≤ s'.records.nowMs) :
    ReceiptInv s' := by
  have hmap : s'.idempotency = s.idempotency := congrArg ReceiptPart.idempotency hreceipts
  have hmax : s'.idempotencyMaxEntries = s.idempotencyMaxEntries :=
    congrArg ReceiptPart.idempotencyMaxEntries hreceipts
  have hcache : s'.idempotencyOldestMs = s.idempotencyOldestMs :=
    congrArg ReceiptPart.idempotencyOldestMs hreceipts
  refine ⟨?_, ?_, ?_, ?_⟩
  · unfold CacheRight
    rw [hcache, hmap]
    exact h.cache
  · intro id e hget
    rw [hmap] at hget
    exact (h.past id e hget).trans hnow
  · rw [hmap, hmax]
    exact h.bounded
  · rw [hmax]
    exact h.ceiling

theorem ReceiptInv.recordReceipt (h : ReceiptInv s) (hnew : s.idempotency.get id = none)
    (digest : Digest) (response : RaftResponse) :
    ReceiptInv (s.recordReceipt id digest response) := by
  rw [recordReceipt_eq h.cache hnew]
  refine ⟨rfl, fun id' e' hget' => ?_, ?_, h.ceiling⟩
  · simp only [withReceipts, OrdMap.get_insert] at hget'
    split at hget'
    · rw [← Option.some.inj hget']
      exact le_refl _
    · exact h.past id' e' (OrdMap.get_of_get_trim hget')
  · have hgone : (s.idempotency.trim receiptOrder s.idempotencyMaxEntries).get id = none :=
      OrdMap.get_trim_eq_none hnew _
    simp only [withReceipts, OrdMap.size_insert_of_none _ hgone]
    exact OrdMap.size_trim_lt receiptOrder s.idempotency h.ceiling

/-! ## Steps -/

/-- The eviction rank of the receipt that a command records, if it records one:
only an envelope that is answered with `Applied` does. -/
def recordedRank (cmd : RaftCommand) (response : RaftResponse) (nowMs : Nat) :
    Option (Lex (Nat × Id16)) :=
  match cmd, response with
  | .idempotent id _ _, .applied _ => some (toLex (nowMs, id))
  | _, _ => none

/-- What a command does to the receipts. -/
inductive ReceiptStep (s : ClusterState) (cmd : RaftCommand) (s' : ClusterState) :
    RaftResponse → Prop where
  | kept {response : RaftResponse} : recordedRank cmd response s'.records.nowMs = none →
      s'.idempotency = freshReceipts s'.records.nowMs s.idempotencyTtlMs
        (freshReceipts s.records.nowMs s.idempotencyTtlMs s.idempotency) →
      ReceiptStep s cmd s' response
  | recorded {id : Id16} {digest : Digest} {inner : RaftCommand} {response : RaftResponse} :
      cmd = .idempotent id digest inner →
      recordedRank cmd response s'.records.nowMs = some (toLex (s'.records.nowMs, id)) →
      (freshReceipts s.records.nowMs s.idempotencyTtlMs s.idempotency).get id = none →
      s'.idempotency = freshReceipts s'.records.nowMs s.idempotencyTtlMs
        (((freshReceipts s.records.nowMs s.idempotencyTtlMs s.idempotency).trim receiptOrder
          s.idempotencyMaxEntries).insert id ⟨digest, response, s'.records.nowMs⟩) →
      ReceiptStep s cmd s' response

/-- What holds after every command: the invariant, and unmoved limits. -/
structure ReceiptsKept (s s' : ClusterState) : Prop where
  inv : ReceiptInv s'
  maxEntries : s'.idempotencyMaxEntries = s.idempotencyMaxEntries
  ttlMs : s'.idempotencyTtlMs = s.idempotencyTtlMs

theorem ReceiptsKept.trans {s₁ s₂ s₃ : ClusterState} (h : ReceiptsKept s₁ s₂)
    (h' : ReceiptsKept s₂ s₃) : ReceiptsKept s₁ s₃ :=
  ⟨h'.inv, h'.maxEntries.trans h.maxEntries, h'.ttlMs.trans h.ttlMs⟩

theorem ReceiptInv.expire_kept (h : ReceiptInv s) : ReceiptsKept s s.expireIdempotencyTtl ∧
      s.expireIdempotencyTtl.idempotency =
        freshReceipts s.expireIdempotencyTtl.records.nowMs s.idempotencyTtlMs s.idempotency := by
  have hinv := h.expire
  rw [expireIdempotencyTtl_eq h.cache] at hinv ⊢
  exact ⟨⟨hinv, rfl, rfl⟩, rfl⟩

theorem ReceiptInv.recordReceipt_kept (h : ReceiptInv s) (hnew : s.idempotency.get id = none)
    (digest : Digest) (response : RaftResponse) :
    ReceiptsKept s (s.recordReceipt id digest response) ∧
      (s.recordReceipt id digest response).idempotency =
        (s.idempotency.trim receiptOrder s.idempotencyMaxEntries).insert id
          ⟨digest, response, (s.recordReceipt id digest response).records.nowMs⟩ := by
  have hinv := h.recordReceipt hnew digest response
  rw [recordReceipt_eq h.cache hnew] at hinv ⊢
  exact ⟨⟨hinv, rfl, rfl⟩, rfl⟩

theorem nowMs_expireIdempotencyTtl (s : ClusterState) :
    s.expireIdempotencyTtl.records.nowMs = s.records.nowMs :=
  congrArg (fun c => c.records.nowMs) s.core_expireIdempotencyTtl

/-- An expiry sweep after a command that recorded nothing. -/
theorem kept_of_idempotency_eq {s₁ : ClusterState} {cmd : RaftCommand} {response : RaftResponse}
    (h : ReceiptsKept s s₁)
    (hmap : s₁.idempotency = freshReceipts s.records.nowMs s.idempotencyTtlMs s.idempotency)
    (hnone : ∀ nowMs, recordedRank cmd response nowMs = none) :
    ReceiptsKept s s₁.expireIdempotencyTtl ∧
      ReceiptStep s cmd s₁.expireIdempotencyTtl response := by
  obtain ⟨hkept, hfresh⟩ := h.inv.expire_kept
  rw [hmap, h.ttlMs] at hfresh
  exact ⟨h.trans hkept, .kept (hnone _) hfresh⟩

section Apply

variable [Blake3]

theorem nowMs_le_applyInner (s : ClusterState) (cmd : RaftCommand) :
    s.records.nowMs ≤ (s.applyInner cmd).1.records.nowMs := by
  obtain ⟨ops, hops⟩ := (s.applyInner_effect cmd).1.recordMoves
  have hrecords : (s.applyInner cmd).1.records =
      runFrom TypedRecordMachine.step s.records ops := hops
  rw [hrecords]
  exact s.records.nowMs_le_run ops

theorem nowMs_le_apply (s : ClusterState) (cmd : RaftCommand) :
    s.records.nowMs ≤ (s.apply cmd).1.records.nowMs := by
  obtain ⟨ops, hops⟩ := (s.apply_coreStep cmd).recordMoves
  have hrecords : (s.apply cmd).1.records = runFrom TypedRecordMachine.step s.records ops := hops
  rw [hrecords]
  exact s.records.nowMs_le_run ops

theorem nowMs_le_runFrom (s : ClusterState) (cmds : List RaftCommand) :
    s.records.nowMs ≤ (runFrom apply s cmds).records.nowMs := by
  obtain ⟨ops, hops⟩ := s.records_reached cmds
  rw [hops]
  exact s.records.nowMs_le_run ops

variable {s : ClusterState}

theorem ReceiptInv.applyInner_kept (h : ReceiptInv s) (cmd : RaftCommand) :
    ReceiptsKept s (s.applyInner cmd).1 ∧ (s.applyInner cmd).1.idempotency = s.idempotency := by
  have hreceipts := (s.applyInner_effect cmd).2
  exact ⟨⟨h.of_receipts_eq hreceipts (s.nowMs_le_applyInner cmd),
    congrArg ReceiptPart.idempotencyMaxEntries hreceipts,
    congrArg ReceiptPart.idempotencyTtlMs hreceipts⟩,
    congrArg ReceiptPart.idempotency hreceipts⟩

/-- An envelope whose command was applied. -/
theorem recorded_of_applied (h : ReceiptInv s) {id : Id16} {digest : Digest} {inner : RaftCommand}
    (hnew : (freshReceipts s.records.nowMs s.idempotencyTtlMs s.idempotency).get id = none)
    (happlied : (s.expireIdempotencyTtl.applyInner inner).2.isApplied = true) :
    ReceiptsKept s ((s.expireIdempotencyTtl.applyInner inner).1.recordReceipt id digest
        (s.expireIdempotencyTtl.applyInner inner).2).expireIdempotencyTtl ∧
      ReceiptStep s (.idempotent id digest inner)
        ((s.expireIdempotencyTtl.applyInner inner).1.recordReceipt id digest
          (s.expireIdempotencyTtl.applyInner inner).2).expireIdempotencyTtl
        (s.expireIdempotencyTtl.applyInner inner).2 := by
  obtain ⟨hkept₀, hfresh₀⟩ := h.expire_kept
  rw [nowMs_expireIdempotencyTtl] at hfresh₀
  obtain ⟨hinner, hmap⟩ := hkept₀.inv.applyInner_kept inner
  rw [hfresh₀] at hmap
  have hnew₁ : (s.expireIdempotencyTtl.applyInner inner).1.idempotency.get id = none := by
    rw [hmap]
    exact hnew
  obtain ⟨hrecorded, hinserted⟩ := hinner.inv.recordReceipt_kept hnew₁ digest
    (s.expireIdempotencyTtl.applyInner inner).2
  obtain ⟨hexpired, hfinal⟩ := hrecorded.inv.expire_kept
  refine ⟨((hkept₀.trans hinner).trans hrecorded).trans hexpired, .recorded rfl ?_ hnew ?_⟩
  · cases hresponse : (s.expireIdempotencyTtl.applyInner inner).2 with
    | applied outcome => rfl
    | replay _ | rejected _ =>
      rw [hresponse] at happlied
      cases happlied
  · rw [hinserted, hrecorded.ttlMs, hinner.ttlMs, hkept₀.ttlMs, hinner.maxEntries,
      hkept₀.maxEntries, hmap] at hfinal
    rw [hfinal, nowMs_expireIdempotencyTtl]

/-- An envelope. -/
theorem enveloped_receipts {s₁ : ClusterState} (h : ReceiptInv s) {id : Id16} {digest : Digest}
    {inner : RaftCommand} {response : RaftResponse}
    (henv : Enveloped s.expireIdempotencyTtl id digest inner s₁ response) :
    ReceiptsKept s s₁.expireIdempotencyTtl ∧
      ReceiptStep s (.idempotent id digest inner) s₁.expireIdempotencyTtl response := by
  obtain ⟨hkept₀, hfresh₀⟩ := h.expire_kept
  rw [nowMs_expireIdempotencyTtl] at hfresh₀
  cases henv with
  | replayed _ _ | conflict _ _ | nested _ _ =>
    exact kept_of_idempotency_eq hkept₀ hfresh₀ (fun _ => rfl)
  | failed _ hfailed =>
    obtain ⟨hinner, hmap⟩ := hkept₀.inv.applyInner_kept inner
    rw [hfresh₀] at hmap
    refine kept_of_idempotency_eq (hkept₀.trans hinner) hmap (fun nowMs => ?_)
    cases hresponse : (s.expireIdempotencyTtl.applyInner inner).2 with
    | applied outcome =>
      rw [hresponse] at hfailed
      cases hfailed
    | replay _ | rejected _ => rfl
  | recorded hnew happlied =>
    rw [hfresh₀] at hnew
    exact recorded_of_applied h hnew happlied

/-- Every command acts on the receipts by a receipt step. -/
theorem apply_receipts (h : ReceiptInv s) (cmd : RaftCommand) :
    ReceiptsKept s (s.apply cmd).1 ∧ ReceiptStep s cmd (s.apply cmd).1 (s.apply cmd).2 := by
  cases hcmd : cmd.isIdempotent with
  | false =>
    obtain ⟨hkept₀, hfresh₀⟩ := h.expire_kept
    rw [nowMs_expireIdempotencyTtl] at hfresh₀
    obtain ⟨hinner, hmap⟩ := hkept₀.inv.applyInner_kept cmd
    rw [hfresh₀] at hmap
    rw [apply_of_not_idempotent s hcmd]
    refine kept_of_idempotency_eq (hkept₀.trans hinner) hmap (fun nowMs => ?_)
    cases cmd with
    | idempotent _ _ _ => cases hcmd
    | record | acquireController | putDesired | completeFinite => rfl
  | true =>
    cases cmd with
    | record | acquireController | putDesired | completeFinite => cases hcmd
    | idempotent id digest inner =>
      exact enveloped_receipts h (s.expireIdempotencyTtl.applyIdempotent_enveloped id digest inner)

theorem receiptInv_run (h : ReceiptInv s) (cmds : List RaftCommand) :
    ReceiptsKept s (runFrom apply s cmds) := by
  induction cmds generalizing s with
  | nil => exact ⟨h, rfl, rfl⟩
  | cons cmd rest ih =>
    have hstep := (apply_receipts h cmd).1
    exact hstep.trans (ih hstep.inv)

end Apply

end ClusterState

end Gump.Memory
