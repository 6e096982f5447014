/-
  Memory/RetrySafety.lean --- when a retried envelope is answered by its receipt.

  A receipt within its lifetime is lost only to the ceiling.  Eviction follows
  the order (time, operation id), so among receipts recorded at one committed time
  it is the id that decides, not the order of recording: a receipt with a small id
  can be the first to go although it was recorded last.  The results below give the
  exact condition under which a receipt is still there for a retry.
-/
import Gump.Memory.Receipts

set_option autoImplicit false

namespace Gump.Memory

open Gump.Foundation

namespace ClusterState

/-! ## The receipt of one operation -/

/-- The receipt under `id` is `entry`. -/
def Holds (s : ClusterState) (id : Id16) (entry : IdempotencyEntry) : Prop :=
  s.idempotency.get id = some entry

/-- How many receipts sort above that of `id` recorded at `nowMs`. -/
def receiptsAbove (s : ClusterState) (nowMs : Nat) (id : Id16) : Nat :=
  s.idempotency.above receiptOrder (toLex (nowMs, id))

/-- No receipt answers the operation. -/
def Forgotten (s : ClusterState) (id : Id16) (digest : Digest) : Prop :=
  ∀ e, s.idempotency.get id = some e → e.requestDigest ≠ digest

variable {id : Id16}

/-- Receipts that sort above one within its lifetime are within theirs. -/
theorem above_freshReceipts {receipts : OrdMap Id16 IdempotencyEntry} {nowMs ttlMs : Nat}
    {entry : IdempotencyEntry} (hfresh : nowMs - entry.recordedAtMs ≤ ttlMs) :
    (freshReceipts nowMs ttlMs receipts).above receiptOrder (receiptOrder (id, entry)) =
      receipts.above receiptOrder (receiptOrder (id, entry)) := by
  refine OrdMap.above_retain (fun id' e' _ hlt => ?_)
  have hle := recordedAtMs_le_of_receiptOrder_le hlt.le
  simp only at hle
  simp only [fresh, decide_eq_true_eq]
  omega

/-- What a step does to a receipt that stays within its lifetime: a step that
records nothing keeps it, and one that records keeps it exactly if it and the
receipts above it leave room. -/
theorem ReceiptStep.holds {s s' : ClusterState} {cmd : RaftCommand} {response : RaftResponse}
    (h : ReceiptStep s cmd s' response) (hinv : ReceiptInv s) {entry : IdempotencyEntry}
    (hholds : s.Holds id entry) (hnow : s.records.nowMs ≤ s'.records.nowMs)
    (hclock : s'.records.nowMs - entry.recordedAtMs ≤ s.idempotencyTtlMs) :
    (recordedRank cmd response s'.records.nowMs = none ∧ s'.Holds id entry ∧
        s'.receiptsAbove entry.recordedAtMs id = s.receiptsAbove entry.recordedAtMs id) ∨
      ∃ rank, recordedRank cmd response s'.records.nowMs = some rank ∧
        (∀ digest inner, cmd ≠ .idempotent id digest inner) ∧
        (s'.Holds id entry ↔ s.receiptsAbove entry.recordedAtMs id + 1 < s.idempotencyMaxEntries) ∧
        (s'.Holds id entry → s'.receiptsAbove entry.recordedAtMs id =
          s.receiptsAbove entry.recordedAtMs id +
            if toLex (entry.recordedAtMs, id) < rank then 1 else 0) ∧
        (¬ s'.Holds id entry → s'.idempotency.get id = none) := by
  have hclock₀ : s.records.nowMs - entry.recordedAtMs ≤ s.idempotencyTtlMs := by omega
  have hfresh : (freshReceipts s.records.nowMs s.idempotencyTtlMs s.idempotency).get id =
      some entry := get_freshReceipts_iff.mpr ⟨hholds, hclock₀⟩
  have habove₀ : (freshReceipts s.records.nowMs s.idempotencyTtlMs s.idempotency).above
      receiptOrder (receiptOrder (id, entry)) =
        s.idempotency.above receiptOrder (receiptOrder (id, entry)) :=
    above_freshReceipts hclock₀
  cases h with
  | kept hnone hmap =>
    refine Or.inl ⟨hnone, ?_, ?_⟩
    · unfold Holds
      rw [hmap]
      exact get_freshReceipts_iff.mpr ⟨hfresh, hclock⟩
    · unfold receiptsAbove
      rw [hmap]
      exact (above_freshReceipts hclock).trans habove₀
  | @recorded id' digest inner response hcmd hrank hnew hmap =>
    have hne : id ≠ id' := by
      intro heq
      rw [heq, hnew] at hfresh
      simp at hfresh
    -- the map with the new receipt in it, before the last expiry
    generalize hstored : ((freshReceipts s.records.nowMs s.idempotencyTtlMs
      s.idempotency).trim receiptOrder s.idempotencyMaxEntries).insert id'
        ⟨digest, response, s'.records.nowMs⟩ = stored at hmap
    have hholds' : s'.Holds id entry ↔ stored.get id = some entry := by
      unfold Holds
      rw [hmap, get_freshReceipts_iff]
      exact and_iff_left hclock
    refine Or.inr ⟨_, hrank, ?_, ?_, ?_, ?_⟩
    · intro digest' inner' heq
      rw [hcmd] at heq
      injection heq with hid
      exact hne hid.symm
    · rw [hholds', ← hstored, OrdMap.get_insert_trim_iff (fun _ _ => receiptOrder_key)
        hinv.ceiling _ hne hfresh, habove₀]
      rfl
    · intro hstays
      have hin := hholds'.mp hstays
      unfold receiptsAbove
      rw [hmap]
      refine (above_freshReceipts hclock).trans ?_
      rw [← hstored] at hin ⊢
      rw [OrdMap.above_insert_trim hne hnew hin, habove₀]
      rfl
    · intro hlost
      cases hget : s'.idempotency.get id with
      | none => rfl
      | some e =>
        -- whatever is left under the id is the receipt itself
        have hin := hget
        rw [hmap, ← hstored] at hin
        have hold := OrdMap.get_of_get_insert_trim hne (get_freshReceipts_iff.mp hin).1
        rw [hfresh] at hold
        rw [← Option.some.inj hold] at hget
        exact absurd hget hlost

/-- An operation without a receipt stays without one until it is submitted. -/
theorem ReceiptStep.forgotten {s s' : ClusterState} {cmd : RaftCommand} {response : RaftResponse}
    (h : ReceiptStep s cmd s' response) {digest : Digest} (hforgot : s.Forgotten id digest)
    (hcmd : ∀ inner, cmd ≠ .idempotent id digest inner) : s'.Forgotten id digest := by
  intro e hget
  cases h with
  | kept _ hmap =>
    rw [hmap] at hget
    exact hforgot e (get_freshReceipts_iff.mp (get_freshReceipts_iff.mp hget).1).1
  | @recorded id' digest' inner response hsubmitted _ _ hmap =>
    rw [hmap] at hget
    have hinserted := (get_freshReceipts_iff.mp hget).1
    rw [OrdMap.get_insert] at hinserted
    split at hinserted
    · rename_i hid
      rw [← Option.some.inj hinserted]
      intro hdigest
      simp only at hdigest
      exact hcmd inner (by rw [hsubmitted, hid, hdigest])
    · exact hforgot e (get_freshReceipts_iff.mp (OrdMap.get_of_get_trim hinserted)).1

/-! ## Answers -/

section Answers

variable [Blake3]

/-- A held receipt within its lifetime answers its operation, without effect. -/
theorem apply_of_holds {s : ClusterState} (hinv : ReceiptInv s) {id : Id16}
    {entry : IdempotencyEntry} (hholds : s.Holds id entry)
    (hclock : s.records.nowMs - entry.recordedAtMs ≤ s.idempotencyTtlMs) (inner : RaftCommand) :
    (s.apply (.idempotent id entry.requestDigest inner)).2 = .replay entry.response ∧
      (s.apply (.idempotent id entry.requestDigest inner)).1.core = s.core := by
  have hget : s.expireIdempotencyTtl.idempotency.get id = some entry := by
    rw [expireIdempotencyTtl_eq hinv.cache]
    exact get_freshReceipts_iff.mpr ⟨hholds, hclock⟩
  have hdone : s.expireIdempotencyTtl.applyIdempotent id entry.requestDigest inner =
      (s.expireIdempotencyTtl, .replay entry.response) := by
    simp only [applyIdempotent, hget, if_true]
  simp only [apply, hdone, core_expireIdempotencyTtl, and_self]

/-- An operation without a receipt is not answered by one. -/
theorem apply_of_forgotten {s : ClusterState} (hinv : ReceiptInv s) {id : Id16}
    {digest : Digest} (hforgot : s.Forgotten id digest) (inner : RaftCommand)
    (prior : RaftResponse) : (s.apply (.idempotent id digest inner)).2 ≠ .replay prior := by
  intro hreplay
  have henv := s.expireIdempotencyTtl.applyIdempotent_enveloped id digest inner
  change (s.expireIdempotencyTtl.applyIdempotent id digest inner).2 = .replay prior at hreplay
  generalize (s.expireIdempotencyTtl.applyIdempotent id digest inner).1 = s₁ at henv
  rw [hreplay] at henv
  have hrun : ∀ c c' : ClusterCore, ∀ cmd : RaftCommand,
      ¬ InnerEffect c cmd c' (.replay prior) := by
    intro c c' cmd heff
    cases heff
  have heff := (s.expireIdempotencyTtl.applyInner_effect inner).1
  generalize hresponse : (RaftResponse.replay prior) = response at henv
  cases henv with
  | replayed hget hdigest =>
    rw [expireIdempotencyTtl_eq hinv.cache] at hget
    exact hforgot _ (get_freshReceipts_iff.mp hget).1 hdigest
  | conflict _ _ => cases hresponse
  | nested _ _ => cases hresponse
  | recorded _ _ =>
    rw [← hresponse] at heff
    exact hrun _ _ _ heff
  | failed _ _ =>
    rw [← hresponse] at heff
    exact hrun _ _ _ heff

end Answers

/-! ## Runs -/

/-- The eviction ranks of the receipts recorded along a run, in order. -/
def recordedRanks (ts : List ClusterTransition) : List (Lex (Nat × Id16)) :=
  ts.filterMap (fun t => recordedRank t.input t.output t.after.records.nowMs)

/-- Every submission of the operation along a run, whatever command it carries, is
answered with the recorded outcome and leaves the core as it was. -/
def Replays (id : Id16) (digest : Digest) (outcome : ApplyOutcome)
    (ts : List ClusterTransition) : Prop :=
  ∀ t ∈ ts, ∀ inner, t.input = .idempotent id digest inner →
    t.output = .replay (.applied outcome) ∧ t.after.core = t.before.core

theorem replays_cons {digest : Digest} {outcome : ApplyOutcome} {t : ClusterTransition}
    {ts : List ClusterTransition} : Replays id digest outcome (t :: ts) ↔
      (∀ inner, t.input = .idempotent id digest inner →
        t.output = .replay (.applied outcome) ∧ t.after.core = t.before.core) ∧
      Replays id digest outcome ts :=
  List.forall_mem_cons

theorem recordedRanks_cons (t : ClusterTransition) (ts : List ClusterTransition) :
    recordedRanks (t :: ts) =
      (recordedRank t.input t.output t.after.records.nowMs).toList ++ recordedRanks ts := by
  unfold recordedRanks
  rw [List.filterMap_cons]
  cases recordedRank t.input t.output t.after.records.nowMs <;> rfl

/-- Each recorded receipt finds room for the receipt of rank `rank` and for those
above it, of which there are `count` at first. -/
def RoomLeft (ceiling : Nat) (rank : Lex (Nat × Id16)) :
    Nat → List (Lex (Nat × Id16)) → Prop
  | _, [] => True
  | count, next :: rest =>
    count + 1 < ceiling ∧ RoomLeft ceiling rank (count + if rank < next then 1 else 0) rest

/-- Room is left throughout exactly if it is left for the last receipt. -/
theorem roomLeft_iff {ceiling count : Nat} {rank : Lex (Nat × Id16)}
    {recs : List (Lex (Nat × Id16))} :
    RoomLeft ceiling rank count recs ↔
      recs = [] ∨ count + 1 + recs.dropLast.countP (fun r => decide (rank < r)) < ceiling := by
  induction recs generalizing count with
  | nil => simp [RoomLeft]
  | cons next rest ih =>
    cases rest with
    | nil => simp [RoomLeft]
    | cons after rest =>
      rw [RoomLeft, ih]
      simp only [reduceCtorEq, false_or, List.dropLast_cons_cons, List.countP_cons,
        decide_eq_true_eq]
      omega

section Runs

variable [Blake3]

variable {s : ClusterState} {id : Id16}

theorem Replays.not_of_forgotten (hinv : ReceiptInv s) {digest : Digest}
    (hforgot : s.Forgotten id digest) (outcome : ApplyOutcome) (later : List RaftCommand)
    (inner : RaftCommand) : ¬ Replays id digest outcome
      (transitions apply s (later ++ [.idempotent id digest inner])) := by
  induction later generalizing s with
  | nil =>
    intro h
    exact apply_of_forgotten hinv hforgot inner _ (h _ List.mem_cons_self inner rfl).1
  | cons cmd rest ih =>
    intro h
    by_cases hcmd : ∃ inner', cmd = .idempotent id digest inner'
    · obtain ⟨inner', hsubmitted⟩ := hcmd
      have hreplay := (h _ List.mem_cons_self inner' hsubmitted).1
      change (s.apply cmd).2 = _ at hreplay
      rw [hsubmitted] at hreplay
      exact apply_of_forgotten hinv hforgot inner' _ hreplay
    · obtain ⟨hkept, hstep⟩ := apply_receipts hinv cmd
      have hforgot' := hstep.forgotten hforgot (fun inner' heq => hcmd ⟨inner', heq⟩)
      exact ih hkept.inv hforgot' (fun t ht => h t (List.mem_cons_of_mem _ ht))

/-- From a state that holds the receipt, all retries of a run are answered exactly
if every receipt recorded before the last retry finds room. -/
theorem replays_iff_roomLeft (hinv : ReceiptInv s) {entry : IdempotencyEntry}
    {outcome : ApplyOutcome} (hresponse : entry.response = .applied outcome)
    (hholds : s.Holds id entry) (later : List RaftCommand) (inner : RaftCommand)
    (hclock : (runFrom apply s later).records.nowMs - entry.recordedAtMs ≤
      s.idempotencyTtlMs) : Replays id entry.requestDigest outcome
        (transitions apply s (later ++ [.idempotent id entry.requestDigest inner])) ↔
      RoomLeft s.idempotencyMaxEntries (toLex (entry.recordedAtMs, id))
        (s.receiptsAbove entry.recordedAtMs id)
        (recordedRanks (transitions apply s later)) := by
  induction later generalizing s with
  | nil =>
    refine ⟨fun _ => trivial, fun _ t ht inner' hinput => ?_⟩
    simp only [List.nil_append, transitions_cons, transitions_nil, List.mem_singleton] at ht
    subst ht
    obtain ⟨hanswer, hcore⟩ := apply_of_holds hinv hholds hclock inner
    rw [hresponse] at hanswer
    exact ⟨hanswer, hcore⟩
  | cons cmd rest ih =>
    obtain ⟨hkept, hstep⟩ := apply_receipts hinv cmd
    have hnow := s.nowMs_le_apply cmd
    have hlater := (s.apply cmd).1.nowMs_le_runFrom rest
    rw [runFrom_cons] at hclock
    have hclock' : (s.apply cmd).1.records.nowMs - entry.recordedAtMs ≤
        s.idempotencyTtlMs := by omega
    have hrest : (s.apply cmd).1.Holds id entry →
        (Replays id entry.requestDigest outcome (transitions apply (s.apply cmd).1
            (rest ++ [.idempotent id entry.requestDigest inner])) ↔
          RoomLeft s.idempotencyMaxEntries (toLex (entry.recordedAtMs, id))
            ((s.apply cmd).1.receiptsAbove entry.recordedAtMs id)
            (recordedRanks (transitions apply (s.apply cmd).1 rest))) := by
      intro hstays
      have hih := ih hkept.inv hstays (by rw [hkept.ttlMs]; exact hclock)
      rw [hkept.maxEntries] at hih
      exact hih
    rw [List.cons_append, transitions_cons, replays_cons, transitions_cons, recordedRanks_cons]
    rcases hstep.holds hinv hholds hnow hclock' with
      ⟨hnone, hstays, habove⟩ | ⟨rank, hsome, hother, hiff, habove, hlost⟩
    · -- nothing was recorded; a retry is answered by the receipt
      rw [hnone, Option.toList_none, List.nil_append, ← habove, ← hrest hstays]
      refine and_iff_right (fun inner' hsubmitted => ?_)
      have hclock₀ : s.records.nowMs - entry.recordedAtMs ≤ s.idempotencyTtlMs := by omega
      obtain ⟨hanswer, hcore⟩ := apply_of_holds hinv hholds hclock₀ inner'
      change (s.apply cmd).2 = _ ∧ (s.apply cmd).1.core = s.core
      rw [show cmd = _ from hsubmitted, hanswer, hresponse]
      exact ⟨rfl, hcore⟩
    · -- another receipt was recorded; the receipt is still there if there is room
      rw [hsome, Option.toList_some, List.singleton_append, RoomLeft, ← hiff,
        and_iff_right (fun inner' hsubmitted => absurd hsubmitted (hother _ inner'))]
      by_cases hstays : (s.apply cmd).1.Holds id entry
      · rw [and_iff_right hstays, hrest hstays, habove hstays]
      · have hforgot : (s.apply cmd).1.Forgotten id entry.requestDigest := by
          intro e hget
          rw [hlost hstays] at hget
          simp at hget
        simp only [hstays, false_and, iff_false]
        exact Replays.not_of_forgotten hkept.inv hforgot outcome rest inner

/-- The receipt that an applied envelope leaves behind. -/
theorem holds_of_applied (hinv : ReceiptInv s) {digest : Digest} {inner : RaftCommand}
    {outcome : ApplyOutcome}
    (happlied : (s.apply (.idempotent id digest inner)).2 = .applied outcome) :
    (s.apply (.idempotent id digest inner)).1.Holds id
      ⟨digest, .applied outcome, (s.apply (.idempotent id digest inner)).1.records.nowMs⟩ := by
  have hstep := (apply_receipts hinv (.idempotent id digest inner)).2
  rw [happlied] at hstep
  generalize hcmd : RaftCommand.idempotent id digest inner = cmd at hstep
  cases hstep with
  | kept hnone _ =>
    rw [← hcmd] at hnone
    simp [recordedRank] at hnone
  | @recorded id' digest' inner' _ hsubmitted _ _ hmap =>
    rw [← hcmd] at hsubmitted
    injection hsubmitted with hid hdigest _
    unfold Holds
    rw [hmap, get_freshReceipts_iff, hid, hdigest]
    exact ⟨OrdMap.get_insert_self _ _ _, by simp⟩

/-- **Retry safety, exactly.**  An envelope was applied and its receipt recorded.
As long as the committed clock is within the receipt lifetime, every retry of the
operation is answered by the receipt, without effect, if and only if no receipt
was recorded since, or the last one recorded found room beside the operation's own
receipt, the receipts retained at its recording that sort above it, and the
receipts recorded since that sort above it. -/
theorem replays_iff_receipt_retained (maxEntries ttlMs : Nat) (before later : List RaftCommand)
    (id : Id16) (digest : Digest) (inner : RaftCommand) (outcome : ApplyOutcome)
    (happlied : ((runFrom apply (withIdempotencyLimits maxEntries ttlMs) before).apply
      (.idempotent id digest inner)).2 = .applied outcome)
    (hclock : (runFrom apply (withIdempotencyLimits maxEntries ttlMs)
        (before ++ .idempotent id digest inner :: later)).records.nowMs -
      (runFrom apply (withIdempotencyLimits maxEntries ttlMs)
        (before ++ [.idempotent id digest inner])).records.nowMs ≤ ttlMs) :
    let recorded := runFrom apply (withIdempotencyLimits maxEntries ttlMs)
      (before ++ [.idempotent id digest inner])
    let since := recordedRanks (transitions apply recorded later)
    Replays id digest outcome
        (transitions apply recorded (later ++ [.idempotent id digest inner])) ↔
      since = [] ∨
        recorded.receiptsAbove recorded.records.nowMs id + 1 +
          since.dropLast.countP (fun rank => decide (toLex (recorded.records.nowMs, id) < rank)) <
          max maxEntries 1 := by
  intro recorded since
  have hstart := receiptInv_withIdempotencyLimits maxEntries ttlMs
  have hkept := receiptInv_run hstart before
  have hrecorded : recorded = ((runFrom apply (withIdempotencyLimits maxEntries ttlMs)
      before).apply (.idempotent id digest inner)).1 := runFrom_concat _ _ _ _
  have hkept₁ : ReceiptsKept (withIdempotencyLimits maxEntries ttlMs) recorded :=
    receiptInv_run hstart _
  have hholds := holds_of_applied hkept.inv happlied
  rw [← hrecorded] at hholds
  have hrun : runFrom apply (withIdempotencyLimits maxEntries ttlMs)
      (before ++ .idempotent id digest inner :: later) = runFrom apply recorded later := by
    rw [List.append_cons, runFrom_append]
  rw [hrun] at hclock
  have hresponse : (IdempotencyEntry.mk digest (.applied outcome) recorded.records.nowMs).response =
      .applied outcome := rfl
  have hiff := replays_iff_roomLeft hkept₁.inv hresponse hholds later inner
    (by rw [hkept₁.ttlMs]; exact hclock)
  rw [hkept₁.maxEntries, roomLeft_iff] at hiff
  exact hiff

end Runs

/-- An envelope applied to an empty state and retried after one other operation,
whose receipt finds room. -/
theorem retry_after_one_other_replays :
    letI := Blake3.knownAnswers
    let digest : Digest := Octets.fill 32 7
    let tick : RaftCommand := .record (.advanceTime 0)
    let retried : RaftCommand :=
      .idempotent (Octets.fill 16 1) digest (.record (.put ⟨.names, "api"⟩ .any [1] false))
    let recorded := runFrom apply (withIdempotencyLimits 2 1000) [retried]
    Replays (Octets.fill 16 1) digest ⟨1, none, none, [], none, none⟩
      (transitions apply recorded ([.idempotent (Octets.fill 16 8) digest tick] ++ [retried])) :=
  letI := Blake3.knownAnswers
  (replays_iff_receipt_retained 2 1000 []
    [.idempotent (Octets.fill 16 8) (Octets.fill 32 7) (.record (.advanceTime 0))]
    (Octets.fill 16 1) (Octets.fill 32 7) (.record (.put ⟨.names, "api"⟩ .any [1] false))
    ⟨1, none, none, [], none, none⟩ (by decide) (by decide)).mpr (by decide)

/-- Under a ceiling of two, operations 9, 1 and 8 arrive at one committed time.
Recording 8 evicts the receipt of 1, the one recorded before it, because 1 sorts
below 9; the retry of 1 then writes its record a second time, at revision 2. -/
theorem tied_receipts_apply_twice :
    letI := Blake3.knownAnswers
    let digest : Digest := Octets.fill 32 7
    let tick : RaftCommand := .record (.advanceTime 0)
    let retried : RaftCommand :=
      .idempotent (Octets.fill 16 1) digest (.record (.put ⟨.names, "api"⟩ .any [1] false))
    outputs apply (withIdempotencyLimits 2 1000)
        [.idempotent (Octets.fill 16 9) digest tick, retried,
          .idempotent (Octets.fill 16 8) digest tick, retried] =
      [.applied ⟨0, none, none, [], none, none⟩, .applied ⟨1, none, none, [], none, none⟩,
        .applied ⟨1, none, none, [], none, none⟩, .applied ⟨2, none, none, [], none, none⟩] := by
  decide

end ClusterState

end Gump.Memory
