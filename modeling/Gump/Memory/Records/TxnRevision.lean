/-
  Memory/Records/TxnRevision.lean --- the revision of a transaction.

  Every mutation takes a revision of its own, inside a transaction as outside of
  one: its change carries it, and so does the record that it leaves at its key.  A
  transaction of one mutation therefore commits at one new revision; one of several
  commits at as many, until the counter saturates.
-/
import Gump.Memory.Records.Accounting
import Gump.Memory.Records.ChangeFeed

set_option autoImplicit false

namespace Gump.Memory

open Gump.Foundation

/-- The revision a change carries. -/
def WatchChange.revision : WatchChange → Nat
  | .put _ revision _ => revision
  | .delete _ revision => revision
  | .leaseRevoked _ revision => revision

theorem WatchChange.revision_change [Blake3] (op : MutateOp) (revision : Nat) :
    (op.change revision).revision = revision := by
  cases op <;> rfl

/-- What a mutation at a revision leaves at its key. -/
def MutateOp.leaves [Blake3] (revision : Nat) : MutateOp → Option RecordValue
  | .put _ _ payload leased => some (RecordValue.new revision payload leased)
  | .delete _ _ => none

namespace TypedRecordMachine

/-- The revision of the mutation at place `i` among those that start from `revision`. -/
def revisionAt (revision i : Nat) : Nat := min (revision + i + 1) u64Max

theorem revisionAt_succ (revision i : Nat) :
    revisionAt (saturatingAdd revision 1) i = revisionAt revision (i + 1) := by
  simp only [revisionAt, saturatingAdd]
  omega

theorem bumpBy_eq {revision : Nat} (h : revision ≤ u64Max) (count : Nat) :
    bumpBy revision count = min (revision + count) u64Max := by
  induction count generalizing revision with
  | zero => exact (Nat.min_eq_left h).symm
  | succ n ih =>
    rw [bumpBy, ih (saturatingAdd_le revision 1), saturatingAdd]
    omega

section Revisions

variable [Blake3]

/-- The changes of some mutations, each at its revision. -/
theorem opChanges_eq (revision : Nat) (ops : List MutateOp) :
    opChanges revision ops = ops.mapIdx fun i op => op.change (revisionAt revision i) := by
  induction ops generalizing revision with
  | nil => rfl
  | cons op rest ih =>
    rw [opChanges, ih, List.mapIdx_cons]
    simp only [revisionAt_succ]
    rfl

/-- A mutation changes what is at its key, and nothing else. -/
theorem get_applyMutate {m m' : TypedRecordMachine} {op : MutateOp}
    (h : m.applyMutate op = (m', .ok ())) :
    m'.records.get op.key = op.leaves (saturatingAdd m.revision 1) ∧
      ∀ key ≠ op.key, m'.records.get key = m.records.get key := by
  cases applyMutate_writes h with
  | put hsize hgrow hbudgets hrecords husage =>
    rw [hrecords]
    exact ⟨OrdMap.get_insert_self _ _ _, fun key hne => OrdMap.get_insert_of_ne _ _ hne⟩
  | delete hwas hbudgets hrecords husage =>
    rw [hrecords]
    exact ⟨OrdMap.get_erase_self _ _, fun key hne => OrdMap.get_erase_of_ne _ hne⟩

/-- Some mutations leave at each key what the last one about it leaves, at its own
revision, and other keys alone. -/
theorem get_applyOps {m m' : TypedRecordMachine} {ops : List MutateOp}
    (h : m.applyOps ops = (m', .ok ())) :
    (∀ key, (∀ op ∈ ops, key ≠ op.key) → m'.records.get key = m.records.get key) ∧
    ∀ i op, ops[i]? = some op → (∀ later ∈ ops.drop (i + 1), op.key ≠ later.key) →
      m'.records.get op.key = op.leaves (revisionAt m.revision i) := by
  induction ops generalizing m with
  | nil =>
    obtain ⟨rfl, -⟩ := Prod.mk.inj h
    exact ⟨fun _ _ => rfl, by simp⟩
  | cons first rest ih =>
    rcases m.applyMutate_spec first with ⟨e, herr⟩ | ⟨m₁, hok, hop⟩
    · simp [applyOps, herr] at h
    · simp only [applyOps, hok] at h
      obtain ⟨hother, hlast⟩ := ih h
      refine ⟨fun key hkey => ?_, fun i op hi hlater => ?_⟩
      · obtain ⟨hfirst, hrest⟩ := List.forall_mem_cons.mp hkey
        rw [hother key hrest, (get_applyMutate hok).2 key hfirst]
      · cases i with
        | zero =>
          obtain rfl := Option.some.inj hi
          rw [hother _ hlater, (get_applyMutate hok).1]
          rfl
        | succ i =>
          rw [hlast i op hi hlater, hop.revision, revisionAt_succ]

/-- A record of the machine after some mutations was there before, or carries the
revision of one of them. -/
theorem revision_of_get_applyOps {m m' : TypedRecordMachine} {ops : List MutateOp}
    (h : m.applyOps ops = (m', .ok ())) {key : RecordKey} {v : RecordValue}
    (hv : m'.records.get key = some v) :
    m.records.get key = some v ∨ ∃ i < ops.length, v.revision = revisionAt m.revision i := by
  induction ops generalizing m with
  | nil =>
    obtain ⟨rfl, -⟩ := Prod.mk.inj h
    exact Or.inl hv
  | cons op rest ih =>
    rcases m.applyMutate_spec op with ⟨e, herr⟩ | ⟨m₁, hok, hop⟩
    · simp [applyOps, herr] at h
    · simp only [applyOps, hok] at h
      rcases ih h with hold | ⟨i, hi, hrev⟩
      · by_cases hkey : key = op.key
        · rw [hkey, (get_applyMutate hok).1] at hold
          cases op with
          | put _ _ payload leased =>
            obtain rfl := Option.some.inj hold
            exact Or.inr ⟨0, Nat.succ_pos _, rfl⟩
          | delete => cases hold
        · exact Or.inl ((get_applyMutate hok).2 key hkey ▸ hold)
      · rw [hop.revision, revisionAt_succ] at hrev
        exact Or.inr ⟨i + 1, Nat.succ_lt_succ hi, hrev⟩

/-- The transaction takes one new revision, and everything it writes and announces
carries it. -/
structure OneRevision (m : TypedRecordMachine) (txn : Txn) : Prop where
  advance : (m.applyTxn txn).1.revision = m.revision + 1
  records : ∀ key v, (m.applyTxn txn).1.records.get key = some v →
    m.records.get key = some v ∨ v.revision = m.revision + 1
  /-- The changes that the flush hands to the watches. -/
  changes : ∀ ch ∈ (m.applyOps (m.txnOps txn)).1.pending, ch.revision = m.revision + 1

/-- What a transaction that returns does: it performs its branch and flushes. -/
theorem applyTxn_of_ok {m : TypedRecordMachine} {txn : Txn} {r : ApplyResult}
    (h : (m.applyTxn txn).2 = .ok r) :
    ∃ m', m.applyOps (m.txnOps txn) = (m', .ok ()) ∧ Performed m (m.txnOps txn) m' ∧
      (m.applyTxn txn).1.revision = m'.revision ∧ (m.applyTxn txn).1.records = m'.records := by
  rcases m.applyOps_spec (m.txnOps txn) with ⟨m', e, herr, -⟩ | ⟨m', hok, hperf⟩
  · simp [applyTxn, herr] at h
  · refine ⟨m', hok, hperf, ?_, ?_⟩ <;> simp only [applyTxn, hok, flushPending_eq]

/-- A transaction with an executed mutation occupies one revision exactly when it executes
one, or the counter is about to saturate. -/
theorem oneRevision_iff {m m' : TypedRecordMachine} {txn : Txn} (hbound : m.revision ≤ u64Max)
    (hpending : m.pending = []) (hrun : m.applyOps (m.txnOps txn) = (m', .ok ()))
    (hperf : Performed m (m.txnOps txn) m') (hrev : (m.applyTxn txn).1.revision = m'.revision)
    (hrecords : (m.applyTxn txn).1.records = m'.records) (hops : m.txnOps txn ≠ []) :
    OneRevision m txn ↔ m.revision < u64Max ∧
      ((m.txnOps txn).length = 1 ∨ m.revision + 1 = u64Max) := by
  have hlen := List.length_pos_of_ne_nil hops
  have hbump := hperf.revision
  rw [bumpBy_eq hbound] at hbump
  constructor
  · intro hone
    have hadvance := hone.advance
    omega
  · rintro ⟨hbelow, hcond⟩
    have hsame : ∀ i < (m.txnOps txn).length, revisionAt m.revision i = m.revision + 1 := by
      intro i hi
      unfold revisionAt
      omega
    refine ⟨?_, fun key v hv => ?_, fun ch hch => ?_⟩
    · rw [hrev]
      omega
    · rw [hrecords] at hv
      rcases revision_of_get_applyOps hrun hv with hold | ⟨i, hi, hcarries⟩
      · exact Or.inl hold
      · exact Or.inr (hcarries.trans (hsame i hi))
    · rw [hrun, hperf.pending, hpending, List.nil_append, opChanges_eq] at hch
      obtain ⟨i, hi, rfl⟩ := List.mem_mapIdx.mp hch
      rw [WatchChange.revision_change]
      exact hsame i hi

/-- A transaction that returns takes one revision for each mutation it executes.  The
change of each mutation carries the revision of its own; so does the record that the last
mutation about a key leaves there, and other records stay as they were.  Only one mutation,
or a counter about to saturate, makes that one revision for the whole. -/
theorem txn_revision_per_operation (budgets : MemoryBudgets) (moves : List MachineOp) (txn : Txn)
    (r : ApplyResult) (hok : ((reached budgets moves).applyTxn txn).2 = .ok r) :
    let m := reached budgets moves
    let ops := m.txnOps txn
    let after := (m.applyTxn txn).1
    after.revision = min (m.revision + ops.length) u64Max ∧
      (m.applyOps ops).1.pending = ops.mapIdx (fun i op => op.change (revisionAt m.revision i)) ∧
      (∀ i op, ops[i]? = some op → (∀ later ∈ ops.drop (i + 1), op.key ≠ later.key) →
        after.records.get op.key = op.leaves (revisionAt m.revision i)) ∧
      (∀ key, (∀ op ∈ ops, key ≠ op.key) → after.records.get key = m.records.get key) ∧
      (ops ≠ [] → (OneRevision m txn ↔
        m.revision < u64Max ∧ (ops.length = 1 ∨ m.revision + 1 = u64Max))) := by
  have hbound : (reached budgets moves).revision ≤ u64Max :=
    (revision_le_run (Nat.zero_le _) moves).2
  have hpending : (reached budgets moves).pending = [] := pending_run rfl moves
  generalize reached budgets moves = m at *
  intro m ops after
  obtain ⟨m', hrun, hperf, hrev, hrecords⟩ := applyTxn_of_ok hok
  obtain ⟨hother, hlast⟩ := get_applyOps hrun
  refine ⟨?_, ?_, fun i op hi hlater => ?_, fun key hkey => ?_,
    oneRevision_iff hbound hpending hrun hperf hrev hrecords⟩
  · rw [hrev, hperf.revision, bumpBy_eq hbound]
  · rw [hrun, hperf.pending, hpending, List.nil_append, opChanges_eq]
  · rw [hrecords]
    exact hlast i op hi hlater
  · rw [hrecords]
    exact hother key hkey

end Revisions

/-- Writes two keys, or one of them twice. -/
def sampleTxn (first second : String) : Txn where
  comparisons := []
  successOps := [.put ⟨.names, first⟩ .any [1] false, .put ⟨.names, second⟩ .any [1] false]
  failureOps := []

/-- Two writes of one key on the empty machine: the second one is the record, at revision
two, and no single revision is the transaction's. -/
theorem rewritten_key_has_second_revision :
    letI := Blake3.knownAnswers
    let after := (reached MemoryBudgets.default []).applyTxn (sampleTxn "api" "api")
    after.1.revision = 2 ∧
      after.1.records.get ⟨.names, "api"⟩ = some (RecordValue.new 2 [1] false) ∧
      after.1.records.get ⟨.names, "web"⟩ = none ∧
      ¬ OneRevision (reached MemoryBudgets.default []) (sampleTxn "api" "api") := by
  let := Blake3.knownAnswers
  obtain ⟨hrevision, -, hlast, hother, hone⟩ := txn_revision_per_operation MemoryBudgets.default []
    (sampleTxn "api" "api") ⟨2, some true, none, []⟩ (by decide +kernel)
  refine ⟨hrevision, hlast 1 _ rfl (by decide +kernel), hother _ (by decide +kernel), fun h => ?_⟩
  exact absurd ((hone (by decide +kernel)).mp h) (by decide +kernel)

/-- Two writes in one transaction on the empty machine reach revision two, and the
first record keeps revision one. -/
theorem txn_two_revisions :
    letI := Blake3.knownAnswers
    let after := (reached MemoryBudgets.default []).applyTxn (sampleTxn "api" "web")
    after.2 = .ok ⟨2, some true, none, []⟩ ∧ (reached MemoryBudgets.default []).revision = 0 ∧
      after.1.revision = 2 ∧
      (after.1.records.get ⟨.names, "api"⟩).map RecordValue.revision = some 1 ∧
      (after.1.records.get ⟨.names, "web"⟩).map RecordValue.revision = some 2 := by
  decide +kernel

end TypedRecordMachine

end Gump.Memory
