/-
  Memory/Records/Accounting.lean --- the budgets of the record machine.

  The counters of `BudgetUsage` are kept incrementally: a write returns the bytes of
  the record it replaces, in the class that record was in, and charges its own.
  `Writes` says what one mutation does to the records and the counters, and a
  command is a list of such mutations or leaves both alone.  That the counters are
  the sums over the stored records is an invariant of single writes.
-/
import Gump.Foundation.RankedStore
import Gump.Foundation.Run
import Gump.Memory.Records.Effect

set_option autoImplicit false

namespace Gump.Memory

open Gump.Foundation

namespace BudgetUsage

theorem used_add (usage : BudgetUsage) (c c' : BudgetClass) (bytes : Nat) :
    (usage.add c bytes).used c' = usage.used c' + if c = c' then bytes else 0 := by
  cases c <;> cases c' <;> simp [add, used]

theorem used_sub (usage : BudgetUsage) (c c' : BudgetClass) (bytes : Nat) :
    (usage.sub c bytes).used c' = usage.used c' - if c = c' then bytes else 0 := by
  cases c <;> cases c' <;> simp [sub, used]

theorem checkGrow_eq_ok {usage : BudgetUsage} {budgets : MemoryBudgets} {c : BudgetClass}
    {additional : Nat} (h : usage.checkGrow budgets c additional = .ok ()) :
    saturatingAdd (usage.used c) additional ≤ limit budgets c := by
  unfold checkGrow at h
  simp only at h
  split at h
  · cases h
  · rename_i hle
    exact Nat.le_of_not_lt hle

end BudgetUsage

/-- The bytes that a record counts in a class. -/
def charge (c : BudgetClass) (key : RecordKey) (value : RecordValue) : Nat :=
  if budgetClass key.keyPrefix value.leased = c then value.byteLen else 0

namespace MutateOp

/-- The record that a mutation is about. -/
def key : MutateOp → RecordKey
  | .put key _ _ _ => key
  | .delete key _ => key

end MutateOp

namespace TypedRecordMachine

/-- The payload bytes of the stored records of a class. -/
def storedBytes (m : TypedRecordMachine) (c : BudgetClass) : Nat := m.records.sumBy (charge c)

/-- The counters once the record under a key has returned its bytes. -/
def released (m : TypedRecordMachine) (key : RecordKey) : BudgetUsage :=
  match m.records.get key with
  | none => m.usage
  | some old => m.usage.sub (budgetClass key.keyPrefix old.leased) old.byteLen

section Writes

variable [Blake3]

/-! ## Single mutations -/

/-- What a mutation does to the records and the counters. -/
inductive Writes (m : TypedRecordMachine) : MutateOp → TypedRecordMachine → Prop where
  | put {key : RecordKey} {expected : Expected} {payload : List UInt8} {leased : Bool}
      {m' : TypedRecordMachine}
      (hsize : payload.length ≤ key.keyPrefix.maxPayload)
      (hgrow : saturatingAdd ((m.released key).used (budgetClass key.keyPrefix leased))
        payload.length ≤ BudgetUsage.limit m.budgets (budgetClass key.keyPrefix leased))
      (hbudgets : m'.budgets = m.budgets)
      (hrecords : m'.records =
        m.records.insert key (RecordValue.new (saturatingAdd m.revision 1) payload leased))
      (husage : m'.usage = (m.released key).add (budgetClass key.keyPrefix leased) payload.length) :
      Writes m (.put key expected payload leased) m'
  | delete {key : RecordKey} {expected : Expected} {old : RecordValue} {m' : TypedRecordMachine}
      (hold : m.records.get key = some old)
      (hbudgets : m'.budgets = m.budgets)
      (hrecords : m'.records = m.records.erase key)
      (husage : m'.usage = m.released key) :
      Writes m (.delete key expected) m'

theorem put_writes {m m' : TypedRecordMachine} {key : RecordKey} {expected : Expected}
    {payload : List UInt8} {leased : Bool} (h : m.put key expected payload leased = (m', .ok ())) :
    Writes m (.put key expected payload leased) m' := by
  unfold put at h
  split at h
  · cases h
  · simp only at h
    split at h
    · cases h
    · rename_i hvalid
      split at h
      · cases h
      · rename_i hgrow
        obtain ⟨rfl, _⟩ := Prod.mk.inj h
        refine .put ?_ (BudgetUsage.checkGrow_eq_ok hgrow) rfl rfl rfl
        unfold RecordValue.validateSize at hvalid
        split at hvalid
        · cases hvalid
        · rename_i hle
          exact Nat.le_of_not_lt hle

theorem delete_writes {m m' : TypedRecordMachine} {key : RecordKey} {expected : Expected}
    (h : m.delete key expected = (m', .ok ())) : Writes m (.delete key expected) m' := by
  unfold delete at h
  split at h
  · cases h
  · split at h
    · cases h
    · rename_i old hold
      obtain ⟨rfl, _⟩ := Prod.mk.inj h
      exact .delete hold rfl rfl (by simp only [released, hold])

variable {op : MutateOp}

theorem applyMutate_writes {m m' : TypedRecordMachine} (h : m.applyMutate op = (m', .ok ())) :
    Writes m op m' := by
  cases op with
  | put key expected payload leased => exact put_writes h
  | delete key expected => exact delete_writes h

/-! ## Commands -/

/-- A list of mutations, each done. -/
inductive WritesAll : TypedRecordMachine → List MutateOp → TypedRecordMachine → Prop where
  | nil {m : TypedRecordMachine} : WritesAll m [] m
  | cons {m m₁ m' : TypedRecordMachine} {op : MutateOp} {rest : List MutateOp}
      (hop : Writes m op m₁) (hrest : WritesAll m₁ rest m') : WritesAll m (op :: rest) m'

variable {ops : List MutateOp}

theorem applyOps_writes {m m' : TypedRecordMachine} (h : m.applyOps ops = (m', .ok ())) :
    WritesAll m ops m' := by
  induction ops generalizing m with
  | nil =>
    obtain ⟨rfl, _⟩ := Prod.mk.inj h
    exact .nil
  | cons op rest ih =>
    unfold applyOps at h
    split at h
    · cases h
    · rename_i m₁ hop
      exact .cons (applyMutate_writes hop) (ih h)

/-- Records, counters and budgets are the same. -/
structure SameStore (m m' : TypedRecordMachine) : Prop where
  records : m'.records = m.records
  usage : m'.usage = m.usage
  budgets : m'.budgets = m.budgets

omit [Blake3] in
theorem sameStore_flushPending (m : TypedRecordMachine) : SameStore m m.flushPending := by
  unfold flushPending
  split <;> exact ⟨rfl, rfl, rfl⟩

omit [Blake3] in
theorem SameStore.commitBatch {m m' : TypedRecordMachine} (h : SameStore m m') (revision : Nat)
    (changes : List WatchChange) : SameStore m (m'.commitBatch revision changes) :=
  have hflush := sameStore_flushPending
    { m' with revision := revision, pending := m'.pending ++ changes }
  ⟨hflush.records.trans h.records, hflush.usage.trans h.usage, hflush.budgets.trans h.budgets⟩

/-- A command without mutations leaves the store alone. -/
theorem Effect.sameStore {m m' : TypedRecordMachine} {cmd : Command} {ok : Bool}
    {changes : List WatchChange} (h : Effect m cmd m' ok changes)
    (hnone : cmd.mutations m = none) : SameStore m m' := by
  cases h with
  | mutated hmut hperf => exact absurd (hnone.symm.trans hmut) (by simp)
  | revoked hlease =>
    refine SameStore.commitBatch ?_ _ _
    exact ⟨rfl, rfl, rfl⟩
  | expired hle hdue =>
    refine SameStore.commitBatch ?_ _ _
    exact ⟨rfl, rfl, rfl⟩
  | _ => exact ⟨rfl, rfl, rfl⟩

/-- What a command does to the store: nothing, or its mutations one after another. -/
def StoreStep (m : TypedRecordMachine) (cmd : Command) : Prop :=
  SameStore m (m.apply cmd).1 ∨
    ∃ ops m', cmd.mutations m = some ops ∧ WritesAll m ops m' ∧
      SameStore m' (m.apply cmd).1 ∧ (m.apply cmd).2.isOk = true

theorem applySingle_storeStep {m : TypedRecordMachine} {cmd : Command}
    (happly : m.apply cmd = m.applySingle op) (hmut : cmd.mutations m = some [op]) :
    StoreStep m cmd := by
  rcases m.applyMutate_spec op with ⟨e, herr⟩ | ⟨m', hok, _⟩
  · left
    rw [happly, applySingle, herr]
    exact ⟨rfl, rfl, rfl⟩
  · refine Or.inr ⟨[op], m', hmut, .cons (applyMutate_writes hok) .nil, ?_⟩
    rw [happly, applySingle, hok]
    exact ⟨sameStore_flushPending m', rfl⟩

theorem applyTxn_storeStep (m : TypedRecordMachine) (txn : Txn) : StoreStep m (.txn txn) := by
  rcases m.applyOps_spec (m.txnOps txn) with ⟨m', e, herr, hframe⟩ | ⟨m', hok, _⟩
  · -- An error rolls the records and the counters back.
    left
    have h : m.apply (.txn txn) = (m, .error e) := by
      simp only [apply, applyTxn, herr, restore_snapshot hframe]
    rw [h]
    exact ⟨rfl, rfl, rfl⟩
  · refine Or.inr ⟨m.txnOps txn, m', rfl, applyOps_writes hok, ?_⟩
    simp only [apply, applyTxn, hok]
    exact ⟨sameStore_flushPending m', rfl⟩

theorem apply_storeStep (m : TypedRecordMachine) (cmd : Command) : StoreStep m cmd := by
  cases cmd with
  | put key expected payload leased => exact applySingle_storeStep rfl rfl
  | delete key expected => exact applySingle_storeStep rfl rfl
  | txn txn => exact m.applyTxn_storeStep txn
  | _ => exact Or.inl ((m.apply_effect _).sameStore rfl)

/-! ## The accounts -/

/-- Under the given budgets the counters are the sums over the stored records, no
payload is above the maximum of its prefix, and a counter is within its budget unless
the budget is the whole range of the counter. -/
structure Balanced (budgets : MemoryBudgets) (m : TypedRecordMachine) : Prop where
  same : m.budgets = budgets
  exact : ∀ c, m.usage.used c = m.storedBytes c
  sized : ∀ key value, m.records.get key = some value →
    value.payload.length ≤ key.keyPrefix.maxPayload
  within : ∀ c, m.usage.used c ≤ BudgetUsage.limit budgets c ∨ u64Max ≤ BudgetUsage.limit budgets c

variable {budgets : MemoryBudgets}

omit [Blake3] in
theorem Balanced.of_sameStore {m m' : TypedRecordMachine} (h : m.Balanced budgets)
    (hsame : SameStore m m') : m'.Balanced budgets where
  same := hsame.budgets.trans h.same
  exact := by
    intro c
    rw [storedBytes, hsame.usage, hsame.records]
    exact h.exact c
  sized := by
    rw [hsame.records]
    exact h.sized
  within := by
    rw [hsame.usage]
    exact h.within

omit [Blake3] in
/-- Without the record under a key the counters are the sums over the others. -/
theorem Balanced.used_released {m : TypedRecordMachine} (h : m.Balanced budgets) (key : RecordKey)
    (c : BudgetClass) : (m.released key).used c = (m.records.erase key).sumBy (charge c) := by
  unfold released
  cases hget : m.records.get key with
  | none =>
    rw [OrdMap.erase_of_get_none hget]
    exact h.exact c
  | some old =>
    have hsum := OrdMap.sumBy_erase (charge c) hget
    have hexact := h.exact c
    simp only [storedBytes] at hexact
    simp only [charge] at hsum
    simp only [BudgetUsage.used_sub, hexact]
    omega

omit [Blake3] in
theorem used_released_le (m : TypedRecordMachine) (key : RecordKey) (c : BudgetClass) :
    (m.released key).used c ≤ m.usage.used c := by
  unfold released
  cases m.records.get key with
  | none => exact le_rfl
  | some old =>
    rw [BudgetUsage.used_sub]
    exact Nat.sub_le _ _

/-- A write keeps the accounts. -/
theorem Writes.balanced {m m' : TypedRecordMachine} (hw : Writes m op m') (h : m.Balanced budgets) :
    m'.Balanced budgets := by
  cases hw with
  | @put key expected payload leased m' hsize hgrow hbudgets hrecords husage =>
    refine ⟨hbudgets.trans h.same, fun c => ?_, fun key' value hget => ?_, fun c => ?_⟩
    · have hsum := OrdMap.sumBy_insert_of_none (charge c)
        (RecordValue.new (saturatingAdd m.revision 1) payload leased)
        (OrdMap.get_erase_self m.records key)
      rw [OrdMap.insert_erase_same] at hsum
      rw [storedBytes, hrecords, hsum, husage, BudgetUsage.used_add, h.used_released key c]
      rfl
    · rw [hrecords, OrdMap.get_insert] at hget
      split at hget
      · rename_i heq
        rw [← Option.some.inj hget, heq]
        exact hsize
      · exact h.sized key' value hget
    · rw [husage, BudgetUsage.used_add]
      by_cases hc : budgetClass key.keyPrefix leased = c
      · subst hc
        rw [h.same, saturatingAdd] at hgrow
        rw [if_pos rfl]
        omega
      · -- The other counters only fell.
        rw [if_neg hc]
        exact (h.within c).imp_left (m.used_released_le key c).trans
  | @delete key expected old m' hold hbudgets hrecords husage =>
    refine ⟨hbudgets.trans h.same, fun c => ?_, fun key' value hget => ?_, fun c => ?_⟩
    · rw [storedBytes, hrecords, husage, h.used_released key c]
    · rw [hrecords] at hget
      exact h.sized key' value (OrdMap.get_of_get_erase hget)
    · rw [husage]
      exact (h.within c).imp_left (m.used_released_le key c).trans

theorem WritesAll.balanced {m m' : TypedRecordMachine} (hw : WritesAll m ops m')
    (h : m.Balanced budgets) : m'.Balanced budgets := by
  induction hw with
  | nil => exact h
  | cons hop _ ih => exact ih (hop.balanced h)

theorem apply_balanced (m : TypedRecordMachine) (cmd : Command) (h : m.Balanced budgets) :
    (m.apply cmd).1.Balanced budgets := by
  rcases m.apply_storeStep cmd with hsame | ⟨ops, m', _, hw, hsame, _⟩
  · exact h.of_sameStore hsame
  · exact (hw.balanced h).of_sameStore hsame

theorem runFrom_balanced (budgets : MemoryBudgets) (cmds : List Command) :
    (runFrom apply (new budgets) cmds).Balanced budgets := by
  refine runFrom_invariant (P := Balanced budgets) (fun m cmd h => m.apply_balanced cmd h) ?_ cmds
  refine ⟨rfl, fun c => ?_, fun key value hget => ?_, fun c => Or.inl ?_⟩
  · cases c <;> rfl
  · cases hget
  · cases c <;> exact Nat.zero_le _

/-! ## Records that stay -/

/-- A mutation touches the record that it is about and no other, and removes a
record only to delete it. -/
theorem Writes.get {m m' : TypedRecordMachine} (hw : Writes m op m') (key : RecordKey) :
    (op.key ≠ key → m'.records.get key = m.records.get key) ∧
      (m'.records.get key = none → m.records.get key = none ∨ ∃ expected,
        op = .delete key expected) := by
  cases hw with
  | @put key' expected payload leased m' hsize hgrow hbudgets hrecords husage =>
    rw [hrecords]
    refine ⟨fun hne => OrdMap.get_insert_of_ne _ _ (Ne.symm hne), fun hnone => Or.inl ?_⟩
    rw [OrdMap.get_insert] at hnone
    split at hnone
    · cases hnone
    · exact hnone
  | @delete key' expected old m' hold hbudgets hrecords husage =>
    rw [hrecords]
    refine ⟨fun hne => OrdMap.get_erase_of_ne _ (Ne.symm hne), fun hnone => ?_⟩
    by_cases heq : key' = key
    · subst heq
      exact Or.inr ⟨expected, rfl⟩
    · rw [OrdMap.get_erase_of_ne _ (Ne.symm heq)] at hnone
      exact Or.inl hnone

theorem WritesAll.get {m m' : TypedRecordMachine} (hw : WritesAll m ops m') (key : RecordKey) :
    ((∀ op ∈ ops, op.key ≠ key) → m'.records.get key = m.records.get key) ∧
      (m'.records.get key = none →
        m.records.get key = none ∨ ∃ expected, .delete key expected ∈ ops) := by
  induction hw with
  | nil => exact ⟨fun _ => rfl, fun hnone => Or.inl hnone⟩
  | @cons m m₁ m' op rest hop _ ih =>
    obtain ⟨hother, hgone⟩ := hop.get key
    refine ⟨fun hne => ?_, fun hnone => ?_⟩
    · rw [ih.1 fun op' hop' => hne op' (List.mem_cons_of_mem _ hop')]
      exact hother (hne op List.mem_cons_self)
    · rcases ih.2 hnone with hnone₁ | ⟨expected, hmem⟩
      · refine (hgone hnone₁).imp_right ?_
        rintro ⟨expected, rfl⟩
        exact ⟨expected, List.mem_cons_self⟩
      · exact Or.inr ⟨expected, List.mem_cons_of_mem _ hmem⟩

/-- A record changes only by a successful command that writes it, and disappears only
by one that deletes it. -/
def KeepsRecords (t : Transition TypedRecordMachine Command (Except ApplyError ApplyResult)) :
    Prop :=
  ∀ key,
    (t.after.records.get key ≠ t.before.records.get key →
      t.output.isOk = true ∧ ∃ ops ∈ t.input.mutations t.before, ∃ op ∈ ops, op.key = key) ∧
    (t.before.records.get key ≠ none → t.after.records.get key = none →
      ∃ ops ∈ t.input.mutations t.before, ∃ expected, .delete key expected ∈ ops)

theorem apply_keepsRecords (m : TypedRecordMachine) (cmd : Command) :
    KeepsRecords ⟨m, cmd, (m.apply cmd).2, (m.apply cmd).1⟩ := by
  intro key
  rcases m.apply_storeStep cmd with hsame | ⟨ops, m', hmut, hw, hsame, hok⟩
  · simp only [hsame.records]
    exact ⟨fun hne => absurd rfl hne, fun hsome hnone => absurd hnone hsome⟩
  · simp only [hsame.records]
    obtain ⟨hother, hgone⟩ := hw.get key
    refine ⟨fun hne => ⟨hok, ops, hmut, ?_⟩, fun hsome hnone => ⟨ops, hmut, ?_⟩⟩
    · by_contra hnone
      exact hne (hother fun op hop heq => hnone ⟨op, hop, heq⟩)
    · exact (hgone hnone).resolve_left hsome

/-- In every state that commands reach, each counter is the number of payload bytes
stored in its class and within its budget, no payload is above the maximum of its
prefix, and no record was ever removed but by a command that deletes it.  The
records of a state lie in memory, so their bytes are counted by a `u64`. -/
theorem budgets_exact (budgets : MemoryBudgets) (cmds : List Command) (m : TypedRecordMachine)
    (hm : m = runFrom apply (new budgets) cmds) (hmemory : ∀ c, m.storedBytes c ≤ u64Max) :
    (∀ c, m.usage.used c = m.storedBytes c) ∧
      (∀ c, m.usage.used c ≤ BudgetUsage.limit budgets c) ∧
      (∀ key value, m.records.get key = some value →
        value.payload.length ≤ key.keyPrefix.maxPayload) ∧
      ∀ t ∈ transitions apply (new budgets) cmds, KeepsRecords t := by
  have hbalanced : m.Balanced budgets := by
    rw [hm]
    exact runFrom_balanced budgets cmds
  refine ⟨hbalanced.exact, fun c => ?_, hbalanced.sized, fun t ht => ?_⟩
  · rcases hbalanced.within c with hle | hmax
    · exact hle
    · rw [hbalanced.exact c]
      exact (hmemory c).trans hmax
  · obtain ⟨_, _, _, _, hout, hafter⟩ := exists_split_of_mem_transitions ht
    have hstep := t.before.apply_keepsRecords t.input
    rwa [← hout, ← hafter] at hstep

end Writes

/-- A leased record is overwritten without a lease; then a transaction fails at its
second mutation. -/
def sampleOverwrite : List Command :=
  [.put ⟨.placements, "a"⟩ .absent [1] true, .put ⟨.placements, "a"⟩ .any [1] false,
    .txn ⟨[], [.put ⟨.names, "b"⟩ .any [1] false, .delete ⟨.names, "c"⟩ .any], []⟩]

/-- The overwrite moves the byte from the leased to the authoritative counter, and the
failed transaction charges nothing. -/
theorem overwrite_moves_charge :
    letI := Blake3.knownAnswers
    (runFrom apply (new MemoryBudgets.default) sampleOverwrite).usage = ⟨1, 0, 0⟩ ∧
      ∀ c, (runFrom apply (new MemoryBudgets.default) sampleOverwrite).usage.used c =
        (runFrom apply (new MemoryBudgets.default) sampleOverwrite).storedBytes c :=
  ⟨by decide +kernel, (@budgets_exact Blake3.knownAnswers MemoryBudgets.default sampleOverwrite _
    rfl fun c => by cases c <;> decide +kernel).1⟩

end TypedRecordMachine

end Gump.Memory
