/-
  Memory/Records/Machine.lean --- the typed record state machine
  (`records/command.rs`, `records/machine.rs`).

  Methods on `&mut self` return the state they leave behind together with their
  result, on the error paths too: whether a failed command leaves the state as it
  was is a theorem about these definitions, not a property of their types.
-/
import Gump.Memory.Records.Lease
import Gump.Memory.Records.Watch

set_option autoImplicit false

namespace Gump.Memory

open Gump.Foundation

/-! ## Commands -/

/-- Compare precondition for `Put`, `Delete` and `Txn`. -/
inductive Expected where
  /-- Key must not exist. -/
  | absent
  /-- Key must exist at exactly this revision. -/
  | exactRevision (revision : Nat)
  /-- Key must exist with this digest. -/
  | exactDigest (digest : Digest)
  /-- No precondition. -/
  | any
  deriving DecidableEq, Repr

/-- The precondition as `Debug` prints it. -/
def Expected.debug : Expected → String
  | .absent => "Absent"
  | .exactRevision revision => s!"ExactRevision({revision})"
  | .exactDigest digest =>
    let items := ", ".intercalate (digest.bytes.map (fun b => toString b.toNat))
    s!"ExactDigest([{items}])"
  | .any => "Any"

/-- One mutation of a record. -/
inductive MutateOp where
  | put (key : RecordKey) (expected : Expected) (payload : List UInt8) (leased : Bool)
  | delete (key : RecordKey) (expected : Expected)
  deriving DecidableEq, Repr

/-- One comparison of a transaction. -/
structure Comparison where
  key : RecordKey
  expected : Expected
  deriving DecidableEq, Repr

/-- Multi-key transaction. -/
structure Txn where
  comparisons : List Comparison
  successOps : List MutateOp
  failureOps : List MutateOp
  deriving DecidableEq, Repr

/-- State-machine commands. -/
inductive Command where
  | put (key : RecordKey) (expected : Expected) (payload : List UInt8) (leased : Bool)
  | delete (key : RecordKey) (expected : Expected)
  | txn (txn : Txn)
  /-- Raise watch compaction floor through `through` (inclusive). -/
  | compact (through : Nat)
  | leaseGrant (purpose : LeasePurpose) (nowMs : Nat)
  | leaseRenew (leaseId nowMs : Nat)
  | leaseRevoke (leaseId : Nat)
  /-- Advance the committed monotonic clock (leader tick). -/
  | advanceTime (nowMs : Nat)
  /-- Advance committed time (if needed) and revoke leases due at `nowMs`. -/
  | expireLeases (nowMs : Nat)
  deriving DecidableEq, Repr

/-- Why a command failed. -/
inductive ApplyError where
  | key (e : KeyError)
  | value (e : ValueError)
  | budget (e : BudgetError)
  | lease (e : LeaseError)
  | preconditionFailed (key : RecordKey) (expected : Expected)
  | notFound (key : RecordKey)
  /-- Committed time must be monotonic. -/
  | timeWentBackward (current presented : Nat)
  deriving DecidableEq, Repr

/-- The text of an apply error. -/
def ApplyError.display : ApplyError → String
  | .key e => e.display
  | .value e => e.display
  | .budget e => e.display
  | .lease e => e.display
  | .preconditionFailed recordKey expected =>
    let path := recordKey.display
    let want := expected.debug
    s!"precondition failed for {path}: {want}"
  | .notFound recordKey =>
    let path := recordKey.display
    s!"key not found: {path}"
  | .timeWentBackward current presented =>
    s!"committed time went backward: current={current} presented={presented}"

/-- The answer to a command that succeeded. -/
structure ApplyResult where
  revision : Nat
  txnSucceeded : Option Bool
  lease : Option Lease
  expiredLeaseIds : List Nat
  deriving DecidableEq, Repr

/-! ## The machine -/

/-- The typed record state machine. -/
structure TypedRecordMachine where
  revision : Nat
  records : OrdMap RecordKey RecordValue
  budgets : MemoryBudgets
  usage : BudgetUsage
  /-- Committed monotonic clock (ms) for leases and watch age. -/
  nowMs : Nat
  watch : WatchHistory
  leases : LeaseTable
  /-- Pending changes for the current revision batch. -/
  pending : List WatchChange
  deriving DecidableEq

/-- What a transaction saves before it runs. -/
structure MachineSnap where
  revision : Nat
  records : OrdMap RecordKey RecordValue
  usage : BudgetUsage
  watch : WatchHistory
  leases : LeaseTable
  pending : List WatchChange

namespace TypedRecordMachine

/-- The empty machine under given budgets. -/
def new (budgets : MemoryBudgets) : TypedRecordMachine :=
  { revision := 0
    records := OrdMap.empty
    budgets := budgets
    usage := BudgetUsage.zero
    nowMs := 0
    watch := WatchHistory.empty
    leases := LeaseTable.empty
    pending := [] }

/-- The empty machine under the initial budgets. -/
def withDefaults : TypedRecordMachine := new MemoryBudgets.default

/-- Commit a leader-stamped monotonic time.  Rejects backward movement; equal
time is a no-op success. -/
def commitTime (m : TypedRecordMachine) (nowMs : Nat) :
    TypedRecordMachine × Except ApplyError Unit :=
  if nowMs < m.nowMs then (m, .error (.timeWentBackward m.nowMs nowMs))
  else if nowMs > m.nowMs then
    ({ m with nowMs := nowMs, watch := m.watch.retain nowMs m.budgets.historyBytes }, .ok ())
  else (m, .ok ())

/-- The compaction floor of the watch history. -/
def compactionFloor (m : TypedRecordMachine) : Nat := m.watch.floor

/-- Order non-record authority mutations with the typed revision counter. -/
def bumpRevision (m : TypedRecordMachine) : TypedRecordMachine :=
  { m with revision := saturatingAdd m.revision 1 }

/-- Watches start strictly after `after`; lagging watchers get `Compacted`. -/
def watchAfter (m : TypedRecordMachine) (after : Nat) : Except Compacted (List WatchBatch) :=
  m.watch.watchAfter after

/-- Whether the record under `key` meets a precondition. -/
def meets (m : TypedRecordMachine) (key : RecordKey) : Expected → Bool
  | .any => true
  | .absent => (m.records.get key).isNone
  | .exactRevision revision => ((m.records.get key).map (·.revision == revision)).getD false
  | .exactDigest digest => ((m.records.get key).map (·.digest == digest)).getD false

/-- Check a precondition. -/
def checkExpected (m : TypedRecordMachine) (key : RecordKey) (expected : Expected) :
    Except ApplyError Unit :=
  if m.meets key expected then .ok () else .error (.preconditionFailed key expected)

/-- Write one record. -/
def put [Blake3] (m : TypedRecordMachine) (key : RecordKey) (expected : Expected)
    (payload : List UInt8) (leased : Bool) : TypedRecordMachine × Except ApplyError Unit :=
  match m.checkExpected key expected with
  | .error e => (m, .error e)
  | .ok () =>
    let value := RecordValue.new (saturatingAdd m.revision 1) payload leased
    match value.validateSize key.keyPrefix with
    | .error e => (m, .error (.value e))
    | .ok () =>
      let newClass := budgetClass key.keyPrefix leased
      -- the bytes of a replaced record are returned before the growth is checked
      let released := match m.records.get key with
        | none => m.usage
        | some old => m.usage.sub (budgetClass key.keyPrefix old.leased) old.byteLen
      match released.checkGrow m.budgets newClass value.byteLen with
      | .error e => (m, .error (.budget e))
      | .ok () =>
        ({ m with
           usage := released.add newClass value.byteLen
           revision := value.revision
           pending := m.pending ++ [.put key value.revision value.digest]
           records := m.records.insert key value }, .ok ())

/-- Delete one record. -/
def delete (m : TypedRecordMachine) (key : RecordKey) (expected : Expected) :
    TypedRecordMachine × Except ApplyError Unit :=
  match m.checkExpected key expected with
  | .error e => (m, .error e)
  | .ok () =>
    match m.records.get key with
    | none => (m, .error (.notFound key))
    | some old =>
      let revision := saturatingAdd m.revision 1
      ({ m with
         records := m.records.erase key
         usage := m.usage.sub (budgetClass key.keyPrefix old.leased) old.byteLen
         revision := revision
         pending := m.pending ++ [.delete key revision] }, .ok ())

/-- Run one mutation. -/
def applyMutate [Blake3] (m : TypedRecordMachine) :
    MutateOp → TypedRecordMachine × Except ApplyError Unit
  | .put key expected payload leased => m.put key expected payload leased
  | .delete key expected => m.delete key expected

/-- Hand the pending changes to the watch history as one batch. -/
def flushPending (m : TypedRecordMachine) : TypedRecordMachine :=
  if m.pending.isEmpty then m
  else
    { m with
      pending := []
      watch := m.watch.push
        { revision := m.revision, atMs := m.nowMs, changes := m.pending }
        m.nowMs m.budgets.historyBytes }

/-- Save what a transaction may change. -/
def snapshot (m : TypedRecordMachine) : MachineSnap :=
  { revision := m.revision
    records := m.records
    usage := m.usage
    watch := m.watch
    leases := m.leases
    pending := m.pending }

/-- Put a saved state back; budgets and clock are not part of it. -/
def restore (m : TypedRecordMachine) (snap : MachineSnap) : TypedRecordMachine :=
  { m with
    revision := snap.revision
    records := snap.records
    usage := snap.usage
    watch := snap.watch
    leases := snap.leases
    pending := snap.pending }

/-- Run mutations in order, stopping at the first error. -/
def applyOps [Blake3] : TypedRecordMachine → List MutateOp →
    TypedRecordMachine × Except ApplyError Unit
  | m, [] => (m, .ok ())
  | m, op :: rest =>
    match m.applyMutate op with
    | (m', .error e) => (m', .error e)
    | (m', .ok ()) => applyOps m' rest

/-- Whether all comparisons of a transaction hold. -/
def comparisonsHold (m : TypedRecordMachine) (comparisons : List Comparison) : Bool :=
  comparisons.all (fun c => (m.checkExpected c.key c.expected).isOk)

/-- The branch of a transaction that runs in this state. -/
def txnOps (m : TypedRecordMachine) (txn : Txn) : List MutateOp :=
  if m.comparisonsHold txn.comparisons then txn.successOps else txn.failureOps

/-- The result of a command that neither grants nor removes leases. -/
def plainResult (m : TypedRecordMachine) : ApplyResult :=
  { revision := m.revision, txnSucceeded := none, lease := none, expiredLeaseIds := [] }

/-- Run a transaction; an error rolls it back. -/
def applyTxn [Blake3] (m : TypedRecordMachine) (txn : Txn) :
    TypedRecordMachine × Except ApplyError ApplyResult :=
  let ok := m.comparisonsHold txn.comparisons
  let snap := m.snapshot
  match m.applyOps (m.txnOps txn) with
  | (m', .error e) => (m'.restore snap, .error e)
  | (m', .ok ()) =>
    let m'' := m'.flushPending
    (m'', .ok { m''.plainResult with txnSucceeded := some ok })

/-- Run one mutation as a command of its own. -/
def applySingle [Blake3] (m : TypedRecordMachine) (op : MutateOp) :
    TypedRecordMachine × Except ApplyError ApplyResult :=
  match m.applyMutate op with
  | (m', .error e) => (m', .error e)
  | (m', .ok ()) =>
    let m'' := m'.flushPending
    (m'', .ok m''.plainResult)

/-- Apply a committed command. -/
def apply [Blake3] (m : TypedRecordMachine) :
    Command → TypedRecordMachine × Except ApplyError ApplyResult
  | .put key expected payload leased => m.applySingle (.put key expected payload leased)
  | .delete key expected => m.applySingle (.delete key expected)
  | .txn txn => m.applyTxn txn
  | .compact through =>
    let m' := { m with watch := m.watch.compactThrough through }
    (m', .ok m'.plainResult)
  | .leaseGrant purpose nowMs =>
    match m.commitTime nowMs with
    | (m', .error e) => (m', .error e)
    | (m', .ok ()) =>
      let granted := m'.leases.grant purpose m'.nowMs
      let m'' := { m' with leases := granted.1, revision := saturatingAdd m'.revision 1 }
      (m'', .ok { m''.plainResult with lease := some granted.2 })
  | .leaseRenew leaseId nowMs =>
    match m.commitTime nowMs with
    | (m', .error e) => (m', .error e)
    | (m', .ok ()) =>
      match m'.leases.renew leaseId m'.nowMs with
      | (leases, .error e) => ({ m' with leases := leases }, .error (.lease e))
      | (leases, .ok lease) =>
        let m'' := { m' with leases := leases, revision := saturatingAdd m'.revision 1 }
        (m'', .ok { m''.plainResult with lease := some lease })
  | .leaseRevoke leaseId =>
    match m.leases.revoke leaseId with
    | (leases, .error e) => ({ m with leases := leases }, .error (.lease e))
    | (leases, .ok _) =>
      let revision := saturatingAdd m.revision 1
      let m' := { m with
        leases := leases
        revision := revision
        pending := m.pending ++ [WatchChange.leaseRevoked leaseId revision] }.flushPending
      (m', .ok { m'.plainResult with expiredLeaseIds := [leaseId] })
  | .advanceTime nowMs =>
    match m.commitTime nowMs with
    | (m', .error e) => (m', .error e)
    | (m', .ok ()) => (m', .ok m'.plainResult)
  | .expireLeases nowMs =>
    match m.commitTime nowMs with
    | (m', .error e) => (m', .error e)
    | (m', .ok ()) =>
      let expired := m'.leases.expireDue m'.nowMs
      let m'' := { m' with leases := expired.1 }
      if expired.2.isEmpty then (m'', .ok m''.plainResult)
      else
        let revision := saturatingAdd m''.revision 1
        let announced := { m'' with
          revision := revision
          pending := m''.pending ++ expired.2.map (fun id => WatchChange.leaseRevoked id revision)
        }.flushPending
        (announced, .ok { announced.plainResult with expiredLeaseIds := expired.2 })

end TypedRecordMachine

end Gump.Memory
