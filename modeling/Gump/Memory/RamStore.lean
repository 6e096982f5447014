/-
  Memory/RamStore.lean --- the in-memory Raft state machine (`ram_store.rs`).

  Committed entries drive the cluster state.  A snapshot is the JSON text of the
  state machine data; the current snapshot is replaced and the snapshot counter
  moves only when the text can be produced.  JSON has no struct, tuple or array
  keys, and records, declarations and receipts are kept under such keys.
-/
import Gump.Foundation.Run
import Gump.Memory.Serialize
import Gump.Memory.Snapshot

set_option autoImplicit false

namespace Gump.Memory

open Gump.Foundation

/-- What the state machine uses of the Raft library: log ids, memberships, and
their serialized form, which has no map with compound keys. -/
class OpenRaft where
  LogId : Type
  /-- The leader that proposed an entry, as text. -/
  leaderId : LogId → String
  index : LogId → Nat
  serializeLogId : LogId → SerdeValue
  encodable_logId : ∀ id, (serializeLogId id).encodable = true
  Membership : Type
  StoredMembership : Type
  /-- The membership of a node that has applied none. -/
  noMembership : StoredMembership
  storedMembership : Option LogId → Membership → StoredMembership
  serializeMembership : StoredMembership → SerdeValue
  encodable_membership : ∀ m, (serializeMembership m).encodable = true

/-- Log ids of a term, a proposing node and an index. -/
structure TermLogId where
  term : Nat
  nodeId : Nat
  index : Nat

def TermLogId.serialize (id : TermLogId) : SerdeValue :=
  .struct [("leader_id", .struct [("term", .int id.term), ("node_id", .int id.nodeId)]),
    ("index", .int id.index)]

/-- Voter sets and the nodes with a slot in them. -/
structure VoterSets where
  configs : List (List Nat)
  nodes : OrdSet Nat

def VoterSets.serialize (sets : VoterSets) : SerdeValue :=
  .struct [("configs", .seq (sets.configs.map (fun c => .seq (c.map SerdeValue.int)))),
    ("nodes", SerdeValue.ofMap SerdeValue.int (fun _ => .null) sets.nodes)]

/-- The membership that an entry set, with the entry. -/
def serializeStored (stored : Option TermLogId × VoterSets) : SerdeValue :=
  .struct [("log_id", SerdeValue.ofOption TermLogId.serialize stored.1),
    ("membership", stored.2.serialize)]

open SerdeValue in
theorem TermLogId.encodable_serialize (id : TermLogId) : id.serialize.encodable = true := by
  simp [TermLogId.serialize, encodable, encodableFields]

open SerdeValue in
theorem encodable_serializeStored (stored : Option TermLogId × VoterSets) :
    (serializeStored stored).encodable = true := by
  have hlog := encodable_ofOption TermLogId.encodable_serialize stored.1
  have hnodes := encodable_ofMap SerdeValue.int (fun _ : Unit => SerdeValue.null)
    (fun _ => rfl) (fun _ => rfl) stored.2.nodes
  have hconfigs : encodableItems
      (stored.2.configs.map (fun c => seq (c.map SerdeValue.int))) = true := by
    refine encodableItems_iff.mpr (fun v hv => ?_)
    obtain ⟨config, _, rfl⟩ := List.mem_map.mp hv
    refine encodableItems_iff.mpr (fun v hv => ?_)
    obtain ⟨node, _, rfl⟩ := List.mem_map.mp hv
    rfl
  simp [serializeStored, VoterSets.serialize, encodable, encodableFields, hlog, hnodes, hconfigs]

/-- Log ids by term and memberships by voter sets. -/
@[reducible] def OpenRaft.byTerm : OpenRaft where
  LogId := TermLogId
  leaderId id := toString id.term ++ "-" ++ toString id.nodeId
  index := TermLogId.index
  serializeLogId := TermLogId.serialize
  encodable_logId := TermLogId.encodable_serialize
  Membership := VoterSets
  StoredMembership := Option TermLogId × VoterSets
  noMembership := (none, ⟨[], OrdMap.empty⟩)
  storedMembership id sets := (id, sets)
  serializeMembership := serializeStored
  encodable_membership := encodable_serializeStored

section Store

variable [OpenRaft]

/-- What a snapshot holds. -/
structure StateMachineData where
  lastAppliedLog : Option OpenRaft.LogId
  lastMembership : OpenRaft.StoredMembership
  cluster : ClusterState

/-- The description of a snapshot. -/
structure SnapshotMeta where
  lastLogId : Option OpenRaft.LogId
  lastMembership : OpenRaft.StoredMembership
  snapshotId : String

structure RamSnapshot where
  description : SnapshotMeta
  data : List UInt8

/-- The state behind the lock of the state machine. -/
structure SmInner where
  sm : StateMachineData
  snapshotIdx : Nat
  currentSnapshot : Option RamSnapshot

/-- What a committed entry carries. -/
inductive EntryPayload where
  | blank
  | normal (cmd : RaftCommand)
  | membership (mem : OpenRaft.Membership)

structure Entry where
  logId : OpenRaft.LogId
  payload : EntryPayload

/-- Why a storage operation failed. -/
inductive StorageError where
  | readStateMachine (message : String)
  | readSnapshot (message : String)
  deriving DecidableEq, Repr

def StateMachineData.serialize (sm : StateMachineData) : SerdeValue :=
  .struct [("last_applied_log", SerdeValue.ofOption OpenRaft.serializeLogId sm.lastAppliedLog),
    ("last_membership", OpenRaft.serializeMembership sm.lastMembership),
    ("cluster", sm.cluster.serialize)]

/-- Only the cluster state decides whether the data can be written. -/
theorem StateMachineData.encodable_serialize (sm : StateMachineData) :
    sm.serialize.encodable = sm.cluster.serialize.encodable := by
  have hlog := SerdeValue.encodable_ofOption OpenRaft.encodable_logId sm.lastAppliedLog
  simp [StateMachineData.serialize, SerdeValue.encodable, SerdeValue.encodableFields, hlog,
    OpenRaft.encodable_membership]

/-- The data as a reader rebuilds it. -/
def StateMachineData.restored (sm : StateMachineData) : StateMachineData :=
  { sm with cluster := ClusterState.ofWire sm.cluster.toWire }

namespace SmInner

/-- A fresh state machine. -/
def new : SmInner where
  sm := ⟨none, OpenRaft.noMembership, ClusterState.new⟩
  snapshotIdx := 0
  currentSnapshot := none

section Apply

variable [Blake3]

/-- Apply one committed entry.  Blank and membership entries answer with the
current revision only. -/
def applyEntry (s : SmInner) (entry : Entry) : SmInner × RaftResponse :=
  let s := { s with sm.lastAppliedLog := some entry.logId }
  let bare : RaftResponse := .applied
    { revision := s.sm.cluster.records.revision, txnSucceeded := none, leaseId := none,
      expiredLeaseIds := [], controller := none, desiredGeneration := none }
  match entry.payload with
  | .blank => (s, bare)
  | .normal cmd =>
    let (cluster, response) := s.sm.cluster.apply cmd
    ({ s with sm.cluster := cluster }, response)
  | .membership mem =>
    ({ s with sm.lastMembership := OpenRaft.storedMembership (some entry.logId) mem }, bare)

/-- The commands among the entries. -/
def commands (entries : List Entry) : List RaftCommand :=
  entries.filterMap (fun entry => match entry.payload with
    | .normal cmd => some cmd
    | _ => none)

/-- The cluster state of the store is the one that the commands reach. -/
theorem cluster_runFrom (s : SmInner) (entries : List Entry) :
    (runFrom applyEntry s entries).sm.cluster =
      runFrom ClusterState.apply s.sm.cluster (commands entries) := by
  induction entries generalizing s with
  | nil => rfl
  | cons entry rest ih =>
    obtain ⟨logId, payload⟩ := entry
    cases payload with
    | blank => exact ih _
    | normal cmd => exact ih _
    | membership mem => exact ih _

/-- Entries see the state machine data only. -/
theorem applyEntry_eq_of_sm_eq {s s' : SmInner} (h : s'.sm = s.sm) (entry : Entry) :
    (s'.applyEntry entry).1.sm = (s.applyEntry entry).1.sm ∧
      (s'.applyEntry entry).2 = (s.applyEntry entry).2 := by
  unfold applyEntry
  rw [h]
  cases entry.payload <;> exact ⟨rfl, rfl⟩

theorem outputs_eq_of_sm_eq {s s' : SmInner} (h : s'.sm = s.sm) (entries : List Entry) :
    (runFrom applyEntry s' entries).sm = (runFrom applyEntry s entries).sm ∧
      outputs applyEntry s' entries = outputs applyEntry s entries := by
  induction entries generalizing s s' with
  | nil => exact ⟨h, rfl⟩
  | cons entry rest ih =>
    obtain ⟨hsm, hresponse⟩ := applyEntry_eq_of_sm_eq h entry
    obtain ⟨hrest, houtputs⟩ := ih hsm
    exact ⟨hrest, congrArg₂ List.cons hresponse houtputs⟩

end Apply

section Snapshots

variable [SerdeJson]

/-- Write the state machine data and make it the current snapshot. -/
def buildSnapshot (s : SmInner) : SmInner × Except StorageError RamSnapshot :=
  match SerdeJson.toVec s.sm.serialize with
  | .error e => (s, .error (.readStateMachine e))
  | .ok data =>
    let snapshotIdx := s.snapshotIdx + 1
    let snapshotId := match s.sm.lastAppliedLog with
      | some last =>
        let leaderId := OpenRaft.leaderId last
        let index := OpenRaft.index last
        s!"{leaderId}-{index}-{snapshotIdx}"
      | none => s!"--{snapshotIdx}"
    let snapshot : RamSnapshot := ⟨⟨s.sm.lastAppliedLog, s.sm.lastMembership, snapshotId⟩, data⟩
    ({ s with snapshotIdx := snapshotIdx, currentSnapshot := some snapshot }, .ok snapshot)

theorem isOk_buildSnapshot (s : SmInner) :
    s.buildSnapshot.2.isOk = true ↔ s.sm.cluster.serialize.encodable = true := by
  rw [← s.sm.encodable_serialize, ← SerdeJson.ok_iff]
  unfold buildSnapshot
  cases SerdeJson.toVec s.sm.serialize with
  | error e => simp [Except.isOk, Except.toBool]
  | ok data => simp [Except.isOk, Except.toBool]

end Snapshots

/-- Replace the data by what the JSON reader makes of a snapshot. -/
def installSnapshot (fromSlice : List UInt8 → Except String StateMachineData) (s : SmInner)
    (snapshot : RamSnapshot) : SmInner × Except StorageError Unit :=
  match fromSlice snapshot.data with
  | .error e => (s, .error (.readSnapshot e))
  | .ok sm => ({ s with sm := sm, currentSnapshot := some snapshot }, .ok ())

/-- **A replica that caught up by snapshot agrees with one that replayed the
log.**  After it installed a snapshot that is read as the data of another replica, it
answers every later entry in the same way. -/
theorem installed_replica_agrees [Blake3] {fromSlice : List UInt8 → Except String StateMachineData}
    (entries later : List Entry) (replica : SmInner) {snapshot : RamSnapshot}
    (hread : fromSlice snapshot.data = .ok (runFrom applyEntry new entries).sm.restored) :
    let s := runFrom applyEntry new entries
    let s' := (replica.installSnapshot fromSlice snapshot).1
    outputs applyEntry s' later = outputs applyEntry s later ∧
      (runFrom applyEntry s' later).sm = (runFrom applyEntry s later).sm := by
  intro s s'
  have hcluster : ClusterState.Restorable s.sm.cluster := by
    rw [cluster_runFrom]
    exact ClusterState.restorable_run (commands entries)
  have hsm : s'.sm = s.sm := by
    have hdata : s'.sm = s.sm.restored := by
      simp only [s', installSnapshot, hread, s]
    rw [hdata, StateMachineData.restored, hcluster.ofWire_toWire]
  exact (outputs_eq_of_sm_eq hsm later).symm

/-- **When a snapshot can be built.**  After any run of committed entries, a
snapshot can be built exactly if no record, no declaration and no receipt is
held. -/
theorem build_snapshot_succeeds_iff [Blake3] [SerdeJson] (entries : List Entry) :
    let s := runFrom applyEntry new entries
    s.buildSnapshot.2.isOk = true ↔
      s.sm.cluster.records.records = OrdMap.empty ∧ s.sm.cluster.desired = OrdMap.empty ∧
        s.sm.cluster.idempotency = OrdMap.empty := by
  intro s
  rw [s.isOk_buildSnapshot]
  exact s.sm.cluster.encodable_serialize_iff

end SmInner

end Store

/-- A replica with a record of its own installs the snapshot of one that has applied a
blank entry, and from then on answers like it. -/
theorem SmInner.blank_log_installed :
    letI := OpenRaft.byTerm
    letI := Blake3.knownAnswers
    letI := SerdeJson.compact
    let put : Entry := ⟨⟨1, 1, 2⟩, .normal (.record (.put ⟨.names, "api"⟩ .absent [1] false))⟩
    let s := runFrom SmInner.applyEntry SmInner.new [⟨⟨1, 1, 1⟩, .blank⟩]
    let replica := runFrom SmInner.applyEntry SmInner.new [put]
    ∃ snapshot, s.buildSnapshot.2 = .ok snapshot ∧
      let fromSlice data := if data = snapshot.data then .ok s.sm.restored else .error "EOF"
      let s' := (replica.installSnapshot fromSlice snapshot).1
      outputs SmInner.applyEntry s' [put] = outputs SmInner.applyEntry s [put] ∧
        (runFrom SmInner.applyEntry s' [put]).sm = (runFrom SmInner.applyEntry s [put]).sm := by
  intro put s replica
  let := OpenRaft.byTerm
  let := Blake3.knownAnswers
  exact ⟨_, rfl,
    SmInner.installed_replica_agrees [⟨⟨1, 1, 1⟩, .blank⟩] [put] replica (if_pos rfl)⟩

/-- One committed record is enough: the store can no longer build a snapshot. -/
theorem SmInner.one_record_defeats_snapshots :
    letI := OpenRaft.byTerm
    letI := Blake3.knownAnswers
    letI := SerdeJson.compact
    let put : RaftCommand := .record (.put ⟨.names, "api"⟩ .absent [1] false)
    let s := runFrom SmInner.applyEntry SmInner.new [⟨⟨1, 1, 1⟩, .normal put⟩]
    s.sm.cluster = runFrom ClusterState.apply ClusterState.new [put] ∧
      s.buildSnapshot.2 matches .error (.readStateMachine "key must be a string") := by
  decide

end Gump.Memory
