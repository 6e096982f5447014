/-
  Memory/ClusterNet.lean --- the frames that carry log entries to other nodes
  (`cluster_net.rs`, `limits.rs` of the transport).

  A leader sends an entry as the JSON text of `ClusterRpc::Append`, and the
  transport refuses a control frame above its ceiling.  In JSON a payload is an
  array of decimal numbers: the frame of a command is that of the same command
  with empty payloads, and two to four bytes for each payload byte.  The ceilings
  of the state machine count the payload bytes themselves.
-/
import Gump.Foundation.JsonSize
import Gump.Memory.RamStore

set_option autoImplicit false

namespace Gump.Memory

open Gump.Foundation

open SerdeValue (ofOption ofBytes decimalCost size)

/-! ## Transport limits -/

/-- Frame and chunk ceilings. -/
structure TransportLimits where
  maxControlFrame : Nat
  maxErrorFrame : Nat
  maxHelloFrame : Nat
  maxBulkChunk : Nat
  deriving DecidableEq, Repr

/-- The ceilings of the protocol. -/
def TransportLimits.default : TransportLimits where
  maxControlFrame := 2 ^ 20
  maxErrorFrame := 16 * 1024
  maxHelloFrame := 64 * 1024
  maxBulkChunk := 2 ^ 20

inductive TransportLimitError where
  | empty (kind : String)
  | exceedsCeiling (kind : String) (length ceiling : Nat)
  deriving DecidableEq, Repr

namespace TransportLimits

/-- A frame has at least one byte and at most `ceiling`. -/
def check (len ceiling : Nat) (kind : String) : Except TransportLimitError Unit :=
  if len = 0 then .error (.empty kind)
  else if len > ceiling then .error (.exceedsCeiling kind len ceiling)
  else .ok ()

def checkControl (limits : TransportLimits) (len : Nat) : Except TransportLimitError Unit :=
  check len limits.maxControlFrame "control"

theorem checkControl_eq_ok {limits : TransportLimits} {len : Nat} :
    limits.checkControl len = .ok () ↔ 0 < len ∧ len ≤ limits.maxControlFrame := by
  unfold checkControl check
  split
  · rename_i h
    simp [h]
  · rename_i h
    split
    · rename_i hgt
      simp only [reduceCtorEq, false_iff]
      omega
    · rename_i hle
      simp only [true_iff]
      omega

end TransportLimits

/-! ## Commands on the wire -/

def Expected.serialize : Expected → SerdeValue
  | .absent => .unitVariant "Absent"
  | .exactRevision revision => .newtypeVariant "ExactRevision" (.int revision)
  | .exactDigest digest => .newtypeVariant "ExactDigest" (ofBytes digest.bytes)
  | .any => .unitVariant "Any"

/-- The fields of a write, as a mutation and as a command of its own. -/
def serializePut (key : RecordKey) (expected : Expected) (payload : List UInt8) (leased : Bool) :
    SerdeValue :=
  .structVariant "Put" [("key", key.serialize), ("expected", expected.serialize),
    ("payload", ofBytes payload), ("leased", .bool leased)]

def serializeDelete (key : RecordKey) (expected : Expected) : SerdeValue :=
  .structVariant "Delete" [("key", key.serialize), ("expected", expected.serialize)]

def MutateOp.serialize : MutateOp → SerdeValue
  | .put key expected payload leased => serializePut key expected payload leased
  | .delete key expected => serializeDelete key expected

def Comparison.serialize (c : Comparison) : SerdeValue :=
  .struct [("key", c.key.serialize), ("expected", c.expected.serialize)]

def Txn.serialize (txn : Txn) : SerdeValue :=
  .struct [("comparisons", .seq (txn.comparisons.map Comparison.serialize)),
    ("success_ops", .seq (txn.successOps.map MutateOp.serialize)),
    ("failure_ops", .seq (txn.failureOps.map MutateOp.serialize))]

def Command.serialize : Command → SerdeValue
  | .put key expected payload leased => serializePut key expected payload leased
  | .delete key expected => serializeDelete key expected
  | .txn t => .newtypeVariant "Txn" t.serialize
  | .compact through => .structVariant "Compact" [("through", .int through)]
  | .leaseGrant purpose nowMs =>
    .structVariant "LeaseGrant" [("purpose", .unitVariant purpose.variant),
      ("now_ms", .int nowMs)]
  | .leaseRenew leaseId nowMs =>
    .structVariant "LeaseRenew" [("lease_id", .int leaseId), ("now_ms", .int nowMs)]
  | .leaseRevoke leaseId => .structVariant "LeaseRevoke" [("lease_id", .int leaseId)]
  | .advanceTime nowMs => .structVariant "AdvanceTime" [("now_ms", .int nowMs)]
  | .expireLeases nowMs => .structVariant "ExpireLeases" [("now_ms", .int nowMs)]

def RaftCommand.serialize : RaftCommand → SerdeValue
  | .record cmd => .newtypeVariant "Record" cmd.serialize
  | .acquireController holder => .structVariant "AcquireController" [("holder", .int holder)]
  | .putDesired ns app expectedGeneration payload contentDigest =>
    .structVariant "PutDesired" [("namespace", .str ns), ("app", .str app),
      ("expected_generation", .int expectedGeneration), ("payload", ofBytes payload),
      ("content_digest", ofBytes contentDigest.bytes)]
  | .completeFinite ns app generation unitId =>
    .structVariant "CompleteFinite" [("namespace", .str ns), ("app", .str app),
      ("generation", .int generation), ("unit_id", ofBytes unitId.bytes)]
  | .idempotent operationId requestDigest inner =>
    .structVariant "Idempotent" [("operation_id", ofBytes operationId.bytes),
      ("request_digest", ofBytes requestDigest.bytes), ("inner", inner.serialize)]

/-- The vote of a leader. -/
structure Vote where
  term : Nat
  nodeId : Nat
  committed : Bool

def Vote.serialize (vote : Vote) : SerdeValue :=
  .struct [("leader_id", .struct [("term", .int vote.term), ("node_id", .int vote.nodeId)]),
    ("committed", .bool vote.committed)]

/-- A log entry that holds a command. -/
structure CommandEntry where
  logId : TermLogId
  command : RaftCommand

def CommandEntry.serialize (entry : CommandEntry) : SerdeValue :=
  .struct [("log_id", entry.logId.serialize),
    ("payload", .newtypeVariant "Normal" entry.command.serialize)]

structure AppendEntriesRequest where
  vote : Vote
  prevLogId : Option TermLogId
  entries : List CommandEntry
  leaderCommit : Option TermLogId

/-- The envelope stands in for the one that openraft derives. -/
def AppendEntriesRequest.serialize (request : AppendEntriesRequest) : SerdeValue :=
  .struct [("vote", request.vote.serialize),
    ("prev_log_id", ofOption TermLogId.serialize request.prevLogId),
    ("entries", .seq (request.entries.map CommandEntry.serialize)),
    ("leader_commit", ofOption TermLogId.serialize request.leaderCommit)]

/-- The body of the frame that carries an append request. -/
def AppendEntriesRequest.body (request : AppendEntriesRequest) : List UInt8 :=
  (SerdeValue.newtypeVariant "Append" request.serialize).render.toUTF8.data.toList

/-! ## Payloads -/

/-- A mutation without its payload. -/
def MutateOp.emptied : MutateOp → MutateOp
  | .put key expected _ leased => .put key expected [] leased
  | op => op

def MutateOp.payloads : MutateOp → List (List UInt8)
  | .put _ _ payload _ => [payload]
  | .delete _ _ => []

/-- A record command without its payloads. -/
def Command.emptied : Command → Command
  | .put key expected _ leased => .put key expected [] leased
  | .txn t => .txn ⟨t.comparisons, t.successOps.map MutateOp.emptied,
      t.failureOps.map MutateOp.emptied⟩
  | cmd => cmd

def Command.payloads : Command → List (List UInt8)
  | .put _ _ payload _ => [payload]
  | .txn t => t.successOps.flatMap MutateOp.payloads ++ t.failureOps.flatMap MutateOp.payloads
  | _ => []

/-- A command without its payloads. -/
def RaftCommand.emptied : RaftCommand → RaftCommand
  | .record cmd => .record cmd.emptied
  | .putDesired ns app expectedGeneration _ contentDigest =>
    .putDesired ns app expectedGeneration [] contentDigest
  | .idempotent operationId requestDigest inner =>
    .idempotent operationId requestDigest inner.emptied
  | cmd => cmd

/-- The payloads that a command carries. -/
def RaftCommand.payloads : RaftCommand → List (List UInt8)
  | .record cmd => cmd.payloads
  | .putDesired _ _ _ payload _ => [payload]
  | .idempotent _ _ inner => inner.payloads
  | _ => []

/-- What payloads add to a frame. -/
def payloadCost (payloads : List (List UInt8)) : Nat := (payloads.map decimalCost).sum

theorem payloadCost_nil : payloadCost [] = 0 := rfl

theorem payloadCost_append (l₁ l₂ : List (List UInt8)) :
    payloadCost (l₁ ++ l₂) = payloadCost l₁ + payloadCost l₂ := by
  simp [payloadCost]

theorem size_serializePut (key : RecordKey) (expected : Expected) (payload : List UInt8)
    (leased : Bool) :
    (serializePut key expected payload leased).size =
      (serializePut key expected [] leased).size + decimalCost payload := by
  simp only [serializePut, SerdeValue.size_structVariant, List.map_cons, List.map_nil,
    bracketed_cons, List.sum_cons, List.sum_nil, SerdeValue.memberSize]
  rw [SerdeValue.size_ofBytes payload]
  omega

theorem MutateOp.size_serialize (op : MutateOp) :
    op.serialize.size = op.emptied.serialize.size + payloadCost op.payloads := by
  cases op with
  | put key expected payload leased =>
    rw [payloads, payloadCost, List.map_singleton, List.sum_singleton]
    exact size_serializePut key expected payload leased
  | delete key expected => simp only [emptied, payloads, payloadCost_nil, Nat.add_zero]

theorem size_serializeOps (ops : List MutateOp) :
    (SerdeValue.seq (ops.map MutateOp.serialize)).size =
      (SerdeValue.seq ((ops.map MutateOp.emptied).map MutateOp.serialize)).size +
        payloadCost (ops.flatMap MutateOp.payloads) := by
  have hcost : payloadCost (ops.flatMap MutateOp.payloads) =
      (ops.map fun op => payloadCost op.payloads).sum := by
    induction ops with
    | nil => rfl
    | cons op rest ih =>
      rw [List.flatMap_cons, payloadCost_append, ih, List.map_cons, List.sum_cons]
  rw [hcost, SerdeValue.size_seq, SerdeValue.size_seq, List.map_map, List.map_map, List.map_map,
    ← bracketed_map_add]
  exact congrArg bracketed (List.map_congr_left fun op _ => op.size_serialize)

theorem Command.size_serialize (cmd : Command) :
    cmd.serialize.size = cmd.emptied.serialize.size + payloadCost cmd.payloads := by
  cases cmd with
  | put key expected payload leased =>
    rw [payloads, payloadCost, List.map_singleton, List.sum_singleton]
    exact size_serializePut key expected payload leased
  | txn t =>
    have hsuccess := size_serializeOps t.successOps
    have hfailure := size_serializeOps t.failureOps
    simp only [serialize, emptied, payloads, Txn.serialize, SerdeValue.size_newtypeVariant,
      SerdeValue.size_struct, List.map_cons, List.map_nil, bracketed_cons, List.sum_cons,
      List.sum_nil, SerdeValue.memberSize, payloadCost_append, hsuccess, hfailure]
    omega
  | _ => simp only [emptied, payloads, payloadCost_nil, Nat.add_zero]

/-- A command has the size of the command without its payloads, and what they add. -/
theorem RaftCommand.size_serialize (cmd : RaftCommand) :
    cmd.serialize.size = cmd.emptied.serialize.size + payloadCost cmd.payloads := by
  induction cmd with
  | record cmd =>
    simp only [serialize, emptied, payloads, SerdeValue.size_newtypeVariant]
    rw [cmd.size_serialize]
    omega
  | putDesired ns app expectedGeneration payload contentDigest =>
    simp only [serialize, emptied, payloads, SerdeValue.size_structVariant, List.map_cons,
      List.map_nil, bracketed_cons, List.sum_cons, List.sum_nil, SerdeValue.memberSize,
      payloadCost]
    rw [SerdeValue.size_ofBytes payload]
    omega
  | idempotent operationId requestDigest inner ih =>
    simp only [serialize, emptied, payloads, SerdeValue.size_structVariant, List.map_cons,
      List.map_nil, bracketed_cons, List.sum_cons, List.sum_nil, SerdeValue.memberSize, ih]
    omega
  | acquireController holder => simp only [emptied, payloads, payloadCost_nil, Nat.add_zero]
  | completeFinite ns app generation unitId =>
    simp only [emptied, payloads, payloadCost_nil, Nat.add_zero]

/-! ## Frames of one entry -/

/-- The request that carries one command. -/
def AppendEntriesRequest.single (vote : Vote) (prevLogId : Option TermLogId) (logId : TermLogId)
    (leaderCommit : Option TermLogId) (cmd : RaftCommand) : AppendEntriesRequest :=
  ⟨vote, prevLogId, [⟨logId, cmd⟩], leaderCommit⟩

theorem AppendEntriesRequest.length_body (request : AppendEntriesRequest) :
    request.body.length = (SerdeValue.newtypeVariant "Append" request.serialize).size := by
  simp only [body, size]
  rfl

section Frames

variable (vote : Vote) (prevLogId : Option TermLogId) (logId : TermLogId)
  (leaderCommit : Option TermLogId) (cmd : RaftCommand)

theorem length_body_single :
    (AppendEntriesRequest.single vote prevLogId logId leaderCommit cmd).body.length =
      (AppendEntriesRequest.single vote prevLogId logId leaderCommit cmd.emptied).body.length +
        payloadCost cmd.payloads := by
  simp only [AppendEntriesRequest.length_body, AppendEntriesRequest.single,
    AppendEntriesRequest.serialize, CommandEntry.serialize,
    SerdeValue.size_newtypeVariant, SerdeValue.size_struct, SerdeValue.size_seq, List.map_cons,
    List.map_nil, bracketed_cons, List.sum_cons, List.sum_nil, SerdeValue.memberSize]
  rw [cmd.size_serialize]
  omega

theorem body_single_pos :
    0 < (AppendEntriesRequest.single vote prevLogId logId leaderCommit cmd).body.length := by
  rw [AppendEntriesRequest.length_body, SerdeValue.size_newtypeVariant]
  omega

/-- The frame that carries a command passes the transport exactly when the decimal
digits and separators of its payload bytes fit into what the frame of the same
command with empty payloads leaves of the ceiling. -/
theorem append_passes_iff_payload_digits_fit :
    TransportLimits.default.checkControl
        (AppendEntriesRequest.single vote prevLogId logId leaderCommit cmd).body.length = .ok () ↔
      payloadCost cmd.payloads +
        (AppendEntriesRequest.single vote prevLogId logId leaderCommit cmd.emptied).body.length ≤
        TransportLimits.default.maxControlFrame := by
  rw [TransportLimits.checkControl_eq_ok, length_body_single, Nat.add_comm]
  have hpos := body_single_pos vote prevLogId logId leaderCommit cmd.emptied
  omega

end Frames

/-! ## A declaration that cannot be sent -/

/-- The empty state accepts a first declaration with any payload up to the ceiling. -/
theorem putDesired_accepted [Blake3] {payload : List UInt8} (digest : Digest)
    (h : payload.length ≤ desiredMaxPayloadBytes) :
    (ClusterState.new.apply (.putDesired "prod" "api" 0 payload digest)).2.isApplied = true := by
  have hid : validateDesiredIdentity "prod" "api" = .ok () := by decide +kernel
  have hbytes : saturatingAdd (ClusterState.new.desiredTotalBytes - 0)
      (desiredEntryBytes "prod" "api" payload) ≤ ClusterState.new.desiredMaxTotalBytes := by
    have hprod : "prod".utf8ByteSize = 4 := by decide
    have hapi : "api".utf8ByteSize = 3 := by decide
    have hzero : ClusterState.new.desiredTotalBytes = 0 := rfl
    have hmax : ClusterState.new.desiredMaxTotalBytes = 64 * 1024 * 1024 := rfl
    unfold desiredMaxPayloadBytes at h
    rw [hzero, hmax, desiredEntryBytes, hprod, hapi]
    unfold saturatingAdd
    omega
  have hget : ClusterState.new.desired.get ⟨"prod", "api"⟩ = none := rfl
  have hroom : ¬ClusterState.new.desired.size ≥ ClusterState.new.desiredMaxEntries := by decide
  change (ClusterState.new.putDesired "prod" "api" 0 payload digest).2.isApplied = true
  unfold ClusterState.putDesired
  rw [hid]
  simp only [Nat.not_lt.mpr h, hget, if_false, Option.map_none, Option.getD_none, ne_eq,
    not_true_eq_false, Option.filter_none, hroom, decide_false, Bool.and_false, Bool.false_eq_true,
    Nat.not_lt.mpr hbytes]
  rfl

/-- A declaration whose payload has the largest size that the state machine admits,
all of its bytes 255. -/
def fullDeclaration : RaftCommand :=
  .putDesired "prod" "api" 0 (List.replicate desiredMaxPayloadBytes 255) (Octets.fill 32 7)

/-- The empty state machine accepts the declaration, and no frame carries it. -/
theorem full_declaration_is_not_replicated :
    letI := Blake3.knownAnswers
    (ClusterState.new.apply fullDeclaration).2.isApplied = true ∧
      ∀ vote prevLogId logId leaderCommit, TransportLimits.default.checkControl
        (AppendEntriesRequest.single vote prevLogId logId leaderCommit
          fullDeclaration).body.length ≠ .ok () := by
  refine ⟨@putDesired_accepted Blake3.knownAnswers _ _ (by rw [List.length_replicate]), ?_⟩
  intro vote prevLogId logId leaderCommit hpass
  -- The digits and separators of the payload leave one byte of the ceiling.
  have hcost : payloadCost fullDeclaration.payloads = 1048575 := by
    have hreplicate := SerdeValue.decimalCost_replicate desiredMaxPayloadBytes 255
    rw [fullDeclaration, RaftCommand.payloads, payloadCost, List.map_singleton, List.sum_singleton,
      hreplicate]
    rfl
  have hlength := length_body_single vote prevLogId logId leaderCommit fullDeclaration
  have hframe := AppendEntriesRequest.length_body
    (.single vote prevLogId logId leaderCommit fullDeclaration.emptied)
  rw [SerdeValue.size_newtypeVariant] at hframe
  have hceiling : TransportLimits.default.maxControlFrame = 1048576 := rfl
  have hle := (TransportLimits.checkControl_eq_ok.mp hpass).2
  omega

end Gump.Memory
