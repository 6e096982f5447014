/-
  Memory/Serialize.lean --- the derived `Serialize` of the cluster state.

  Structs, enums, maps and sets serialize as serde derives them, with the field
  names of the source; skipped fields are left out.  `encodable_serialize_iff`
  says which cluster states JSON can hold.
-/
import Gump.Foundation.Serde
import Gump.Memory.ClusterState

set_option autoImplicit false

namespace Gump.Memory

open Gump.Foundation

open SerdeValue (ofOption ofBytes ofMap ofSet)

/-! ## Records -/

/-- The variant name of a key prefix. -/
def KeyPrefix.variant : KeyPrefix → String
  | .clusterMeta => "ClusterMeta"
  | .members => "Members"
  | .authorityController => "AuthorityController"
  | .names => "Names"
  | .workloadsDesired => "WorkloadsDesired"
  | .workloadsHistory => "WorkloadsHistory"
  | .executions => "Executions"
  | .units => "Units"
  | .placements => "Placements"
  | .attempts => "Attempts"
  | .barriers => "Barriers"
  | .materializations => "Materializations"
  | .publication => "Publication"
  | .custody => "Custody"
  | .operations => "Operations"
  | .observations => "Observations"
  | .reasons => "Reasons"

/-- Keys serialize as a struct of prefix and suffix. -/
def RecordKey.serialize (key : RecordKey) : SerdeValue :=
  .struct [("prefix", .unitVariant key.keyPrefix.variant), ("suffix", .str key.suffix)]

def RecordValue.serialize (value : RecordValue) : SerdeValue :=
  .struct [("revision", .int value.revision), ("digest", ofBytes value.digest.bytes),
    ("payload", ofBytes value.payload), ("leased", .bool value.leased)]

def MemoryBudgets.serialize (budgets : MemoryBudgets) : SerdeValue :=
  .struct [("authoritative_bytes", .int budgets.authoritativeBytes),
    ("leased_bytes", .int budgets.leasedBytes), ("history_bytes", .int budgets.historyBytes)]

def BudgetUsage.serialize (usage : BudgetUsage) : SerdeValue :=
  .struct [("authoritative_bytes", .int usage.authoritativeBytes),
    ("leased_bytes", .int usage.leasedBytes), ("history_bytes", .int usage.historyBytes)]

def WatchChange.serialize : WatchChange → SerdeValue
  | .put recordKey revision digest =>
    .structVariant "Put" [("key", recordKey.serialize), ("revision", .int revision),
      ("digest", ofBytes digest.bytes)]
  | .delete recordKey revision =>
    .structVariant "Delete" [("key", recordKey.serialize), ("revision", .int revision)]
  | .leaseRevoked leaseId revision =>
    .structVariant "LeaseRevoked" [("lease_id", .int leaseId), ("revision", .int revision)]

def WatchBatch.serialize (batch : WatchBatch) : SerdeValue :=
  .struct [("revision", .int batch.revision), ("at_ms", .int batch.atMs),
    ("changes", .seq (batch.changes.map WatchChange.serialize))]

def WatchHistory.serialize (w : WatchHistory) : SerdeValue :=
  .struct [("compacted_through", .int w.compactedThrough),
    ("batches", .seq (w.batches.map WatchBatch.serialize)), ("approx_bytes", .int w.approxBytes)]

/-- The variant name of a lease purpose. -/
def LeasePurpose.variant : LeasePurpose → String
  | .controllerAuthority => "ControllerAuthority"
  | .memberLiveness => "MemberLiveness"
  | .placementAttempt => "PlacementAttempt"
  | .gangReservation => "GangReservation"
  | .telemetrySubscription => "TelemetrySubscription"

def Lease.serialize (lease : Lease) : SerdeValue :=
  .struct [("id", .int lease.id), ("purpose", .unitVariant lease.purpose.variant),
    ("ttl_ms", .int lease.ttlMs), ("expires_at_ms", .int lease.expiresAtMs)]

def LeaseTable.serialize (t : LeaseTable) : SerdeValue :=
  .struct [("next_id", .int t.nextId), ("leases", ofMap SerdeValue.int Lease.serialize t.leases)]

/-- The pending queue is skipped. -/
def TypedRecordMachine.serialize (m : TypedRecordMachine) : SerdeValue :=
  .struct [("revision", .int m.revision),
    ("records", ofMap RecordKey.serialize RecordValue.serialize m.records),
    ("budgets", m.budgets.serialize), ("usage", m.usage.serialize), ("now_ms", .int m.nowMs),
    ("watch", m.watch.serialize), ("leases", m.leases.serialize)]

/-! ## Cluster state -/

def FenceToken.serialize (token : FenceToken) : SerdeValue :=
  .struct [("epoch", .int token.epoch), ("fence", ofBytes token.fence.bytes),
    ("lease_id", .int token.leaseId)]

def ControllerAuthority.serialize (a : ControllerAuthority) : SerdeValue :=
  .struct [("current", ofOption FenceToken.serialize a.current),
    ("holder", ofOption SerdeValue.int a.holder), ("acquire_nonce", .int a.acquireNonce)]

/-- Declaration keys serialize as a pair. -/
def AppKey.serialize (key : AppKey) : SerdeValue := .seq [.str key.ns, .str key.app]

def DesiredEntry.serialize (entry : DesiredEntry) : SerdeValue :=
  .struct [("generation", .int entry.generation),
    ("content_digest", ofBytes entry.contentDigest.bytes), ("payload", ofBytes entry.payload)]

/-- Completion keys serialize as a tuple. -/
def CompletionKey.serialize (key : CompletionKey) : SerdeValue :=
  .seq [.str key.ns, .str key.app, .int key.generation, ofBytes key.unitId.bytes]

def ApplyOutcome.serialize (outcome : ApplyOutcome) : SerdeValue :=
  .struct [("revision", .int outcome.revision),
    ("txn_succeeded", ofOption SerdeValue.bool outcome.txnSucceeded),
    ("lease_id", ofOption SerdeValue.int outcome.leaseId),
    ("expired_lease_ids", .seq (outcome.expiredLeaseIds.map SerdeValue.int)),
    ("controller", ofOption FenceToken.serialize outcome.controller),
    ("desired_generation", ofOption SerdeValue.int outcome.desiredGeneration)]

def RaftResponse.serialize : RaftResponse → SerdeValue
  | .applied outcome => .newtypeVariant "Applied" outcome.serialize
  | .replay prior => .newtypeVariant "Replay" prior.serialize
  | .rejected message => .newtypeVariant "Rejected" (.str message)

def IdempotencyEntry.serialize (entry : IdempotencyEntry) : SerdeValue :=
  .struct [("request_digest", ofBytes entry.requestDigest.bytes),
    ("response", entry.response.serialize), ("recorded_at_ms", .int entry.recordedAtMs)]

/-- Operation ids serialize as arrays of bytes. -/
def serializeId (id : Id16) : SerdeValue := ofBytes id.bytes

/-- Limits and the receipt-time cache are skipped. -/
def ClusterState.serialize (s : ClusterState) : SerdeValue :=
  .struct [("records", s.records.serialize), ("controller", s.controller.serialize),
    ("desired", ofMap AppKey.serialize DesiredEntry.serialize s.desired),
    ("finite_completions", ofSet CompletionKey.serialize s.finiteCompletions),
    ("idempotency", ofMap serializeId IdempotencyEntry.serialize s.idempotency)]

/-! ## What JSON can hold -/

open SerdeValue in
theorem RecordKey.encodable_serialize (key : RecordKey) : key.serialize.encodable = true := by
  simp [RecordKey.serialize, encodable, encodableFields]

open SerdeValue in
theorem WatchHistory.encodable_serialize (w : WatchHistory) : w.serialize.encodable = true := by
  have hchange : ∀ c : WatchChange, c.serialize.encodable = true := by
    intro c
    cases c <;>
      simp [WatchChange.serialize, encodable, encodableFields, RecordKey.encodable_serialize,
        encodable_ofBytes]
  have hbatch : ∀ b : WatchBatch, b.serialize.encodable = true := by
    intro b
    have hitems : encodableItems (b.changes.map WatchChange.serialize) = true := by
      refine encodableItems_iff.mpr (fun v hv => ?_)
      obtain ⟨c, _, rfl⟩ := List.mem_map.mp hv
      exact hchange c
    simp [WatchBatch.serialize, encodable, encodableFields, hitems]
  have hitems : encodableItems (w.batches.map WatchBatch.serialize) = true := by
    refine encodableItems_iff.mpr (fun v hv => ?_)
    obtain ⟨b, _, rfl⟩ := List.mem_map.mp hv
    exact hbatch b
  simp [WatchHistory.serialize, encodable, encodableFields, hitems]

open SerdeValue in
theorem LeaseTable.encodable_serialize (t : LeaseTable) : t.serialize.encodable = true := by
  have hlease : ∀ lease : Lease, lease.serialize.encodable = true := by
    intro lease
    simp [Lease.serialize, encodable, encodableFields]
  have hleases := encodable_ofMap SerdeValue.int Lease.serialize (fun _ => rfl) hlease t.leases
  simp [LeaseTable.serialize, encodable, encodableFields, hleases]

/-- The record machine is encodable exactly if it holds no record: its lease ids
are numbers, its record keys are structs. -/
theorem TypedRecordMachine.encodable_serialize_iff (m : TypedRecordMachine) :
    m.serialize.encodable = true ↔ m.records = OrdMap.empty := by
  have hrecords := SerdeValue.encodable_ofMap_iff_empty RecordKey.serialize
    RecordValue.serialize (fun _ => rfl) m.records
  simp [TypedRecordMachine.serialize, MemoryBudgets.serialize, BudgetUsage.serialize,
    SerdeValue.encodable, SerdeValue.encodableFields, m.watch.encodable_serialize,
    m.leases.encodable_serialize, hrecords]

open SerdeValue in
theorem FenceToken.encodable_serialize (token : FenceToken) :
    token.serialize.encodable = true := by
  simp [FenceToken.serialize, encodable, encodableFields, encodable_ofBytes]

open SerdeValue in
theorem ControllerAuthority.encodable_serialize (a : ControllerAuthority) :
    a.serialize.encodable = true := by
  have hcurrent := encodable_ofOption FenceToken.encodable_serialize a.current
  have hholder := encodable_ofOption (f := SerdeValue.int) (fun _ => rfl) a.holder
  simp [ControllerAuthority.serialize, encodable, encodableFields, hcurrent, hholder]

/-- JSON can hold a cluster state exactly if it has no record, no declaration and
no receipt.  Leases and completions are no obstacle: lease ids are numbers, and
completions form a sequence. -/
theorem ClusterState.encodable_serialize_iff (s : ClusterState) :
    s.serialize.encodable = true ↔
      s.records.records = OrdMap.empty ∧ s.desired = OrdMap.empty ∧
        s.idempotency = OrdMap.empty := by
  have hdesired := SerdeValue.encodable_ofMap_iff_empty AppKey.serialize
    DesiredEntry.serialize (fun _ => rfl) s.desired
  have hreceipts := SerdeValue.encodable_ofMap_iff_empty serializeId
    IdempotencyEntry.serialize (fun _ => rfl) s.idempotency
  have hcompletion : ∀ k : CompletionKey, k.serialize.encodable = true := by
    intro k
    simp [CompletionKey.serialize, SerdeValue.encodable, SerdeValue.encodableItems,
      SerdeValue.encodable_ofBytes]
  have hset := SerdeValue.encodable_ofSet hcompletion s.finiteCompletions
  simp [ClusterState.serialize, SerdeValue.encodable, SerdeValue.encodableFields,
    s.records.encodable_serialize_iff, s.controller.encodable_serialize, hdesired, hset,
    hreceipts]

end Gump.Memory
