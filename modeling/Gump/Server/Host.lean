/-
  Server/Host.lean --- identities, releases and secrets of one node.

  Units, attempts and executions have identifiers derived by BLAKE3 from what they
  belong to.  A release is loaded from its Capsule in the object store; the
  segments that hold its secrets are read from the store again for every start.
  The store, the file system, the drivers and the cluster are the surroundings of
  a node, given as operations on an arbitrary world.  Beside that world the
  executors share the secret bindings, and a record of what was asked of the
  store, which no method reads.
-/
import Mathlib.Algebra.GroupWithZero.Nat
import Gump.Agent.Host
import Gump.Connectors.Ingress
import Gump.Memory.ClusterState
import Gump.Scheduler.Place

set_option autoImplicit false

namespace Gump.Server

open Gump.Foundation Gump.Types Gump.Memory Gump.Agent Gump.Scheduler
open Gump.Capsule (SegmentType SegmentDescriptor GumpCapsuleMeta)
open Gump.Connectors (ByteRange)

/-! ## Stable identifiers -/

section StableIds

variable [Blake3]

/-- The bytes hashed for a stable identifier: every part after its length. -/
def idInput (parts : List (List UInt8)) : List UInt8 :=
  parts.flatMap fun part => toBeBytes 8 part.length ++ part

/-- The version and the variant of a UUID of version 7. -/
def stampVersion7 (bytes : List UInt8) : List UInt8 :=
  (bytes.modify 6 fun b => (b &&& 0x0f) ||| 0x70).modify 8 fun b => (b &&& 0x3f) ||| 0x80

/-- An identifier derived from its parts. -/
def stableId (parts : List (List UInt8)) : Octets 16 :=
  ⟨stampVersion7 ((Blake3.hash (idInput parts)).bytes.take 16), by
    simp [stampVersion7, (Blake3.hash (idInput parts)).length_eq]⟩

/-- The unit of a workload at an index. -/
def stableUnitId (workloadId : WorkloadId) (unitIndex : Nat) : UnitId :=
  stableId [workloadId.bytes, toBeBytes 4 unitIndex]

/-- The bytes of the text `attempt-1`. -/
def attemptTag : List UInt8 := [97, 116, 116, 101, 109, 112, 116, 45, 49]

/-- The attempt that runs a Capsule for a unit: neither the generation nor the app
enters it. -/
def stableAttemptId (unitId : UnitId) (capsuleId : CapsuleId) : AttemptId :=
  stableId [unitId.bytes, capsuleId.bytes, attemptTag]

/-- The execution of a workload at a generation. -/
def stableExecutionId (workloadId : WorkloadId) (generation : Nat) : ExecutionId :=
  stableId [workloadId.bytes, toBeBytes 8 generation]

/-- The identifier of a node of a cluster. -/
def stableNodeId (clusterId : ClusterId) (memoryNodeId : Nat) : NodeId :=
  stableId [clusterId.bytes, toBeBytes 8 memoryNodeId]

end StableIds

/-! ## The cluster as a node observes it -/

/-- One desired declaration of a snapshot. -/
structure DesiredSnapshotEntry where
  ns : String
  app : String
  generation : Nat
  contentDigest : Digest
  payload : List UInt8
  deriving DecidableEq, Repr

/-- What a pass reads of the cluster. -/
structure ClusterView where
  desired : List DesiredSnapshotEntry
  voters : List Nat
  finiteCompleted : CompletionKey → Bool

/-- The desired declarations of a cluster state in key order. -/
def desiredSnapshot (cluster : ClusterState) : List DesiredSnapshotEntry :=
  cluster.desired.entries.map fun e =>
    ⟨e.1.ns, e.1.app, e.2.generation, e.2.contentDigest, e.2.payload⟩

/-- The view that a cluster state and a voter set give. -/
def ClusterView.observed (cluster : ClusterState) (voters : List Nat) : ClusterView where
  desired := desiredSnapshot cluster
  voters := voters
  finiteCompleted := fun k => cluster.finiteCompleted k.ns k.app k.generation k.unitId

/-- The payload of a desired declaration. -/
structure DesiredCapsuleBinding where
  schema : String
  operationId : String
  capsuleId : String
  deriving DecidableEq, Repr

/-- The schema of the bindings that a node understands. -/
def bindingSchema : String := "gump.desired-capsule/1"

/-! ## Releases -/

/-- The descriptor of a segment. -/
def descriptor (capsuleMeta : GumpCapsuleMeta) (ty : SegmentType) :
    Except String SegmentDescriptor :=
  match capsuleMeta.table.descriptors.find? fun d => d.segmentType = ty with
  | some d => .ok d
  | none => .error ("Capsule lacks " ++ ty.debug ++ " segment")

/-- Where a segment lies in the stored Capsule. -/
def segmentRange (capsuleMeta : GumpCapsuleMeta) (d : SegmentDescriptor) : ByteRange :=
  let start := saturatingAdd capsuleMeta.innerFileOffset d.offset
  ⟨start, some (saturatingAdd start d.storedLength)⟩

/-- A committed release: the Capsule and the digest that the cluster agreed on. -/
structure ReleaseIdentity where
  capsuleId : CapsuleId
  contentDigest : Digest
  deriving DecidableEq, Repr

instance : LinearOrder ReleaseIdentity :=
  LinearOrder.lift' (fun r => toLex (r.capsuleId, r.contentDigest)) (by
    rintro ⟨a, b⟩ ⟨a', b'⟩ h
    simp only [EmbeddingLike.apply_eq_iff_eq, Prod.mk.injEq] at h
    rw [h.1, h.2])

structure TelemetrySinkContract where
  port : Nat
  path : String
  deriving DecidableEq, Repr

/-- The public contract of a runtime variable. -/
structure RuntimeVariable where
  logicalName : String
  maxBytes : Nat
  injection : Nat
  inheritedFd : Option Nat
  referenceEnv : Option String
  referenceValue : String
  sourceKind : String
  deriving DecidableEq, Repr

/-- What the Capsule of a release declares. -/
structure ReleaseDeclaration where
  capsuleMeta : GumpCapsuleMeta
  runtimeVariables : OrdMap String RuntimeVariable
  workloadId : WorkloadId
  ns : String
  appId : String
  hiccup : Bool
  hiccupBindingLiveness : Bool
  telemetrySink : Option TelemetrySinkContract
  units : Nat
  allNodes : Bool
  requiredEnforced : List String
  resources : NodeResources
  lifecycleFinite : Bool
  lifecycle : LifecycleContract
  runtime : RuntimeSpec
  deriving DecidableEq

/-- A release that was loaded and verified. -/
structure LoadedRelease extends ReleaseDeclaration where
  capsuleId : CapsuleId
  releaseRoot : String
  deriving DecidableEq

namespace LoadedRelease

/-- The request counts the declared ports, so a port is required exactly when it
counts one. -/
def requiresPort (l : LoadedRelease) : Bool := decide (0 < l.resources.ports)

def driverName (l : LoadedRelease) : String :=
  match l.runtime.kind with
  | .native => "native"
  | .script => "script"

end LoadedRelease

/-! ## The world of a node -/

/-- What a start needs to open the secrets of an attempt. -/
structure SecretBinding where
  capsuleId : CapsuleId
  workloadId : WorkloadId
  unit : Nat
  nodeId : Nat
  controllerEpoch : Nat
  placementFence : Nat
  capsuleMeta : GumpCapsuleMeta
  runtimeVariables : OrdMap String RuntimeVariable
  telemetrySink : Option TelemetrySinkContract
  deriving DecidableEq

/-- One request for something of a release, with the time of its pass and whether
it succeeded: the Capsule opened for its metadata, its archive extracted, the
release found on disk instead, or a segment read for its secrets. -/
inductive StoreEvent where
  | metadata (release : ReleaseIdentity) (nowMs : Nat) (ok : Bool)
  | archive (release : ReleaseIdentity) (nowMs : Nat) (ok : Bool)
  | present (release : ReleaseIdentity) (nowMs : Nat)
  | segment (capsule : CapsuleId) (ty : SegmentType) (nowMs : Nat) (ok : Bool)
  deriving DecidableEq, Repr

/-- The world that the two executors of a node share. -/
structure NodeWorld (W : Type) where
  outer : W
  bindings : OrdMap AttemptId SecretBinding
  /-- Time of the current pass. -/
  clock : Nat
  /-- Requests to the object store so far. -/
  reads : List StoreEvent

/-- Answer of the cluster to a replicated write. -/
inductive WriteReply where
  | applied
  | replay
  | rejected (reason : String)
  deriving DecidableEq, Repr

/-- The surroundings of a node, over a world `W`. -/
structure RuntimeHost (W : Type) where
  /-- The drivers with the file system, the probes and the Hiccup plane of their
  executors. -/
  driver : DriverKind → AgentHost W
  arch : String
  /-- Number of processors, if the platform tells. -/
  availableParallelism : Option Nat
  physPages : Int
  pageSize : Int
  decodeBinding : List UInt8 → Except String DesiredCapsuleBinding
  parseCapsuleId : String → Option CapsuleId
  /-- Open a Capsule under its committed digest, verify it and decode its
  declarations. -/
  openCapsule : ReleaseIdentity → StateM W (Except String ReleaseDeclaration)
  isDir : String → StateM W Bool
  /-- Extract a range of a Capsule as the archive of a release. -/
  extractArchive : CapsuleId → ByteRange → StateM W (Except String Unit)
  readRange : CapsuleId → ByteRange → StateM W (Except String (List UInt8))
  /-- Open the protected configuration with its key envelope, generate the
  credentials of the attempt and plan their delivery. -/
  openSecrets : (kind : DriverKind) → SecretBinding → AcceptedPlacement → List UInt8 →
    List UInt8 → StateM W (Except String (driver kind).SecretPlan)
  exchangeHiccup : NodeId → Nat → StateM W (Except String Unit)
  presenceCount : DriverKind → StateM W Nat
  completeFinite : CompletionKey → StateM W (Except String WriteReply)

section World

variable {W : Type}

/-- An operation on the world outside. -/
def onOuter {α : Type} (op : StateM W α) : StateM (NodeWorld W) α := fun w =>
  ((op.run w.outer).1, { w with outer := (op.run w.outer).2 })

/-- Record a request to the store. -/
def noteRead (event : Nat → StoreEvent) : StateM (NodeWorld W) Unit := fun w =>
  ((), { w with reads := w.reads ++ [event w.clock] })

variable (R : RuntimeHost W)

/-- Read a segment of a stored Capsule. -/
def readSegment (capsuleId : CapsuleId) (capsuleMeta : GumpCapsuleMeta) (ty : SegmentType) :
    StateM (NodeWorld W) (Except String (List UInt8)) :=
  match descriptor capsuleMeta ty with
  | .error e => pure (.error e)
  | .ok d => do
    let bytes ← onOuter (R.readRange capsuleId (segmentRange capsuleMeta d))
    noteRead fun now => .segment capsuleId ty now bytes.isOk
    pure bytes

/-- The secret plan of a placement: both segments are read from the store, for
every start. -/
def secretProvider (kind : DriverKind) (p : AcceptedPlacement) :
    StateM (NodeWorld W) (Except String (R.driver kind).SecretPlan) := do
  match (← get).bindings.get p.attemptId with
  | none => pure (.error "missing secret binding")
  | some binding =>
    match ← readSegment R binding.capsuleId binding.capsuleMeta .protectedConfig with
    | .error e => pure (.error e)
    | .ok config =>
      match ← readSegment R binding.capsuleId binding.capsuleMeta .keyEnvelope with
      | .error e => pure (.error e)
      | .ok envelope => onOuter (R.openSecrets kind binding p config envelope)

/-- The host of an executor of the node: the driver's host on the world outside,
with the secret provider of the node. -/
def nodeHost (kind : DriverKind) : AgentHost (NodeWorld W) :=
  let H := R.driver kind
  { SecretPlan := H.SecretPlan
    Prepared := H.Prepared
    Admission := H.Admission
    Handle := H.Handle
    instant := onOuter H.instant
    isDir := fun path => onOuter (H.isDir path)
    clearAttemptRoot := fun path => onOuter (H.clearAttemptRoot path)
    createAttemptRoot := fun path => onOuter (H.createAttemptRoot path)
    removeAttemptRoot := fun path => onOuter (H.removeAttemptRoot path)
    prepare := fun root spec id path => onOuter (H.prepare root spec id path)
    admission := fun prepared n plan => onOuter (H.admission prepared n plan)
    start := fun a fence id => onOuter (H.start a fence id)
    observe := fun h => onOuter (H.observe h)
    terminate := fun h ms => onOuter (H.terminate h ms)
    kill := fun h => onOuter (H.kill h)
    cleanup := fun h => onOuter (H.cleanup h)
    capturedBytes := H.capturedBytes
    secretProvider := some (secretProvider R kind)
    deferredPlan := H.deferredPlan
    attemptToken := H.attemptToken
    probeTcp := fun target timeout => onOuter (H.probeTcp target timeout)
    httpExchange := fun target timeout plan => onOuter (H.httpExchange target timeout plan)
    probeCommand := fun spec timeout => onOuter (H.probeCommand spec timeout)
    installSession := fun id p token => onOuter (H.installSession id p token)
    removeAttempt := fun id => onOuter (H.removeAttempt id)
    outboundPlan := fun id => onOuter (H.outboundPlan id)
    onHealthOk := fun ctx => onOuter (H.onHealthOk ctx) }

/-! ## Capabilities of the node -/

/-- A conservative fraction of the physical memory; a failed query advertises
little. -/
def localAllocatableMemoryBytes : Nat :=
  if R.physPages ≤ 0 ∨ R.pageSize ≤ 0 then 512 * 1024 * 1024
  else saturatingMul (saturatingMul R.physPages.toNat R.pageSize.toNat) 9 / 10

/-- The fence of every placement of a node. -/
def reconcileFence : Nat := 1

/-- What a node can allocate. -/
def localAllocatable : NodeResources where
  millicores := (R.availableParallelism.map fun count =>
    min (saturatingMul count 1000) u32Max).getD 1000
  memoryBytes := localAllocatableMemoryBytes R
  gpuDevices := 0
  ports := 16384

/-- The report of a node on itself. -/
def localCapabilities (nodeId : NodeId) : CapabilityReport where
  nodeId := nodeId
  revision := 1
  placementFence := reconcileFence
  arch := R.arch
  drivers := ["native", "script"]
  capabilities := OrdMap.empty.insert "process-group" .enforced
  allocatable := localAllocatable R
  drained := false

theorem localAllocatable_le : localAllocatable R ≤ NodeResources.wordMax := by
  refine ⟨?_, ?_, Nat.zero_le _, ?_⟩
  · unfold localAllocatable
    cases R.availableParallelism with
    | none => simp [NodeResources.wordMax, u32Max]
    | some count => exact Nat.min_le_right _ _
  · change localAllocatableMemoryBytes R ≤ u64Max
    unfold localAllocatableMemoryBytes
    split
    · simp [u64Max]
    · exact (Nat.div_le_self _ _).trans (Nat.min_le_right _ _)
  · simp [localAllocatable, NodeResources.wordMax, u32Max]

end World

/-! ## A node on a script -/

namespace Sample

/-- The bytes of `01900000-0000-7000-8000-0000000000xx`. -/
def bytes (n : UInt8) : List UInt8 := [1, 144, 0, 0, 0, 0, 112, 0, 128, 0, 0, 0, 0, 0, 0, n]

def id (n : UInt8) : Octets 16 := ⟨bytes n, rfl⟩

/-- The unit at index 0 of workload 10. -/
def firstUnit : UnitId :=
  ⟨[4, 6, 63, 254, 179, 101, 114, 228, 181, 222, 65, 125, 121, 201, 222, 240], rfl⟩

/-- The unit at index 0 of workload 11. -/
def secondUnit : UnitId :=
  ⟨[212, 31, 62, 59, 125, 153, 120, 123, 172, 185, 175, 93, 183, 1, 42, 248], rfl⟩

/-- BLAKE3 on the identifiers of the sample node: the node itself, the two units,
and the attempts of the Capsules 1 and 2 for them.  Other inputs are not
tabulated. -/
@[reducible] def blake3 : Blake3 where
  hash input :=
    if input = idInput [bytes 9, toBeBytes 8 1] then
      ⟨[26, 228, 231, 230, 0, 126, 242, 9, 173, 107, 178, 127, 116, 123, 199, 219, 141, 86,
        249, 185, 199, 180, 65, 110, 37, 29, 193, 61, 247, 9, 80, 79], rfl⟩
    else if input = idInput [bytes 10, toBeBytes 4 0] then
      ⟨[4, 6, 63, 254, 179, 101, 114, 228, 181, 222, 65, 125, 121, 201, 222, 240, 44, 141,
        99, 201, 211, 63, 232, 172, 8, 165, 198, 233, 110, 243, 190, 164], rfl⟩
    else if input = idInput [bytes 11, toBeBytes 4 0] then
      ⟨[212, 31, 62, 59, 125, 153, 24, 123, 108, 185, 175, 93, 183, 1, 42, 248, 8, 87, 9,
        226, 185, 113, 60, 181, 37, 156, 92, 199, 209, 254, 136, 253], rfl⟩
    else if input = idInput [firstUnit.bytes, bytes 1, attemptTag] then
      ⟨[108, 106, 187, 158, 44, 24, 221, 136, 108, 6, 205, 154, 6, 254, 53, 146, 107, 128,
        198, 135, 68, 180, 128, 237, 27, 60, 70, 181, 61, 4, 198, 245], rfl⟩
    else if input = idInput [firstUnit.bytes, bytes 2, attemptTag] then
      ⟨[107, 232, 81, 190, 42, 233, 134, 43, 45, 128, 208, 71, 121, 32, 21, 133, 28, 240,
        215, 30, 192, 182, 193, 104, 83, 237, 5, 15, 168, 28, 132, 27], rfl⟩
    else if input = idInput [secondUnit.bytes, bytes 2, attemptTag] then
      ⟨[81, 249, 21, 248, 208, 157, 222, 158, 73, 14, 180, 242, 202, 16, 239, 101, 245, 178,
        209, 41, 92, 73, 209, 49, 215, 247, 24, 246, 183, 136, 195, 2], rfl⟩
    else Octets.fill 32 0

/-- The text of Capsule 1 or 2. -/
def capsuleText (n : UInt8) : String :=
  if n = 1 then "01900000-0000-7000-8000-000000000001"
  else "01900000-0000-7000-8000-000000000002"

/-- A binding as it is written into the desired state, up to the last digit of the
Capsule: `schema` with the text above, `operation_id` and `capsule_id`. -/
def bindingHead : List UInt8 :=
  [123, 34, 115, 99, 104, 101, 109, 97, 34, 58, 34, 103, 117, 109, 112, 46, 100, 101, 115, 105,
    114, 101, 100, 45, 99, 97, 112, 115, 117, 108, 101, 47, 49, 34, 44, 34, 111, 112, 101, 114,
    97, 116, 105, 111, 110, 95, 105, 100, 34, 58, 34, 48, 49, 57, 48, 48, 48, 48, 48, 45, 48, 48,
    48, 48, 45, 55, 48, 48, 48, 45, 56, 48, 48, 48, 45, 48, 48, 48, 48, 48, 48, 48, 48, 48, 48,
    48, 51, 34, 44, 34, 99, 97, 112, 115, 117, 108, 101, 95, 105, 100, 34, 58, 34, 48, 49, 57,
    48, 48, 48, 48, 48, 45, 48, 48, 48, 48, 45, 55, 48, 48, 48, 45, 56, 48, 48, 48, 45, 48, 48,
    48, 48, 48, 48, 48, 48, 48, 48, 48]

/-- The binding of Capsule 1 or 2. -/
def payload (n : UInt8) : List UInt8 := bindingHead ++ [48 + n, 34, 125]

/-- The desired declaration that binds an app to Capsule 1 or 2. -/
def desired (app : String) (generation : Nat) (capsule : UInt8) : DesiredSnapshotEntry :=
  ⟨"prod", app, generation, Octets.fill 32 capsule, payload capsule⟩

/-- A one-unit release of a workload. -/
def release (workload : UInt8) (millicores : Nat) (finite : Bool) : ReleaseDeclaration where
  capsuleMeta := ⟨Connectors.Sample.header, Connectors.Sample.table, [], 0, 0⟩
  runtimeVariables := .empty
  workloadId := id workload
  ns := "prod"
  appId := "api"
  hiccup := false
  hiccupBindingLiveness := false
  telemetrySink := none
  units := 1
  allNodes := false
  requiredEnforced := []
  resources := ⟨millicores, 1048576, 0, 0⟩
  lifecycleFinite := finite
  lifecycle := {}
  runtime := ⟨.native, ["run"], none, none⟩

/-- A node with one processor on a store that holds the Capsules 1 and 2.  Their
releases are on disk; whether the segments of a Capsule can be read is given. -/
def host (first second : ReleaseDeclaration) (readable : Bool) : RuntimeHost Script where
  driver := fun _ => Script.host
  arch := "x86_64"
  availableParallelism := some 1
  physPages := 262144
  pageSize := 4096
  decodeBinding := fun bytes =>
    if bytes = payload 1 then
      .ok ⟨bindingSchema, "01900000-0000-7000-8000-000000000003", capsuleText 1⟩
    else if bytes = payload 2 then
      .ok ⟨bindingSchema, "01900000-0000-7000-8000-000000000003", capsuleText 2⟩
    else .error "EOF while parsing a value at line 1 column 0"
  parseCapsuleId := fun text =>
    if text = capsuleText 1 then some (id 1)
    else if text = capsuleText 2 then some (id 2) else none
  openCapsule := fun r =>
    pure (if r.capsuleId = id 1 then .ok first else .ok second)
  isDir := fun _ => pure true
  extractArchive := fun _ _ => pure (.ok ())
  readRange := fun _ _ => pure (if readable then .ok [] else .error "connection refused")
  openSecrets := fun _ _ _ _ _ => pure (.ok ())
  exchangeHiccup := fun _ _ => pure (.ok ())
  presenceCount := fun _ => pure 0
  completeFinite := fun _ => pure (.ok .applied)

/-- What a pass of the only voter reads. -/
def view (entries : List DesiredSnapshotEntry) : ClusterView := ⟨entries, [1], fun _ => false⟩

end Sample

end Gump.Server
