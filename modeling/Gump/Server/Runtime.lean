/-
  Server/Runtime.lean --- the execution coordinator of one node.

  A pass reads the desired declarations, loads and materializes the releases they
  name, places the units that fall on this node, and hands the placements to the
  two executors; then it reports the finite units that completed.  The first error
  ends a pass, which keeps what it did before.  Beside the fields of the
  coordinator the state carries its world and a log of what a pass did, which no
  method reads.
-/
import Mathlib.Algebra.GroupWithZero.Nat
import Gump.Agent.Reconcile
import Gump.Server.Host

set_option autoImplicit false

namespace Gump.Server

open Gump.Foundation Gump.Types Gump.Memory Gump.Agent Gump.Scheduler
open Gump.Capsule (SegmentType)

def releaseFetchInitialBackoffMs : Nat := 1000

def releaseFetchMaxBackoffMs : Nat := 60000

/-- Why a release could not be obtained, and when it may be tried again. -/
structure ReleaseFetchFailure where
  attempts : Nat
  retryAfterMs : Nat
  error : String
  deriving DecidableEq, Repr

structure RuntimeStatus where
  desired : Nat := 0
  placements : Nat := 0
  completed : Nat := 0
  ready : Nat := 0
  hiccupPresence : Nat := 0
  lastError : Option String := none
  deriving DecidableEq, Repr

/-- Why a pass ended early. -/
inductive NodeError where
  /-- `decode desired binding for {ns}/{app}: {e}` -/
  | decodeBinding (ns app e : String)
  /-- `unsupported desired binding schema {schema}` -/
  | unsupportedSchema (schema : String)
  /-- `desired capsule_id is not UUIDv7` -/
  | capsuleId
  /-- `Capsule {id} fetch deferred until {time} after {n} failed attempt(s): {e}` -/
  | deferred (capsuleId : CapsuleId) (failure : ReleaseFetchFailure)
  | load (e : String)
  | materialize (e : String)
  /-- `unit {id} is unschedulable: {outcome}` -/
  | unschedulable (unitId : UnitId) (outcome : PlacementOutcome)
  | agent (e : AgentError)
  | hiccup (e : String)
  /-- `completion target missing for attempt {id}` -/
  | completionTarget (id : AttemptId)
  | write (e : String)
  /-- `commit finite completion: {reason}` -/
  | commitCompletion (reason : String)
  deriving DecidableEq, Repr

/-- A unit that a pass placed: the declaration and the release it comes from, its
index, and the placement for the executor. -/
structure Placed where
  entry : DesiredSnapshotEntry
  release : ReleaseIdentity
  loaded : LoadedRelease
  unitIndex : Nat
  placement : AcceptedPlacement
  deriving DecidableEq

/-- The completion that a placed unit reports. -/
def Placed.target (p : Placed) : CompletionKey :=
  ⟨p.entry.ns, p.entry.app, p.entry.generation, p.placement.unitId⟩

/-- What a pass did, under the view it read: an executor was given placements, an
event of that executor, or a completion submitted for an attempt. -/
inductive NodeAct where
  | handed (kind : DriverKind) (placements : List AcceptedPlacement)
  | agent (kind : DriverKind) (event : AgentEvent)
  | submitted (kind : DriverKind) (id : AttemptId) (target : CompletionKey)
  deriving DecidableEq, Repr

structure NodeEvent where
  view : ClusterView
  act : NodeAct

/-! ## State -/

section State

variable {W : Type} (R : RuntimeHost W)

/-- One node's execution coordinator. -/
structure RuntimeCoordinator where
  clusterId : ClusterId
  nodeId : NodeId
  privateIp : Option String
  memoryNodeId : Nat
  stateRoot : String
  scheduler : PlacementController
  native : EffectExecutor (nodeHost R .native)
  script : EffectExecutor (nodeHost R .script)
  releaseCache : OrdMap ReleaseIdentity LoadedRelease
  releaseFailures : OrdMap ReleaseIdentity ReleaseFetchFailure
  knownUnits : OrdSet UnitId
  status : RuntimeStatus
  world : NodeWorld W
  log : List NodeEvent

end State

/-- What a pass gathers while it goes over the desired declarations. -/
structure PassAcc where
  native : List AcceptedPlacement := []
  script : List AcceptedPlacement := []
  currentUnits : OrdSet UnitId := .empty
  currentAttempts : OrdSet AttemptId := .empty
  currentReleases : OrdSet ReleaseIdentity := .empty
  completionTargets : OrdMap AttemptId CompletionKey := .empty
  completed : Nat := 0
  /-- The placed units in order. -/
  placed : List Placed := []

/-- A pass under way. -/
structure Pass {W : Type} (R : RuntimeHost W) where
  node : RuntimeCoordinator R
  acc : PassAcc

/-- A method of a pass. -/
abbrev PassM {W : Type} (R : RuntimeHost W) (α : Type) : Type := EStateM NodeError (Pass R) α

/-- What one pass reads: the cluster and the time. -/
structure PassInput where
  view : ClusterView
  nowMs : Nat

variable {W : Type} {R : RuntimeHost W}

namespace RuntimeCoordinator

def executor (s : RuntimeCoordinator R) : (kind : DriverKind) → EffectExecutor (nodeHost R kind)
  | .native => s.native
  | .script => s.script

def setExecutor (s : RuntimeCoordinator R) :
    (kind : DriverKind) → EffectExecutor (nodeHost R kind) → RuntimeCoordinator R
  | .native, x => { s with native := x }
  | .script, x => { s with script := x }

def emit (s : RuntimeCoordinator R) (view : ClusterView) (acts : List NodeAct) :
    RuntimeCoordinator R :=
  { s with log := s.log ++ acts.map (NodeEvent.mk view) }

/-- The failure that still defers a release. -/
def deferral (s : RuntimeCoordinator R) (identity : ReleaseIdentity) (nowMs : Nat) :
    Option ReleaseFetchFailure :=
  match s.releaseFailures.get identity with
  | none => none
  | some failure => if nowMs < failure.retryAfterMs then some failure else none

/-- The delay after a number of failed attempts. -/
def backoffMs (attempts : Nat) : Nat :=
  min (saturatingMul releaseFetchInitialBackoffMs (2 ^ min (attempts - 1) 6))
    releaseFetchMaxBackoffMs

/-- Count a failure and defer the release. -/
def recordReleaseFailure (s : RuntimeCoordinator R) (identity : ReleaseIdentity) (nowMs : Nat)
    (error : String) : RuntimeCoordinator R :=
  let attempts := match s.releaseFailures.get identity with
    | some failure => saturatingAdd32 failure.attempts 1
    | none => 1
  let failure : ReleaseFetchFailure := ⟨attempts, saturatingAdd nowMs (backoffMs attempts), error⟩
  { s with releaseFailures := s.releaseFailures.insert identity failure }

/-- Forget the failures of a release. -/
def clearReleaseFailure (s : RuntimeCoordinator R) (identity : ReleaseIdentity) :
    RuntimeCoordinator R :=
  { s with releaseFailures := s.releaseFailures.erase identity }

/-- Keep a loaded release. -/
def cacheRelease (s : RuntimeCoordinator R) (identity : ReleaseIdentity) (loaded : LoadedRelease) :
    RuntimeCoordinator R :=
  { s.clearReleaseFailure identity with
    releaseCache := s.releaseCache.insert identity loaded }

/-- Release the reservation of a unit and forget it. -/
def forgetUnit (s : RuntimeCoordinator R) (unit : UnitId) : RuntimeCoordinator R :=
  { s with
    scheduler := { s.scheduler with ledger := (s.scheduler.ledger.release unit).2 }
    knownUnits := s.knownUnits.erase unit }

end RuntimeCoordinator

namespace PassAcc

/-- The placements for one executor. -/
def placements (acc : PassAcc) : DriverKind → List AcceptedPlacement
  | .native => acc.native
  | .script => acc.script

/-- Enter a placed unit. -/
def record (acc : PassAcc) (p : Placed) : PassAcc :=
  { acc with
    native := if p.loaded.runtime.kind = .native then acc.native ++ [p.placement] else acc.native
    script := if p.loaded.runtime.kind = .script then acc.script ++ [p.placement] else acc.script
    currentUnits := acc.currentUnits.insert p.placement.unitId ()
    currentAttempts := acc.currentAttempts.insert p.placement.attemptId ()
    completionTargets := if p.loaded.lifecycleFinite then
        acc.completionTargets.insert p.placement.attemptId p.target
      else acc.completionTargets
    placed := acc.placed ++ [p] }

end PassAcc

/-! ## Releases -/

/-- Run an operation on the world of the node. -/
def onWorld {α : Type} (op : StateM (NodeWorld W) α) : PassM R α := fun p =>
  .ok (op.run p.node.world).1 { p with node := { p.node with world := (op.run p.node.world).2 } }

def modifyNode (f : RuntimeCoordinator R → RuntimeCoordinator R) : PassM R Unit :=
  modify fun p => { p with node := f p.node }

def modifyAcc (f : PassAcc → PassAcc) : PassM R Unit :=
  modify fun p => { p with acc := f p.acc }

/-- Open the Capsule of a release and read its declarations. -/
def loadRelease (R : RuntimeHost W) (stateRoot : String) (identity : ReleaseIdentity) :
    StateM (NodeWorld W) (Except String LoadedRelease) := do
  let opened ← onOuter (R.openCapsule identity)
  noteRead fun now => .metadata identity now opened.isOk
  pure (opened.map fun declaration =>
    { declaration with
      capsuleId := identity.capsuleId
      releaseRoot := stateRoot ++ "/apps/" ++ toHyphenated identity.capsuleId })

/-- A release from the cache or from the store, unless an earlier failure defers
it. -/
def loadReleaseCached (identity : ReleaseIdentity) (nowMs : Nat) : PassM R LoadedRelease := do
  let p ← get
  match p.node.deferral identity nowMs with
  | some failure => throw (.deferred identity.capsuleId failure)
  | none =>
    match p.node.releaseCache.get identity with
    | some loaded => pure loaded
    | none =>
      match ← onWorld (loadRelease R p.node.stateRoot identity) with
      | .ok loaded => do
        modifyNode (·.cacheRelease identity loaded)
        pure loaded
      | .error e => do
        modifyNode (·.recordReleaseFailure identity nowMs e)
        throw (.load e)

/-- Whether a release is on disk, with an entry in the record if it is. -/
def releasePresent (R : RuntimeHost W) (identity : ReleaseIdentity) (loaded : LoadedRelease) :
    StateM (NodeWorld W) Bool := do
  if ← onOuter (R.isDir loaded.releaseRoot) then do
    noteRead fun now => .present identity now
    pure true
  else pure false

/-- Extract the archive of a release unless it is on disk. -/
def materializeRelease (R : RuntimeHost W) (identity : ReleaseIdentity) (loaded : LoadedRelease) :
    StateM (NodeWorld W) (Except String Unit) := do
  if ← releasePresent R identity loaded then pure (.ok ())
  else
    match descriptor loaded.capsuleMeta .applicationArchive with
    | .error e => pure (.error e)
    | .ok d => do
      let extracted ← onOuter
        (R.extractArchive loaded.capsuleId (segmentRange loaded.capsuleMeta d))
      noteRead fun now => .archive identity now extracted.isOk
      pure extracted

/-- Have the release of a unit on disk. -/
def ensureReleaseMaterialized (identity : ReleaseIdentity) (loaded : LoadedRelease)
    (nowMs : Nat) : PassM R Unit := do
  if ← onWorld (releasePresent R identity loaded) then
    modifyNode (·.clearReleaseFailure identity)
  else
    match ← onWorld (materializeRelease R identity loaded) with
    | .ok () => modifyNode (·.clearReleaseFailure identity)
    | .error e => do
      modifyNode (·.recordReleaseFailure identity nowMs e)
      throw (.materialize e)

/-- The release that a desired declaration names. -/
def releaseOf (R : RuntimeHost W) (entry : DesiredSnapshotEntry) :
    Except NodeError ReleaseIdentity :=
  match R.decodeBinding entry.payload with
  | .error e => .error (.decodeBinding entry.ns entry.app e)
  | .ok binding =>
    if binding.schema ≠ bindingSchema then .error (.unsupportedSchema binding.schema)
    else
      match R.parseCapsuleId binding.capsuleId with
      | none => .error .capsuleId
      | some capsuleId => .ok ⟨capsuleId, entry.contentDigest⟩

/-! ## Placing -/

section Placing

variable [Blake3]

/-- The hard requirements of a unit of a release. -/
def requirementsOf (R : RuntimeHost W) (loaded : LoadedRelease) (unitId : UnitId) :
    WorkloadRequirements where
  workloadId := loaded.workloadId
  unitId := unitId
  arch := R.arch
  driver := loaded.driverName
  requiredEnforced := loaded.requiredEnforced
  request := loaded.resources
  requiresPort := loaded.requiresPort
  lifecycleFinite := loaded.lifecycleFinite

/-- Reserve resources for a unit that has none yet. -/
def admitUnit (req : WorkloadRequirements) : PassM R Unit := do
  let p ← get
  if p.node.knownUnits.contains req.unitId then pure ()
  else
    let placed := p.node.scheduler.place req
    modifyNode fun s => { s with scheduler := placed.1 }
    match placed.2 with
    | .scheduled _ => modifyNode fun s => { s with knownUnits := s.knownUnits.insert req.unitId () }
    | outcome => throw (.unschedulable req.unitId outcome)

/-- The Hiccup fields of a placement. -/
def hiccupOf (s : RuntimeCoordinator R) (entry : DesiredSnapshotEntry)
    (identity : ReleaseIdentity) (loaded : LoadedRelease) : HiccupPlacement where
  clusterId := s.clusterId
  ns := loaded.ns
  appId := loaded.appId
  workloadId := loaded.workloadId
  capsuleId := identity.capsuleId
  executionId := stableExecutionId loaded.workloadId entry.generation
  nodeId := s.nodeId
  agentIncarnation := 1
  privateIp := s.privateIp
  namedPublish := if loaded.telemetrySink.isSome then ["telemetry/sink/ratatouille-http"] else []
  namedListen := []
  bindLiveness := loaded.hiccupBindingLiveness

/-- The unit of a release at an index, placed for a declaration. -/
def placedUnit (s : RuntimeCoordinator R) (entry : DesiredSnapshotEntry)
    (identity : ReleaseIdentity) (loaded : LoadedRelease) (unitIndex : Nat) : Placed where
  entry := entry
  release := identity
  loaded := loaded
  unitIndex := unitIndex
  placement :=
    { attemptId := stableAttemptId (stableUnitId loaded.workloadId unitIndex) identity.capsuleId
      unitId := stableUnitId loaded.workloadId unitIndex
      placementFence := reconcileFence
      releaseRoot := loaded.releaseRoot
      runtime := loaded.runtime
      lifecycleFinite := loaded.lifecycleFinite
      capsuleVerified := true
      lifecycle := loaded.lifecycle
      hiccup := if loaded.hiccup then some (hiccupOf s entry identity loaded) else none }

/-- The secret binding of a placed unit. -/
def secretBindingOf (s : RuntimeCoordinator R) (p : Placed) : SecretBinding where
  capsuleId := p.release.capsuleId
  workloadId := p.loaded.workloadId
  unit := p.unitIndex
  nodeId := s.memoryNodeId
  controllerEpoch := reconcileFence
  placementFence := reconcileFence
  capsuleMeta := p.loaded.capsuleMeta
  runtimeVariables := p.loaded.runtimeVariables
  telemetrySink := p.loaded.telemetrySink

/-- Bind the secrets of an attempt unless they are bound. -/
def bindSecrets (s : RuntimeCoordinator R) (p : Placed) : RuntimeCoordinator R :=
  if s.world.bindings.contains p.placement.attemptId then s
  else { s with world := { s.world with
    bindings := s.world.bindings.insert p.placement.attemptId (secretBindingOf s p) } }

/-- Whether the voter at the turn of a unit is this node. -/
def isLocal (s : RuntimeCoordinator R) (view : ClusterView) (unitIndex : Nat) : Bool :=
  decide (view.voters[unitIndex % max view.voters.length 1]? = some s.memoryNodeId)

/-- Place a unit that falls on this node. -/
def placeLocal (nowMs : Nat) (placed : Placed) : PassM R Unit := do
  ensureReleaseMaterialized placed.release placed.loaded nowMs
  admitUnit (requirementsOf R placed.loaded placed.placement.unitId)
  modifyNode (bindSecrets · placed)
  modifyAcc (·.record placed)

/-- Place one unit of a release: skip it if its completion is recorded or if it
falls on another node. -/
def placeUnit (view : ClusterView) (nowMs : Nat) (entry : DesiredSnapshotEntry)
    (identity : ReleaseIdentity) (loaded : LoadedRelease) (unitIndex : Nat) : PassM R Unit := do
  let p ← get
  let unitId := stableUnitId loaded.workloadId unitIndex
  if loaded.lifecycleFinite ∧
      view.finiteCompleted ⟨entry.ns, entry.app, entry.generation, unitId⟩ then
    modifyAcc fun acc => { acc with completed := saturatingAdd acc.completed 1 }
  else if !isLocal p.node view unitIndex then pure ()
  else placeLocal nowMs (placedUnit p.node entry identity loaded unitIndex)

/-- How many units a release has under a view. -/
def unitCount (view : ClusterView) (loaded : LoadedRelease) : Nat :=
  if loaded.allNodes then min view.voters.length u32Max else loaded.units

/-- Place the units of one desired declaration. -/
def placeEntry (view : ClusterView) (nowMs : Nat) (entry : DesiredSnapshotEntry) :
    PassM R Unit := do
  match releaseOf R entry with
  | .error e => throw e
  | .ok identity => do
    modifyAcc fun acc => { acc with currentReleases := acc.currentReleases.insert identity () }
    let loaded ← loadReleaseCached identity nowMs
    forM (List.range (unitCount view loaded)) (placeUnit view nowMs entry identity loaded)

/-- Place the units of every desired declaration. -/
def placeDesired (view : ClusterView) (nowMs : Nat) : PassM R Unit :=
  forM view.desired (placeEntry view nowMs)

end Placing

/-! ## After the placements -/

/-- Forget what is no longer desired: units with their reservations, secret
bindings, releases and their failures. -/
def sweep : PassM R Unit := do
  let p ← get
  let obsolete := p.node.knownUnits.keys.filter fun unit => !p.acc.currentUnits.contains unit
  modifyNode fun s => obsolete.foldl RuntimeCoordinator.forgetUnit s
  modifyNode fun s => { s with
    world := { s.world with
      bindings := s.world.bindings.retain fun id _ => p.acc.currentAttempts.contains id }
    releaseCache := s.releaseCache.retain fun id _ => p.acc.currentReleases.contains id
    releaseFailures := s.releaseFailures.retain fun id _ => p.acc.currentReleases.contains id }

/-- The node once the executor of a kind ended its pass in a state. -/
def afterExecutor (s : RuntimeCoordinator R) (view : ClusterView) (kind : DriverKind)
    (placements : List AcceptedPlacement) (st : AgentState (nodeHost R kind)) :
    RuntimeCoordinator R :=
  ({ s.setExecutor kind { s.executor kind with state := st } with world := st.world }).emit view
    (.handed kind placements :: st.log.map (.agent kind))

/-- The state in which an executor starts its pass: on the world of the node, with
an empty log. -/
def beforeExecutor (s : RuntimeCoordinator R) (kind : DriverKind) : AgentState (nodeHost R kind) :=
  { (s.executor kind).state with world := s.world, log := [] }

/-- Hand its placements to an executor. -/
def runExecutor (view : ClusterView) (nowMs : Nat) (kind : DriverKind) :
    PassM R (List AttemptReport) := fun p =>
  match (Agent.reconcile (p.node.executor kind).config (p.acc.placements kind) nowMs).run
      (beforeExecutor p.node kind) with
  | .ok reports st =>
    .ok reports { p with node := afterExecutor p.node view kind (p.acc.placements kind) st }
  | .error e st =>
    .error (.agent e) { p with node := afterExecutor p.node view kind (p.acc.placements kind) st }

/-- Publish the Hiccup board and pull those of the peers. -/
def exchangeHiccup (nowMs : Nat) : PassM R Unit := do
  let p ← get
  match ← onWorld (onOuter (R.exchangeHiccup p.node.nodeId nowMs)) with
  | .ok () => pure ()
  | .error e => throw (.hiccup e)

/-- Submit the completion of a finite attempt and acknowledge it to its
executor. -/
def submitCompletion (view : ClusterView) (event : DriverKind × AttemptId) : PassM R Unit := do
  match (← get).acc.completionTargets.get event.2 with
  | none => throw (.completionTarget event.2)
  | some target => do
    modifyNode (·.emit view [.submitted event.1 event.2 target])
    match ← onWorld (onOuter (R.completeFinite target)) with
    | .error e => throw (.write e)
    | .ok (.rejected reason) => throw (.commitCompletion reason)
    | .ok _ => do
      modifyAcc fun acc => { acc with completed := saturatingAdd acc.completed 1 }
      modifyNode fun s =>
        s.setExecutor event.1 ((s.executor event.1).acknowledgeCompletion event.2)

/-- The completions that the executors announce, those of the native one first. -/
def completionEvents (s : RuntimeCoordinator R) : List (DriverKind × AttemptId) :=
  s.native.state.completionEvents.keys.map (DriverKind.native, ·) ++
    s.script.state.completionEvents.keys.map (DriverKind.script, ·)

/-- Submit every completion that the executors announce. -/
def submitCompletions (view : ClusterView) : PassM R Unit := do
  let p ← get
  forM (completionEvents p.node) (submitCompletion view)

/-- Everything after the executors: Hiccup, completions, status. -/
def concludePass (view : ClusterView) (nowMs : Nat) (native script : List AttemptReport) :
    PassM R RuntimeStatus := do
  exchangeHiccup nowMs
  submitCompletions view
  let presence ← onWorld (onOuter (R.presenceCount .native))
  let presence' ← onWorld (onOuter (R.presenceCount .script))
  let p ← get
  let status : RuntimeStatus :=
    { desired := view.desired.length
      placements := native.length + script.length
      completed := p.acc.completed
      ready := (native ++ script).countP fun report => decide (report.ready = some true)
      hiccupPresence := saturatingAdd presence presence'
      lastError := none }
  modifyNode fun s => { s with status := status }
  pure status

/-- Everything after the sweep. -/
def finishPass (view : ClusterView) (nowMs : Nat) : PassM R RuntimeStatus := do
  let native ← runExecutor view nowMs .native
  let script ← runExecutor view nowMs .script
  concludePass view nowMs native script

/-- The start of a pass at a time. -/
def RuntimeCoordinator.beginPass (s : RuntimeCoordinator R) (nowMs : Nat) : Pass R :=
  ⟨{ s with world := { s.world with clock := nowMs } }, {}⟩

/-- The body of a pass. -/
def runPass [Blake3] (view : ClusterView) (nowMs : Nat) : PassM R RuntimeStatus := do
  placeDesired view nowMs
  sweep
  finishPass view nowMs

/-- One reconcile pass: the coordinator after it, and its result. -/
def RuntimeCoordinator.reconcile [Blake3] (s : RuntimeCoordinator R) (input : PassInput) :
    RuntimeCoordinator R × Except NodeError RuntimeStatus :=
  match (runPass input.view input.nowMs).run (s.beginPass input.nowMs) with
  | .ok status p => (p.node, .ok status)
  | .error e p => (p.node, .error e)

/-- The scheduler of a node that knows only its own report. -/
def localScheduler (R : RuntimeHost W) (nodeId : NodeId) : PlacementController :=
  match PlacementController.new.upsertReport (localCapabilities R nodeId) with
  | .ok scheduler => scheduler
  | .error _ => .new

/-- A coordinator that has run no pass. -/
def RuntimeCoordinator.new [Blake3] (R : RuntimeHost W) (clusterId : ClusterId)
    (memoryNodeId : Nat) (privateIp : Option String) (stateRoot : String) (outer : W) :
    RuntimeCoordinator R :=
  let nodeId := stableNodeId clusterId memoryNodeId
  let world : NodeWorld W := ⟨outer, .empty, 0, []⟩
  let authority := AuthorityState.connected reconcileFence reconcileFence
  { clusterId := clusterId
    nodeId := nodeId
    privateIp := privateIp
    memoryNodeId := memoryNodeId
    stateRoot := stateRoot
    scheduler := localScheduler R nodeId
    native := .new (stateRoot ++ "/attempts/native") authority world
    script := .new (stateRoot ++ "/attempts/script") authority world
    releaseCache := .empty
    releaseFailures := .empty
    knownUnits := .empty
    status := {}
    world := world
    log := [] }

/-- A sample node that has run no pass. -/
def Sample.node (first second : ReleaseDeclaration) (readable : Bool) (script : Script) :
    RuntimeCoordinator (Sample.host first second readable) :=
  letI := Sample.blake3
  .new _ (Sample.id 9) 1 none "/var/lib/gump" script

/-- A pass at a time over apps given with their generations and Capsules. -/
def Sample.pass (nowMs : Nat) (apps : List (String × Nat × UInt8)) : PassInput :=
  ⟨Sample.view (apps.map fun e => Sample.desired e.1 e.2.1 e.2.2), nowMs⟩

end Gump.Server
