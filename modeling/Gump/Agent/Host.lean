/-
  Agent/Host.lean --- what an agent asks of the machine it runs on.

  The driver, the file system, the secret provider, the network probes, the Hiccup
  plane and the clock are the agent's surroundings.  They are given as operations
  on an arbitrary world, each free to answer anything and to move the world
  anywhere, so that a statement over every host is a statement over every
  behaviour of the driver and of the secret provider.  The checks of one pass run
  against that host under a wall-clock budget.
-/
import Mathlib.Algebra.GroupWithZero.Nat
import Gump.Foundation.OrdMap
import Gump.Types.Id
import Gump.Agent.Fence
import Gump.Agent.Lifecycle

set_option autoImplicit false

namespace Gump.Agent

open Gump.Foundation Gump.Types

/-! ## Placements -/

/-- Which driver runs a release. -/
inductive DriverKind where
  | native
  | script
  deriving DecidableEq, Repr

/-- Runtime contract given to the driver. -/
structure RuntimeSpec where
  kind : DriverKind
  command : List String
  interpreter : Option (List String)
  workdir : Option String
  deriving DecidableEq, Repr

/-- Fields that stamp a Hiccup introduction. -/
structure HiccupPlacement where
  clusterId : ClusterId
  ns : String
  appId : String
  workloadId : WorkloadId
  capsuleId : CapsuleId
  executionId : ExecutionId
  nodeId : NodeId
  agentIncarnation : Nat
  privateIp : Option String
  namedPublish : List String
  namedListen : List String
  /-- Bind Hiccup to the liveness check instead of the readiness check. -/
  bindLiveness : Bool
  deriving DecidableEq, Repr

/-- A unit that the controller accepted for this agent's node. -/
structure AcceptedPlacement where
  attemptId : AttemptId
  unitId : UnitId
  placementFence : Nat
  releaseRoot : String
  runtime : RuntimeSpec
  lifecycleFinite : Bool
  capsuleVerified : Bool
  lifecycle : LifecycleContract
  hiccup : Option HiccupPlacement
  deriving DecidableEq, Repr

/-- What the driver reports about a process. -/
structure Observation where
  running : Bool
  exitCode : Option Int
  deriving DecidableEq, Repr

/-- Result of an HTTP health exchange. -/
structure HttpExchange where
  ok : Bool
  status : Nat
  contentType : Option String
  body : List UInt8
  deriving DecidableEq, Repr

/-- Outbound HTTP health request. -/
inductive HttpRequestPlan where
  | getOffer
  | post (authorization contentType : String) (body : List UInt8)
  deriving DecidableEq, Repr

/-- What the Hiccup plane is told of a successful health exchange. -/
structure HealthOkCtx where
  placement : HiccupPlacement
  unitId : UnitId
  attemptId : AttemptId
  fence : Nat
  contentType : Option String
  body : List UInt8
  healthIntervalMs : Nat
  nowMs : Nat
  deriving DecidableEq, Repr

/-- Length of a Hiccup attempt token. -/
def tokenBytes : Nat := 32

/-! ## The host -/

/-- The surroundings of an agent, over a world `W`.  Driver calls carry the text
of their error; a call that takes a running handle returns the handle it leaves. -/
structure AgentHost (W : Type) where
  SecretPlan : Type
  Prepared : Type
  Admission : Type
  Handle : Type
  /-- The monotonic clock, in nanoseconds. -/
  instant : StateM W Nat
  isDir : String → StateM W Bool
  clearAttemptRoot : String → StateM W (Except String Unit)
  createAttemptRoot : String → StateM W (Except String Unit)
  removeAttemptRoot : String → StateM W (Except String Unit)
  prepare : String → RuntimeSpec → AttemptId → String → StateM W (Except String Prepared)
  /-- Admission under a process grant. -/
  admission : Prepared → Nat → SecretPlan → StateM W (Except String Admission)
  start : Admission → Nat → AttemptId → StateM W (Except String Handle)
  observe : Handle → StateM W (Except String Observation × Handle)
  /-- Graceful stop within a number of milliseconds; callers ignore its result. -/
  terminate : Handle → Nat → StateM W Handle
  kill : Handle → StateM W (Except String Unit × Handle)
  /-- Give up a running handle and clean what it prepared. -/
  cleanup : Handle → StateM W (Except String Unit)
  capturedBytes : Handle → Nat × Nat
  secretProvider : Option (AcceptedPlacement → StateM W (Except String SecretPlan))
  /-- The plan without values, used when no provider is installed. -/
  deferredPlan : SecretPlan
  /-- The value of a plan under the name of the Hiccup token. -/
  attemptToken : SecretPlan → Option (List UInt8)
  probeTcp : Option String → Nat → StateM W (Except String Bool)
  httpExchange : Option String → Nat → HttpRequestPlan → StateM W (Except String HttpExchange)
  probeCommand : CheckSpec → Nat → StateM W (Except String Bool)
  /-- Install the session and the topic grant of an attempt. -/
  installSession : AttemptId → HiccupPlacement → List UInt8 → StateM W Unit
  removeAttempt : AttemptId → StateM W Unit
  outboundPlan : AttemptId → StateM W HttpRequestPlan
  onHealthOk : HealthOkCtx → StateM W Unit

/-! ## Checks under a budget -/

/-- Outcome of one check. -/
structure CheckOutcome where
  ok : Bool
  reasonCode : Reason
  detail : String
  elapsedMs : Nat
  deriving DecidableEq, Repr

namespace CheckOutcome

/-- The outcome of a check that found no budget left. -/
def skippedBudget : CheckOutcome :=
  ⟨false, .checkSkippedBudget, "check skipped: reconcile budget exhausted", 0⟩

/-- Whether the check was skipped for lack of budget instead of run. -/
def isSkipped (o : CheckOutcome) : Bool := decide (o.reasonCode = .checkSkippedBudget)

end CheckOutcome

/-- Remaining wall-clock budget for the checks of one pass. -/
structure CheckBudget where
  deadline : Nat
  deriving DecidableEq, Repr

/-- Nanoseconds in a millisecond. -/
def nanosPerMilli : Nat := 1000000

section Checks

variable {W : Type} (H : AgentHost W)

/-- A budget that starts now. -/
def CheckBudget.new (maxMs : Nat) : StateM W CheckBudget := do
  let now ← H.instant
  pure ⟨now + max maxMs 1 * nanosPerMilli⟩

/-- Whether the deadline has passed. -/
def CheckBudget.exhausted (b : CheckBudget) : StateM W Bool := do
  let now ← H.instant
  pure (decide (now ≥ b.deadline))

/-- Time left until the deadline. -/
def CheckBudget.remaining (b : CheckBudget) : StateM W Nat := do
  let now ← H.instant
  pure (b.deadline - now)

/-- Run one check within its timeout and the shared budget. -/
def runCheck (spec : CheckSpec) (processRunning : Bool) (budget : CheckBudget) :
    StateM W CheckOutcome := do
  if ← budget.exhausted H then
    pure .skippedBudget
  else
    let remaining ← budget.remaining H
    let timeout := min (max spec.timeoutMs 1 * nanosPerMilli) remaining
    let start ← H.instant
    let result ← match spec.kind with
      | .process => pure (Except.ok processRunning)
      | .tcp => H.probeTcp spec.target timeout
      | .http => do
        let exchange ← H.httpExchange spec.target timeout .getOffer
        pure (exchange.map HttpExchange.ok)
      | .command => H.probeCommand spec timeout
    let finish ← H.instant
    let elapsedMs := (finish - start) / nanosPerMilli
    pure <| match result with
      | .ok true => ⟨true, .checkOk, "check succeeded", elapsedMs⟩
      | .ok false => ⟨false, .readinessFailed, "check failed", elapsedMs⟩
      | .error detail => ⟨false, .checkTimeout, detail, elapsedMs⟩

/-- An HTTP check that carries Hiccup: the plane plans the request and hears of a
successful answer. -/
def runHttpWithHiccup (id : AttemptId) (spec : CheckSpec) (placement : HiccupPlacement)
    (unitId : UnitId) (fence nowMs : Nat) (budget : CheckBudget) : StateM W CheckOutcome := do
  if ← budget.exhausted H then
    pure .skippedBudget
  else
    let remaining ← budget.remaining H
    let timeout := min (max spec.timeoutMs 1 * nanosPerMilli) remaining
    let start ← H.instant
    let plan ← H.outboundPlan id
    match ← H.httpExchange spec.target timeout plan with
    | .error detail => do
      let finish ← H.instant
      pure ⟨false, .checkTimeout, detail, (finish - start) / nanosPerMilli⟩
    | .ok exchange => do
      if exchange.ok then
        H.onHealthOk
          { placement := placement, unitId := unitId, attemptId := id, fence := fence,
            contentType := exchange.contentType, body := exchange.body,
            healthIntervalMs := spec.intervalMs, nowMs := nowMs }
      let finish ← H.instant
      let elapsedMs := (finish - start) / nanosPerMilli
      pure <| if exchange.ok then ⟨true, .checkOk, "check succeeded", elapsedMs⟩
        else ⟨false, .readinessFailed, s!"http status {exchange.status}", elapsedMs⟩

end Checks

/-! ## A host that follows a script -/

/-- The answers that a scripted host still has to give; once a list is used up,
the clock stands still and everything goes well. -/
structure Script where
  instants : List Nat := []
  starts : List Bool := []
  observations : List Observation := []
  probes : List Bool := []
  deriving DecidableEq, Repr

namespace Script

/-- The next answer of a list. -/
def next {α : Type} (list : Script → List α) (drop : Script → Script) (default : α) :
    StateM Script α := fun s => ((list s).headD default, drop s)

def start : StateM Script Bool :=
  next Script.starts (fun s => { s with starts := s.starts.tail }) true

def observation : StateM Script Observation :=
  next Script.observations (fun s => { s with observations := s.observations.tail }) ⟨true, none⟩

def probe : StateM Script Bool :=
  next Script.probes (fun s => { s with probes := s.probes.tail }) true

def instant : StateM Script Nat :=
  next Script.instants (fun s => { s with instants := s.instants.tail }) 0

/-- The host of a script: every release root is there, secrets are deferred, and
a driver call that the script does not decide succeeds. -/
def host : AgentHost Script where
  SecretPlan := Unit
  Prepared := Unit
  Admission := Unit
  Handle := Unit
  instant := instant
  isDir := fun _ => pure true
  clearAttemptRoot := fun _ => pure (.ok ())
  createAttemptRoot := fun _ => pure (.ok ())
  removeAttemptRoot := fun _ => pure (.ok ())
  prepare := fun _ _ _ _ => pure (.ok ())
  admission := fun _ _ _ => pure (.ok ())
  start := fun _ _ _ => do
    pure (if ← start then .ok () else .error "spawn failed")
  observe := fun _ => do
    let obs ← observation
    pure (.ok obs, ())
  terminate := fun _ _ => pure ()
  kill := fun _ => pure (.ok (), ())
  cleanup := fun _ => pure (.ok ())
  capturedBytes := fun _ => (0, 0)
  secretProvider := none
  deferredPlan := ()
  attemptToken := fun _ => none
  probeTcp := fun _ _ => do
    pure (.ok (← probe))
  httpExchange := fun _ _ _ => do
    pure (.ok ⟨← probe, 200, none, []⟩)
  probeCommand := fun _ _ => do
    pure (.ok (← probe))
  installSession := fun _ _ _ => pure ()
  removeAttempt := fun _ => pure ()
  outboundPlan := fun _ => pure .getOffer
  onHealthOk := fun _ => pure ()

end Script

end Gump.Agent
