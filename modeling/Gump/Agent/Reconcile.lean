/-
  Agent/Reconcile.lean --- the fenced effect executor.

  One pass compares the placements desired of this node with the attempts that
  live on it: it stops what is no longer desired, starts what is missing, restarts
  what waits for its backoff, and observes and checks what runs.  Every method
  keeps what it did before an error.  Beside the fields of the executor the state
  carries the world of its host and a log of the calls made, which no method
  reads.
-/
import Mathlib.Algebra.GroupWithZero.Nat
import Gump.Foundation.Effects
import Gump.Foundation.Run
import Gump.Agent.Host

set_option autoImplicit false

namespace Gump.Agent

open Gump.Foundation Gump.Types

/-- Ceiling on concurrent live attempts of one agent. -/
def defaultMaxLiveAttempts : Nat := 4096

/-- Wall-clock budget of the checks of one pass. -/
def defaultCheckBudgetMs : Nat := 50

/-- Process grant of every admission. -/
def maxProcesses : Nat := 64

inductive AgentError where
  | fence (e : FenceError)
  | driver (message : String)
  | unverifiedCapsule
  | attemptRoot (message : String)
  | capacity
  | notFound
  deriving DecidableEq, Repr

inductive AttemptPhase where
  | starting
  | running
  | terminal (exitCode : Option Int)
  | awaitingRestart (afterMs : Nat)
  | permanentFailure
  | stopped
  deriving DecidableEq, Repr

namespace AttemptPhase

/-- The phases in which a live entry is not observed: it waits for its restart, or
will not run again. -/
def isParked : AttemptPhase → Bool
  | .awaitingRestart _ => true
  | .permanentFailure => true
  | _ => false

/-- The exit code that a phase remembers. -/
def exitCode : AttemptPhase → Option Int
  | .terminal exitCode => exitCode
  | _ => none

end AttemptPhase

/-- What a pass reports about one live attempt. -/
structure AttemptReport where
  attemptId : AttemptId
  unitId : UnitId
  phase : AttemptPhase
  placementFence : Nat
  observation : Option Observation
  stdoutBytes : Nat
  stderrBytes : Nat
  ready : Option Bool
  publicationEligible : Option Bool
  attemptIndex : Nat
  terminalReason : Option TerminalReason
  deriving DecidableEq, Repr

/-- Which of the two checks of an attempt. -/
inductive CheckSlot where
  | readiness
  | liveness
  deriving DecidableEq, Repr

/-- Which path sends a kill. -/
inductive KillCause where
  | liveness
  | stop
  | forced
  | grace
  deriving DecidableEq, Repr

/-- One entry of the log of an executor: a method entered for an attempt, a call
of the driver with its fence, or a check with the counters around it. -/
inductive AgentEvent where
  | startPlacement (id : AttemptId) (index : Nat)
  | driverStart (id : AttemptId) (fence : Nat) (ok : Bool)
  | startFailed (id : AttemptId) (index : Nat) (error : AgentError)
  | observeOne (id : AttemptId)
  | observed (id : AttemptId) (obs : Observation)
  | tickChecks (id : AttemptId)
  | checked (id : AttemptId) (slot : CheckSlot) (spec : CheckSpec) (outcome : CheckOutcome)
      (before after : CheckRuntime)
  | livenessFailed (id : AttemptId) (spec : CheckSpec)
  | terminate (id : AttemptId) (fence : Nat)
  | kill (id : AttemptId) (fence : Nat) (cause : KillCause)
  | acknowledged (id : AttemptId)
  deriving DecidableEq, Repr

/-! ## State -/

section State

variable {W : Type} (H : AgentHost W)

/-- An attempt that the executor supervises. -/
structure LiveAttempt where
  unitId : UnitId
  placementFence : Nat
  lifecycleFinite : Bool
  lifecycle : LifecycleContract
  releaseRoot : String
  runtime : RuntimeSpec
  capsuleVerified : Bool
  attemptRoot : String
  running : Option H.Handle
  phase : AttemptPhase
  lastObs : Option Observation
  startedMs : Nat
  attemptIndex : Nat
  readiness : CheckRuntime
  liveness : CheckRuntime
  ready : Option Bool
  publicationEligible : Option Bool
  terminalReason : Option TerminalReason
  hiccup : Option HiccupPlacement

/-- The part of an executor that a pass only reads. -/
structure AgentConfig where
  attemptsBase : String
  authority : AuthorityState
  isolation : IsolationPolicy
  maxLive : Nat
  checkBudgetMs : Nat

/-- The part of an executor that a pass changes, with its world and its log. -/
structure AgentState where
  live : OrdMap AttemptId (LiveAttempt H)
  completed : OrdSet AttemptId
  completionEvents : OrdSet AttemptId
  world : W
  log : List AgentEvent

structure EffectExecutor where
  config : AgentConfig
  state : AgentState H

/-- A method of the executor. -/
abbrev AgentM (α : Type) : Type := EStateM AgentError (AgentState H) α

end State

variable {W : Type} {H : AgentHost W}

/-- The entry with the handle that a driver call left. -/
def LiveAttempt.withRunning (a : LiveAttempt H) (running : Option H.Handle) : LiveAttempt H :=
  { a with running := running }

namespace AgentState

/-- Append to the log. -/
def emits (s : AgentState H) (es : List AgentEvent) : AgentState H :=
  { s with log := s.log ++ es }

/-- Append one event to the log. -/
def emit (s : AgentState H) (e : AgentEvent) : AgentState H := s.emits [e]

/-- Bind a live attempt. -/
def setLive (s : AgentState H) (id : AttemptId) (a : LiveAttempt H) : AgentState H :=
  { s with live := s.live.insert id a }

/-- Remove a live attempt. -/
def dropLive (s : AgentState H) (id : AttemptId) : AgentState H :=
  { s with live := s.live.erase id }

/-- Mark a live attempt as stopped by intent. -/
def markStopped (s : AgentState H) (id : AttemptId) : AgentState H :=
  match s.live.get id with
  | none => s
  | some a => s.setLive id
      { a with
        phase := .stopped
        terminalReason := some
          ⟨.stopSignal, "stopped by intent change or cancel", none, a.attemptIndex⟩ }

/-- Move the world. -/
def withWorld (s : AgentState H) (w : W) : AgentState H := { s with world := w }

end AgentState

/-- Run an operation of the host on the world. -/
def onHost {α : Type} (op : StateM W α) : AgentM H α := fun s =>
  .ok (op.run s.world).1 (s.withWorld (op.run s.world).2)

/-- Run a fallible operation of the host, wrapping the text of its error. -/
def tryHost {α : Type} (wrap : String → AgentError) (op : StateM W (Except String α)) :
    AgentM H α := do
  match ← onHost op with
  | .ok a => pure a
  | .error e => throw (wrap e)

/-- Fail with the refusal of a gate. -/
def gate (decision : Except FenceError Unit) : AgentM H Unit :=
  match decision with
  | .ok () => pure ()
  | .error e => throw (.fence e)

/-- Fail with `e` unless the condition holds. -/
def require (condition : Bool) (e : AgentError) : AgentM H Unit :=
  if condition then pure () else throw e

/-- Append to the log from a method. -/
def emit (e : AgentEvent) : AgentM H Unit := modify (·.emit e)

/-! ## Starting -/

/-- The root directory of an attempt. -/
def attemptRootOf (c : AgentConfig) (id : AttemptId) : String :=
  c.attemptsBase ++ "/" ++ toHyphenated id

/-- The token that a placement with Hiccup must carry among its secrets. -/
def hiccupToken (p : AcceptedPlacement) (secrets : H.SecretPlan) :
    AgentM H (Option (List UInt8)) :=
  if p.hiccup.isSome then
    match H.attemptToken secrets with
    | none => throw (.driver "Hiccup placement lacks Gump-generated attempt token")
    | some bytes =>
      if bytes.length = tokenBytes then pure (some bytes)
      else throw (.driver "Hiccup attempt token must be 32 bytes")
  else pure none

/-- The secret plan of a placement, from the installed provider. -/
def secretsFor (p : AcceptedPlacement) : AgentM H H.SecretPlan :=
  match H.secretProvider with
  | some provider => tryHost .driver (provider p)
  | none => pure H.deferredPlan

/-- What `startPlacement` does up to the admission by the driver: gates, the
attempt root, preparation, secrets. -/
def admitPlacement (c : AgentConfig) (p : AcceptedPlacement) (attemptIndex : Nat) :
    AgentM H (H.Admission × Option (List UInt8)) := do
  gate (allowEffect c.authority p.placementFence (if attemptIndex > 1 then .restart else .start))
  require p.capsuleVerified .unverifiedCapsule
  let s ← get
  require (!(attemptIndex = 1 && s.live.size ≥ c.maxLive)) .capacity
  let present ← onHost (H.isDir p.releaseRoot)
  require present (.attemptRoot ("release root missing: " ++ p.releaseRoot))
  let root := attemptRootOf c p.attemptId
  tryHost (fun e => .attemptRoot ("clear attempt root: " ++ e)) (H.clearAttemptRoot root)
  tryHost (fun e => .attemptRoot ("create attempt root: " ++ e)) (H.createAttemptRoot root)
  let prepared ← tryHost .driver (H.prepare p.releaseRoot p.runtime p.attemptId root)
  let secrets ← secretsFor p
  let token ← hiccupToken p secrets
  let admission ← tryHost .driver (H.admission prepared maxProcesses secrets)
  pure (admission, token)

/-- The driver's start, with its entry in the log. -/
def driverStart (p : AcceptedPlacement) (admission : H.Admission) : AgentM H H.Handle := do
  let result ← onHost (H.start admission p.placementFence p.attemptId)
  match result with
  | .ok handle => do
    emit (.driverStart p.attemptId p.placementFence true)
    pure handle
  | .error e => do
    emit (.driverStart p.attemptId p.placementFence false)
    throw (.driver e)

/-- The live entry of a placement that just started. -/
def freshAttempt (c : AgentConfig) (p : AcceptedPlacement) (nowMs attemptIndex : Nat)
    (running : H.Handle) : LiveAttempt H where
  unitId := p.unitId
  placementFence := p.placementFence
  lifecycleFinite := p.lifecycleFinite
  lifecycle := p.lifecycle
  releaseRoot := p.releaseRoot
  runtime := p.runtime
  capsuleVerified := p.capsuleVerified
  attemptRoot := attemptRootOf c p.attemptId
  running := some running
  phase := .running
  lastObs := none
  startedMs := nowMs
  attemptIndex := attemptIndex
  readiness := {}
  liveness := {}
  ready := p.lifecycle.readiness.map (fun _ => false)
  publicationEligible := if p.lifecycle.declaresPublication then some false else none
  terminalReason := none
  hiccup := p.hiccup

/-- Install the Hiccup session of a started placement. -/
def installHiccup (p : AcceptedPlacement) (token : Option (List UInt8)) : AgentM H Unit :=
  match p.hiccup, token with
  | some placement, some bytes => onHost (H.installSession p.attemptId placement bytes)
  | _, _ => pure ()

/-- The body of `startPlacement`. -/
def launch (c : AgentConfig) (p : AcceptedPlacement) (nowMs attemptIndex : Nat) :
    AgentM H Unit := do
  let (admission, token) ← admitPlacement c p attemptIndex
  let running ← driverStart p admission
  installHiccup p token
  modify (·.setLive p.attemptId (freshAttempt c p nowMs attemptIndex running))

/-- Start a placement as its execution number `attemptIndex`. -/
def startPlacement (c : AgentConfig) (p : AcceptedPlacement) (nowMs attemptIndex : Nat) :
    AgentM H Unit := fun s =>
  match (launch c p nowMs attemptIndex).run (s.emit (.startPlacement p.attemptId attemptIndex)) with
  | .ok () s' => .ok () s'
  | .error e s' => .error e (s'.emit (.startFailed p.attemptId attemptIndex e))

section Launching

variable {c : AgentConfig} {p : AcceptedPlacement} {now k : Nat} {s t : AgentState H}

/-- A launch that succeeds is the start. -/
theorem startPlacement_ok
    (h : (launch c p now k).run (s.emit (.startPlacement p.attemptId k)) = .ok () t) :
    (startPlacement c p now k).run s = .ok () t := by
  rw [EStateM.run, startPlacement, h]

/-- A launch that fails is logged. -/
theorem startPlacement_error {e : AgentError}
    (h : (launch c p now k).run (s.emit (.startPlacement p.attemptId k)) = .error e t) :
    (startPlacement c p now k).run s = .error e (t.emit (.startFailed p.attemptId k e)) := by
  rw [EStateM.run, startPlacement, h]

end Launching

/-! ## Stopping -/

/-- Drop a live attempt and clean what it left behind. -/
def cleanupLive (id : AttemptId) : AgentM H Unit := do
  onHost (H.removeAttempt id)
  let s ← get
  match s.live.get id with
  | none => pure ()
  | some a => do
    set (s.dropLive id)
    match a.running with
    | some handle => tryHost .driver (H.cleanup handle)
    | none =>
      tryHost (fun e => .attemptRoot ("cleanup " ++ a.attemptRoot ++ ": " ++ e))
        (H.removeAttemptRoot a.attemptRoot)

/-- Kill the process of a live entry, if it has one, with an entry in the log; the
handle left is kept in the live entry. -/
def killRunning (id : AttemptId) (a : LiveAttempt H) (cause : KillCause) :
    AgentM H (Except String Unit) :=
  match a.running with
  | none => pure (.ok ())
  | some handle => do
    let killed ← onHost (H.kill handle)
    emit (.kill id a.placementFence cause)
    modify (·.setLive id (a.withRunning (some killed.2)))
    pure killed.1

/-- Raise the error of a driver call. -/
def raise (result : Except String Unit) : AgentM H Unit :=
  match result with
  | .ok () => pure ()
  | .error e => throw (.driver e)

/-- Graceful stop of the process of a live entry, if it has one: terminate,
observe, kill what still runs. -/
def stopRunning (id : AttemptId) (a : LiveAttempt H) : AgentM H Unit :=
  match a.running with
  | none => pure ()
  | some handle => do
    let handle₁ ← onHost (H.terminate handle (min (max a.lifecycle.stopGraceMs 1) 5000))
    emit (.terminate id a.placementFence)
    let observed ← onHost (H.observe handle₁)
    modify (·.setLive id (a.withRunning (some observed.2)))
    match observed.1 with
    | .error e => throw (.driver e)
    | .ok obs => do
      emit (.observed id obs)
      if obs.running then
        let killed ← killRunning id (a.withRunning (some observed.2)) .stop
        raise killed
      else pure ()

/-- Stop a live attempt and clean it up. -/
def stopAndCleanup (c : AgentConfig) (id : AttemptId) : AgentM H Unit := do
  match (← get).live.get id with
  | none => throw .notFound
  | some a => do
    gate (allowEffect c.authority a.placementFence .stop)
    stopRunning id a
    modify (·.markStopped id)
    cleanupLive id

/-- Stop a live attempt at the end of the isolation grace, without asking the
fence; the result of the kill is ignored. -/
def forceStopCleanup (id : AttemptId) : AgentM H Unit := do
  match (← get).live.get id with
  | none => cleanupLive id
  | some a => do
    let _ ← killRunning id a .grace
    cleanupLive id

/-! ## Observing -/

/-- The live entry once the exit `obs` was seen: its handle is given up. -/
def exited (a : LiveAttempt H) (obs : Observation) : LiveAttempt H :=
  { a with lastObs := some obs, running := none }

/-- The live entry of a finite attempt that succeeded. -/
def succeed (a : LiveAttempt H) (exit : Option Int) : LiveAttempt H :=
  { a with phase := .terminal exit, terminalReason := some (.completed exit) }

/-- The live entry of an exited attempt that is due to run again. -/
def awaitRestart (id : AttemptId) (a : LiveAttempt H) (exit : Option Int) (nowMs : Nat) :
    LiveAttempt H :=
  let backoff := a.lifecycle.retry.backoffMs a.attemptIndex (saturatingAdd (lastByte id) nowMs)
  { a with
    phase := .awaitingRestart (saturatingAdd nowMs backoff)
    terminalReason := some
      ⟨.retryScheduled, s!"retry after {backoff}ms (attempt {a.attemptIndex})", exit,
        a.attemptIndex⟩
    attemptIndex := saturatingAdd32 a.attemptIndex 1
    ready := if a.lifecycle.readiness.isSome then some false else none
    publicationEligible :=
      if a.lifecycle.declaresPublication then some false else a.publicationEligible }

/-- The live entry of an exited attempt that will not run again. -/
def failPermanently (a : LiveAttempt H) (exit : Option Int) : LiveAttempt H :=
  { a with
    phase := .permanentFailure
    terminalReason := some (.permanent
      (if a.lifecycleFinite then "finite workload failed without remaining retries"
        else "continuous workload exited; no remaining retries")
      exit a.attemptIndex) }

/-- Give up the handle of an exited attempt; the result of its cleanup is
ignored. -/
def releaseHandle (a : LiveAttempt H) : AgentM H Unit :=
  match a.running with
  | none => pure ()
  | some handle => do
    let _ ← onHost (H.cleanup handle)
    pure ()

/-- Record a finite success and clean the attempt up. -/
def completeAttempt (id : AttemptId) : AgentM H Unit := do
  modify fun s => { s with
    completed := s.completed.insert id ()
    completionEvents := s.completionEvents.insert id () }
  cleanupLive id

/-- Decide what follows the exit of an attempt: completion, retry or permanent
failure.  A success seen while isolated is not recorded yet. -/
def applyExitPolicy (c : AgentConfig) (id : AttemptId) (obs : Observation) (nowMs : Nat) :
    AgentM H Unit := do
  match (← get).live.get id with
  | none => throw .notFound
  | some a => do
    releaseHandle a
    if a.lifecycleFinite ∧ obs.exitCode = some 0 then
      modify (·.setLive id (succeed (exited a obs) obs.exitCode))
      if c.authority.isIsolated then pure () else completeAttempt id
    else if a.lifecycle.retry.enabled ∧ a.attemptIndex < a.lifecycle.retry.maxAttempts ∧
        !c.authority.isIsolated then
      modify (·.setLive id (awaitRestart id (exited a obs) obs.exitCode nowMs))
    else
      modify (·.setLive id (failPermanently (exited a obs) obs.exitCode))

/-- Observe the process of a live entry and act on what the driver reports. -/
def observeRunning (c : AgentConfig) (id : AttemptId) (a : LiveAttempt H) (handle : H.Handle)
    (nowMs : Nat) : AgentM H Unit := do
  let observed ← onHost (H.observe handle)
  modify (·.setLive id (a.withRunning (some observed.2)))
  match observed.1 with
  | .error e => throw (.driver e)
  | .ok obs => do
    emit (.observed id obs)
    if obs.running then
      modify (·.setLive id
        { a with running := some observed.2, phase := .running, lastObs := some obs })
    else applyExitPolicy c id obs nowMs

/-- Observe one live attempt, unless its phase is parked; without a process the
entry reports the exit it remembers. -/
def observeOne (c : AgentConfig) (id : AttemptId) (nowMs : Nat) : AgentM H Unit := do
  emit (.observeOne id)
  match (← get).live.get id with
  | none => throw .notFound
  | some a => do
    gate (requireFence c.authority a.placementFence)
    if a.phase.isParked then pure ()
    else
      match a.running with
      | none => applyExitPolicy c id ⟨false, a.phase.exitCode⟩ nowMs
      | some handle => observeRunning c id a handle nowMs

/-- The placement that a live entry was started from. -/
def placementOf (id : AttemptId) (a : LiveAttempt H) : AcceptedPlacement where
  attemptId := id
  unitId := a.unitId
  placementFence := a.placementFence
  releaseRoot := a.releaseRoot
  runtime := a.runtime
  lifecycleFinite := a.lifecycleFinite
  capsuleVerified := a.capsuleVerified
  lifecycle := a.lifecycle
  hiccup := a.hiccup

/-- Start an attempt again once its backoff has passed.  The live entry, and with
it the attempt counter, is removed before the start that may fail. -/
def maybeRestart (c : AgentConfig) (id : AttemptId) (nowMs : Nat) : AgentM H Unit := do
  let s ← get
  match s.live.get id with
  | none => pure ()
  | some a =>
    match a.phase with
    | .awaitingRestart afterMs =>
      if nowMs < afterMs then pure ()
      else
        set (s.dropLive id)
        startPlacement c (placementOf id a) nowMs a.attemptIndex
    | _ => pure ()

/-! ## Checks -/

/-- Run a due check; HTTP checks of the bound slot carry Hiccup. -/
def runDueCheck (slot : CheckSlot) (id : AttemptId) (a : LiveAttempt H) (spec : CheckSpec)
    (nowMs : Nat) (budget : CheckBudget) : StateM W CheckOutcome :=
  let processRunning := (a.lastObs.map Observation.running).getD true
  match spec.kind, a.hiccup with
  | .http, some bind =>
    if bind.bindLiveness = decide (slot = .liveness) then
      runHttpWithHiccup H id spec bind a.unitId a.placementFence nowMs budget
    else runCheck H spec processRunning budget
  | _, _ => runCheck H spec processRunning budget

/-- The live entry after a readiness outcome. -/
def recordReadiness (a : LiveAttempt H) (ok : Bool) (spec : CheckSpec) (nowMs : Nat) :
    LiveAttempt H :=
  let r := ({ a.readiness with lastRunMs := nowMs }).record ok spec
  { a with
    readiness := r
    ready := some r.passed
    publicationEligible :=
      if a.lifecycle.declaresPublication then some r.passed else a.publicationEligible }

/-- The readiness half of `tickChecks`. -/
def tickReadiness (id : AttemptId) (nowMs : Nat) (budget : CheckBudget) : AgentM H Unit := do
  match (← get).live.get id with
  | none => pure ()
  | some a =>
    match a.lifecycle.readiness with
    | none => pure ()
    | some spec =>
      if a.readiness.due nowMs a.startedMs spec then do
        let out ← onHost (runDueCheck .readiness id a spec nowMs budget)
        let a' := recordReadiness a out.ok spec nowMs
        emit (.checked id .readiness spec out a.readiness a'.readiness)
        modify (·.setLive id a')
      else pure ()

/-- The live entry after a liveness outcome; at the failure threshold it carries
the reason of the kill that follows. -/
def recordLiveness (a : LiveAttempt H) (out : CheckOutcome) (spec : CheckSpec) (nowMs : Nat) :
    LiveAttempt H :=
  let l := ({ a.liveness with lastRunMs := nowMs }).record out.ok spec
  { a with
    liveness := l
    terminalReason :=
      if l.consecutiveFailure ≥ max spec.failureThreshold 1 then
        some ⟨.livenessFailed, out.detail, none, a.attemptIndex⟩
      else a.terminalReason }

/-- Whether a live entry carries the reason of a liveness kill. -/
def livenessFailed (a : LiveAttempt H) : Bool :=
  (a.terminalReason.map fun t => decide (t.code = .livenessFailed)).getD false

/-- Kill the process of an entry that failed its liveness, the result of the kill
ignored, and apply its exit policy. -/
def failLiveness (c : AgentConfig) (id : AttemptId) (a : LiveAttempt H) (spec : CheckSpec)
    (nowMs : Nat) : AgentM H Unit := do
  emit (.livenessFailed id spec)
  let _ ← killRunning id a .liveness
  applyExitPolicy c id ⟨false, none⟩ nowMs

/-- The liveness half of `tickChecks`. -/
def tickLiveness (c : AgentConfig) (id : AttemptId) (nowMs : Nat) (budget : CheckBudget) :
    AgentM H Unit := do
  match (← get).live.get id with
  | none => pure ()
  | some a =>
    match a.lifecycle.liveness with
    | none => pure ()
    | some spec =>
      if a.liveness.due nowMs a.startedMs spec then do
        let out ← onHost (runDueCheck .liveness id a spec nowMs budget)
        let a' := recordLiveness a out spec nowMs
        emit (.checked id .liveness spec out a.liveness a'.liveness)
        modify (·.setLive id a')
        if livenessFailed a' then failLiveness c id a' spec nowMs else pure ()
      else pure ()

/-- Run the due checks of a running attempt. -/
def tickChecks (c : AgentConfig) (id : AttemptId) (nowMs : Nat) (budget : CheckBudget) :
    AgentM H Unit := do
  emit (.tickChecks id)
  match (← get).live.get id with
  | none => pure ()
  | some a =>
    if a.phase = .running then do
      tickReadiness id nowMs budget
      tickLiveness c id nowMs budget
    else pure ()

/-! ## The pass -/

def makeReport (id : AttemptId) (a : LiveAttempt H) : AttemptReport where
  attemptId := id
  unitId := a.unitId
  phase := a.phase
  placementFence := a.placementFence
  observation := a.lastObs
  stdoutBytes := (a.running.map fun h => (H.capturedBytes h).1).getD 0
  stderrBytes := (a.running.map fun h => (H.capturedBytes h).2).getD 0
  ready := a.ready
  publicationEligible := a.publicationEligible
  attemptIndex := a.attemptIndex
  terminalReason := a.terminalReason

/-- Whether an attempt id is among the desired placements. -/
def isDesired (desired : List AcceptedPlacement) (id : AttemptId) : Bool :=
  desired.any fun p => decide (p.attemptId = id)

/-- Forget tombstones and completion events that are no longer desired. -/
def pruneCompleted (desired : List AcceptedPlacement) : AgentM H Unit :=
  modify fun s => { s with
    completed := s.completed.retain fun id _ => isDesired desired id
    completionEvents := s.completionEvents.retain fun id _ => isDesired desired id }

/-- Stop every live attempt that is no longer desired. -/
def stopObsolete (c : AgentConfig) (desired : List AcceptedPlacement) : AgentM H Unit := do
  let obsolete := (← get).live.keys.filter fun id => !isDesired desired id
  forM obsolete (stopAndCleanup c)

/-- Start a desired placement unless it lives or has completed. -/
def startIfMissing (c : AgentConfig) (nowMs : Nat) (p : AcceptedPlacement) : AgentM H Unit := do
  let s ← get
  if s.live.contains p.attemptId || s.completed.contains p.attemptId then pure ()
  else startPlacement c p nowMs 1

/-- Start every desired placement that neither lives nor has completed. -/
def startMissing (c : AgentConfig) (desired : List AcceptedPlacement) (nowMs : Nat) :
    AgentM H Unit :=
  forM desired (startIfMissing c nowMs)

/-- One round of supervision for one live attempt. -/
def superviseOne (c : AgentConfig) (nowMs : Nat) (budget : CheckBudget) (id : AttemptId) :
    AgentM H Unit := do
  maybeRestart c id nowMs
  observeOne c id nowMs
  tickChecks c id nowMs budget

/-- Restart, observe and check every live attempt under one budget. -/
def superviseLive (c : AgentConfig) (nowMs : Nat) : AgentM H Unit := do
  let budget ← onHost (CheckBudget.new H c.checkBudgetMs)
  forM (← get).live.keys (superviseOne c nowMs budget)

/-- Run a method and ignore its result. -/
def ignoring (m : AgentM H Unit) : AgentM H Unit := fun s => .ok () (endState (m.run s))

/-- Kill and clean a list of attempts, whatever each cleanup answers. -/
def stopEverything (ids : List AttemptId) : AgentM H Unit :=
  forM ids fun id => ignoring (forceStopCleanup id)

/-- One reconcile pass against the desired placements. -/
def reconcile (c : AgentConfig) (desired : List AcceptedPlacement) (nowMs : Nat) :
    AgentM H (List AttemptReport) := do
  if isolationGraceExpired c.authority c.isolation nowMs then
    stopEverything (← get).live.keys
    throw (.fence .graceExpired)
  else if c.authority.isIsolated then
    forM (← get).live.keys fun id => observeOne c id nowMs
    pure []
  else
    pruneCompleted desired
    stopObsolete c desired
    startMissing c desired nowMs
    superviseLive c nowMs
    pure ((← get).live.entries.map fun e => makeReport e.1 e.2)

/-! ## Operations -/

/-- Stop one attempt on request. -/
def cancel (c : AgentConfig) (id : AttemptId) : AgentM H Unit := do
  match (← get).live.get id with
  | none => throw .notFound
  | some a => do
    gate (allowEffect c.authority a.placementFence .stop)
    stopAndCleanup c id

/-- Kill one attempt on request. -/
def forceKill (c : AgentConfig) (id : AttemptId) : AgentM H Unit := do
  match (← get).live.get id with
  | none => throw .notFound
  | some a => do
    gate (allowEffect c.authority a.placementFence .stop)
    let killed ← killRunning id a .forced
    raise killed
    cleanupLive id

namespace EffectExecutor

/-- An executor without attempts. -/
def new (attemptsBase : String) (authority : AuthorityState) (world : W) :
    EffectExecutor H where
  config :=
    { attemptsBase := attemptsBase, authority := authority, isolation := {},
      maxLive := defaultMaxLiveAttempts, checkBudgetMs := defaultCheckBudgetMs }
  state :=
    { live := .empty, completed := .empty, completionEvents := .empty, world := world, log := [] }

def setAuthority (x : EffectExecutor H) (authority : AuthorityState) : EffectExecutor H :=
  { x with config := { x.config with authority := authority } }

/-- Remember when contact with the controller was lost. -/
def markIsolated (x : EffectExecutor H) (nowMs : Nat) : EffectExecutor H :=
  if x.config.authority.isolatedSinceMs.isNone then
    x.setAuthority { x.config.authority with isolatedSinceMs := some nowMs }
  else x

/-- Resume under a validated authority. -/
def clearIsolation (x : EffectExecutor H) (placementFence controllerEpoch : Nat) :
    EffectExecutor H :=
  x.setAuthority
    { isolatedSinceMs := none, placementFence := placementFence,
      controllerEpoch := controllerEpoch }

/-- Forget a completion event that the cluster has recorded. -/
def acknowledgeCompletion (x : EffectExecutor H) (id : AttemptId) : EffectExecutor H :=
  { x with state :=
    { x.state with
      completionEvents := x.state.completionEvents.erase id
      log := x.state.log ++ [.acknowledged id] } }

/-- Run a method: the state it ends in, and its result. -/
def perform {α : Type} (x : EffectExecutor H) (method : AgentConfig → AgentM H α) :
    EffectExecutor H × Except AgentError α :=
  match (method x.config).run x.state with
  | .ok a s => ({ x with state := s }, .ok a)
  | .error e s => ({ x with state := s }, .error e)

end EffectExecutor

/-- The operations that the holder of an executor calls. -/
inductive AgentOp where
  | reconcile (desired : List AcceptedPlacement) (nowMs : Nat)
  | markIsolated (nowMs : Nat)
  | clearIsolation (placementFence controllerEpoch : Nat)
  | setAuthority (authority : AuthorityState)
  | acknowledgeCompletion (id : AttemptId)
  | cancel (id : AttemptId)
  | forceKill (id : AttemptId)

/-- One operation on an executor. -/
def EffectExecutor.step (x : EffectExecutor H) :
    AgentOp → EffectExecutor H × Except AgentError (List AttemptReport)
  | .reconcile desired nowMs => x.perform fun c => Agent.reconcile c desired nowMs
  | .markIsolated nowMs => (x.markIsolated nowMs, .ok [])
  | .clearIsolation fence epoch => (x.clearIsolation fence epoch, .ok [])
  | .setAuthority authority => (x.setAuthority authority, .ok [])
  | .acknowledgeCompletion id => (x.acknowledgeCompletion id, .ok [])
  | .cancel id => x.perform fun c => do Agent.cancel c id; pure []
  | .forceKill id => x.perform fun c => do Agent.forceKill c id; pure []

/-! ## Samples -/

/-- A placement for the attempt whose bytes are all `byte`, under fence 1. -/
def samplePlacement (byte : UInt8) (finite verified : Bool) (lifecycle : LifecycleContract) :
    AcceptedPlacement where
  attemptId := Octets.fill 16 byte
  unitId := Octets.fill 16 byte
  placementFence := 1
  releaseRoot := "/releases/one"
  runtime := ⟨.native, ["run"], none, none⟩
  lifecycleFinite := finite
  capsuleVerified := verified
  lifecycle := lifecycle
  hiccup := none

/-- A connected executor under fence 1 on a scripted host. -/
def Script.executor (script : Script) : EffectExecutor Script.host :=
  EffectExecutor.new "/attempts" (.connected 1 1) script

end Gump.Agent
