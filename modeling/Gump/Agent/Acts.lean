/-
  Agent/Acts.lean --- what the executor can do to its state.

  Every method of the executor is a chain of acts.  An act says in one place what
  changes in the live attempts, the tombstones and the log, and under which guard;
  the world moves freely.  What holds of a whole run is then proved by a case
  analysis over acts and the chain rule, never by unfolding a method again.
-/
import Mathlib.Algebra.GroupWithZero.Nat
import Gump.Agent.Reconcile

set_option autoImplicit false

namespace Gump.Agent

open Gump.Foundation Gump.Types

variable {W : Type} {H : AgentHost W} {α β : Type}

/-! ## Normal forms of states

A state is written as events appended to a state, then live entries changed, then
the world moved. -/

@[simp] theorem LiveAttempt.withRunning_withRunning (a : LiveAttempt H)
    (r r' : Option H.Handle) : (a.withRunning r).withRunning r' = a.withRunning r' := rfl

@[simp] theorem LiveAttempt.running_withRunning (a : LiveAttempt H) (r : Option H.Handle) :
    (a.withRunning r).running = r := rfl

namespace AgentState

variable (s : AgentState H) (id : AttemptId) (a b : LiveAttempt H) (es : List AgentEvent)
  (w w' : W)

@[simp] theorem emit_eq (e : AgentEvent) : s.emit e = s.emits [e] := rfl

@[simp] theorem emits_nil : s.emits [] = s := by simp [emits]

@[simp] theorem emits_emits (es' : List AgentEvent) :
    (s.emits es).emits es' = s.emits (es ++ es') := by simp [emits]

@[simp] theorem setLive_emits : (s.setLive id a).emits es = (s.emits es).setLive id a := rfl

@[simp] theorem dropLive_emits : (s.dropLive id).emits es = (s.emits es).dropLive id := rfl

@[simp] theorem withWorld_emits : (s.withWorld w).emits es = (s.emits es).withWorld w := rfl

@[simp] theorem withWorld_setLive :
    (s.withWorld w).setLive id a = (s.setLive id a).withWorld w := rfl

@[simp] theorem withWorld_dropLive :
    (s.withWorld w).dropLive id = (s.dropLive id).withWorld w := rfl

@[simp] theorem withWorld_withWorld : (s.withWorld w).withWorld w' = s.withWorld w' := rfl

@[simp] theorem withWorld_world : s.withWorld s.world = s := rfl

@[simp] theorem setLive_setLive : (s.setLive id a).setLive id b = s.setLive id b := by
  simp [setLive]

@[simp] theorem setLive_dropLive : (s.setLive id a).dropLive id = s.dropLive id := by
  simp [setLive, dropLive]

@[simp] theorem dropLive_setLive : (s.dropLive id).setLive id a = s.setLive id a := by
  simp [setLive, dropLive]

variable {s id a} in
theorem setLive_of_get (h : s.live.get id = some a) : s.setLive id a = s := by
  simp [setLive, OrdMap.insert_of_get h]

variable {s id} in
theorem dropLive_of_get (h : s.live.get id = none) : s.dropLive id = s := by
  simp [dropLive, OrdMap.erase_of_get_none h]

@[simp] theorem live_emits : (s.emits es).live = s.live := rfl
@[simp] theorem live_setLive : (s.setLive id a).live = s.live.insert id a := rfl
@[simp] theorem live_dropLive : (s.dropLive id).live = s.live.erase id := rfl
@[simp] theorem live_withWorld : (s.withWorld w).live = s.live := rfl
@[simp] theorem completed_emits : (s.emits es).completed = s.completed := rfl
@[simp] theorem completed_setLive : (s.setLive id a).completed = s.completed := rfl
@[simp] theorem completed_dropLive : (s.dropLive id).completed = s.completed := rfl
@[simp] theorem completed_withWorld : (s.withWorld w).completed = s.completed := rfl
@[simp] theorem events_emits : (s.emits es).completionEvents = s.completionEvents := rfl
@[simp] theorem events_setLive :
    (s.setLive id a).completionEvents = s.completionEvents := rfl
@[simp] theorem events_dropLive : (s.dropLive id).completionEvents = s.completionEvents := rfl
@[simp] theorem events_withWorld : (s.withWorld w).completionEvents = s.completionEvents := rfl
@[simp] theorem log_emits : (s.emits es).log = s.log ++ es := rfl
@[simp] theorem log_setLive : (s.setLive id a).log = s.log := rfl
@[simp] theorem log_dropLive : (s.dropLive id).log = s.log := rfl
@[simp] theorem log_withWorld : (s.withWorld w).log = s.log := rfl
@[simp] theorem world_emits : (s.emits es).world = s.world := rfl
@[simp] theorem world_setLive : (s.setLive id a).world = s.world := rfl
@[simp] theorem world_dropLive : (s.dropLive id).world = s.world := rfl
@[simp] theorem world_withWorld : (s.withWorld w).world = w := rfl

theorem markStopped_dropLive : (s.markStopped id).dropLive id = s.dropLive id := by
  unfold markStopped
  split
  · rfl
  · simp

end AgentState

/-! ## Methods that only move the world -/

@[simp] theorem onHost_run (op : StateM W α) (s : AgentState H) :
    (onHost op : AgentM H α).run s = .ok (op.run s.world).1 (s.withWorld (op.run s.world).2) := rfl

@[simp] theorem emit_run (e : AgentEvent) (s : AgentState H) :
    (emit e : AgentM H Unit).run s = .ok () (s.emit e) := rfl

/-- A method that changes nothing but the world, returned or failed. -/
def Ambient (m : AgentM H α) : Prop := ∀ s, ∃ w, endState (m.run s) = s.withWorld w

namespace Ambient

theorem pure (a : α) : Ambient (pure a : AgentM H α) := fun s => ⟨s.world, rfl⟩

theorem throw (e : AgentError) : Ambient (throw e : AgentM H α) := fun s => ⟨s.world, rfl⟩

theorem get : Ambient (get : AgentM H (AgentState H)) := fun s => ⟨s.world, rfl⟩

theorem onHost (op : StateM W α) : Ambient (onHost op : AgentM H α) := fun _ => ⟨_, rfl⟩

theorem bind {m : AgentM H α} {k : α → AgentM H β} (hm : Ambient m)
    (hk : ∀ a, Ambient (k a)) : Ambient (m >>= k) := by
  intro s
  obtain ⟨w, hw⟩ := hm s
  cases h : m.run s with
  | ok a t =>
    rw [h] at hw
    obtain ⟨w', hw'⟩ := hk a t
    refine ⟨w', ?_⟩
    rw [run_bind_ok h, hw', show t = s.withWorld w from hw]
    rfl
  | error e t =>
    rw [h] at hw
    exact ⟨w, by rw [run_bind_error h]; exact hw⟩

theorem tryHost (wrap : String → AgentError) (op : StateM W (Except String α)) :
    Ambient (tryHost wrap op : AgentM H α) := by
  refine (Ambient.onHost op).bind ?_
  rintro (e | a)
  · exact Ambient.throw _
  · exact Ambient.pure _

theorem gate (decision : Except FenceError Unit) : Ambient (gate decision : AgentM H Unit) := by
  cases decision with
  | ok u => exact Ambient.pure _
  | error e => exact Ambient.throw _

end Ambient

variable {s : AgentState H}

theorem gate_eq_ok {decision : Except FenceError Unit} {t : AgentState H} {u : Unit}
    (h : (gate decision : AgentM H Unit).run s = .ok u t) : decision = .ok () ∧ t = s := by
  cases decision with
  | ok _ => exact ⟨rfl, (EStateM.Result.ok.inj h).2.symm⟩
  | error _ => cases h

variable (p : AcceptedPlacement)

theorem Ambient.hiccupToken (secrets : H.SecretPlan) : Ambient (hiccupToken p secrets) := by
  unfold Agent.hiccupToken
  split
  · split
    · exact Ambient.throw _
    · split
      · exact Ambient.pure _
      · exact Ambient.throw _
  · exact Ambient.pure _

theorem Ambient.secretsFor : Ambient (secretsFor p : AgentM H H.SecretPlan) := by
  unfold Agent.secretsFor
  split
  · exact Ambient.tryHost _ _
  · exact Ambient.pure _

theorem Ambient.require (condition : Bool) (e : AgentError) :
    Ambient (require condition e : AgentM H Unit) := by
  cases condition
  · exact Ambient.throw e
  · exact Ambient.pure ()

theorem Ambient.admitPlacement (c : AgentConfig) (p : AcceptedPlacement) (k : Nat) :
    Ambient (admitPlacement c p k : AgentM H _) := by
  unfold Agent.admitPlacement
  refine (Ambient.gate _).bind fun _ => (Ambient.require _ _).bind fun _ =>
    Ambient.get.bind fun _ => (Ambient.require _ _).bind fun _ =>
    (Ambient.onHost _).bind fun _ => (Ambient.require _ _).bind fun _ =>
    (Ambient.tryHost _ _).bind fun _ => (Ambient.tryHost _ _).bind fun _ =>
    (Ambient.tryHost _ _).bind fun _ => (Ambient.secretsFor p).bind fun _ =>
    (Ambient.hiccupToken p _).bind fun _ => (Ambient.tryHost _ _).bind fun _ =>
    Ambient.pure _

/-- A method that only moves the world returns from the state it ends in. -/
theorem Ambient.run_cases {m : AgentM H α} (hm : Ambient m) (s : AgentState H) :
    (∃ a w, m.run s = .ok a (s.withWorld w)) ∨ ∃ e w, m.run s = .error e (s.withWorld w) := by
  obtain ⟨w, hw⟩ := hm s
  cases h : m.run s with
  | ok a t =>
    rw [h] at hw
    exact Or.inl ⟨a, w, by rw [← show t = s.withWorld w from hw]⟩
  | error e t =>
    rw [h] at hw
    exact Or.inr ⟨e, w, by rw [← show t = s.withWorld w from hw]⟩

/-! ## Starting and stopping -/

/-- An effect for this fence passes the gate. -/
def Allowed (c : AgentConfig) (fence : Nat) : Prop :=
  c.authority.placementFence = fence ∧ c.authority.isIsolated = false

theorem allowed_of_admitPlacement {c : AgentConfig} {p : AcceptedPlacement} {k : Nat}
    {t : AgentState H} {r : H.Admission × Option (List UInt8)}
    (h : (admitPlacement c p k).run s = .ok r t) : Allowed c p.placementFence := by
  obtain ⟨_, _, hgate, _⟩ := run_bind_eq_ok.mp h
  exact allowEffect_eq_ok.mp (gate_eq_ok hgate).1

/-- The driver calls of a start that failed: none, or a start that the driver
refused. -/
def FailedCalls (c : AgentConfig) (id : AttemptId) (fence : Nat) (calls : List AgentEvent) : Prop :=
  calls = [] ∨ calls = [.driverStart id fence false] ∧ Allowed c fence

theorem driverStart_cases (admission : H.Admission) (s : AgentState H) :
    (∃ e w, (driverStart p admission).run s
        = .error (.driver e)
          ((s.emit (.driverStart p.attemptId p.placementFence false)).withWorld w)) ∨
    ∃ running w, (driverStart p admission).run s
        = .ok running ((s.emit (.driverStart p.attemptId p.placementFence true)).withWorld w) := by
  simp only [driverStart, EStateM.run_bind, onHost_run]
  cases (H.start admission p.placementFence p.attemptId).run s.world with
  | mk result w =>
    cases result with
    | error e => exact Or.inl ⟨e, w, rfl⟩
    | ok running => exact Or.inr ⟨running, w, rfl⟩

theorem installHiccup_run (token : Option (List UInt8)) (s : AgentState H) :
    ∃ w, (installHiccup p token).run s = .ok () (s.withWorld w) := by
  unfold installHiccup
  split
  · exact ⟨_, rfl⟩
  · exact ⟨s.world, rfl⟩

/-- A start that failed leaves only notes in the log; one that succeeded binds a
fresh live entry after one successful call of the driver's start. -/
theorem startPlacement_cases (c : AgentConfig) (p : AcceptedPlacement) (now k : Nat)
    (s : AgentState H) :
    (∃ e w calls, FailedCalls c p.attemptId p.placementFence calls ∧
      (startPlacement c p now k).run s
        = .error e ((s.emits (.startPlacement p.attemptId k :: calls ++
            [.startFailed p.attemptId k e])).withWorld w)) ∨
    ∃ running w, Allowed c p.placementFence ∧
      (startPlacement c p now k).run s
        = .ok () (((s.emits [.startPlacement p.attemptId k,
            .driverStart p.attemptId p.placementFence true]).setLive p.attemptId
            (freshAttempt c p now k running)).withWorld w) := by
  rcases (Ambient.admitPlacement c p k).run_cases (s.emit (.startPlacement p.attemptId k)) with
    ⟨r, w, hadmitted⟩ | ⟨e, w, hadmitted⟩
  · have hallowed := allowed_of_admitPlacement hadmitted
    rcases driverStart_cases p r.1 ((s.emit (.startPlacement p.attemptId k)).withWorld w) with
      ⟨e, w', hstart⟩ | ⟨running, w', hstart⟩
    · rw [startPlacement_error ((run_bind_ok hadmitted).trans (run_bind_error hstart))]
      exact Or.inl ⟨.driver e, w', [.driverStart p.attemptId p.placementFence false],
        Or.inr ⟨rfl, hallowed⟩, by simp⟩
    · obtain ⟨w'', hinstall⟩ := installHiccup_run p r.2
        ((((s.emit (.startPlacement p.attemptId k)).withWorld w).emit
          (.driverStart p.attemptId p.placementFence true)).withWorld w')
      rw [startPlacement_ok ((run_bind_ok hadmitted).trans
        ((run_bind_ok hstart).trans ((run_bind_ok hinstall).trans rfl)))]
      exact Or.inr ⟨running, w'', hallowed, by simp⟩
  · rw [startPlacement_error (run_bind_error hadmitted)]
    exact Or.inl ⟨e, w, [], Or.inl rfl, by simp⟩

variable (id : AttemptId)

/-- Whatever its cleanup answers, the attempt is no longer live. -/
theorem cleanupLive_end (s : AgentState H) :
    ∃ w, endState ((cleanupLive id).run s) = (s.dropLive id).withWorld w := by
  unfold cleanupLive
  rw [run_bind_ok (onHost_run _ s), run_bind_ok (EStateM.run_get _)]
  generalize ((H.removeAttempt id).run s.world).2 = w
  cases hget : s.live.get id with
  | none =>
    refine ⟨w, ?_⟩
    simp [hget, AgentState.dropLive_of_get hget]
  | some a =>
    have hrest : ∀ m : AgentM H Unit, Ambient m →
        ∃ w', endState (m.run ((s.dropLive id).withWorld w)) = (s.dropLive id).withWorld w' := by
      intro m hm
      obtain ⟨w', hw'⟩ := hm ((s.dropLive id).withWorld w)
      exact ⟨w', hw'⟩
    simp only [AgentState.live_withWorld, hget, AgentState.withWorld_dropLive]
    rw [run_bind_ok (EStateM.run_set _ _)]
    cases a.running with
    | some handle => exact hrest _ (Ambient.tryHost _ _)
    | none => exact hrest _ (Ambient.tryHost _ _)

/-- The calls of a kill: none when the entry has no process. -/
def KillCalls (id : AttemptId) (a : LiveAttempt H) (cause : KillCause)
    (calls : List AgentEvent) : Prop :=
  a.running = none ∧ calls = [] ∨ a.running.isSome ∧ calls = [.kill id a.placementFence cause]

variable {a : LiveAttempt H}

/-- A kill never fails itself; it leaves the entry as it was but for the handle. -/
theorem killRunning_run (cause : KillCause) (hlive : s.live.get id = some a) :
    ∃ result running w calls, KillCalls id a cause calls ∧ running.isSome = a.running.isSome ∧
      (killRunning id a cause).run s
        = .ok result (((s.emits calls).setLive id (a.withRunning running)).withWorld w) := by
  unfold killRunning
  cases hrunning : a.running with
  | none =>
    have hsame : a.withRunning none = a := by rw [← hrunning]; rfl
    refine ⟨.ok (), none, s.world, [], Or.inl ⟨hrunning, rfl⟩, by simp, ?_⟩
    rw [hsame, AgentState.emits_nil, AgentState.setLive_of_get hlive]
    rfl
  | some handle =>
    exact ⟨_, _, _, [.kill id a.placementFence cause], Or.inr ⟨by simp [hrunning], rfl⟩,
      by simp, rfl⟩

/-- The calls by which a stop on request ends a process. -/
def IsStopCall (id : AttemptId) (fence : Nat) : AgentEvent → Prop
  | .terminate id' fence' => id' = id ∧ fence' = fence
  | .observed id' _ => id' = id
  | .kill id' fence' cause => id' = id ∧ fence' = fence ∧ (cause = .stop ∨ cause = .forced)
  | _ => False

theorem isStopCall_of_killCalls {id : AttemptId} {cause : KillCause} {calls : List AgentEvent}
    (h : KillCalls id a cause calls) (hcause : cause = .stop ∨ cause = .forced) :
    ∀ e ∈ calls, IsStopCall id a.placementFence e := by
  rcases h with ⟨_, rfl⟩ | ⟨_, rfl⟩
  · simp
  · simp [IsStopCall, hcause]

theorem raise_end (result : Except String Unit) (s : AgentState H) :
    endState ((raise result : AgentM H Unit).run s) = s := by
  cases result <;> rfl

/-- A stop of the process of a live entry leaves the entry as it was but for the
handle, and returns at once when there is no process. -/
theorem stopRunning_cases (hlive : s.live.get id = some a) :
    ∃ running w calls, (∀ e ∈ calls, IsStopCall id a.placementFence e) ∧
      running.isSome = a.running.isSome ∧
      endState ((stopRunning id a).run s)
        = ((s.emits calls).setLive id (a.withRunning running)).withWorld w := by
  unfold stopRunning
  cases hrunning : a.running with
  | none =>
    have hsame : a.withRunning none = a := by rw [← hrunning]; rfl
    refine ⟨none, s.world, [], by simp, by simp, ?_⟩
    rw [hsame, AgentState.emits_nil, AgentState.setLive_of_get hlive]
    rfl
  | some handle =>
    simp only [EStateM.run_bind, onHost_run, emit_run, EStateM.run_modify]
    generalize (H.terminate handle (min (max a.lifecycle.stopGraceMs 1) 5000)).run s.world = t
    simp only [AgentState.emit_eq, AgentState.withWorld_emits, AgentState.withWorld_setLive,
      AgentState.world_withWorld, AgentState.withWorld_withWorld]
    generalize (H.observe t.1).run t.2 = o
    obtain ⟨⟨result, handle'⟩, w⟩ := o
    cases result with
    | error e =>
      exact ⟨some handle', w, [.terminate id a.placementFence], by simp [IsStopCall],
        by simp, rfl⟩
    | ok obs =>
      cases hrun : obs.running with
      | false =>
        refine ⟨some handle', w, [.terminate id a.placementFence, .observed id obs],
          by simp [IsStopCall], by simp, ?_⟩
        simp [hrun]
      | true =>
        -- the kill finds the entry with the handle that the observation left
        have hentry : ((s.emits [.terminate id a.placementFence, .observed id obs]).setLive id
            (a.withRunning (some handle')) |>.withWorld w).live.get id
            = some (a.withRunning (some handle')) := by simp
        obtain ⟨killed, running, w', calls, hcalls, hsome, hkill⟩ := killRunning_run id .stop hentry
        refine ⟨running, w', [.terminate id a.placementFence, .observed id obs] ++ calls,
          ?_, by simpa using hsome, ?_⟩
        · intro e he
          rcases List.mem_append.mp he with he | he
          · rcases List.mem_pair.mp he with rfl | rfl <;> simp [IsStopCall]
          · exact isStopCall_of_killCalls hcalls (Or.inl rfl) e he
        · simp [hrun, hkill, raise_end]

/-! ## The acts -/

/-- Notes that a method was entered. -/
def AgentEvent.IsNote : AgentEvent → Prop
  | .observeOne _ => True
  | .tickChecks _ => True
  | _ => False

/-- What the exit policy makes of the exit of the live entry `a`, the world apart. -/
def settle (c : AgentConfig) (now : Nat) (id : AttemptId) (a : LiveAttempt H)
    (obs : Observation) (s : AgentState H) : AgentState H :=
  if a.lifecycleFinite ∧ obs.exitCode = some 0 then
    if c.authority.isIsolated then s.setLive id (succeed (exited a obs) obs.exitCode)
    else
      { s.dropLive id with
        completed := s.completed.insert id ()
        completionEvents := s.completionEvents.insert id () }
  else if a.lifecycle.retry.enabled ∧ a.attemptIndex < a.lifecycle.retry.maxAttempts ∧
      !c.authority.isIsolated then
    s.setLive id (awaitRestart id (exited a obs) obs.exitCode now)
  else s.setLive id (failPermanently (exited a obs) obs.exitCode)

/-- Where an exit was seen: the driver reported it, or the entry, already without
a process, remembers it. -/
def ExitSource (id : AttemptId) (a : LiveAttempt H) (obs : Observation)
    (events : List AgentEvent) : Prop :=
  a.running.isSome ∧ events = [.observed id obs] ∨
    a.running = none ∧ events = [] ∧ obs.exitCode = a.phase.exitCode

/-- The attempt that an event is about. -/
def AgentEvent.attempt : AgentEvent → AttemptId
  | .startPlacement id _ => id
  | .driverStart id _ _ => id
  | .startFailed id _ _ => id
  | .observeOne id => id
  | .observed id _ => id
  | .tickChecks id => id
  | .checked id _ _ _ _ _ => id
  | .livenessFailed id _ => id
  | .terminate id _ => id
  | .kill id _ _ => id
  | .acknowledged id => id

/-- What an operation wants: the attempts it is about, the attempts to keep, the
placements to start, whether it ends everything because the isolation grace has
expired, and its time. -/
structure Scope where
  on : AttemptId → Prop
  keep : AttemptId → Prop
  start : AcceptedPlacement → Prop
  expired : Prop
  now : Nat

/-- Look after one attempt at the time `now`: nothing is started or stopped. -/
def Scope.watching (id : AttemptId) (now : Nat) : Scope where
  on := fun id' => id' = id
  keep := fun _ => False
  start := fun _ => False
  expired := False
  now := now

/-- One act of an executor with configuration `c` in an operation of scope `o`. -/
inductive Act (c : AgentConfig) (o : Scope) : AgentState H → AgentState H → Prop
  | world {s : AgentState H} (w : W) : Act c o s (s.withWorld w)
  | note {s : AgentState H} {e : AgentEvent} (hon : o.on e.attempt) (he : e.IsNote) :
      Act c o s (s.emits [e])
  | prune {s : AgentState H} {keep : AttemptId → Bool} (hkeep : ∀ id, o.keep id → keep id = true) :
      Act c o s { s with
        completed := s.completed.retain fun id _ => keep id
        completionEvents := s.completionEvents.retain fun id _ => keep id }
  | startFails {s : AgentState H} {p : AcceptedPlacement} {calls : List AgentEvent}
      (e : AgentError) (w : W) (hon : o.on p.attemptId) (hF : o.start p)
      (hlive : s.live.get p.attemptId = none)
      (hcompleted : s.completed.get p.attemptId = none)
      (hcalls : FailedCalls c p.attemptId p.placementFence calls) :
      Act c o s ((s.emits (.startPlacement p.attemptId 1 :: calls ++
        [.startFailed p.attemptId 1 e])).withWorld w)
  | starts {s : AgentState H} {p : AcceptedPlacement} (running : H.Handle) (w : W)
      (hon : o.on p.attemptId) (hF : o.start p)
      (hlive : s.live.get p.attemptId = none) (hcompleted : s.completed.get p.attemptId = none)
      (hallowed : Allowed c p.placementFence) :
      Act c o s (((s.emits [.startPlacement p.attemptId 1,
        .driverStart p.attemptId p.placementFence true]).setLive p.attemptId
        (freshAttempt c p o.now 1 running)).withWorld w)
  | restartFails {s : AgentState H} {id : AttemptId} {a : LiveAttempt H} {after : Nat}
      {calls : List AgentEvent} (e : AgentError) (w : W) (hon : o.on id) (hD : o.keep id)
      (hconnected : c.authority.isIsolated = false)
      (hlive : s.live.get id = some a) (hphase : a.phase = .awaitingRestart after)
      (hcalls : FailedCalls c id a.placementFence calls) :
      Act c o s (((s.emits (.startPlacement id a.attemptIndex :: calls ++
        [.startFailed id a.attemptIndex e])).dropLive id).withWorld w)
  | restarts {s : AgentState H} {id : AttemptId} {a : LiveAttempt H} {after : Nat}
      (running : H.Handle) (w : W) (hon : o.on id) (hD : o.keep id)
      (hlive : s.live.get id = some a) (hphase : a.phase = .awaitingRestart after)
      (hallowed : Allowed c a.placementFence) :
      Act c o s (((s.emits [.startPlacement id a.attemptIndex,
        .driverStart id a.placementFence true]).setLive id
        (freshAttempt c (placementOf id a) o.now a.attemptIndex running)).withWorld w)
  | observeErrs {s : AgentState H} {id : AttemptId} {a : LiveAttempt H} (running : H.Handle)
      (w : W) (hon : o.on id) (hlive : s.live.get id = some a) (hrunning : a.running.isSome) :
      Act c o s ((s.setLive id (a.withRunning (some running))).withWorld w)
  | observesRunning {s : AgentState H} {id : AttemptId} {a : LiveAttempt H} {obs : Observation}
      (running : H.Handle) (w : W) (hon : o.on id) (hlive : s.live.get id = some a)
      (hrunning : a.running.isSome) (hparked : a.phase.isParked = false)
      (hobs : obs.running = true) :
      Act c o s (((s.emits [.observed id obs]).setLive id
        { a with running := some running, phase := .running, lastObs := some obs }).withWorld w)
  | exits {s : AgentState H} {id : AttemptId} {a : LiveAttempt H} {obs : Observation}
      {events : List AgentEvent} (w : W) (hon : o.on id) (hlive : s.live.get id = some a)
      (hparked : a.phase.isParked = false) (hobs : obs.running = false)
      (hsource : ExitSource id a obs events) :
      Act c o s ((settle c o.now id a obs (s.emits events)).withWorld w)
  | checksReadiness {s : AgentState H} {id : AttemptId} {a : LiveAttempt H} {spec : CheckSpec}
      {out : CheckOutcome} (w : W) (hon : o.on id) (hlive : s.live.get id = some a)
      (hphase : a.phase = .running) (hspec : a.lifecycle.readiness = some spec) :
      Act c o s (((s.emits [.checked id .readiness spec out a.readiness
        (recordReadiness a out.ok spec o.now).readiness]).setLive id
        (recordReadiness a out.ok spec o.now)).withWorld w)
  | checksLiveness {s : AgentState H} {id : AttemptId} {a : LiveAttempt H} {spec : CheckSpec}
      {out : CheckOutcome} (w : W) (hon : o.on id) (hlive : s.live.get id = some a)
      (hphase : a.phase = .running) (hspec : a.lifecycle.liveness = some spec)
      (hfine : livenessFailed (recordLiveness a out spec o.now) = false) :
      Act c o s (((s.emits [.checked id .liveness spec out a.liveness
        (recordLiveness a out spec o.now).liveness]).setLive id
        (recordLiveness a out spec o.now)).withWorld w)
  | livenessFails {s : AgentState H} {id : AttemptId} {a : LiveAttempt H} {spec : CheckSpec}
      {out : CheckOutcome} {kills : List AgentEvent} (w : W) (hon : o.on id)
        (hlive : s.live.get id = some a)
      (hphase : a.phase = .running) (hspec : a.lifecycle.liveness = some spec)
      (hfailed : livenessFailed (recordLiveness a out spec o.now) = true)
      (hallowed : Allowed c a.placementFence)
      (hkills : KillCalls id (recordLiveness a out spec o.now) .liveness kills) :
      Act c o s ((settle c o.now id (recordLiveness a out spec o.now) ⟨false, none⟩
        (s.emits (.checked id .liveness spec out a.liveness
          (recordLiveness a out spec o.now).liveness :: .livenessFailed id spec ::
            kills))).withWorld w)
  | stopFails {s : AgentState H} {id : AttemptId} {a : LiveAttempt H} {running : Option H.Handle}
      {calls : List AgentEvent} (w : W) (hon : o.on id) (hD : ¬ o.keep id)
        (hlive : s.live.get id = some a)
      (hallowed : Allowed c a.placementFence) (hrunning : running.isSome = a.running.isSome)
      (hcalls : ∀ e ∈ calls, IsStopCall id a.placementFence e) :
      Act c o s (((s.emits calls).setLive id (a.withRunning running)).withWorld w)
  | stops {s : AgentState H} {id : AttemptId} {a : LiveAttempt H} {calls : List AgentEvent}
      (w : W) (hon : o.on id) (hD : ¬ o.keep id) (hlive : s.live.get id = some a)
      (hallowed : Allowed c a.placementFence)
      (hcalls : ∀ e ∈ calls, IsStopCall id a.placementFence e) :
      Act c o s (((s.emits calls).dropLive id).withWorld w)
  | graceStops {s : AgentState H} {id : AttemptId} {a : LiveAttempt H} {kills : List AgentEvent}
      (w : W) (hon : o.on id) (hlive : s.live.get id = some a)
      (hexpired : o.expired) (hkills : KillCalls id a .grace kills) :
      Act c o s (((s.emits kills).dropLive id).withWorld w)

/-! ## What an act does to a live entry -/

section Entries

variable {c : AgentConfig} {o : Scope}

/-- What the exit policy leaves of a live entry: the contract and the counters of
its checks stay, the handle is gone, and the attempt counter moves with a retry. -/
structure Settled (a b : LiveAttempt H) : Prop where
  fence : b.placementFence = a.placementFence
  finite : b.lifecycleFinite = a.lifecycleFinite
  lifecycle : b.lifecycle = a.lifecycle
  running : b.running = none
  phase : b.phase ≠ .running
  readiness : b.readiness = a.readiness
  liveness : b.liveness = a.liveness
  retry : (∃ after, b.phase = .awaitingRestart after) ∧
      a.attemptIndex < a.lifecycle.retry.maxAttempts ∧
      b.attemptIndex = saturatingAdd32 a.attemptIndex 1 ∨
    (∀ after, b.phase ≠ .awaitingRestart after) ∧ b.attemptIndex = a.attemptIndex

theorem settled_succeed (a : LiveAttempt H) (obs : Observation) (exit : Option Int) :
    Settled a (succeed (exited a obs) exit) where
  fence := rfl
  finite := rfl
  lifecycle := rfl
  running := rfl
  phase := by simp [succeed]
  readiness := rfl
  liveness := rfl
  retry := Or.inr ⟨by simp [succeed], rfl⟩

theorem settled_failPermanently (a : LiveAttempt H) (obs : Observation) (exit : Option Int) :
    Settled a (failPermanently (exited a obs) exit) where
  fence := rfl
  finite := rfl
  lifecycle := rfl
  running := rfl
  phase := by simp [failPermanently]
  readiness := rfl
  liveness := rfl
  retry := Or.inr ⟨by simp [failPermanently], rfl⟩

variable {a : LiveAttempt H}

theorem settled_awaitRestart (h : a.attemptIndex < a.lifecycle.retry.maxAttempts) (id : AttemptId)
    (obs : Observation) (exit : Option Int) (now : Nat) :
    Settled a (awaitRestart id (exited a obs) exit now) where
  fence := rfl
  finite := rfl
  lifecycle := rfl
  running := rfl
  phase := by simp [awaitRestart]
  readiness := rfl
  liveness := rfl
  retry := Or.inl ⟨⟨_, rfl⟩, h, rfl⟩

variable {id id' : AttemptId} {b : LiveAttempt H} {s : AgentState H}

/-- The exit policy touches only the entry it settles. -/
theorem settle_live {obs : Observation} {now : Nat}
    (h : (settle c now id a obs s).live.get id' = some b) :
    s.live.get id' = some b ∨ id' = id ∧ Settled a b := by
  have hset : ∀ b', Settled a b' → (s.setLive id b').live.get id' = some b →
      s.live.get id' = some b ∨ id' = id ∧ Settled a b := by
    intro b' hb' hget
    rw [AgentState.live_setLive, OrdMap.get_insert] at hget
    split at hget
    · rename_i heq
      exact Or.inr ⟨heq, Option.some.inj hget ▸ hb'⟩
    · exact Or.inl hget
  unfold settle at h
  split at h
  · split at h
    · exact hset _ (settled_succeed _ _ _) h
    · have hget : (s.live.erase id).get id' = some b := h
      rw [OrdMap.get_erase] at hget
      split at hget
      · cases hget
      · exact Or.inl hget
  · split at h
    · rename_i hretry
      exact hset _ (settled_awaitRestart hretry.2.1 _ _ _ _) h
    · exact hset _ (settled_failPermanently _ _ _) h

theorem settle_live_of_ne (a : LiveAttempt H) (obs : Observation) (s : AgentState H) (now : Nat)
    (hne : id' ≠ id) : (settle c now id a obs s).live.get id' = s.live.get id' := by
  have hset : ∀ b, (s.setLive id b).live.get id' = s.live.get id' :=
    fun b => OrdMap.get_insert_of_ne _ _ hne
  unfold settle
  split
  · split
    · exact hset _
    · exact OrdMap.get_erase_of_ne _ hne
  · split <;> exact hset _

/-- How the live entry `b` of `id` comes from the state before an act: it was
there; a start or a restart made it; a driver call, an observation or a check
changed it; or its exit was settled. -/
inductive EntryChange (c : AgentConfig) (o : Scope) (s : AgentState H) (id : AttemptId)
    (b : LiveAttempt H) : Prop
  | same (h : s.live.get id = some b)
  | started {p : AcceptedPlacement} (running : H.Handle) (hF : o.start p) (hid : p.attemptId = id)
      (hb : b = freshAttempt c p o.now 1 running)
  | restarted {a : LiveAttempt H} (running : H.Handle) (hlive : s.live.get id = some a)
      (hb : b = freshAttempt c (placementOf id a) o.now a.attemptIndex running)
  | handled {a : LiveAttempt H} {running : Option H.Handle} (hlive : s.live.get id = some a)
      (hsome : running.isSome = a.running.isSome) (hb : b = a.withRunning running)
  | observed {a : LiveAttempt H} {obs : Observation} (running : H.Handle)
      (hlive : s.live.get id = some a) (hrunning : a.running.isSome)
      (hb : b = { a with running := some running, phase := .running, lastObs := some obs })
  | ready {a : LiveAttempt H} {spec : CheckSpec} {ok : Bool}
      (hlive : s.live.get id = some a) (hb : b = recordReadiness a ok spec o.now)
  | alive {a : LiveAttempt H} {spec : CheckSpec} {out : CheckOutcome}
      (hlive : s.live.get id = some a)
      (hfine : livenessFailed (recordLiveness a out spec o.now) = false)
      (hb : b = recordLiveness a out spec o.now)
  | settled {a : LiveAttempt H} (hlive : s.live.get id = some a) (hb : Settled a b)
  | killed {a : LiveAttempt H} {spec : CheckSpec} {out : CheckOutcome}
      (hlive : s.live.get id = some a) (hb : Settled (recordLiveness a out spec o.now) b)

/-- A lookup after one entry was bound. -/
theorem get_setLive_cases (h : (s.live.insert id a).get id' = some b) :
    s.live.get id' = some b ∨ id' = id ∧ b = a := by
  rw [OrdMap.get_insert] at h
  split at h
  · rename_i heq
    exact Or.inr ⟨heq, (Option.some.inj h).symm⟩
  · exact Or.inl h

variable {t : AgentState H}

theorem Act.entry_change (hact : Act c o s t) (h : t.live.get id = some b) :
    EntryChange c o s id b := by
  cases hact with
  | world w => exact .same h
  | note hon he => exact .same h
  | prune hkeep => exact .same h
  | startFails e w hon hF hlive hcompleted hcalls => exact .same h
  | starts running w hon hF hlive hcompleted hallowed =>
    rcases get_setLive_cases h with hsame | ⟨hid, hb⟩
    · exact .same hsame
    · exact .started running hF hid.symm hb
  | restartFails e w hon hD hconnected hlive hphase hcalls =>
    exact .same (OrdMap.get_of_get_erase h)
  | restarts running w hon hD hlive hphase hallowed =>
    rcases get_setLive_cases h with hsame | ⟨rfl, hb⟩
    · exact .same hsame
    · exact .restarted running hlive hb
  | observeErrs running w hon hlive hrunning =>
    rcases get_setLive_cases h with hsame | ⟨rfl, hb⟩
    · exact .same hsame
    · exact .handled hlive (by simp [hrunning]) hb
  | observesRunning running w hon hlive hrunning hparked hobs =>
    rcases get_setLive_cases h with hsame | ⟨rfl, hb⟩
    · exact .same hsame
    · exact .observed running hlive hrunning hb
  | exits w hon hlive hparked hobs hsource =>
    rcases settle_live h with hsame | ⟨rfl, hb⟩
    · exact .same hsame
    · exact .settled hlive hb
  | checksReadiness w hon hlive hphase hspec =>
    rcases get_setLive_cases h with hsame | ⟨rfl, hb⟩
    · exact .same hsame
    · exact .ready hlive hb
  | checksLiveness w hon hlive hphase hspec hfine =>
    rcases get_setLive_cases h with hsame | ⟨rfl, hb⟩
    · exact .same hsame
    · exact .alive hlive hfine hb
  | livenessFails w hon hlive hphase hspec hfailed hallowed hkills =>
    rcases settle_live h with hsame | ⟨rfl, hb⟩
    · exact .same hsame
    · exact .killed hlive hb
  | stopFails w hon hD hlive hallowed hrunning hcalls =>
    rcases get_setLive_cases h with hsame | ⟨rfl, hb⟩
    · exact .same hsame
    · exact .handled hlive hrunning hb
  | stops w hon hD hlive hallowed hcalls => exact .same (OrdMap.get_of_get_erase h)
  | graceStops w hon hlive hexpired hkills => exact .same (OrdMap.get_of_get_erase h)

/-- A live entry after an act stands for one before it with the same contract,
or for a placement just started. -/
theorem Act.entry_contract (hact : Act c o s t) (h : t.live.get id = some b) :
    (∃ a, s.live.get id = some a ∧ b.placementFence = a.placementFence ∧
      b.lifecycleFinite = a.lifecycleFinite ∧ b.lifecycle = a.lifecycle) ∨
    ∃ p, o.start p ∧ p.attemptId = id ∧ b.placementFence = p.placementFence ∧
      b.lifecycleFinite = p.lifecycleFinite ∧ b.lifecycle = p.lifecycle := by
  cases hact.entry_change h with
  | same h => exact Or.inl ⟨b, h, rfl, rfl, rfl⟩
  | started running hF hid hb => exact Or.inr ⟨_, hF, hid, by rw [hb]; exact ⟨rfl, rfl, rfl⟩⟩
  | restarted running hlive hb => exact Or.inl ⟨_, hlive, by rw [hb]; exact ⟨rfl, rfl, rfl⟩⟩
  | handled hlive hsome hb => exact Or.inl ⟨_, hlive, by rw [hb]; exact ⟨rfl, rfl, rfl⟩⟩
  | observed running hlive hrunning hb =>
    exact Or.inl ⟨_, hlive, by rw [hb]; exact ⟨rfl, rfl, rfl⟩⟩
  | ready hlive hb => exact Or.inl ⟨_, hlive, by rw [hb]; exact ⟨rfl, rfl, rfl⟩⟩
  | alive hlive hfine hb => exact Or.inl ⟨_, hlive, by rw [hb]; exact ⟨rfl, rfl, rfl⟩⟩
  | settled hlive hb => exact Or.inl ⟨_, hlive, hb.fence, hb.finite, hb.lifecycle⟩
  | killed hlive hb => exact Or.inl ⟨_, hlive, hb.fence, hb.finite, hb.lifecycle⟩

/-- An act leaves the attempts outside its scope alone. -/
theorem Act.frame (hact : Act c o s t) (hid : ¬ o.on id) : t.live.get id = s.live.get id := by
  have hset : ∀ (u : AgentState H) id' (b : LiveAttempt H), o.on id' →
      (u.live.insert id' b).get id = u.live.get id := by
    intro u id' b hon
    exact OrdMap.get_insert_of_ne _ _ fun heq => hid (heq ▸ hon)
  have hdrop : ∀ (u : AgentState H) id', o.on id' →
      (u.live.erase id').get id = u.live.get id := by
    intro u id' hon
    exact OrdMap.get_erase_of_ne _ fun heq => hid (heq ▸ hon)
  cases hact with
  | world w => rfl
  | note hon he => rfl
  | prune hkeep => rfl
  | startFails e w hon hF hlive hcompleted hcalls => rfl
  | starts running w hon hF hlive hcompleted hallowed => exact hset _ _ _ hon
  | restartFails e w hon hD hconnected hlive hphase hcalls => exact hdrop _ _ hon
  | restarts running w hon hD hlive hphase hallowed => exact hset _ _ _ hon
  | observeErrs running w hon hlive hrunning => exact hset _ _ _ hon
  | observesRunning running w hon hlive hrunning hparked hobs => exact hset _ _ _ hon
  | exits w hon hlive hparked hobs hsource =>
    exact settle_live_of_ne _ _ _ _ fun heq => hid (heq ▸ hon)
  | checksReadiness w hon hlive hphase hspec => exact hset _ _ _ hon
  | checksLiveness w hon hlive hphase hspec hfine => exact hset _ _ _ hon
  | livenessFails w hon hlive hphase hspec hfailed hallowed hkills =>
    exact settle_live_of_ne _ _ _ _ fun heq => hid (heq ▸ hon)
  | stopFails w hon hD hlive hallowed hrunning hcalls => exact hset _ _ _ hon
  | stops w hon hD hlive hallowed hcalls => exact hdrop _ _ hon
  | graceStops w hon hlive hexpired hkills => exact hdrop _ _ hon

end Entries

/-! ## What an act writes to the log -/

section Events

variable {c : AgentConfig} {o : Scope} {now : Nat}

@[simp] theorem settle_log (id : AttemptId) (a : LiveAttempt H) (obs : Observation)
    (s : AgentState H) : (settle c now id a obs s).log = s.log := by
  unfold settle
  split
  · split <;> rfl
  · split <;> rfl

/-- An attempt that the operation wants to keep or to start. -/
def Scope.Wanted (o : Scope) (id : AttemptId) : Prop :=
  o.keep id ∨ ∃ p, o.start p ∧ p.attemptId = id

/-- The guard under which a call of the driver is made, or a start is tried. -/
def Guarded (c : AgentConfig) (o : Scope) : AgentEvent → Prop
  | .startPlacement id _ => o.Wanted id
  | .driverStart id fence _ => Allowed c fence ∧ o.Wanted id
  | .startFailed id _ _ => o.Wanted id
  | .terminate _ fence => Allowed c fence
  | .kill _ _ .grace => o.expired
  | .kill _ fence _ => Allowed c fence
  | _ => True

variable {id : AttemptId}

theorem guarded_of_failedCalls {fence : Nat} {calls : List AgentEvent}
    (h : FailedCalls c id fence calls) (hon : o.on id) (hwanted : o.Wanted id) :
    ∀ e ∈ calls, o.on e.attempt ∧ Guarded c o e := by
  rcases h with rfl | ⟨rfl, hallowed⟩
  · simp
  · simp [Guarded, AgentEvent.attempt, hon, hallowed, hwanted]

theorem guarded_of_isStopCall {fence : Nat} {e : AgentEvent} (h : IsStopCall id fence e)
    (hon : o.on id) (hallowed : Allowed c fence) : o.on e.attempt ∧ Guarded c o e := by
  cases e with
  | terminate id' fence' => exact ⟨h.1 ▸ hon, h.2 ▸ hallowed⟩
  | observed id' obs => exact ⟨show o.on id' from h ▸ hon, trivial⟩
  | kill id' fence' cause =>
    obtain ⟨rfl, rfl, hcause⟩ := h
    rcases hcause with rfl | rfl <;> exact ⟨hon, hallowed⟩
  | _ => exact h.elim

theorem guarded_of_killCalls {a : LiveAttempt H} {cause : KillCause} {calls : List AgentEvent}
    (h : KillCalls id a cause calls) (hon : o.on id)
    (hguard : Guarded c o (.kill id a.placementFence cause)) :
    ∀ e ∈ calls, o.on e.attempt ∧ Guarded c o e := by
  rcases h with ⟨_, rfl⟩ | ⟨_, rfl⟩
  · simp
  · simp only [List.mem_singleton, forall_eq]
    exact ⟨hon, hguard⟩

/-- Every event of an act is about an attempt of its scope, and every call of the
driver among them is made under its guard. -/
theorem Act.guarded {s t : AgentState H} (hact : Act c o s t) :
    ∃ new, t.log = s.log ++ new ∧ ∀ e ∈ new, o.on e.attempt ∧ Guarded c o e := by
  cases hact with
  | world w => exact ⟨[], by simp, by simp⟩
  | @note e hon he =>
    refine ⟨[e], rfl, ?_⟩
    simp only [List.mem_singleton, forall_eq]
    refine ⟨hon, ?_⟩
    cases e <;> simp_all [AgentEvent.IsNote, Guarded]
  | prune hkeep => exact ⟨[], by simp, by simp⟩
  | @startFails p calls e w hon hF hlive hcompleted hcalls =>
    have hwanted : o.Wanted p.attemptId := Or.inr ⟨p, hF, rfl⟩
    have hguard := guarded_of_failedCalls hcalls hon hwanted
    refine ⟨_, rfl, ?_⟩
    simpa [Guarded, AgentEvent.attempt, or_imp, forall_and, hon, hwanted] using hguard
  | @starts p running w hon hF hlive hcompleted hallowed =>
    have hwanted : o.Wanted p.attemptId := Or.inr ⟨p, hF, rfl⟩
    exact ⟨_, rfl, by simp [Guarded, AgentEvent.attempt, hon, hallowed, hwanted]⟩
  | @restartFails id a after calls e w hon hD hconnected hlive hphase hcalls =>
    have hwanted : o.Wanted id := Or.inl hD
    have hguard := guarded_of_failedCalls hcalls hon hwanted
    refine ⟨_, rfl, ?_⟩
    simpa [Guarded, AgentEvent.attempt, or_imp, forall_and, hon, hwanted] using hguard
  | @restarts id a after running w hon hD hlive hphase hallowed =>
    have hwanted : o.Wanted id := Or.inl hD
    exact ⟨_, rfl, by simp [Guarded, AgentEvent.attempt, hon, hallowed, hwanted]⟩
  | observeErrs running w hon hlive hrunning => exact ⟨[], by simp, by simp⟩
  | observesRunning running w hon hlive hrunning hparked hobs =>
    exact ⟨_, rfl, by simp [Guarded, AgentEvent.attempt, hon]⟩
  | exits w hon hlive hparked hobs hsource =>
    refine ⟨_, by rw [AgentState.log_withWorld, settle_log]; rfl, ?_⟩
    rcases hsource with ⟨_, rfl⟩ | ⟨_, rfl, _⟩ <;> simp [Guarded, AgentEvent.attempt, hon]
  | checksReadiness w hon hlive hphase hspec =>
    exact ⟨_, rfl, by simp [Guarded, AgentEvent.attempt, hon]⟩
  | checksLiveness w hon hlive hphase hspec hfine =>
    exact ⟨_, rfl, by simp [Guarded, AgentEvent.attempt, hon]⟩
  | livenessFails w hon hlive hphase hspec hfailed hallowed hkills =>
    refine ⟨_, by rw [AgentState.log_withWorld, settle_log]; rfl, ?_⟩
    simp only [List.mem_cons, forall_eq_or_imp]
    exact ⟨⟨hon, trivial⟩, ⟨hon, trivial⟩, guarded_of_killCalls hkills hon hallowed⟩
  | stopFails w hon hD hlive hallowed hrunning hcalls =>
    exact ⟨_, rfl, fun e he => guarded_of_isStopCall (hcalls e he) hon hallowed⟩
  | stops w hon hD hlive hallowed hcalls =>
    exact ⟨_, rfl, fun e he => guarded_of_isStopCall (hcalls e he) hon hallowed⟩
  | graceStops w hon hlive hexpired hkills =>
    exact ⟨_, rfl, guarded_of_killCalls hkills hon hexpired⟩

/-- The events of a chain of acts are those of its acts. -/
theorem chain_guarded {s t : AgentState H} (h : Relation.ReflTransGen (Act c o) s t) :
    ∃ new, t.log = s.log ++ new ∧ ∀ e ∈ new, o.on e.attempt ∧ Guarded c o e := by
  induction h with
  | refl => exact ⟨[], by simp, by simp⟩
  | tail _ hact ih =>
    obtain ⟨past, hpast, hguard⟩ := ih
    obtain ⟨new, hnew, hguard'⟩ := hact.guarded
    refine ⟨past ++ new, by rw [hnew, hpast, List.append_assoc], ?_⟩
    intro e he
    rcases List.mem_append.mp he with he | he
    · exact hguard e he
    · exact hguard' e he

end Events

end Gump.Agent
