/-
  Agent/View.lean --- one attempt seen alone.

  Most of what is asked of the executor is about one attempt.  Its view keeps the
  live entry of that attempt, whether it has completed, whether its completion is
  still to be announced, and the events about it.  The executor simulates, for
  each attempt, the machine of turns below: an act on another attempt is an idle
  turn, and an act on this one is a turn that says the same of the view.
-/
import Mathlib.Algebra.GroupWithZero.Nat
import Gump.Agent.Chain

set_option autoImplicit false

namespace Gump.Agent

open Gump.Foundation Gump.Types

variable {W : Type} {H : AgentHost W}

/-- Where a list split at an element lies within an appended list. -/
theorem split_append {α : Type} {x : α} {l new l₁ l₂ : List α} (h : l ++ new = l₁ ++ x :: l₂) :
    (∃ l₃, l = l₁ ++ x :: l₃ ∧ l₂ = l₃ ++ new) ∨ ∃ l₃, l₁ = l ++ l₃ ∧ new = l₃ ++ x :: l₂ := by
  rcases List.append_eq_append_iff.mp h with ⟨l₃, hl₁, hnew⟩ | ⟨l₃, hl, hrest⟩
  · exact Or.inr ⟨l₃, hl₁, hnew⟩
  · cases l₃ with
    | nil => exact Or.inr ⟨[], by simp [hl], hrest.symm⟩
    | cons y l₃ =>
      obtain ⟨rfl, htail⟩ := List.cons.inj hrest
      exact Or.inl ⟨l₃, hl, htail⟩

/-- What the state of an executor says of one attempt. -/
structure AttemptView (H : AgentHost W) where
  live : Option (LiveAttempt H)
  completed : Bool
  pending : Bool
  log : List AgentEvent

/-- The events about the attempt `id`. -/
def eventsOf (id : AttemptId) (log : List AgentEvent) : List AgentEvent :=
  log.filter fun e => decide (e.attempt = id)

theorem eventsOf_append (id : AttemptId) (l₁ l₂ : List AgentEvent) :
    eventsOf id (l₁ ++ l₂) = eventsOf id l₁ ++ eventsOf id l₂ := List.filter_append _ _

/-- The view of the attempt `id`. -/
def AgentState.view (s : AgentState H) (id : AttemptId) : AttemptView H where
  live := s.live.get id
  completed := s.completed.contains id
  pending := s.completionEvents.contains id
  log := eventsOf id s.log

namespace AttemptView

/-- Append to the events of the attempt. -/
def emits (v : AttemptView H) (es : List AgentEvent) : AttemptView H :=
  { v with log := v.log ++ es }

/-- The view with another live entry. -/
def withLive (v : AttemptView H) (live : Option (LiveAttempt H)) : AttemptView H :=
  { v with live := live }

/-- The exit policy on the view of its attempt. -/
def settle (c : AgentConfig) (now : Nat) (id : AttemptId) (a : LiveAttempt H)
    (obs : Observation) (v : AttemptView H) : AttemptView H :=
  if a.lifecycleFinite ∧ obs.exitCode = some 0 then
    if c.authority.isIsolated then v.withLive (some (succeed (exited a obs) obs.exitCode))
    else { v with live := none, completed := true, pending := true }
  else if a.lifecycle.retry.enabled ∧ a.attemptIndex < a.lifecycle.retry.maxAttempts ∧
      !c.authority.isIsolated then
    v.withLive (some (awaitRestart id (exited a obs) obs.exitCode now))
  else v.withLive (some (failPermanently (exited a obs) obs.exitCode))

section Fields

variable (v : AttemptView H) (es : List AgentEvent) (live : Option (LiveAttempt H))

@[simp] theorem live_emits : (v.emits es).live = v.live := rfl
@[simp] theorem completed_emits : (v.emits es).completed = v.completed := rfl
@[simp] theorem pending_emits : (v.emits es).pending = v.pending := rfl
@[simp] theorem log_emits : (v.emits es).log = v.log ++ es := rfl
@[simp] theorem live_withLive : (v.withLive live).live = live := rfl
@[simp] theorem completed_withLive : (v.withLive live).completed = v.completed := rfl
@[simp] theorem pending_withLive : (v.withLive live).pending = v.pending := rfl
@[simp] theorem log_withLive : (v.withLive live).log = v.log := rfl

end Fields

@[simp] theorem log_settle (c : AgentConfig) (now : Nat) (id : AttemptId) (a : LiveAttempt H)
    (obs : Observation) (v : AttemptView H) : (settle c now id a obs v).log = v.log := by
  unfold settle
  split
  · split <;> rfl
  · split <;> rfl

/-- The three ends of the exit policy: a finite success kept back, a finite success
recorded, and an entry that waits for its restart or has failed for good. -/
theorem settle_cases (c : AgentConfig) (now : Nat) (id : AttemptId) (a : LiveAttempt H)
    (obs : Observation) (v : AttemptView H) :
    (a.lifecycleFinite = true ∧ obs.exitCode = some 0 ∧ c.authority.isIsolated = true ∧
      settle c now id a obs v = v.withLive (some (succeed (exited a obs) obs.exitCode))) ∨
    (a.lifecycleFinite = true ∧ obs.exitCode = some 0 ∧ c.authority.isIsolated = false ∧
      settle c now id a obs v = { v with live := none, completed := true, pending := true }) ∨
    ¬ (a.lifecycleFinite = true ∧ obs.exitCode = some 0) ∧ ∃ b, Settled a b ∧
      b.phase.isParked = true ∧ settle c now id a obs v = v.withLive (some b) := by
  unfold settle
  by_cases hsuccess : a.lifecycleFinite = true ∧ obs.exitCode = some 0
  · rw [if_pos hsuccess]
    cases hisolated : c.authority.isIsolated with
    | true => exact Or.inl ⟨hsuccess.1, hsuccess.2, rfl, rfl⟩
    | false => exact Or.inr (Or.inl ⟨hsuccess.1, hsuccess.2, rfl, rfl⟩)
  · rw [if_neg hsuccess]
    refine Or.inr (Or.inr ⟨hsuccess, ?_⟩)
    split
    · rename_i hretry
      exact ⟨_, settled_awaitRestart hretry.2.1 id obs obs.exitCode now, rfl, rfl⟩
    · exact ⟨_, settled_failPermanently a obs obs.exitCode, rfl, rfl⟩

end AttemptView

/-- One turn of the attempt `id` in an operation of scope `o`. -/
inductive Turn (c : AgentConfig) (o : Scope) (id : AttemptId) :
    AttemptView H → AttemptView H → Prop
  | idle {v : AttemptView H} : Turn c o id v v
  | note {v : AttemptView H} {e : AgentEvent} (he : e.IsNote) : Turn c o id v (v.emits [e])
  | forget {v : AttemptView H} (hD : ¬ o.keep id) :
      Turn c o id v { v with completed := false, pending := false }
  | startFails {v : AttemptView H} {p : AcceptedPlacement} {calls : List AgentEvent}
      (e : AgentError) (hF : o.start p) (hid : p.attemptId = id) (hlive : v.live = none)
      (hcompleted : v.completed = false) (hcalls : FailedCalls c id p.placementFence calls) :
      Turn c o id v (v.emits (.startPlacement id 1 :: calls ++ [.startFailed id 1 e]))
  | starts {v : AttemptView H} {p : AcceptedPlacement} (running : H.Handle) (hF : o.start p)
      (hid : p.attemptId = id) (hlive : v.live = none) (hcompleted : v.completed = false)
      (hallowed : Allowed c p.placementFence) :
      Turn c o id v
        ((v.emits [.startPlacement id 1, .driverStart id p.placementFence true]).withLive
        (some (freshAttempt c p o.now 1 running)))
  | restartFails {v : AttemptView H} {a : LiveAttempt H} {after : Nat} {calls : List AgentEvent}
      (e : AgentError) (hD : o.keep id) (hconnected : c.authority.isIsolated = false)
      (hlive : v.live = some a) (hphase : a.phase = .awaitingRestart after)
      (hcalls : FailedCalls c id a.placementFence calls) :
      Turn c o id v ((v.emits (.startPlacement id a.attemptIndex :: calls ++
        [.startFailed id a.attemptIndex e])).withLive none)
  | restarts {v : AttemptView H} {a : LiveAttempt H} {after : Nat} (running : H.Handle)
      (hD : o.keep id) (hlive : v.live = some a) (hphase : a.phase = .awaitingRestart after)
      (hallowed : Allowed c a.placementFence) :
      Turn c o id v ((v.emits [.startPlacement id a.attemptIndex,
        .driverStart id a.placementFence true]).withLive
        (some (freshAttempt c (placementOf id a) o.now a.attemptIndex running)))
  | observeErrs {v : AttemptView H} {a : LiveAttempt H} (running : H.Handle)
      (hlive : v.live = some a) (hrunning : a.running.isSome) :
      Turn c o id v (v.withLive (some (a.withRunning (some running))))
  | observesRunning {v : AttemptView H} {a : LiveAttempt H} {obs : Observation}
      (running : H.Handle) (hlive : v.live = some a) (hrunning : a.running.isSome)
      (hparked : a.phase.isParked = false) (hobs : obs.running = true) :
      Turn c o id v ((v.emits [.observed id obs]).withLive
        (some { a with running := some running, phase := .running, lastObs := some obs }))
  | exits {v : AttemptView H} {a : LiveAttempt H} {obs : Observation} {events : List AgentEvent}
      (hlive : v.live = some a) (hparked : a.phase.isParked = false) (hobs : obs.running = false)
      (hsource : ExitSource id a obs events) :
      Turn c o id v (AttemptView.settle c o.now id a obs (v.emits events))
  | checksReadiness {v : AttemptView H} {a : LiveAttempt H} {spec : CheckSpec}
      {out : CheckOutcome} (hlive : v.live = some a) (hphase : a.phase = .running)
      (hspec : a.lifecycle.readiness = some spec) :
      Turn c o id v ((v.emits [.checked id .readiness spec out a.readiness
        (recordReadiness a out.ok spec o.now).readiness]).withLive
        (some (recordReadiness a out.ok spec o.now)))
  | checksLiveness {v : AttemptView H} {a : LiveAttempt H} {spec : CheckSpec}
      {out : CheckOutcome} (hlive : v.live = some a) (hphase : a.phase = .running)
      (hspec : a.lifecycle.liveness = some spec)
      (hfine : livenessFailed (recordLiveness a out spec o.now) = false) :
      Turn c o id v ((v.emits [.checked id .liveness spec out a.liveness
        (recordLiveness a out spec o.now).liveness]).withLive
        (some (recordLiveness a out spec o.now)))
  | livenessFails {v : AttemptView H} {a : LiveAttempt H} {spec : CheckSpec}
      {out : CheckOutcome} {kills : List AgentEvent} (hlive : v.live = some a)
      (hphase : a.phase = .running) (hspec : a.lifecycle.liveness = some spec)
      (hfailed : livenessFailed (recordLiveness a out spec o.now) = true)
      (hallowed : Allowed c a.placementFence)
      (hkills : KillCalls id (recordLiveness a out spec o.now) .liveness kills) :
      Turn c o id v (AttemptView.settle c o.now id (recordLiveness a out spec o.now) ⟨false, none⟩
        (v.emits (.checked id .liveness spec out a.liveness
          (recordLiveness a out spec o.now).liveness :: .livenessFailed id spec :: kills)))
  | stopFails {v : AttemptView H} {a : LiveAttempt H} {running : Option H.Handle}
      {calls : List AgentEvent} (hD : ¬ o.keep id) (hlive : v.live = some a)
      (hrunning : running.isSome = a.running.isSome)
      (hcalls : ∀ e ∈ calls, IsStopCall id a.placementFence e) :
      Turn c o id v ((v.emits calls).withLive (some (a.withRunning running)))
  | stops {v : AttemptView H} {a : LiveAttempt H} {calls : List AgentEvent} (hD : ¬ o.keep id)
      (hlive : v.live = some a) (hcalls : ∀ e ∈ calls, IsStopCall id a.placementFence e) :
      Turn c o id v ((v.emits calls).withLive none)
  | graceStops {v : AttemptView H} {a : LiveAttempt H} {kills : List AgentEvent}
      (hlive : v.live = some a) (hexpired : o.expired) (hkills : KillCalls id a .grace kills) :
      Turn c o id v ((v.emits kills).withLive none)

variable {c : AgentConfig} {id : AttemptId} {v : AttemptView H}

/-- What the exit policy leaves live is the entry it settled. -/
theorem AttemptView.settled_of_settle {now : Nat} {a b : LiveAttempt H} {obs : Observation}
    (h : (AttemptView.settle c now id a obs v).live = some b) : Settled a b := by
  rcases AttemptView.settle_cases c now id a obs v with ⟨_, _, _, hsettle⟩ | ⟨_, _, _, hsettle⟩ |
      ⟨_, b', hb', _, hsettle⟩
  · rw [hsettle] at h
    exact Option.some.inj h ▸ settled_succeed a obs obs.exitCode
  · rw [hsettle] at h
    cases h
  · rw [hsettle] at h
    exact Option.some.inj h ▸ hb'

variable {v' : AttemptView H}

/-- A turn only appends to the events. -/
theorem Turn.log_append {o : Scope} (hturn : Turn c o id v v') : ∃ new, v'.log = v.log ++ new := by
  cases hturn with
  | idle => exact ⟨[], by simp⟩
  | forget hD => exact ⟨[], by simp⟩
  | observeErrs running hlive hrunning => exact ⟨[], by simp⟩
  | exits hlive hparked hobs hsource => exact ⟨_, by rw [AttemptView.log_settle]; rfl⟩
  | livenessFails hlive hphase hspec hfailed hallowed hkills =>
    exact ⟨_, by rw [AttemptView.log_settle]; rfl⟩
  | _ => exact ⟨_, rfl⟩

/-- A live attempt, or one whose completion is to be announced, was started: before
(`B`), or among the events. -/
def AttemptView.Started (B : Prop) (id : AttemptId) (v : AttemptView H) : Prop :=
  v.live.isSome = true ∨ v.pending = true → B ∨ ∃ fence, .driverStart id fence true ∈ v.log

theorem AttemptView.Started.mono {B : Prop} (h : v.Started B id)
    (hlog : ∃ new, v'.log = v.log ++ new)
    (hengaged : v'.live.isSome = true ∨ v'.pending = true →
      v.live.isSome = true ∨ v.pending = true) : v'.Started B id := by
  intro hv'
  obtain ⟨new, hnew⟩ := hlog
  refine (h (hengaged hv')).imp_right ?_
  rintro ⟨fence, hmem⟩
  exact ⟨fence, by rw [hnew]; exact List.mem_append_left _ hmem⟩

/-- Only a successful start makes an attempt live, and only a live one is announced. -/
theorem Turn.started {B : Prop} {o : Scope} (hturn : Turn c o id v v') (h : v.Started B id) :
    v'.Started B id := by
  have hgrows := hturn.log_append
  cases hturn with
  | idle => exact h
  | note he => exact h.mono hgrows fun hv => hv
  | forget hD => exact h.mono hgrows fun hv => Or.inl (by simpa using hv)
  | startFails e hF hid hlive hcompleted hcalls => exact h.mono hgrows fun hv => hv
  | @starts p running hF hid hlive hcompleted hallowed =>
    exact fun _ => Or.inr ⟨p.placementFence, by simp⟩
  | restartFails e hD hconnected hlive hphase hcalls =>
    exact h.mono hgrows fun hv => Or.inr (by simpa using hv)
  | @restarts a after running hD hlive hphase hallowed =>
    exact fun _ => Or.inr ⟨a.placementFence, by simp⟩
  | stops hD hlive hcalls => exact h.mono hgrows fun _ => Or.inl (by simp [hlive])
  | stopFails hD hlive hrunning hcalls => exact h.mono hgrows fun _ => Or.inl (by simp [hlive])
  | graceStops hlive hexpired hkills => exact h.mono hgrows fun _ => Or.inl (by simp [hlive])
  | observeErrs running hlive hrunning => exact h.mono hgrows fun _ => Or.inl (by simp [hlive])
  | observesRunning running hlive hrunning hparked hobs =>
    exact h.mono hgrows fun _ => Or.inl (by simp [hlive])
  | exits hlive hparked hobs hsource => exact h.mono hgrows fun _ => Or.inl (by simp [hlive])
  | checksReadiness hlive hphase hspec => exact h.mono hgrows fun _ => Or.inl (by simp [hlive])
  | checksLiveness hlive hphase hspec hfine =>
    exact h.mono hgrows fun _ => Or.inl (by simp [hlive])
  | livenessFails hlive hphase hspec hfailed hallowed hkills =>
    exact h.mono hgrows fun _ => Or.inl (by simp [hlive])

/-! ## The executor simulates the turns -/

section Views

variable {c : AgentConfig} {o : Scope} {s t : AgentState H} {id id' : AttemptId}

variable {es : List AgentEvent}

/-- The events of one attempt among events about one attempt. -/
theorem filter_about (h : ∀ e ∈ es, e.attempt = id') :
    eventsOf id es = if id' = id then es else [] := by
  unfold eventsOf
  split
  · rename_i heq
    exact List.filter_eq_self.mpr fun e he => by simp [h e he, heq]
  · rename_i hne
    exact List.filter_eq_nil_iff.mpr fun e he => by simp [h e he, hne]

@[simp] theorem view_withWorld (s : AgentState H) (id : AttemptId) (w : W) :
    (s.withWorld w).view id = s.view id := rfl

/-- Events about the attempt reach its view. -/
theorem view_emits_self (h : ∀ e ∈ es, e.attempt = id) :
    (s.emits es).view id = (s.view id).emits es := by
  simp [AgentState.view, AttemptView.emits, eventsOf_append, filter_about h]

/-- Events about another attempt do not. -/
theorem view_emits_of_ne (h : ∀ e ∈ es, e.attempt = id') (hne : id' ≠ id) :
    (s.emits es).view id = s.view id := by
  simp [AgentState.view, eventsOf_append, filter_about h, hne]

@[simp] theorem view_setLive_self (s : AgentState H) (id : AttemptId) (a : LiveAttempt H) :
    (s.setLive id a).view id = (s.view id).withLive (some a) := by
  simp [AgentState.view, AttemptView.withLive]

theorem view_setLive_of_ne (a : LiveAttempt H) (hne : id' ≠ id) :
    (s.setLive id' a).view id = s.view id := by
  simp [AgentState.view, OrdMap.get_insert_of_ne _ _ hne.symm]

@[simp] theorem view_dropLive_self (s : AgentState H) (id : AttemptId) :
    (s.dropLive id).view id = (s.view id).withLive none := by
  simp [AgentState.view, AttemptView.withLive]

theorem view_dropLive_of_ne (hne : id' ≠ id) : (s.dropLive id').view id = s.view id := by
  simp [AgentState.view, OrdMap.get_erase_of_ne _ hne.symm]

theorem view_settle_self (c : AgentConfig) (now : Nat) (a : LiveAttempt H) (obs : Observation)
    (s : AgentState H) (id : AttemptId) :
    (settle c now id a obs s).view id = AttemptView.settle c now id a obs (s.view id) := by
  unfold settle AttemptView.settle
  split
  · split
    · simp
    · simp [AgentState.view, OrdMap.contains]
  · split <;> simp

variable {now : Nat} {a : LiveAttempt H} {obs : Observation}

theorem view_settle_of_ne (hne : id' ≠ id) : (settle c now id' a obs s).view id = s.view id := by
  unfold settle
  split
  · split
    · exact view_setLive_of_ne _ hne
    · simp [AgentState.view, OrdMap.contains, OrdMap.get_insert_of_ne _ _ hne.symm,
        OrdMap.get_erase_of_ne _ hne.symm]
  · split <;> exact view_setLive_of_ne _ hne

theorem attempt_of_failedCalls {k : Nat} {e : AgentError} {fence : Nat} {calls : List AgentEvent}
    (h : FailedCalls c id fence calls) :
    ∀ x ∈ .startPlacement id k :: calls ++ [.startFailed id k e], x.attempt = id := by
  rcases h with rfl | ⟨rfl, _⟩ <;> simp [AgentEvent.attempt]

theorem attempt_of_killCalls {cause : KillCause} {calls : List AgentEvent}
    (h : KillCalls id a cause calls) : ∀ x ∈ calls, x.attempt = id := by
  rcases h with ⟨_, rfl⟩ | ⟨_, rfl⟩ <;> simp [AgentEvent.attempt]

theorem attempt_of_isStopCall {fence : Nat} {e : AgentEvent} (h : IsStopCall id fence e) :
    e.attempt = id := by
  cases e <;> simp_all [IsStopCall, AgentEvent.attempt]

theorem attempt_of_exitSource {events : List AgentEvent} (h : ExitSource id a obs events) :
    ∀ x ∈ events, x.attempt = id := by
  rcases h with ⟨_, rfl⟩ | ⟨_, rfl, _⟩ <;> simp [AgentEvent.attempt]

variable {w : W}

/-- An act that binds an entry of another attempt leaves the view alone. -/
theorem view_setLive_emits_of_ne (h : ∀ e ∈ es, e.attempt = id') (hne : id' ≠ id) :
    (((s.emits es).setLive id' a).withWorld w).view id = s.view id := by
  rw [view_withWorld, view_setLive_of_ne _ hne, view_emits_of_ne h hne]

theorem view_dropLive_emits_of_ne (h : ∀ e ∈ es, e.attempt = id') (hne : id' ≠ id) :
    (((s.emits es).dropLive id').withWorld w).view id = s.view id := by
  rw [view_withWorld, view_dropLive_of_ne hne, view_emits_of_ne h hne]

theorem view_settle_emits_of_ne (h : ∀ e ∈ es, e.attempt = id') (hne : id' ≠ id) :
    ((settle c now id' a obs (s.emits es)).withWorld w).view id = s.view id := by
  rw [view_withWorld, view_settle_of_ne hne, view_emits_of_ne h hne]

/-- On its own attempt an act writes its events and its entry to the view. -/
theorem view_setLive_emits (h : ∀ e ∈ es, e.attempt = id) :
    (((s.emits es).setLive id a).withWorld w).view id
      = ((s.view id).emits es).withLive (some a) := by
  rw [view_withWorld, view_setLive_self, view_emits_self h]

theorem view_dropLive_emits (h : ∀ e ∈ es, e.attempt = id) :
    (((s.emits es).dropLive id).withWorld w).view id = ((s.view id).emits es).withLive none := by
  rw [view_withWorld, view_dropLive_self, view_emits_self h]

theorem view_settle_emits (h : ∀ e ∈ es, e.attempt = id) :
    ((settle c now id a obs (s.emits es)).withWorld w).view id
      = AttemptView.settle c now id a obs ((s.view id).emits es) := by
  rw [view_withWorld, view_settle_self, view_emits_self h]

theorem completed_view (hcompleted : s.completed.get id = none) :
    (s.view id).completed = false := OrdMap.contains_eq_false_iff.mpr hcompleted

/-- Every act is a turn of every attempt. -/
theorem Act.turn (hact : Act c o s t) (id : AttemptId) : Turn c o id (s.view id) (t.view id) := by
  cases hact with
  | world w => exact .idle
  | @note e hon he =>
    by_cases hid : e.attempt = id
    · rw [view_emits_self (by simpa using hid)]
      exact .note he
    · rw [view_emits_of_ne (by simp) hid]
      exact .idle
  | @prune keep hkeep =>
    cases hid : keep id with
    | true =>
      have hview : AgentState.view { s with
          completed := s.completed.retain fun id _ => keep id
          completionEvents := s.completionEvents.retain fun id _ => keep id } id
          = s.view id := by
        have hretain : ∀ m : OrdSet AttemptId,
            (m.retain fun id _ => keep id).get id = m.get id := by
          intro m
          rw [OrdMap.get_retain]
          cases m.get id <;> simp [hid]
        simp [AgentState.view, OrdMap.contains, hretain]
      rw [hview]
      exact .idle
    | false =>
      have hretain : ∀ m : OrdSet AttemptId, (m.retain fun id _ => keep id).get id = none := by
        intro m
        rw [OrdMap.get_retain]
        cases m.get id <;> simp [hid]
      have hview : AgentState.view { s with
          completed := s.completed.retain fun id _ => keep id
          completionEvents := s.completionEvents.retain fun id _ => keep id } id
          = { s.view id with completed := false, pending := false } := by
        simp [AgentState.view, OrdMap.contains, hretain]
      rw [hview]
      refine .forget fun hD => ?_
      rw [hkeep id hD] at hid
      cases hid
  | @startFails p calls e w hon hF hlive hcompleted hcalls =>
    by_cases hid : p.attemptId = id
    · subst hid
      rw [view_withWorld, view_emits_self (attempt_of_failedCalls hcalls)]
      exact .startFails e hF rfl hlive (completed_view hcompleted) hcalls
    · rw [view_withWorld, view_emits_of_ne (attempt_of_failedCalls hcalls) hid]
      exact .idle
  | @starts p running w hon hF hlive hcompleted hallowed =>
    by_cases hid : p.attemptId = id
    · subst hid
      rw [view_setLive_emits (by simp [AgentEvent.attempt])]
      exact .starts running hF rfl hlive (completed_view hcompleted) hallowed
    · rw [view_setLive_emits_of_ne (by simp [AgentEvent.attempt]) hid]
      exact .idle
  | @restartFails id' a after calls e w hon hD hconnected hlive hphase hcalls =>
    by_cases hid : id' = id
    · subst hid
      rw [view_dropLive_emits (attempt_of_failedCalls hcalls)]
      exact .restartFails e hD hconnected hlive hphase hcalls
    · rw [view_dropLive_emits_of_ne (attempt_of_failedCalls hcalls) hid]
      exact .idle
  | @restarts id' a after running w hon hD hlive hphase hallowed =>
    by_cases hid : id' = id
    · subst hid
      rw [view_setLive_emits (by simp [AgentEvent.attempt])]
      exact .restarts running hD hlive hphase hallowed
    · rw [view_setLive_emits_of_ne (by simp [AgentEvent.attempt]) hid]
      exact .idle
  | @observeErrs id' a running w hon hlive hrunning =>
    by_cases hid : id' = id
    · subst hid
      rw [view_withWorld, view_setLive_self]
      exact .observeErrs running hlive hrunning
    · rw [view_withWorld, view_setLive_of_ne _ hid]
      exact .idle
  | @observesRunning id' a obs running w hon hlive hrunning hparked hobs =>
    by_cases hid : id' = id
    · subst hid
      rw [view_setLive_emits (by simp [AgentEvent.attempt])]
      exact .observesRunning running hlive hrunning hparked hobs
    · rw [view_setLive_emits_of_ne (by simp [AgentEvent.attempt]) hid]
      exact .idle
  | @exits id' a obs events w hon hlive hparked hobs hsource =>
    by_cases hid : id' = id
    · subst hid
      rw [view_settle_emits (attempt_of_exitSource hsource)]
      exact .exits hlive hparked hobs hsource
    · rw [view_settle_emits_of_ne (attempt_of_exitSource hsource) hid]
      exact .idle
  | @checksReadiness id' a spec out w hon hlive hphase hspec =>
    by_cases hid : id' = id
    · subst hid
      rw [view_setLive_emits (by simp [AgentEvent.attempt])]
      exact .checksReadiness hlive hphase hspec
    · rw [view_setLive_emits_of_ne (by simp [AgentEvent.attempt]) hid]
      exact .idle
  | @checksLiveness id' a spec out w hon hlive hphase hspec hfine =>
    by_cases hid : id' = id
    · subst hid
      rw [view_setLive_emits (by simp [AgentEvent.attempt])]
      exact .checksLiveness hlive hphase hspec hfine
    · rw [view_setLive_emits_of_ne (by simp [AgentEvent.attempt]) hid]
      exact .idle
  | @livenessFails id' a spec out kills w hon hlive hphase hspec hfailed hallowed hkills =>
    have habout : ∀ x ∈ .checked id' .liveness spec out a.liveness
        (recordLiveness a out spec o.now).liveness :: .livenessFailed id' spec :: kills,
        x.attempt = id' := by
      simpa [AgentEvent.attempt] using attempt_of_killCalls hkills
    by_cases hid : id' = id
    · subst hid
      rw [view_settle_emits habout]
      exact .livenessFails hlive hphase hspec hfailed hallowed hkills
    · rw [view_settle_emits_of_ne habout hid]
      exact .idle
  | @stopFails id' a running calls w hon hD hlive hallowed hrunning hcalls =>
    by_cases hid : id' = id
    · subst hid
      rw [view_setLive_emits fun e he => attempt_of_isStopCall (hcalls e he)]
      exact .stopFails hD hlive hrunning hcalls
    · rw [view_setLive_emits_of_ne (fun e he => attempt_of_isStopCall (hcalls e he)) hid]
      exact .idle
  | @stops id' a calls w hon hD hlive hallowed hcalls =>
    by_cases hid : id' = id
    · subst hid
      rw [view_dropLive_emits fun e he => attempt_of_isStopCall (hcalls e he)]
      exact .stops hD hlive hcalls
    · rw [view_dropLive_emits_of_ne (fun e he => attempt_of_isStopCall (hcalls e he)) hid]
      exact .idle
  | @graceStops id' a kills w hon hlive hexpired hkills =>
    by_cases hid : id' = id
    · subst hid
      rw [view_dropLive_emits (attempt_of_killCalls hkills)]
      exact .graceStops hlive hexpired hkills
    · rw [view_dropLive_emits_of_ne (attempt_of_killCalls hkills) hid]
      exact .idle

/-- A chain of acts is a chain of turns of every attempt. -/
theorem chain_turn (h : Relation.ReflTransGen (Act c o) s t) (id : AttemptId) :
    Relation.ReflTransGen (Turn c o id) (s.view id) (t.view id) :=
  h.lift (AgentState.view · id) fun _ _ hact => hact.turn id

end Views

/-! ## Runs of operations -/

/-- The view after the completion of `id'` was acknowledged. -/
def AttemptView.acknowledge (v : AttemptView H) (id : AttemptId) : AttemptView H :=
  { v with pending := false, log := v.log ++ [.acknowledged id] }

/-- What an operation is to one attempt: an acknowledgement, or turns of its
scope under the configuration it started with. -/
theorem EffectExecutor.step_view (x : EffectExecutor H) (op : AgentOp) (id : AttemptId) :
    (op = .acknowledgeCompletion id ∧
      (x.step op).1.state.view id = (x.state.view id).acknowledge id) ∨
    Relation.ReflTransGen (Turn x.config (op.scope x.config) id) (x.state.view id)
      ((x.step op).1.state.view id) := by
  rcases x.step_chain op with ⟨id', rfl, hstate⟩ | hchain
  · rw [hstate]
    by_cases hid : id' = id
    · subst hid
      left
      simp [AgentState.view, AttemptView.acknowledge, OrdMap.contains, eventsOf, AgentEvent.attempt]
    · right
      have hview : AgentState.view { x.state with
          completionEvents := x.state.completionEvents.erase id'
          log := x.state.log ++ [.acknowledged id'] } id = x.state.view id := by
        simp [AgentState.view, OrdMap.contains, OrdMap.get_erase_of_ne _ (Ne.symm hid),
          eventsOf, AgentEvent.attempt, hid]
      rw [hview]
  · exact Or.inr (chain_turn hchain id)

end Gump.Agent
