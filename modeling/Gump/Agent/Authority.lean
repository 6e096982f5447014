/-
  Agent/Authority.lean --- effects are fenced, and isolation only lets work end.

  Over every run of operations: a process is started, terminated or killed only
  for the live fence of an agent that is not isolated, but for the end of the
  isolation grace; while isolated a process disappears only because the driver
  reported its exit; and the pass that finds the grace expired leaves nothing
  live.
-/
import Mathlib.Algebra.GroupWithZero.Nat
import Gump.Agent.Chain

set_option autoImplicit false

namespace Gump.Agent

open Gump.Foundation Gump.Types

variable {W : Type} {H : AgentHost W} {c : AgentConfig} {o : Scope}

/-- A transition of an executor. -/
abbrev AgentTransition (H : AgentHost W) : Type :=
  Transition (EffectExecutor H) AgentOp (Except AgentError (List AttemptReport))

/-- The events that a transition appended to the log. -/
def AgentTransition.events (t : AgentTransition H) : List AgentEvent :=
  t.after.state.log.drop t.before.state.log.length

/-- The operation is a pass that finds the isolation grace expired. -/
def AgentTransition.graceExpired (t : AgentTransition H) : Bool :=
  match t.input with
  | .reconcile _ now =>
    isolationGraceExpired t.before.config.authority t.before.config.isolation now
  | _ => false

/-- Whether a process of the attempt is held. -/
def AgentState.Runs (s : AgentState H) (id : AttemptId) : Prop :=
  ∃ a, s.live.get id = some a ∧ a.running.isSome

/-- An event that changes a process: a start, a graceful stop or a kill. -/
def AgentEvent.IsEffect : AgentEvent → Prop
  | .driverStart _ _ _ => True
  | .terminate _ _ => True
  | .kill _ _ _ => True
  | _ => False

/-- What is asked of one effect: it is issued under the live fence while not
isolated, or it is the kill of the grace expiry. -/
def Fenced (t : AgentTransition H) : AgentEvent → Prop
  | .driverStart _ fence _ => Allowed t.before.config fence
  | .terminate _ fence => Allowed t.before.config fence
  | .kill _ fence cause =>
    if cause = .grace then t.graceExpired = true else Allowed t.before.config fence
  | _ => True

/-! ## Isolation -/

/-- Between `s` and `t` no process was touched, and each process that is gone was
reported as exited. -/
def OnlyExits (s t : AgentState H) : Prop :=
  ∃ new, t.log = s.log ++ new ∧ (∀ e ∈ new, ¬ e.IsEffect) ∧
    ∀ id, (t.Runs id → s.Runs id) ∧
      (s.Runs id → t.Runs id ∨ ∃ obs, .observed id obs ∈ new ∧ obs.running = false)

theorem OnlyExits.refl (s : AgentState H) : OnlyExits s s :=
  ⟨[], by simp, by simp, fun _ => ⟨fun h => h, Or.inl⟩⟩

variable {s t : AgentState H}

theorem OnlyExits.trans {u : AgentState H} (h₁ : OnlyExits s t) (h₂ : OnlyExits t u) :
    OnlyExits s u := by
  obtain ⟨new₁, hlog₁, heffect₁, hruns₁⟩ := h₁
  obtain ⟨new₂, hlog₂, heffect₂, hruns₂⟩ := h₂
  refine ⟨new₁ ++ new₂, by rw [hlog₂, hlog₁, List.append_assoc], ?_, ?_⟩
  · intro e he
    rcases List.mem_append.mp he with he | he
    · exact heffect₁ e he
    · exact heffect₂ e he
  · intro id
    refine ⟨fun h => (hruns₁ id).1 ((hruns₂ id).1 h), fun h => ?_⟩
    rcases (hruns₁ id).2 h with h | ⟨obs, hmem, hobs⟩
    · rcases (hruns₂ id).2 h with h | ⟨obs, hmem, hobs⟩
      · exact Or.inl h
      · exact Or.inr ⟨obs, List.mem_append_right _ hmem, hobs⟩
    · exact Or.inr ⟨obs, List.mem_append_left _ hmem, hobs⟩

variable {id : AttemptId} {a : LiveAttempt H}

/-- An entry bound in place of another with as much of a process keeps who runs. -/
theorem runs_setLive_iff {b : LiveAttempt H} (hlive : s.live.get id = some a)
    (hsome : b.running.isSome = a.running.isSome) (id' : AttemptId) :
    (s.setLive id b).Runs id' ↔ s.Runs id' := by
  unfold AgentState.Runs
  rw [AgentState.live_setLive, OrdMap.get_insert]
  split
  · rename_i heq
    rw [heq, hlive]
    simp [hsome]
  · rfl

/-- A binding without effects in its events that keeps who runs. -/
theorem onlyExits_setLive {b : LiveAttempt H} (hlive : s.live.get id = some a)
    (hsome : b.running.isSome = a.running.isSome) {events : List AgentEvent}
    (hevents : ∀ e ∈ events, ¬ e.IsEffect) (w : W) :
    OnlyExits s (((s.emits events).setLive id b).withWorld w) :=
  ⟨events, rfl, hevents, fun id' =>
    have hiff : ((s.emits events).setLive id b).Runs id' ↔ s.Runs id' :=
      runs_setLive_iff (s := s.emits events) hlive hsome id'
    ⟨hiff.mp, fun h => Or.inl (hiff.mpr h)⟩⟩

/-- A settled exit takes away the process of its attempt only, and the driver had
reported it gone. -/
theorem runs_settle {obs : Observation} {events : List AgentEvent} {now : Nat}
    (hlive : s.live.get id = some a) (hobs : obs.running = false)
    (hsource : ExitSource id a obs events) (id' : AttemptId) :
    ((settle c now id a obs (s.emits events)).Runs id' → s.Runs id') ∧
      (s.Runs id' → (settle c now id a obs (s.emits events)).Runs id' ∨
        ∃ obs', .observed id' obs' ∈ events ∧ obs'.running = false) := by
  by_cases hne : id' = id
  · subst hne
    constructor
    · rintro ⟨b, hb, hrunning⟩
      rcases settle_live hb with hsame | ⟨_, hsettled⟩
      · exact ⟨b, hsame, hrunning⟩
      · rw [hsettled.running] at hrunning
        cases hrunning
    · rintro ⟨b, hb, hrunning⟩
      right
      rcases hsource with ⟨_, rfl⟩ | ⟨hnone, _⟩
      · exact ⟨obs, by simp, hobs⟩
      · rw [Option.some.inj (hb.symm.trans hlive), hnone] at hrunning
        cases hrunning
  · unfold AgentState.Runs
    rw [settle_live_of_ne a obs _ now hne]
    exact ⟨fun h => h, Or.inl⟩

/-- Under isolation, before the grace expires, an act lets processes end but
touches none. -/
theorem Act.onlyExits (hisolated : c.authority.isIsolated = true) (hgrace : ¬ o.expired)
    (hact : Act c o s t) : OnlyExits s t := by
  have hdenied : ∀ fence, ¬ Allowed c fence := by
    intro fence hallowed
    rw [hallowed.2] at hisolated
    cases hisolated
  cases hact with
  | world w => exact OnlyExits.refl s
  | @note e hon he =>
    refine ⟨[e], rfl, ?_, fun _ => ⟨fun h => h, Or.inl⟩⟩
    cases e <;> simp_all [AgentEvent.IsNote, AgentEvent.IsEffect]
  | prune hkeep => exact OnlyExits.refl s
  | startFails e w hon hF hlive hcompleted hcalls =>
    rcases hcalls with rfl | ⟨_, hallowed⟩
    · exact ⟨_, rfl, by simp [AgentEvent.IsEffect], fun _ => ⟨fun h => h, Or.inl⟩⟩
    · exact (hdenied _ hallowed).elim
  | starts running w hon hF hlive hcompleted hallowed => exact (hdenied _ hallowed).elim
  | restartFails e w hon hD hconnected hlive hphase hcalls =>
    rw [hconnected] at hisolated
    cases hisolated
  | restarts running w hon hD hlive hphase hallowed => exact (hdenied _ hallowed).elim
  | observeErrs running w hon hlive hrunning =>
    have hnone : ∀ e ∈ ([] : List AgentEvent), ¬ e.IsEffect := by simp
    simpa using onlyExits_setLive (b := LiveAttempt.withRunning _ (some running)) hlive
      (by simp [hrunning]) hnone w
  | observesRunning running w hon hlive hrunning hparked hobs =>
    exact onlyExits_setLive hlive (by simp [hrunning]) (by simp [AgentEvent.IsEffect]) w
  | @exits id a obs events w hon hlive hparked hobs hsource =>
    refine ⟨events, by rw [AgentState.log_withWorld, settle_log]; rfl, ?_, ?_⟩
    · rcases hsource with ⟨_, rfl⟩ | ⟨_, rfl, _⟩ <;> simp [AgentEvent.IsEffect]
    · exact runs_settle hlive hobs hsource
  | checksReadiness w hon hlive hphase hspec =>
    refine onlyExits_setLive (b := recordReadiness _ _ _ _) hlive rfl ?_ w
    simp [AgentEvent.IsEffect]
  | checksLiveness w hon hlive hphase hspec hfine =>
    refine onlyExits_setLive (b := recordLiveness _ _ _ _) hlive rfl ?_ w
    simp [AgentEvent.IsEffect]
  | livenessFails w hon hlive hphase hspec hfailed hallowed hkills =>
    exact (hdenied _ hallowed).elim
  | stopFails w hon hD hlive hallowed hrunning hcalls => exact (hdenied _ hallowed).elim
  | stops w hon hD hlive hallowed hcalls => exact (hdenied _ hallowed).elim
  | graceStops w hon hlive hexpired hkills => exact (hgrace hexpired).elim

theorem chain_onlyExits (hisolated : c.authority.isIsolated = true) (hgrace : ¬ o.expired)
    (h : Relation.ReflTransGen (Act c o) s t) : OnlyExits s t := by
  induction h with
  | refl => exact OnlyExits.refl _
  | tail _ hact ih => exact ih.trans (hact.onlyExits hisolated hgrace)

/-! ## Grace expiry -/

/-- A stop at the end of the grace removes its attempt and adds none. -/
theorem live_of_forceStopCleanup (id : AttemptId) (s : AgentState H) :
    (endState ((forceStopCleanup id).run s)).live = s.live.erase id := by
  unfold forceStopCleanup
  rw [run_bind_ok (EStateM.run_get s)]
  cases hlive : s.live.get id with
  | none =>
    obtain ⟨w, hclean⟩ := cleanupLive_end id s
    simp only [hclean, AgentState.live_withWorld, AgentState.live_dropLive]
  | some a =>
    obtain ⟨result, running, w, kills, _, _, hkill⟩ := killRunning_run id .grace hlive
    obtain ⟨w', hclean⟩ := cleanupLive_end id
      (((s.emits kills).setLive id (a.withRunning running)).withWorld w)
    simp only
    rw [run_bind_ok hkill, hclean]
    simp

/-- Stopping a list of attempts leaves live only what is not in the list. -/
theorem live_of_stopEverything (ids : List AttemptId) (s : AgentState H) (id : AttemptId) :
    (endState ((stopEverything ids).run s)).live.get id
      = if id ∈ ids then none else s.live.get id := by
  induction ids generalizing s with
  | nil => simp [stopEverything]
  | cons x rest ih =>
    have hfirst : (ignoring (forceStopCleanup x) : AgentM H Unit).run s
        = .ok () (endState ((forceStopCleanup x).run s)) := rfl
    have hcons : (stopEverything (x :: rest)).run s
        = (stopEverything rest).run (endState ((forceStopCleanup x).run s)) := by
      unfold stopEverything
      rw [forM_cons_run, run_bind_ok hfirst]
    rw [hcons, ih, live_of_forceStopCleanup, OrdMap.get_erase]
    by_cases hx : id = x <;> simp [hx]

/-- The pass that finds the grace expired leaves nothing live. -/
theorem live_of_expired {c : AgentConfig} {desired : List AcceptedPlacement} {now : Nat}
    (hexpired : isolationGraceExpired c.authority c.isolation now = true) (s : AgentState H) :
    (endState ((reconcile c desired now).run s)).live = .empty := by
  have hend : endState ((reconcile c desired now).run s)
      = endState ((stopEverything s.live.keys).run s) := by
    unfold reconcile
    simp only [hexpired, if_true]
    rw [run_bind_ok (EStateM.run_get s)]
    cases h : (stopEverything s.live.keys).run s with
    | ok u t => rw [run_bind_ok h]; rfl
    | error e t => rw [run_bind_error h]; rfl
  rw [hend]
  apply OrdMap.ext_get
  intro id
  rw [live_of_stopEverything, OrdMap.get_empty]
  split
  · rfl
  · rename_i hid
    cases hget : s.live.get id with
    | none => rfl
    | some a => exact (hid (OrdMap.mem_keys_iff.mpr ⟨a, hget⟩)).elim

/-! ## Runs -/

/-- The events of a transition, by what its operation did to the log. -/
theorem events_of_log {t : AgentTransition H} {new : List AgentEvent}
    (h : t.after.state.log = t.before.state.log ++ new) : t.events = new := by
  simp [AgentTransition.events, h]

theorem fenced_of_guarded {t : AgentTransition H}
    (hscope : (t.input.scope t.before.config).expired ↔ t.graceExpired = true) {e : AgentEvent}
    (h : Guarded t.before.config (t.input.scope t.before.config) e) : Fenced t e := by
  cases e with
  | driverStart id fence ok => exact h.1
  | terminate id fence => exact h
  | kill id fence cause =>
    cases cause with
    | grace => exact hscope.mp h
    | _ => exact h
  | _ => trivial

/-- A transition finds the grace expired exactly when its scope says so. -/
theorem graceExpired_iff (t : AgentTransition H) :
    (t.input.scope t.before.config).expired ↔ t.graceExpired = true := by
  obtain ⟨x, op, result, y⟩ := t
  cases op <;> simp [AgentOp.scope, reconcileScope, AgentTransition.graceExpired]

/-- Effects are fenced and never happen under isolation: over every run of
operations and every host, each start, and each stop outside the grace expiry, is
made under the live fence while not isolated; while isolated and before the grace
expires a process disappears only after the driver reported its exit; and after
the grace expired nothing is live. -/
theorem effects_fenced (x : EffectExecutor H) (ops : List AgentOp)
    (t : AgentTransition H) (ht : t ∈ transitions EffectExecutor.step x ops) :
    (∀ e ∈ t.events, Fenced t e) ∧
    (t.before.config.authority.isIsolated = true → t.graceExpired = false →
      (∀ e ∈ t.events, ¬ e.IsEffect) ∧
      ∀ id, (t.after.state.Runs id → t.before.state.Runs id) ∧
        (t.before.state.Runs id → t.after.state.Runs id ∨
          ∃ obs, .observed id obs ∈ t.events ∧ obs.running = false)) ∧
    (t.graceExpired = true → t.after.state.live = .empty) := by
  obtain ⟨_, _, _, _, _, hafter⟩ := exists_split_of_mem_transitions ht
  obtain ⟨x, op, result, y⟩ := t
  simp only at hafter
  subst hafter
  have hscope := graceExpired_iff (⟨x, op, result, (x.step op).1⟩ : AgentTransition H)
  refine ⟨?_, ?_, ?_⟩
  · rcases x.step_chain op with ⟨id, rfl, hstate⟩ | hchain
    · rw [events_of_log (show _ = _ ++ [.acknowledged id] by rw [hstate])]
      simp [Fenced]
    · obtain ⟨new, hlog, hguard⟩ := chain_guarded hchain
      rw [events_of_log hlog]
      intro e he
      exact fenced_of_guarded hscope (hguard e he).2
  · intro hisolated hgrace
    have honly : OnlyExits x.state (x.step op).1.state := by
      rcases x.step_chain op with ⟨id, rfl, hstate⟩ | hchain
      · rw [hstate]
        exact ⟨[.acknowledged id], rfl, by simp [AgentEvent.IsEffect],
          fun _ => ⟨fun h => h, Or.inl⟩⟩
      · refine chain_onlyExits hisolated ?_ hchain
        intro hexpired
        rw [hscope.mp hexpired] at hgrace
        cases hgrace
    obtain ⟨new, hlog, heffects, hruns⟩ := honly
    rw [events_of_log hlog]
    exact ⟨heffects, hruns⟩
  · intro hexpired
    cases op with
    | reconcile desired now =>
      rw [EffectExecutor.step, EffectExecutor.perform_fst]
      exact live_of_expired hexpired x.state
    | _ => cases hexpired

/-- The first pass of an executor starts its placement under the live fence. -/
theorem effects_fenced_first_pass :
    .driverStart (Octets.fill 16 1) 1 true ∈ AgentTransition.events
      ⟨Script.executor {}, .reconcile [samplePlacement 1 false true {}] 0,
        ((Script.executor {}).step (.reconcile [samplePlacement 1 false true {}] 0)).2,
        ((Script.executor {}).step (.reconcile [samplePlacement 1 false true {}] 0)).1⟩ ∧
    ∀ e ∈ AgentTransition.events
      ⟨Script.executor {}, .reconcile [samplePlacement 1 false true {}] 0,
        ((Script.executor {}).step (.reconcile [samplePlacement 1 false true {}] 0)).2,
        ((Script.executor {}).step (.reconcile [samplePlacement 1 false true {}] 0)).1⟩,
      Fenced ⟨Script.executor {}, .reconcile [samplePlacement 1 false true {}] 0,
        ((Script.executor {}).step (.reconcile [samplePlacement 1 false true {}] 0)).2,
        ((Script.executor {}).step (.reconcile [samplePlacement 1 false true {}] 0)).1⟩ e :=
  ⟨by decide +kernel, (effects_fenced (Script.executor {})
    [.reconcile [samplePlacement 1 false true {}] 0] _ List.mem_cons_self).1⟩

end Gump.Agent
