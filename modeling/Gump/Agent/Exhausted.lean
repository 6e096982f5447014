/-
  Agent/Exhausted.lean --- what a permanent failure says about retries.

  The exit policy gives up on an attempt when its retries are spent, and also when
  the agent is isolated at that moment, whatever is left of them.  So a permanent
  failure means that the retries are spent as long as no isolated pass is told by
  the driver of the failed exit of an attempt that may still run again.

  The proof follows one attempt through the turns of an operation, relative to its
  view before the operation (`Since`): an isolated agent starts nothing, so the
  entry that is settled has the contract and the index that it had before.
-/
import Gump.Agent.Authority
import Gump.Agent.View

set_option autoImplicit false

namespace Gump.Agent

open Gump.Foundation Gump.Types

variable {W : Type} {H : AgentHost W} {c : AgentConfig} {o : Scope} {id : AttemptId}
  {v₀ v v' : AttemptView H}

namespace LiveAttempt

/-- The attempt may not run again: no retry is declared, or all are used. -/
def Spent (a : LiveAttempt H) : Prop :=
  a.lifecycle.retry.enabled = false ∨ a.lifecycle.retry.maxAttempts ≤ a.attemptIndex

/-- The driver reports a process that is gone, and not by the success of a finite
workload. -/
def FailsWith (a : LiveAttempt H) (obs : Observation) : Prop :=
  obs.running = false ∧ ¬ (a.lifecycleFinite = true ∧ obs.exitCode = some 0)

/-- The attempt has spent its retries if the event reports its failed exit. -/
def ExitSpent (a : LiveAttempt H) (id : AttemptId) : AgentEvent → Prop
  | .observed id' obs => id' = id → a.FailsWith obs → a.Spent
  | _ => True

instance (a : LiveAttempt H) : Decidable a.Spent := inferInstanceAs (Decidable (_ ∨ _))

instance (a : LiveAttempt H) (obs : Observation) : Decidable (a.FailsWith obs) :=
  inferInstanceAs (Decidable (_ ∧ ¬ _))

instance (a : LiveAttempt H) (id : AttemptId) : (e : AgentEvent) → Decidable (a.ExitSpent id e)
  | .observed _ _ => inferInstanceAs (Decidable (_ → _ → _))
  | .startPlacement .. | .driverStart .. | .startFailed .. | .observeOne .. | .tickChecks ..
  | .checked .. | .livenessFailed .. | .terminate .. | .kill .. | .acknowledged .. =>
    .isTrue trivial

/-- The entry has the contract and the index of another one. -/
structure Continues (a b : LiveAttempt H) : Prop where
  lifecycle : b.lifecycle = a.lifecycle
  finite : b.lifecycleFinite = a.lifecycleFinite
  index : b.attemptIndex = a.attemptIndex

theorem Continues.trans {a b d : LiveAttempt H} (h : a.Continues b) (h' : b.Continues d) :
    a.Continues d :=
  ⟨h'.lifecycle.trans h.lifecycle, h'.finite.trans h.finite, h'.index.trans h.index⟩

theorem Continues.spent {a b : LiveAttempt H} (h : a.Continues b) (ha : a.Spent) : b.Spent := by
  unfold Spent
  rw [h.lifecycle, h.index]
  exact ha

end LiveAttempt

open LiveAttempt

/-- An attempt without a process is parked or remembers the success of a finite workload. -/
def AttemptView.Remembers (v : AttemptView H) : Prop :=
  ∀ a, v.live = some a → a.running = none → a.phase.isParked = false →
    a.lifecycleFinite = true ∧ a.phase.exitCode = some 0

/-- An attempt that has failed for good has spent its retries. -/
def AttemptView.FailedSpent (v : AttemptView H) : Prop :=
  ∀ a, v.live = some a → a.phase = .permanentFailure → a.Spent

/-- Where an attempt whose view was `v₀` stands some turns later: an isolated agent has
started nothing, and a permanent failure has spent its retries, provided that every failed
exit that an isolated agent was told of had. -/
structure AttemptView.Since (c : AgentConfig) (id : AttemptId) (v₀ v : AttemptView H) : Prop where
  gone : v.Remembers
  continues : c.authority.isIsolated = true → ∀ b, v.live = some b →
    ∃ a, v₀.live = some a ∧ a.Continues b
  failed : ∃ new, v.log = v₀.log ++ new ∧
    ((c.authority.isIsolated = true → ∀ a, v₀.live = some a → ∀ e ∈ new, a.ExitSpent id e) →
      v.FailedSpent)

namespace AttemptView.Since

theorem refl (hgone : v.Remembers) (hfailed : v.FailedSpent) : v.Since c id v :=
  ⟨hgone, fun _ b hb => ⟨b, hb, rfl, rfl, rfl⟩, [], (List.append_nil _).symm, fun _ => hfailed⟩

/-- The entry is gone, and events have been added. -/
theorem dropped (h : v₀.Since c id v) (hlive : v'.live = none)
    (hlog : ∃ es, v'.log = v.log ++ es) : v₀.Since c id v' := by
  obtain ⟨new, hnew, -⟩ := h.failed
  obtain ⟨es, hes⟩ := hlog
  exact ⟨by simp [Remembers, hlive], by simp [hlive], new ++ es,
    by rw [hes, hnew, List.append_assoc], by simp [FailedSpent, hlive]⟩

/-- An entry with the same contract, index and phase, and a process as before. -/
theorem entry (h : v₀.Since c id v) {a b : LiveAttempt H} (hlive : v.live = some a)
    (hlive' : v'.live = some b) (hphase : b.phase = a.phase) (hsame : a.Continues b)
    (hrunning : b.running.isSome = a.running.isSome) (hlog : ∃ es, v'.log = v.log ++ es) :
    v₀.Since c id v' := by
  obtain ⟨new, hnew, hfailed⟩ := h.failed
  obtain ⟨es, hes⟩ := hlog
  refine ⟨fun b' hb' => ?_, fun hisolated b' hb' => ?_, new ++ es,
    by rw [hes, hnew, List.append_assoc], fun hspent b' hb' hpermanent => ?_⟩
  all_goals obtain rfl := Option.some.inj (hlive'.symm.trans hb')
  · intro hnone hparked
    have hgone : a.running = none := by
      rw [hnone] at hrunning
      exact Option.isSome_eq_false_iff.mp hrunning.symm |> Option.isNone_iff_eq_none.mp
    rw [hphase, hsame.finite]
    exact h.gone a hlive hgone (hphase ▸ hparked)
  · obtain ⟨a₀, ha₀, hcontinues⟩ := h.continues hisolated a hlive
    exact ⟨a₀, ha₀, hcontinues.trans hsame⟩
  · refine hsame.spent (hfailed (fun hisolated a₀ ha₀ e he => ?_) a hlive (hphase ▸ hpermanent))
    exact hspent hisolated a₀ ha₀ e (List.mem_append_left _ he)

/-- Only events have been added. -/
theorem unmoved (h : v₀.Since c id v) (hlive : v'.live = v.live)
    (hlog : ∃ es, v'.log = v.log ++ es) : v₀.Since c id v' := by
  cases hentry : v.live with
  | none => exact h.dropped (hlive.trans hentry) hlog
  | some a => exact h.entry hentry (hlive.trans hentry) rfl ⟨rfl, rfl, rfl⟩ rfl hlog

/-- A new entry.  What an isolated agent was told by the new events may be used to show that
its permanent failure has spent its retries. -/
theorem fresh (h : v₀.Since c id v) {b : LiveAttempt H} {es : List AgentEvent}
    (hlive : v'.live = some b) (hlog : v'.log = v.log ++ es)
    (hgone : b.running = none → b.phase.isParked = false →
      b.lifecycleFinite = true ∧ b.phase.exitCode = some 0)
    (hcontinues : c.authority.isIsolated = true → ∃ a, v₀.live = some a ∧ a.Continues b)
    (hfailed : b.phase = .permanentFailure → (c.authority.isIsolated = true →
      ∀ a, v₀.live = some a → ∀ e ∈ es, a.ExitSpent id e) → b.Spent) : v₀.Since c id v' := by
  obtain ⟨new, hnew, -⟩ := h.failed
  refine ⟨fun b' hb' => ?_, fun hisolated b' hb' => ?_, new ++ es,
    by rw [hlog, hnew, List.append_assoc], fun hspent b' hb' hpermanent => ?_⟩
  all_goals obtain rfl := Option.some.inj (hlive.symm.trans hb')
  · exact hgone
  · exact hcontinues hisolated
  · exact hfailed hpermanent fun hisolated a ha e he =>
      hspent hisolated a ha e (List.mem_append_right _ he)

/-- A running entry, of an agent that is connected or did not start it. -/
theorem running (h : v₀.Since c id v) {b : LiveAttempt H} {es : List AgentEvent}
    (hlive : v'.live = some b) (hlog : v'.log = v.log ++ es) (hrunning : b.running.isSome)
    (hphase : b.phase = .running)
    (hcontinues : c.authority.isIsolated = true → ∃ a, v₀.live = some a ∧ a.Continues b) :
    v₀.Since c id v' := by
  refine h.fresh hlive hlog (fun hnone => ?_) hcontinues fun hpermanent => ?_
  · rw [hnone] at hrunning
    cases hrunning
  · rw [hphase] at hpermanent
    cases hpermanent

/-- The exit policy of an entry that continues the one before the operation.  `hspent` is what
an isolated agent has to know of a failed exit. -/
theorem settled (h : v₀.Since c id v) {a : LiveAttempt H} {obs : Observation}
    {events : List AgentEvent} (now : Nat)
    (hcontinues : c.authority.isIsolated = true → ∃ a₀, v₀.live = some a₀ ∧ a₀.Continues a)
    (hspent : c.authority.isIsolated = true → ¬ (a.lifecycleFinite = true ∧ obs.exitCode = some 0) →
      (∀ a₀, v₀.live = some a₀ → ∀ e ∈ events, a₀.ExitSpent id e) → a.Spent) :
    v₀.Since c id (AttemptView.settle c now id a obs (v.emits events)) := by
  have hsame : ∀ b : LiveAttempt H, a.Continues b → c.authority.isIsolated = true →
      ∃ a₀, v₀.live = some a₀ ∧ a₀.Continues b := by
    intro b hb hisolated
    obtain ⟨a₀, ha₀, hcontinued⟩ := hcontinues hisolated
    exact ⟨a₀, ha₀, hcontinued.trans hb⟩
  unfold AttemptView.settle
  split
  · next hsuccess =>
    split
    · refine h.fresh rfl rfl (fun _ _ => hsuccess) (hsame _ ⟨rfl, rfl, rfl⟩) fun hphase => ?_
      cases hphase
    · exact h.dropped rfl ⟨events, rfl⟩
  · next hfails =>
    split
    · next hretry =>
      refine h.fresh rfl rfl (fun _ hparked => ?_) (fun hisolated => ?_) fun hphase => ?_
      · cases hparked
      · simp [hisolated] at hretry
      · cases hphase
    · next hover =>
      refine h.fresh rfl rfl (fun _ hparked => ?_) (hsame _ ⟨rfl, rfl, rfl⟩) fun _ hexits => ?_
      · cases hparked
      · cases hisolated : c.authority.isIsolated with
        | true => exact hspent hisolated hfails (hexits hisolated)
        | false =>
          simp only [hisolated, Bool.not_false, and_true, not_and, Nat.not_lt] at hover
          cases henabled : a.lifecycle.retry.enabled with
          | true => exact .inr (hover henabled)
          | false => exact .inl henabled

end AttemptView.Since

theorem Turn.since (hturn : Turn c o id v v') (h : v₀.Since c id v) : v₀.Since c id v' := by
  have hlog := hturn.log_append
  cases hturn with
  | idle => exact h
  | note he => exact h.unmoved rfl hlog
  | forget hD => exact h.unmoved rfl hlog
  | startFails e hF hid hlive hcompleted hcalls => exact h.dropped hlive hlog
  | starts running hF hid hlive hcompleted hallowed =>
    exact h.running rfl rfl rfl rfl fun hisolated => by simp [hallowed.2] at hisolated
  | restartFails e hD hconnected hlive hphase hcalls => exact h.dropped rfl hlog
  | restarts running hD hlive hphase hallowed =>
    exact h.running rfl rfl rfl rfl fun hisolated => by simp [hallowed.2] at hisolated
  | observeErrs running hlive hrunning =>
    exact h.entry hlive rfl rfl ⟨rfl, rfl, rfl⟩ hrunning.symm hlog
  | @observesRunning a obs running hlive hrunning hparked hobs =>
    refine h.running rfl rfl rfl rfl fun hisolated => ?_
    obtain ⟨a₀, ha₀, hsame⟩ := h.continues hisolated a hlive
    exact ⟨a₀, ha₀, hsame.trans ⟨rfl, rfl, rfl⟩⟩
  | @exits a obs events hlive hparked hobs hsource =>
    refine h.settled o.now (fun hisolated => h.continues hisolated a hlive) ?_
    intro hisolated hfails hspent
    rcases hsource with ⟨hrunning, rfl⟩ | ⟨hnone, rfl, hexit⟩
    · obtain ⟨a₀, ha₀, hsame⟩ := h.continues hisolated a hlive
      refine hsame.spent (hspent a₀ ha₀ _ List.mem_cons_self rfl ⟨hobs, ?_⟩)
      rw [← hsame.finite]
      exact hfails
    · exact (hfails (hexit ▸ h.gone a hlive hnone hparked)).elim
  | checksReadiness hlive hphase hspec => exact h.entry hlive rfl rfl ⟨rfl, rfl, rfl⟩ rfl hlog
  | checksLiveness hlive hphase hspec hfine => exact h.entry hlive rfl rfl ⟨rfl, rfl, rfl⟩ rfl hlog
  | livenessFails hlive hphase hspec hfailed hallowed hkills =>
    have hconnected : ¬ c.authority.isIsolated = true := by simp [hallowed.2]
    exact h.settled o.now (fun hisolated => (hconnected hisolated).elim)
      fun hisolated => (hconnected hisolated).elim
  | stopFails hD hlive hrunning hcalls =>
    exact h.entry hlive rfl rfl ⟨rfl, rfl, rfl⟩ hrunning hlog
  | stops hD hlive hcalls => exact h.dropped rfl hlog
  | graceStops hlive hexpired hkills => exact h.dropped rfl hlog

/-! ## Operations -/

/-- Every attempt whose failed exit the driver reports to an isolated agent in this
step has spent its retries. -/
def AgentTransition.FailedExitsSpent (t : AgentTransition H) : Prop :=
  t.before.config.authority.isIsolated = true →
    ∀ entry ∈ t.before.state.live.entries, ∀ e ∈ t.events, entry.2.ExitSpent entry.1 e

instance (t : AgentTransition H) : Decidable t.FailedExitsSpent :=
  inferInstanceAs (Decidable (_ → _))

theorem EffectExecutor.step_log (x : EffectExecutor H) (op : AgentOp) :
    ∃ new, (x.step op).1.state.log = x.state.log ++ new := by
  rcases x.step_chain op with ⟨id, rfl, hstate⟩ | hchain
  · exact ⟨_, by rw [hstate]⟩
  · obtain ⟨new, hnew, -⟩ := chain_guarded hchain
    exact ⟨new, hnew⟩

/-- An operation of an agent that is connected, or isolated and told only of exits without
retries left, keeps what holds of an attempt. -/
theorem step_failedSpent {t : AgentTransition H} (hafter : t.after = (t.before.step t.input).1)
    (hexits : t.FailedExitsSpent) (id : AttemptId) (hgone : (t.before.state.view id).Remembers)
    (hfailed : (t.before.state.view id).FailedSpent) :
    (t.after.state.view id).Remembers ∧ (t.after.state.view id).FailedSpent := by
  rcases t.before.step_view t.input id with ⟨-, hview⟩ | hchain
  · rw [hafter, hview]
    exact ⟨hgone, hfailed⟩
  · rw [← hafter] at hchain
    have hsince := chain_invariant (P := (t.before.state.view id).Since t.before.config id)
      (fun _ _ hu hturn => hturn.since hu) hchain (.refl hgone hfailed)
    obtain ⟨new, hnew, hspent⟩ := hsince.failed
    obtain ⟨all, hall⟩ := t.before.step_log t.input
    rw [← hafter] at hall
    -- The events of the attempt are among those of the operation.
    have hevents : new = eventsOf id t.events := by
      rw [events_of_log hall]
      refine List.append_cancel_left (hnew.symm.trans ?_)
      show eventsOf id t.after.state.log = _
      rw [hall, eventsOf_append]
      rfl
    refine ⟨hsince.gone, hspent fun hisolated a ha e he => ?_⟩
    rw [hevents] at he
    exact hexits hisolated (id, a) (OrdMap.mem_entries_iff.mpr ha) e (List.mem_filter.mp he).1

/-- In every run from an executor without attempts, a permanent failure has spent its
retries, provided that this holds of every attempt whose failed exit the driver reports
to the isolated agent. -/
theorem permanent_failure_spent (x : EffectExecutor H) (hempty : x.state.live = .empty)
    (ops : List AgentOp)
    (hops : ∀ t ∈ transitions EffectExecutor.step x ops, AgentTransition.FailedExitsSpent t)
    (id : AttemptId) (a : LiveAttempt H)
    (hlive : (runFrom EffectExecutor.step x ops).state.live.get id = some a)
    (hphase : a.phase = .permanentFailure) :
    a.lifecycle.retry.enabled = false ∨ a.lifecycle.retry.maxAttempts ≤ a.attemptIndex := by
  have hnone : (x.state.view id).live = none := by simp [AgentState.view, hempty]
  refine (runFrom_of_transitions (P := fun y : EffectExecutor H => (y.state.view id).Remembers ∧
    (y.state.view id).FailedSpent) (fun t ht hbefore => ?_) ?_).2 a hlive hphase
  · obtain ⟨_, _, _, _, _, hafter⟩ := exists_split_of_mem_transitions ht
    exact step_failedSpent hafter (hops t ht) id hbefore.1 hbefore.2
  · exact ⟨by simp [AttemptView.Remembers, hnone], by simp [AttemptView.FailedSpent, hnone]⟩

/-- The phase, the index and the allowance of a live attempt. -/
def LiveAttempt.standing (a : LiveAttempt H) : AttemptPhase × Nat × Nat :=
  (a.phase, a.attemptIndex, a.lifecycle.retry.maxAttempts)

/-- An executor whose driver reports the given observations. -/
def observing (observations : List Observation) : EffectExecutor Script.host :=
  Script.executor { observations := observations }

/-- A placement that may run so many times. -/
def retried (maxAttempts : Nat) : AcceptedPlacement :=
  samplePlacement 1 false true { retry := { maxAttempts := maxAttempts } }

/-- An attempt that may run twice is seen alive by an isolated agent, fails under the
connected one, runs again, and fails for good under isolation. -/
theorem permanent_failure_spent_once :
    ∃ a, (runFrom EffectExecutor.step
      (observing [⟨true, none⟩, ⟨true, none⟩, ⟨false, some 1⟩, ⟨true, none⟩, ⟨false, some 1⟩])
      [.reconcile [retried 2] 0, .markIsolated 10, .reconcile [retried 2] 20, .clearIsolation 1 1,
        .reconcile [retried 2] 30, .reconcile [retried 2] 10000, .markIsolated 10010,
        .reconcile [retried 2] 10020]).state.live.get (Octets.fill 16 1) = some a ∧
      a.phase = .permanentFailure ∧
      (a.lifecycle.retry.enabled = false ∨ a.lifecycle.retry.maxAttempts ≤ a.attemptIndex) := by
  have hend : ((runFrom EffectExecutor.step
      (observing [⟨true, none⟩, ⟨true, none⟩, ⟨false, some 1⟩, ⟨true, none⟩, ⟨false, some 1⟩])
      [.reconcile [retried 2] 0, .markIsolated 10, .reconcile [retried 2] 20, .clearIsolation 1 1,
        .reconcile [retried 2] 30, .reconcile [retried 2] 10000, .markIsolated 10010,
        .reconcile [retried 2] 10020]).state.live.get (Octets.fill 16 1)).map
        LiveAttempt.standing = some (.permanentFailure, 2, 2) := by decide +kernel
  obtain ⟨a, ha, hstanding⟩ := Option.map_eq_some_iff.mp hend
  have hphase : a.phase = .permanentFailure := congrArg Prod.fst hstanding
  exact ⟨a, ha, hphase, permanent_failure_spent _ rfl _ (by decide +kernel) _ a ha hphase⟩

/-- An exit while the agent is isolated is permanent after the first of three
executions. -/
theorem isolated_exit_with_retries_left :
    ((runFrom EffectExecutor.step (observing [⟨true, none⟩, ⟨false, some 1⟩])
      [.reconcile [retried 3] 0, .markIsolated 10, .reconcile [retried 3] 20]).state.live.get
        (Octets.fill 16 1)).map LiveAttempt.standing = some (.permanentFailure, 1, 3) := by
  decide +kernel

end Gump.Agent
