/-
  Agent/Probes.lean --- checks that fail, and checks that were skipped.

  The checks of a pass share a wall-clock budget, and a check that finds it spent
  is recorded like one that ran and failed.  When no check of an attempt is
  skipped, its liveness kill and the loss of its readiness come only after as many
  consecutive failures of probes that ran as the check declares.
-/
import Mathlib.Algebra.GroupWithZero.Nat
import Gump.Agent.View

set_option autoImplicit false

namespace Gump.Agent

open Gump.Foundation Gump.Types

variable {W : Type} {H : AgentHost W} {c : AgentConfig} {o : Scope} {id : AttemptId}
  {v v' : AttemptView H}

/-! ## Streaks -/

/-- The number of probes in a row that ran and failed, after one more event.  A
probe that succeeds and a new process start over; a check that was skipped says
nothing. -/
def streakStep (id : AttemptId) (slot : CheckSlot) (n : Nat) : AgentEvent → Nat
  | .checked id' slot' _ out _ _ =>
    if id' = id ∧ slot' = slot then
      if out.isSkipped then n else if out.ok then 0 else n + 1
    else n
  | .driverStart id' _ ok => if id' = id ∧ ok = true then 0 else n
  | _ => n

/-- The number of probes of a check that ran and failed in a row, up to the end of
the log. -/
def streak (id : AttemptId) (slot : CheckSlot) (log : List AgentEvent) : Nat :=
  log.foldl (streakStep id slot) 0

theorem streak_concat (id : AttemptId) (slot : CheckSlot) (log : List AgentEvent) (e : AgentEvent) :
    streak id slot (log ++ [e]) = streakStep id slot (streak id slot log) e := by
  simp [streak]

variable {slot : CheckSlot} {log new : List AgentEvent}

/-- Events that are neither a check of the attempt nor a start of it leave its
streaks alone. -/
theorem streak_append (h : ∀ e ∈ new, ∀ n, streakStep id slot n e = n) :
    streak id slot (log ++ new) = streak id slot log := by
  induction new generalizing log with
  | nil => simp
  | cons e rest ih =>
    rw [List.append_cons, ih fun x hx => h x (List.mem_cons_of_mem _ hx), streak_concat,
      h e List.mem_cons_self]

/-- Streaks are read off the events about the attempt. -/
theorem streak_eventsOf (id : AttemptId) (slot : CheckSlot) (log : List AgentEvent) :
    streak id slot (eventsOf id log) = streak id slot log := by
  induction log using List.reverseRecOn with
  | nil => rfl
  | append_singleton rest e ih =>
    rw [eventsOf_append, streak_concat, ← ih]
    by_cases he : e.attempt = id
    · rw [show eventsOf id [e] = [e] by simp [eventsOf, he], streak_concat]
    · rw [show eventsOf id [e] = [] by simp [eventsOf, he], List.append_nil]
      cases e with
      | checked id' slot' spec out before after =>
        exact (if_neg fun h => he h.1).symm
      | driverStart id' fence ok => exact (if_neg fun h => he h.1).symm
      | _ => rfl

/-! ## What is asked of the checks -/

/-- What is asked of one event after the events `past`: the attempt is killed for
its liveness only after a streak of the declared length; readiness is lost only by
such a streak; and a check that was skipped leaves the counters as they were. -/
def Justified (id : AttemptId) (past : List AgentEvent) : AgentEvent → Prop
  | .livenessFailed id' spec =>
    id' = id → max spec.failureThreshold 1 ≤ streak id .liveness past
  | .checked id' slot spec out before after =>
    id' = id →
      (slot = .readiness → before.passed = true → after.passed = false →
        max spec.failureThreshold 1
          ≤ streak id .readiness (past ++ [.checked id' slot spec out before after])) ∧
      (out.isSkipped = true → after.counters = before.counters)
  | _ => True

/-- Every event of the log is justified. -/
def AllJustified (id : AttemptId) (log : List AgentEvent) : Prop :=
  ∀ l₁ e l₂, log = l₁ ++ e :: l₂ → Justified id l₁ e

variable {e : AgentEvent}

theorem allJustified_concat (h : AllJustified id log) (he : Justified id log e) :
    AllJustified id (log ++ [e]) := by
  intro l₁ e' l₂ hsplit
  rcases split_append hsplit with ⟨l₃, hlog, _⟩ | ⟨l₃, hl₁, hlast⟩
  · exact h l₁ e' l₃ hlog
  · cases l₃ with
    | nil =>
      obtain ⟨rfl, _⟩ := List.cons.inj hlast
      rwa [hl₁, List.append_nil]
    | cons x l₃ => simp at hlast

/-- Events that ask for no justification. -/
theorem allJustified_append (h : AllJustified id log)
    (hnew : ∀ e ∈ new, ∀ past, Justified id past e) : AllJustified id (log ++ new) := by
  induction new generalizing log with
  | nil => simpa using h
  | cons e rest ih =>
    rw [List.append_cons]
    exact ih (allJustified_concat h (hnew e List.mem_cons_self _))
      fun x hx => hnew x (List.mem_cons_of_mem _ hx)

/-- Whether an event is a check of the attempt that was skipped. -/
def AgentEvent.skips (id : AttemptId) : AgentEvent → Bool
  | .checked id' _ _ out _ _ => decide (id' = id) && out.isSkipped
  | _ => false

/-! ## The counters of one attempt -/

/-- The flags of an entry are those of its readiness check. -/
def LiveAttempt.Shows (a : LiveAttempt H) : Prop :=
  a.ready = a.lifecycle.readiness.map (fun _ => a.readiness.passed) ∧
    (a.lifecycle.declaresPublication = true →
      a.publicationEligible = some (a.lifecycle.readiness.isSome && a.readiness.passed))

/-- The counters of an entry count no more failures than its probes had, and while
it has a process it carries no reason of a liveness kill. -/
structure LiveAttempt.Probed (id : AttemptId) (log : List AgentEvent) (a : LiveAttempt H) :
    Prop where
  readiness : a.readiness.consecutiveFailure ≤ streak id .readiness log
  liveness : a.liveness.consecutiveFailure ≤ streak id .liveness log
  fine : a.running.isSome ∨ a.phase = .running → livenessFailed a = false ∧ a.Shows

/-- The events so far are justified, and the live entry counts real failures. -/
def AttemptView.Probed (id : AttemptId) (v : AttemptView H) : Prop :=
  AllJustified id v.log ∧ ∀ a, v.live = some a → a.Probed id v.log

/-- An event that is no check, no liveness failure and no new process. -/
def AgentEvent.IsQuiet : AgentEvent → Prop
  | .checked _ _ _ _ _ _ => False
  | .livenessFailed _ _ => False
  | .driverStart _ _ ok => ok = false
  | _ => True

theorem streakStep_of_isQuiet (h : e.IsQuiet) (slot : CheckSlot) (n : Nat) :
    streakStep id slot n e = n := by
  cases e with
  | checked id' slot' spec out before after => exact h.elim
  | driverStart id' fence ok => simp [streakStep, show ok = false from h]
  | _ => rfl

theorem justified_of_isQuiet (h : e.IsQuiet) (past : List AgentEvent) : Justified id past e := by
  cases e with
  | checked id' slot' spec out before after => exact h.elim
  | livenessFailed id' spec => exact h.elim
  | _ => trivial

/-- Quiet events leave the streaks and the justification alone. -/
theorem streak_quiet (h : ∀ e ∈ new, e.IsQuiet) :
    streak id slot (log ++ new) = streak id slot log :=
  streak_append fun e he n => streakStep_of_isQuiet (h e he) slot n

theorem allJustified_quiet (h : AllJustified id log) (hnew : ∀ e ∈ new, e.IsQuiet) :
    AllJustified id (log ++ new) :=
  allJustified_append h fun e he past => justified_of_isQuiet (hnew e he) past

variable {a : LiveAttempt H}

theorem LiveAttempt.Probed.quiet (h : a.Probed id log) (hnew : ∀ e ∈ new, e.IsQuiet) :
    a.Probed id (log ++ new) where
  readiness := by rw [streak_quiet hnew]; exact h.readiness
  liveness := by rw [streak_quiet hnew]; exact h.liveness
  fine := h.fine

/-- A settled entry has neither process nor running phase. -/
theorem probed_settled {b : LiveAttempt H} (hb : Settled a b)
    (hreadiness : a.readiness.consecutiveFailure ≤ streak id .readiness log)
    (hliveness : a.liveness.consecutiveFailure ≤ streak id .liveness log) : b.Probed id log where
  readiness := by rw [hb.readiness]; exact hreadiness
  liveness := by rw [hb.liveness]; exact hliveness
  fine := by
    rintro (hrunning | hphase)
    · rw [hb.running] at hrunning
      cases hrunning
    · exact (hb.phase hphase).elim

/-- The entry of a process that just started. -/
theorem probed_freshAttempt (c : AgentConfig) (p : AcceptedPlacement) (now k : Nat)
    (running : H.Handle) (log : List AgentEvent) :
    (freshAttempt c p now k running).Probed id log where
  readiness := Nat.zero_le _
  liveness := Nat.zero_le _
  fine := by
    intro _
    refine ⟨rfl, ?_, ?_⟩
    · cases h : p.lifecycle.readiness <;> simp [freshAttempt, h]
    · intro hdeclares
      simp only [freshAttempt] at hdeclares ⊢
      simp [hdeclares]

/-- A probe that ran counts at most one more failure than its streak. -/
theorem record_le_streak {spec : CheckSpec} {out : CheckOutcome} {r before after : CheckRuntime}
    (hran : out.isSkipped = false) (h : r.consecutiveFailure ≤ streak id slot log) :
    (r.record out.ok spec).consecutiveFailure
      ≤ streak id slot (log ++ [.checked id slot spec out before after]) := by
  rw [streak_concat]
  cases hok : out.ok with
  | true => simp [CheckRuntime.record_success]
  | false =>
    have hle := CheckRuntime.record_failure_le r spec
    simp only [streakStep, and_self, if_true, hran, hok, Bool.false_eq_true, if_false]
    omega

/-- A check of one slot leaves the streak of the other alone. -/
theorem streak_other {slot' : CheckSlot} {spec : CheckSpec} {out : CheckOutcome}
    {before after : CheckRuntime} (hne : slot' ≠ slot) :
    streak id slot (log ++ [.checked id slot' spec out before after]) = streak id slot log := by
  rw [streak_concat]
  exact if_neg fun h => hne h.2

section Checks

variable {a : LiveAttempt H} {spec : CheckSpec} {out : CheckOutcome} {log : List AgentEvent}
  {now : Nat}

variable {before after : CheckRuntime}

theorem probed_recordReadiness (h : a.Probed id log) (hran : out.isSkipped = false)
    (hphase : a.phase = .running) (hspec : a.lifecycle.readiness = some spec) :
    (recordReadiness a out.ok spec now).Probed id
      (log ++ [.checked id .readiness spec out before after]) where
  readiness := record_le_streak (r := { a.readiness with lastRunMs := now }) hran h.readiness
  liveness := by
    rw [streak_other (by decide)]
    exact h.liveness
  fine := by
    intro _
    refine ⟨(h.fine (Or.inr hphase)).1, ?_, ?_⟩
    · simp [recordReadiness, hspec]
    · intro hdeclares
      have hdeclares' : a.lifecycle.declaresPublication = true := hdeclares
      simp [recordReadiness, hspec, hdeclares']

theorem probed_recordLiveness (h : a.Probed id log) (hran : out.isSkipped = false)
    (hfine : a.running.isSome ∨ a.phase = .running →
      livenessFailed (recordLiveness a out spec now) = false) :
    (recordLiveness a out spec now).Probed id
      (log ++ [.checked id .liveness spec out before after]) where
  readiness := by
    rw [streak_other (by decide)]
    exact h.readiness
  liveness := record_le_streak (r := { a.liveness with lastRunMs := now }) hran h.liveness
  fine := fun hrunning => ⟨hfine hrunning, (h.fine hrunning).2⟩

/-- Readiness is lost only by a streak of the declared length. -/
theorem justified_readiness (h : a.Probed id log) (hran : out.isSkipped = false) :
    Justified id log (.checked id .readiness spec out a.readiness
      (recordReadiness a out.ok spec now).readiness) := by
  intro _
  refine ⟨fun _ hbefore hafter => ?_, fun hskipped => ?_⟩
  · have hthreshold := (CheckRuntime.threshold_le_of_passed_turns_off
      (r := { a.readiness with lastRunMs := now }) hbefore hafter).2
    exact hthreshold.trans
      (record_le_streak (r := { a.readiness with lastRunMs := now }) hran h.readiness)
  · rw [hran] at hskipped
    cases hskipped

theorem justified_liveness (hran : out.isSkipped = false) :
    Justified id log (.checked id .liveness spec out before after) := by
  intro _
  constructor
  · intro hslot
    cases hslot
  · intro hskipped
    rw [hran] at hskipped
    cases hskipped

/-- A check that turns a fine entry into one to be killed has reached its
threshold. -/
theorem justified_livenessFailed (h : a.Probed id log) (hran : out.isSkipped = false)
    (hphase : a.phase = .running)
    (hfailed : livenessFailed (recordLiveness a out spec now) = true) :
    Justified id (log ++ [.checked id .liveness spec out before after])
      (.livenessFailed id spec) := by
  intro _
  have hle : (recordLiveness a out spec now).liveness.consecutiveFailure
      ≤ streak id .liveness (log ++ [.checked id .liveness spec out before after]) :=
    record_le_streak (r := { a.liveness with lastRunMs := now }) hran h.liveness
  refine le_trans ?_ hle
  by_contra hlt
  have hsame : livenessFailed (recordLiveness a out spec now) = livenessFailed a := by
    unfold livenessFailed
    rw [show (recordLiveness a out spec now).terminalReason = a.terminalReason from if_neg hlt]
  rw [hsame, (h.fine (Or.inr hphase)).1] at hfailed
  cases hfailed

end Checks

/-- Events of the driver around a start or a stop are quiet. -/
theorem isQuiet_of_failedCalls {k : Nat} {e : AgentError} {fence : Nat} {calls : List AgentEvent}
    (h : FailedCalls c id fence calls) :
    ∀ x ∈ .startPlacement id k :: calls ++ [.startFailed id k e], x.IsQuiet := by
  rcases h with rfl | ⟨rfl, _⟩ <;> simp [AgentEvent.IsQuiet]

theorem isQuiet_of_killCalls {cause : KillCause} {calls : List AgentEvent}
    (h : KillCalls id a cause calls) : ∀ x ∈ calls, x.IsQuiet := by
  rcases h with ⟨_, rfl⟩ | ⟨_, rfl⟩ <;> simp [AgentEvent.IsQuiet]

theorem isQuiet_of_isStopCall {fence : Nat} (h : IsStopCall id fence e) : e.IsQuiet := by
  cases e <;> trivial

/-- A view without a live entry asks only for its events. -/
theorem probed_none (hlive : v.live = none) (h : AllJustified id v.log) : v.Probed id := by
  refine ⟨h, fun a ha => ?_⟩
  rw [hlive] at ha
  cases ha

theorem probed_some (hlive : v.live = some a) (h : AllJustified id v.log) (ha : a.Probed id v.log) :
    v.Probed id := by
  refine ⟨h, fun b hb => ?_⟩
  rw [← Option.some.inj (hlive.symm.trans hb)]
  exact ha

/-- Quiet events with the live entry as it was. -/
theorem AttemptView.Probed.quiet (h : v.Probed id) (hnew : ∀ e ∈ new, e.IsQuiet) :
    (v.emits new).Probed id :=
  ⟨allJustified_quiet h.1 hnew, fun a ha => (h.2 a ha).quiet hnew⟩

/-- The entry after a call of the driver that leaves it a process exactly if it
had one. -/
theorem LiveAttempt.Probed.withRunning (h : a.Probed id log) {running : Option H.Handle}
    (hrunning : running.isSome = a.running.isSome) : (a.withRunning running).Probed id log where
  readiness := h.readiness
  liveness := h.liveness
  fine := by
    intro hor
    refine h.fine ?_
    rcases hor with hsome | hphase
    · exact Or.inl (hrunning ▸ hsome)
    · exact Or.inr hphase

/-- Without a skipped check, every turn keeps the counters real. -/
theorem Turn.probed (h : v.Probed id) (hturn : Turn c o id v v')
    (hran : ∀ e ∈ v'.log, e.skips id = false) : v'.Probed id := by
  have hran' : ∀ {slot : CheckSlot} {spec : CheckSpec} {out : CheckOutcome}
      {before after : CheckRuntime} {rest : List AgentEvent},
      v'.log = v.log ++ .checked id slot spec out before after :: rest →
      out.isSkipped = false := by
    intro slot spec out before after rest hlog
    have hmem : .checked id slot spec out before after ∈ v'.log := by simp [hlog]
    simpa [AgentEvent.skips] using hran _ hmem
  cases hturn with
  | idle => exact h
  | @note e he =>
    refine h.quiet ?_
    cases e <;> simp_all [AgentEvent.IsNote, AgentEvent.IsQuiet]
  | forget hD => exact h
  | startFails e hF hid hlive hcompleted hcalls => exact h.quiet (isQuiet_of_failedCalls hcalls)
  | starts running hF hid hlive hcompleted hallowed =>
    exact probed_some rfl (allJustified_append h.1 (by simp [Justified]))
      (probed_freshAttempt _ _ _ _ _ _)
  | restartFails e hD hconnected hlive hphase hcalls =>
    exact probed_none rfl (allJustified_quiet h.1 (isQuiet_of_failedCalls hcalls))
  | restarts running hD hlive hphase hallowed =>
    exact probed_some rfl (allJustified_append h.1 (by simp [Justified]))
      (probed_freshAttempt _ _ _ _ _ _)
  | observeErrs running hlive hrunning =>
    exact probed_some rfl h.1 ((h.2 _ hlive).withRunning (by simp [hrunning]))
  | @observesRunning a obs running hlive hrunning hparked hobs =>
    have hquiet : ∀ e ∈ [AgentEvent.observed id obs], e.IsQuiet := by simp [AgentEvent.IsQuiet]
    have ha := (h.2 a hlive).quiet hquiet
    exact probed_some rfl (allJustified_quiet h.1 hquiet)
      ⟨ha.readiness, ha.liveness, fun _ => ha.fine (Or.inl hrunning)⟩
  | @exits a obs events hlive hparked hobs hsource =>
    have hquiet : ∀ e ∈ events, e.IsQuiet := by
      rcases hsource with ⟨_, rfl⟩ | ⟨_, rfl, _⟩ <;> simp [AgentEvent.IsQuiet]
    refine ⟨by rw [AttemptView.log_settle]; exact allJustified_quiet h.1 hquiet, fun b hb => ?_⟩
    rw [AttemptView.log_settle]
    have ha := (h.2 a hlive).quiet hquiet
    exact probed_settled (AttemptView.settled_of_settle hb) ha.readiness ha.liveness
  | @checksReadiness a spec out hlive hphase hspec =>
    have hskip := hran' rfl
    exact probed_some rfl (allJustified_concat h.1 (justified_readiness (h.2 a hlive) hskip))
      (probed_recordReadiness (h.2 a hlive) hskip hphase hspec)
  | @checksLiveness a spec out hlive hphase hspec hfine =>
    have hskip := hran' rfl
    exact probed_some rfl (allJustified_concat h.1 (justified_liveness hskip))
      (probed_recordLiveness (h.2 a hlive) hskip fun _ => hfine)
  | @livenessFails a spec out kills hlive hphase hspec hfailed hallowed hkills =>
    have hskip := hran' (AttemptView.log_settle _ _ _ _ _ _)
    have hkills' := isQuiet_of_killCalls hkills
    have hrest : ∀ e ∈ .livenessFailed id spec :: kills, ∀ slot n, streakStep id slot n e = n := by
      simp only [List.mem_cons, forall_eq_or_imp]
      exact ⟨fun _ _ => rfl, fun e he slot n => streakStep_of_isQuiet (hkills' e he) slot n⟩
    refine ⟨?_, fun b hb => ?_⟩
    · rw [AttemptView.log_settle, AttemptView.log_emits, List.append_cons, List.append_cons]
      exact allJustified_quiet (allJustified_concat
        (allJustified_concat h.1 (justified_liveness hskip))
        (justified_livenessFailed (h.2 a hlive) hskip hphase hfailed)) hkills'
    · rw [AttemptView.log_settle, AttemptView.log_emits, List.append_cons]
      refine probed_settled (AttemptView.settled_of_settle hb) ?_ ?_
      · rw [streak_append fun e he n => hrest e he _ n, streak_other (by decide)]
        exact (h.2 a hlive).readiness
      · rw [streak_append fun e he n => hrest e he _ n]
        exact record_le_streak (r := { a.liveness with lastRunMs := o.now }) hskip
          (h.2 a hlive).liveness
  | stopFails hD hlive hrunning hcalls =>
    have hquiet := fun e he => isQuiet_of_isStopCall (hcalls e he)
    exact probed_some rfl (allJustified_quiet h.1 hquiet)
      (((h.2 _ hlive).quiet hquiet).withRunning hrunning)
  | stops hD hlive hcalls =>
    exact probed_none rfl (allJustified_quiet h.1 fun e he => isQuiet_of_isStopCall (hcalls e he))
  | graceStops hlive hexpired hkills =>
    exact probed_none rfl (allJustified_quiet h.1 (isQuiet_of_killCalls hkills))

/-! ## Runs -/

/-- Justification in the events about an attempt is justification in the log. -/
theorem allJustified_of_eventsOf (h : AllJustified id (eventsOf id log)) : AllJustified id log := by
  intro l₁ e l₂ hlog
  by_cases he : e.attempt = id
  · have hview : eventsOf id log = eventsOf id l₁ ++ e :: eventsOf id l₂ := by
      rw [hlog]
      simp [eventsOf, he]
    have hjust := h _ e _ hview
    cases e with
    | livenessFailed id' spec =>
      intro hid
      rw [← streak_eventsOf]
      exact hjust hid
    | checked id' slot spec out before after =>
      intro hid
      refine ⟨fun hslot hbefore hafter => ?_, (hjust hid).2⟩
      have hle := (hjust hid).1 hslot hbefore hafter
      rw [streak_concat, streak_eventsOf] at hle
      rwa [streak_concat]
    | _ => trivial
  · cases e with
    | livenessFailed id' spec => exact fun hid => (he hid).elim
    | checked id' slot spec out before after => exact fun hid => (he hid).elim
    | _ => trivial

/-- Over every run of operations, as long as no check of the attempt was skipped:
each liveness kill of it, and each loss of its readiness, follows as many
consecutive probes that ran and failed as the check declares; and what a running
entry reports as ready, and as eligible for publication, is the flag of that
check. -/
theorem checks_justified (base : String) (authority : AuthorityState) (world : W)
    (config : AgentConfig) (id : AttemptId) (ops : List AgentOp) (y : EffectExecutor H)
    (hy : y = runFrom EffectExecutor.step
      { EffectExecutor.new base authority world with config := config } ops)
    (hran : ∀ e ∈ y.state.log, e.skips id = false) :
    AllJustified id y.state.log ∧
      ∀ a, y.state.live.get id = some a → a.phase = .running → a.Shows := by
  have hrun : (∀ e ∈ (y.state.view id).log, e.skips id = false) →
      (y.state.view id).Probed id := by
    rw [hy]
    refine runFrom_of_transitions (P := fun z : EffectExecutor H =>
      (∀ e ∈ (z.state.view id).log, e.skips id = false) → (z.state.view id).Probed id) ?_ ?_
    · intro t ht hprobed
      obtain ⟨_, _, _, _, _, hafter⟩ := exists_split_of_mem_transitions ht
      rw [hafter]
      rcases t.before.step_view t.input id with ⟨_, hview⟩ | hchain
      · rw [hview]
        intro hlog
        have hpast := hprobed fun e he => hlog e (List.mem_append_left _ he)
        have hquiet : ∀ e ∈ [AgentEvent.acknowledged id], e.IsQuiet := by
          simp [AgentEvent.IsQuiet]
        exact hpast.quiet hquiet
      · refine chain_invariant (P := fun u : AttemptView H =>
          (∀ e ∈ u.log, e.skips id = false) → u.Probed id) ?_ hchain hprobed
        intro u u' hu hturn hlog
        obtain ⟨new, hnew⟩ := hturn.log_append
        refine Turn.probed (hu fun e he => hlog e ?_) hturn hlog
        rw [hnew]
        exact List.mem_append_left _ he
    · intro _
      refine probed_none rfl fun l₁ e l₂ hlog => ?_
      simp [AgentState.view, EffectExecutor.new, eventsOf] at hlog
  have hprobed := hrun fun e he => hran e (List.mem_filter.mp he).1
  refine ⟨allJustified_of_eventsOf hprobed.1, fun a ha hphase => ?_⟩
  exact ((hprobed.2 a ha).fine (Or.inr hphase)).2

/-- The contract of the samples below: one failed TCP probe kills. -/
def tcpLiveness : LifecycleContract :=
  { liveness := some { CheckSpec.processDefault with kind := .tcp } }

/-- A probe that ran and failed kills the attempt, and its kill is justified. -/
theorem checks_justified_probe :
    AllJustified (Octets.fill 16 1) (runFrom EffectExecutor.step
      (Script.executor { probes := [false] })
      [.reconcile [samplePlacement 1 false true tcpLiveness] 1000]).state.log :=
  (checks_justified "/attempts" (.connected 1 1) { probes := [false] }
    (Script.executor { probes := [false] }).config (Octets.fill 16 1)
    [.reconcile [samplePlacement 1 false true tcpLiveness] 1000]
    (runFrom EffectExecutor.step (Script.executor { probes := [false] }) _) rfl
    (by decide +kernel)).1

/-- A check that found the budget spent kills the attempt that it did not probe. -/
theorem skipped_check_kills :
    ¬ AllJustified (Octets.fill 16 1) (runFrom EffectExecutor.step
      (Script.executor { instants := [0, 100000000] })
      [.reconcile [samplePlacement 1 false true tcpLiveness] 1000]).state.log := by
  intro h
  have hstreak := h
    [.startPlacement (Octets.fill 16 1) 1, .driverStart (Octets.fill 16 1) 1 true,
      .observeOne (Octets.fill 16 1), .observed (Octets.fill 16 1) ⟨true, none⟩,
      .tickChecks (Octets.fill 16 1),
      .checked (Octets.fill 16 1) .liveness { CheckSpec.processDefault with kind := .tcp }
        .skippedBudget {} { consecutiveFailure := 1, lastRunMs := 1000 }]
    (.livenessFailed (Octets.fill 16 1) { CheckSpec.processDefault with kind := .tcp })
    [.kill (Octets.fill 16 1) 1 .liveness] (by decide +kernel) rfl
  revert hstreak
  decide

end Gump.Agent
