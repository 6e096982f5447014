/-
  Agent/Success.lean --- a finite success is final.

  Once the driver was observed reporting the success of a finite attempt, the
  attempt is kept from being started again: by its tombstone when the success was
  seen by a connected agent, and by the live entry that remembers it when it was
  seen under isolation.  The second is given up when the isolation grace expires.
-/
import Mathlib.Algebra.GroupWithZero.Nat
import Gump.Agent.Authority
import Gump.Agent.Failures
import Gump.Agent.View

set_option autoImplicit false

namespace Gump.Agent

open Gump.Foundation Gump.Types

variable {W : Type} {H : AgentHost W} {c : AgentConfig} {o : Scope} {id : AttemptId}
  {v v' : AttemptView H}

/-- An operation that keeps the attempt `id` desired, as a finite one. -/
def AgentOp.KeepsFinite (id : AttemptId) : AgentOp → Prop
  | .reconcile desired _ => isDesired desired id = true ∧
      ∀ p ∈ desired, p.attemptId = id → p.lifecycleFinite = true
  | .cancel id' => id ≠ id'
  | .forceKill id' => id ≠ id'
  | _ => True

variable {op : AgentOp}

theorem AgentOp.KeepsFinite.keep (h : op.KeepsFinite id) (c : AgentConfig) :
    (op.scope c).keep id := by
  cases op with
  | reconcile desired now => exact h.1
  | cancel id' => exact h
  | forceKill id' => exact h
  | _ => trivial

theorem AgentOp.KeepsFinite.finite (h : op.KeepsFinite id) (c : AgentConfig) (p : AcceptedPlacement)
    (hstart : (op.scope c).start p) (hid : p.attemptId = id) : p.lifecycleFinite = true := by
  cases op with
  | reconcile desired now => exact h.2 p hstart hid
  | _ => exact hstart.elim

/-- The report of a success. -/
def success : Observation := ⟨false, some 0⟩

/-- A live entry is finite, and its attempt has not completed. -/
def AttemptView.Tidy (v : AttemptView H) : Prop :=
  ∀ a, v.live = some a → a.lifecycleFinite = true ∧ v.completed = false

/-- The live entry remembers a success that was not recorded. -/
def AttemptView.Waits (v : AttemptView H) : Prop :=
  ∃ a, v.live = some a ∧ a.lifecycleFinite = true ∧ a.phase = .terminal (some 0) ∧ a.running = none

/-- No call of the driver's start among the events. -/
def NoStart (id : AttemptId) (later : List AgentEvent) : Prop :=
  ∀ fence ok, .driverStart id fence ok ∉ later

/-- After a success and the events `later`, nothing was started, and the success is
recorded and announced until acknowledged; or, if it was seen under isolation, it
may still wait in the live entry. -/
def AttemptView.Kept (isolated : Prop) (id : AttemptId) (v : AttemptView H)
    (later : List AgentEvent) : Prop :=
  NoStart id later ∧ (isolated ∧ v.Waits ∨
    v.live = none ∧ v.completed = true ∧ (.acknowledged id ∉ later → v.pending = true))

/-! ## Turns -/

variable {a : LiveAttempt H}

theorem tidy_some (hlive : v.live = some a) (hfinite : a.lifecycleFinite = true)
    (hcompleted : v.completed = false) : v.Tidy := by
  intro b hb
  rw [← Option.some.inj (hlive.symm.trans hb)]
  exact ⟨hfinite, hcompleted⟩

theorem tidy_none (hlive : v.live = none) : v.Tidy := by
  intro b hb
  rw [hlive] at hb
  cases hb

variable {now : Nat}

theorem tidy_settle {obs : Observation} (hfinite : a.lifecycleFinite = true)
    (hcompleted : v.completed = false) : (AttemptView.settle c now id a obs v).Tidy := by
  rcases AttemptView.settle_cases c now id a obs v with ⟨_, _, _, h⟩ | ⟨_, _, _, h⟩ |
      ⟨_, b, hb, _, h⟩
  · rw [h]
    exact tidy_some rfl hfinite hcompleted
  · rw [h]
    exact tidy_none rfl
  · rw [h]
    exact tidy_some rfl (hb.finite.trans hfinite) hcompleted

theorem Turn.tidy (hfinite : ∀ p, o.start p → p.attemptId = id → p.lifecycleFinite = true)
    (h : v.Tidy) (hturn : Turn c o id v v') : v'.Tidy := by
  cases hturn with
  | idle => exact h
  | note he => exact h
  | forget hD => exact fun a ha => ⟨(h a ha).1, rfl⟩
  | startFails e hF hid hlive hcompleted hcalls => exact h
  | starts running hF hid hlive hcompleted hallowed =>
    exact tidy_some rfl (hfinite _ hF hid) hcompleted
  | restartFails e hD hconnected hlive hphase hcalls => exact tidy_none rfl
  | restarts running hD hlive hphase hallowed => exact tidy_some rfl (h _ hlive).1 (h _ hlive).2
  | observeErrs running hlive hrunning => exact tidy_some rfl (h _ hlive).1 (h _ hlive).2
  | observesRunning running hlive hrunning hparked hobs =>
    exact tidy_some rfl (h _ hlive).1 (h _ hlive).2
  | exits hlive hparked hobs hsource => exact tidy_settle (h _ hlive).1 (h _ hlive).2
  | checksReadiness hlive hphase hspec => exact tidy_some rfl (h _ hlive).1 (h _ hlive).2
  | checksLiveness hlive hphase hspec hfine => exact tidy_some rfl (h _ hlive).1 (h _ hlive).2
  | livenessFails hlive hphase hspec hfailed hallowed hkills =>
    exact tidy_settle (h _ hlive).1 (h _ hlive).2
  | stopFails hD hlive hrunning hcalls => exact tidy_some rfl (h _ hlive).1 (h _ hlive).2
  | stops hD hlive hcalls => exact tidy_none rfl
  | graceStops hlive hexpired hkills => exact tidy_none rfl

variable {isolated : Prop} {later : List AgentEvent}

/-- A turn that adds nothing about starts keeps a success kept. -/
theorem kept_quiet {new : List AgentEvent} (h : v.Kept isolated id later) (hlive : v'.live = v.live)
    (hcompleted : v'.completed = v.completed) (hpending : v'.pending = v.pending)
    (hnew : NoStart id new) : v'.Kept isolated id (later ++ new) := by
  obtain ⟨hnone, hkept⟩ := h
  refine ⟨?_, ?_⟩
  · intro fence ok hmem
    rcases List.mem_append.mp hmem with hmem | hmem
    · exact hnone fence ok hmem
    · exact hnew fence ok hmem
  · rcases hkept with ⟨hw, hwaits⟩ | ⟨hdead, hdone, hack⟩
    · left
      refine ⟨hw, ?_⟩
      unfold AttemptView.Waits
      rw [hlive]
      exact hwaits
    · right
      refine ⟨hlive.trans hdead, hcompleted.trans hdone, fun hnot => ?_⟩
      rw [hpending]
      exact hack fun hmem => hnot (List.mem_append_left _ hmem)

theorem noStart_of_isNote {e : AgentEvent} (he : e.IsNote) :
    NoStart id [e] ∧ .observed id success ∉ [e] := by
  cases e <;> simp_all [AgentEvent.IsNote, NoStart]

/-- A kept success stays kept, outside the expiry of the grace. -/
theorem Turn.keeps (hkeep : o.keep id) (hgrace : isolated → ¬ o.expired)
    (h : v.Kept isolated id later) (hturn : Turn c o id v v') :
    ∃ new, v'.log = v.log ++ new ∧ .observed id success ∉ new ∧
      v'.Kept isolated id (later ++ new) := by
  have hquiet : v' = v → ∃ new, v'.log = v.log ++ new ∧ .observed id success ∉ new ∧
      v'.Kept isolated id (later ++ new) := by
    rintro rfl
    exact ⟨[], by simp, by simp, by simpa using h⟩
  -- the entry either waits with its exit, or is gone behind a tombstone
  have hentry : (∀ a, v.live = some a → isolated ∧ a.lifecycleFinite = true ∧
      a.phase = .terminal (some 0) ∧ a.running = none) ∧ (v.live = none → v.completed = true) := by
    rcases h.2 with ⟨hw, a, ha, hfinite, hphase, hrunning⟩ | ⟨hdead, hdone, _⟩
    · refine ⟨fun b hb => ?_, fun hnone => ?_⟩
      · rw [← Option.some.inj (ha.symm.trans hb)]
        exact ⟨hw, hfinite, hphase, hrunning⟩
      · rw [ha] at hnone
        cases hnone
    · refine ⟨fun b hb => ?_, fun _ => hdone⟩
      rw [hdead] at hb
      cases hb
  obtain ⟨hsome, hnone⟩ := hentry
  have hphase' : ∀ a, v.live = some a → ∀ ph, a.phase = ph → ph = .terminal (some 0) :=
    fun a ha ph hph => hph.symm.trans (hsome a ha).2.2.1
  have hrunning' : ∀ a, v.live = some a → a.running.isSome → False := by
    intro a ha hrun
    rw [(hsome a ha).2.2.2] at hrun
    cases hrun
  cases hturn with
  | idle => exact hquiet rfl
  | note he =>
    exact ⟨_, rfl, (noStart_of_isNote he).2, kept_quiet h rfl rfl rfl (noStart_of_isNote he).1⟩
  | forget hD => exact (hD hkeep).elim
  | startFails e hF hid hlive hcompleted hcalls =>
    rw [hnone hlive] at hcompleted
    cases hcompleted
  | starts running hF hid hlive hcompleted hallowed =>
    rw [hnone hlive] at hcompleted
    cases hcompleted
  | restartFails e hD hconnected hlive hphase hcalls => cases hphase' _ hlive _ hphase
  | restarts running hD hlive hphase hallowed => cases hphase' _ hlive _ hphase
  | observeErrs running hlive hrunning => exact (hrunning' _ hlive hrunning).elim
  | observesRunning running hlive hrunning hparked hobs => exact (hrunning' _ hlive hrunning).elim
  | @exits a obs events hlive hparked hobs hsource =>
    -- the entry remembers its exit: nothing new is observed
    obtain ⟨hw, hfinite, hphase, hrunning⟩ := hsome a hlive
    rcases hsource with ⟨hsome', _⟩ | ⟨_, rfl, hexit⟩
    · exact (hrunning' _ hlive hsome').elim
    · rw [hphase] at hexit
      refine ⟨[], by simp, by simp, ?_⟩
      rcases AttemptView.settle_cases c o.now id a obs (v.emits []) with ⟨_, _, _, hsettle⟩ |
          ⟨_, _, _, hsettle⟩ | ⟨hnot, _⟩
      · rw [hsettle, List.append_nil]
        exact ⟨h.1, Or.inl ⟨hw, _, rfl, hfinite, by rw [hexit]; rfl, rfl⟩⟩
      · rw [hsettle, List.append_nil]
        exact ⟨h.1, Or.inr ⟨rfl, rfl, fun _ => rfl⟩⟩
      · exact (hnot ⟨hfinite, hexit⟩).elim
  | checksReadiness hlive hphase hspec => cases hphase' _ hlive _ hphase
  | checksLiveness hlive hphase hspec hfine => cases hphase' _ hlive _ hphase
  | livenessFails hlive hphase hspec hfailed hallowed hkills => cases hphase' _ hlive _ hphase
  | stopFails hD hlive hrunning hcalls => exact (hD hkeep).elim
  | stops hD hlive hcalls => exact (hD hkeep).elim
  | graceStops hlive hexpired hkills => exact (hgrace (hsome _ hlive).1 hexpired).elim

/-- The success that a turn observes is kept. -/
theorem Turn.records (hkeep : o.keep id) (hisolated : c.authority.isIsolated = true → isolated)
    (htidy : v.Tidy) (hturn : Turn c o id v v') :
    ∃ new, v'.log = v.log ++ new ∧ ∀ l₁ l₂, new = l₁ ++ .observed id success :: l₂ →
      v'.Kept isolated id l₂ := by
  have hquiet : ∀ new, v'.log = v.log ++ new → .observed id success ∉ new →
      ∃ new, v'.log = v.log ++ new ∧ ∀ l₁ l₂, new = l₁ ++ .observed id success :: l₂ →
        v'.Kept isolated id l₂ := by
    intro new hlog hnot
    refine ⟨new, hlog, fun l₁ l₂ hnew => ?_⟩
    exact (hnot (by simp [hnew])).elim
  cases hturn with
  | idle => exact hquiet [] (by simp) (by simp)
  | note he => exact hquiet _ rfl (noStart_of_isNote he).2
  | forget hD => exact (hD hkeep).elim
  | startFails e hF hid hlive hcompleted hcalls =>
    refine hquiet _ rfl ?_
    rcases hcalls with rfl | ⟨rfl, _⟩ <;> simp
  | starts running hF hid hlive hcompleted hallowed => exact hquiet _ rfl (by simp)
  | restartFails e hD hconnected hlive hphase hcalls =>
    refine hquiet _ rfl ?_
    rcases hcalls with rfl | ⟨rfl, _⟩ <;> simp
  | restarts running hD hlive hphase hallowed => exact hquiet _ rfl (by simp)
  | observeErrs running hlive hrunning => exact hquiet [] (by simp) (by simp)
  | @observesRunning a obs running hlive hrunning hparked hobs =>
    refine hquiet _ rfl ?_
    simp only [List.mem_singleton, AgentEvent.observed.injEq, true_and]
    rintro rfl
    cases hobs
  | @exits a obs events hlive hparked hobs hsource =>
    refine ⟨events, by simp, fun l₁ l₂ hnew => ?_⟩
    have hevents : obs = success ∧ l₂ = [] := by
      rcases hsource with ⟨_, rfl⟩ | ⟨_, rfl, _⟩
      · cases l₁ with
        | nil => simp_all
        | cons x rest => simp at hnew
      · simp at hnew
    obtain ⟨rfl, rfl⟩ := hevents
    rcases AttemptView.settle_cases c o.now id a success (v.emits events) with
        ⟨hfinite, _, his, hsettle⟩ | ⟨_, _, _, hsettle⟩ | ⟨hnot, _⟩
    · rw [hsettle]
      exact ⟨by simp [NoStart], Or.inl ⟨hisolated his, _, rfl, hfinite, rfl, rfl⟩⟩
    · rw [hsettle]
      exact ⟨by simp [NoStart], Or.inr ⟨rfl, rfl, fun _ => rfl⟩⟩
    · exact (hnot ⟨(htidy a hlive).1, rfl⟩).elim
  | checksReadiness hlive hphase hspec => exact hquiet _ rfl (by simp)
  | checksLiveness hlive hphase hspec hfine => exact hquiet _ rfl (by simp)
  | livenessFails hlive hphase hspec hfailed hallowed hkills =>
    refine hquiet _ (by rw [AttemptView.log_settle]; rfl) ?_
    rcases hkills with ⟨_, rfl⟩ | ⟨_, rfl⟩ <;> simp
  | stopFails hD hlive hrunning hcalls => exact (hD hkeep).elim
  | stops hD hlive hcalls => exact (hD hkeep).elim
  | graceStops hlive hexpired hkills =>
    refine hquiet _ rfl ?_
    rcases hkills with ⟨_, rfl⟩ | ⟨_, rfl⟩ <;> simp

/-! ## The pass that records a success kept back -/

/-- The live entry is not one of an attempt that ended. -/
def AttemptView.NotTerminal (v : AttemptView H) : Prop :=
  ∀ a, v.live = some a → ∀ exit, a.phase ≠ .terminal exit

theorem notTerminal_some (hlive : v.live = some a) (hphase : ∀ exit, a.phase ≠ .terminal exit) :
    v.NotTerminal := by
  intro b hb
  rw [← Option.some.inj (hlive.symm.trans hb)]
  exact hphase

theorem notTerminal_none (hlive : v.live = none) : v.NotTerminal := by
  intro b hb
  rw [hlive] at hb
  cases hb

theorem not_terminal_of_isParked {phase : AttemptPhase} (h : phase.isParked = true)
    (exit : Option Int) : phase ≠ .terminal exit := by
  rintro rfl
  cases h

/-- The exit policy of a connected agent leaves no terminal entry. -/
theorem notTerminal_settle (hconnected : c.authority.isIsolated = false) (now : Nat)
    (a : LiveAttempt H) (obs : Observation) (v : AttemptView H) :
    (AttemptView.settle c now id a obs v).NotTerminal := by
  rcases AttemptView.settle_cases c now id a obs v with ⟨_, _, hisolated, _⟩ | ⟨_, _, _, h⟩ |
      ⟨_, b, _, hparked, h⟩
  · rw [hconnected] at hisolated
    cases hisolated
  · rw [h]
    exact notTerminal_none rfl
  · rw [h]
    exact notTerminal_some rfl (not_terminal_of_isParked hparked)

theorem Turn.notTerminal (hconnected : c.authority.isIsolated = false) (h : v.NotTerminal)
    (hturn : Turn c o id v v') : v'.NotTerminal := by
  have hrunning : ∀ {a : LiveAttempt H}, a.phase = .running → ∀ exit, a.phase ≠ .terminal exit := by
    intro a hphase exit
    simp [hphase]
  cases hturn with
  | idle => exact h
  | note he => exact h
  | forget hD => exact h
  | startFails e hF hid hlive hcompleted hcalls => exact h
  | starts running hF hid hlive hcompleted hallowed => exact notTerminal_some rfl (hrunning rfl)
  | restartFails e hD hconnected' hlive hphase hcalls => exact notTerminal_none rfl
  | restarts running hD hlive hphase hallowed => exact notTerminal_some rfl (hrunning rfl)
  | observeErrs running hlive hrunning => exact notTerminal_some rfl fun exit => h _ hlive exit
  | observesRunning running hlive hsome hparked hobs => exact notTerminal_some rfl (hrunning rfl)
  | exits hlive hparked hobs hsource => exact notTerminal_settle hconnected _ _ _ _
  | checksReadiness hlive hphase hspec => exact notTerminal_some rfl (hrunning hphase)
  | checksLiveness hlive hphase hspec hfine => exact notTerminal_some rfl (hrunning hphase)
  | livenessFails hlive hphase hspec hfailed hallowed hkills =>
    exact notTerminal_settle hconnected _ _ _ _
  | stopFails hD hlive hrunning hcalls => exact notTerminal_some rfl fun exit => h _ hlive exit
  | stops hD hlive hcalls => exact notTerminal_none rfl
  | graceStops hlive hexpired hkills => exact notTerminal_none rfl

variable {s t : AgentState H}

/-- The exit policy leaves the view that it says. -/
theorem view_of_applyExitPolicy {obs : Observation} (hlive : s.live.get id = some a)
    (h : (applyExitPolicy c id obs now).run s = .ok () t) :
    t.view id = AttemptView.settle c now id a obs (s.view id) := by
  obtain ⟨w, hend⟩ := applyExitPolicy_end c now obs hlive
  rw [h] at hend
  rw [show t = _ from hend, view_withWorld, view_settle_self]

/-- An observation that returned to a connected agent leaves no terminal entry. -/
theorem observeOne_notTerminal (hconnected : c.authority.isIsolated = false)
    (h : (observeOne c id now).run s = .ok () t) : (t.view id).NotTerminal := by
  unfold observeOne at h
  rw [run_bind_ok (emit_run _ _), run_bind_ok (EStateM.run_get _)] at h
  cases hlive : s.live.get id with
  | none =>
    simp only [AgentState.emit_eq, AgentState.live_emits, hlive] at h
    cases h
  | some a =>
    simp only [AgentState.emit_eq, AgentState.live_emits, hlive] at h
    obtain ⟨_, _, hgate, hrest⟩ := run_bind_eq_ok.mp h
    obtain ⟨_, rfl⟩ := gate_eq_ok hgate
    cases hparked : a.phase.isParked with
    | true =>
      simp only [hparked, if_true] at hrest
      obtain ⟨_, rfl⟩ := EStateM.Result.ok.inj hrest
      exact notTerminal_some hlive (not_terminal_of_isParked hparked)
    | false =>
      simp only [hparked, Bool.false_eq_true, if_false] at hrest
      cases hrunning : a.running with
      | none =>
        simp only [hrunning] at hrest
        rw [view_of_applyExitPolicy (s := s.emits [.observeOne id]) hlive hrest]
        exact notTerminal_settle hconnected _ _ _ _
      | some handle =>
        simp only [hrunning] at hrest
        unfold observeRunning at hrest
        rw [run_bind_ok (onHost_run _ _), run_bind_ok (EStateM.run_modify _ _)] at hrest
        split at hrest
        · cases hrest
        · rw [run_bind_ok (emit_run _ _)] at hrest
          split at hrest
          · obtain ⟨_, rfl⟩ := EStateM.Result.ok.inj hrest
            exact notTerminal_some (OrdMap.get_insert_self _ _ _) (by simp)
          · rw [view_of_applyExitPolicy (OrdMap.get_insert_self _ _ _) hrest]
            exact notTerminal_settle hconnected _ _ _ _

/-- Supervision that returned to a connected agent leaves no terminal entry. -/
theorem superviseOne_notTerminal (hconnected : c.authority.isIsolated = false)
    {budget : CheckBudget} (h : (superviseOne c now budget id).run s = .ok () t) :
    (t.view id).NotTerminal := by
  obtain ⟨_, u, _, hrest⟩ := run_bind_eq_ok.mp h
  obtain ⟨_, u', hobserve, hcheck⟩ := run_bind_eq_ok.mp hrest
  have hchain : Reaches (Act c (Scope.watching id now)) (tickChecks c id now budget) u' :=
    tickChecks_reaches rfl budget fun a ha => ⟨fence_of_observeOne hobserve ha, hconnected⟩
  unfold Reaches at hchain
  rw [hcheck] at hchain
  exact chain_invariant (P := AttemptView.NotTerminal) (fun _ _ => Turn.notTerminal hconnected)
    (chain_turn hchain id) (observeOne_notTerminal hconnected hobserve)

/-- A pass that returned to a connected agent leaves no terminal entry. -/
theorem reconcile_notTerminal (hconnected : c.authority.isIsolated = false)
    {desired : List AcceptedPlacement} {reports : List AttemptReport}
    (h : (reconcile c desired now).run s = .ok reports t) (id : AttemptId) :
    (t.view id).NotTerminal := by
  unfold reconcile at h
  simp only [not_expired hconnected, hconnected, Bool.false_eq_true, if_false] at h
  obtain ⟨_, _, _, h⟩ := run_bind_eq_ok.mp h
  obtain ⟨_, _, _, h⟩ := run_bind_eq_ok.mp h
  obtain ⟨_, s₂, _, h⟩ := run_bind_eq_ok.mp h
  obtain ⟨_, _, hsupervise, h⟩ := run_bind_eq_ok.mp h
  obtain ⟨_, rfl⟩ := EStateM.Result.ok.inj h
  obtain ⟨budget, s₃, _, hloop⟩ := run_bind_eq_ok.mp hsupervise
  rw [run_bind_ok (EStateM.run_get _)] at hloop
  by_cases hmem : id ∈ s₃.live.keys
  · -- the attempt was supervised, and the attempts after it do not touch it
    obtain ⟨pre, post, hsplit⟩ := List.append_of_mem hmem
    have hnodup : (pre ++ id :: post).Nodup := hsplit ▸ s₃.live.keys_nodup
    have hpost : id ∉ post := (List.nodup_cons.mp (List.nodup_append.mp hnodup).2.1).1
    rw [hsplit] at hloop
    obtain ⟨_, u, _, hone, hafter⟩ := forM_run_split hloop
    obtain ⟨_, _, _, _, _, hframe⟩ := supervise_ok hconnected hafter
    have hview : (EStateM.run (superviseOne c now budget id) _ = .ok () u) := hone
    intro a ha
    exact superviseOne_notTerminal hconnected hview a ((hframe id hpost).symm.trans ha)
  · obtain ⟨_, _, _, _, _, hframe⟩ := supervise_ok hconnected hloop
    refine notTerminal_none ((hframe id hmem).trans ?_)
    cases hget : s₃.live.get id with
    | none => rfl
    | some a => exact (hmem (OrdMap.mem_keys_iff.mpr ⟨a, hget⟩)).elim

/-! ## Runs -/

/-- Over the turns of one operation, each success observed is kept. -/
theorem chain_records (hkeep : o.keep id)
    (hfinite : ∀ p, o.start p → p.attemptId = id → p.lifecycleFinite = true)
    (hisolated : c.authority.isIsolated = true → isolated) (hgrace : isolated → ¬ o.expired)
    (htidy : v.Tidy) (h : Relation.ReflTransGen (Turn c o id) v v') :
    v'.Tidy ∧ ∃ new, v'.log = v.log ++ new ∧ ∀ l₁ l₂, new = l₁ ++ .observed id success :: l₂ →
      v'.Kept isolated id l₂ := by
  induction h with
  | refl => exact ⟨htidy, [], by simp, by simp⟩
  | @tail u u' _ hturn ih =>
    obtain ⟨hu, past, hlog, hkept⟩ := ih
    refine ⟨hturn.tidy hfinite hu, ?_⟩
    by_cases hseen : ∃ l₁ l₂, past = l₁ ++ .observed id success :: l₂
    · obtain ⟨l₁, l₂, hpast⟩ := hseen
      -- a success was seen before: this turn only has to keep each of them
      have hnone : ∀ l, ∃ new, u'.log = u.log ++ new ∧ (u.Kept isolated id l →
          .observed id success ∉ new ∧ u'.Kept isolated id (l ++ new)) := by
        intro l
        by_cases hl : u.Kept isolated id l
        · obtain ⟨new, hnew, hnot, hk⟩ := hturn.keeps hkeep hgrace hl
          exact ⟨new, hnew, fun _ => ⟨hnot, hk⟩⟩
        · obtain ⟨new, hnew, _⟩ := hturn.records hkeep hisolated hu
          exact ⟨new, hnew, fun hl' => (hl hl').elim⟩
      obtain ⟨new, hnew, hstep⟩ := hnone l₂
      refine ⟨past ++ new, by rw [hnew, hlog, List.append_assoc], ?_⟩
      intro k₁ k₂ hsplit
      rcases split_append hsplit with ⟨k₃, hk₃, rfl⟩ | ⟨k₃, _, hk₃⟩
      · obtain ⟨new', hnew', hstep'⟩ := hnone k₃
        rw [List.append_cancel_left (hnew.symm.trans hnew')]
        exact (hstep' (hkept k₁ k₃ hk₃)).2
      · refine ((hstep (hkept l₁ l₂ hpast)).1 ?_).elim
        simp [hk₃]
    · obtain ⟨new, hnew, hrecords⟩ := hturn.records hkeep hisolated hu
      refine ⟨past ++ new, by rw [hnew, hlog, List.append_assoc], ?_⟩
      intro k₁ k₂ hsplit
      rcases split_append hsplit with ⟨k₃, hk₃, _⟩ | ⟨k₃, _, hk₃⟩
      · exact (hseen ⟨k₁, k₃, hk₃⟩).elim
      · exact hrecords k₃ k₂ hk₃

/-- Over the turns of one operation, a kept success stays kept. -/
theorem chain_keeps (hkeep : o.keep id) (hgrace : isolated → ¬ o.expired)
    (h : v.Kept isolated id later) (hchain : Relation.ReflTransGen (Turn c o id) v v') :
    ∃ new, v'.log = v.log ++ new ∧ v'.Kept isolated id (later ++ new) := by
  induction hchain with
  | refl => exact ⟨[], by simp, by simpa using h⟩
  | tail _ hturn ih =>
    obtain ⟨past, hlog, hpast⟩ := ih
    obtain ⟨new, hnew, _, hkept⟩ := hturn.keeps hkeep hgrace hpast
    exact ⟨past ++ new, by rw [hnew, hlog, List.append_assoc], by rwa [← List.append_assoc]⟩

variable {x : EffectExecutor H}

/-- An operation keeps a kept success, unless it finds the grace expired and the
success still waits. -/
theorem step_keeps (hop : op.KeepsFinite id) (hgrace : isolated → ¬ (op.scope x.config).expired)
    (h : (x.state.view id).Kept isolated id later) :
    ∃ new, ((x.step op).1.state.view id).log = (x.state.view id).log ++ new ∧
      ((x.step op).1.state.view id).Kept isolated id (later ++ new) := by
  rcases x.step_view op id with ⟨_, hview⟩ | hchain
  · rw [hview]
    refine ⟨[.acknowledged id], rfl, ?_⟩
    obtain ⟨hnone, hkept⟩ := h
    refine ⟨by simpa [NoStart] using hnone, ?_⟩
    rcases hkept with ⟨hw, hwaits⟩ | ⟨hdead, hdone, _⟩
    · exact Or.inl ⟨hw, hwaits⟩
    · exact Or.inr ⟨hdead, hdone, by simp⟩
  · exact chain_keeps (hop.keep x.config) hgrace h hchain

/-- A kept success stays kept over a run. -/
theorem run_keeps (isolated : Prop) (ops : List AgentOp) (hops : ∀ op ∈ ops, op.KeepsFinite id)
    (hgrace : isolated → ∀ t ∈ transitions EffectExecutor.step x ops,
      AgentTransition.graceExpired t = false) (h : (x.state.view id).Kept isolated id later) :
    ∃ new, ((runFrom EffectExecutor.step x ops).state.view id).log = (x.state.view id).log ++ new ∧
      ((runFrom EffectExecutor.step x ops).state.view id).Kept isolated id (later ++ new) := by
  refine runFrom_of_transitions (P := fun y : EffectExecutor H => ∃ new,
    (y.state.view id).log = (x.state.view id).log ++ new ∧
      (y.state.view id).Kept isolated id (later ++ new)) ?_ ⟨[], by simp, by simpa using h⟩
  rintro t ht ⟨past, hlog, hpast⟩
  obtain ⟨_, _, hsplit, _, _, hafter⟩ := exists_split_of_mem_transitions ht
  have hop : t.input.KeepsFinite id := hops _ (by simp [hsplit])
  have hexpired : isolated → ¬ (t.input.scope t.before.config).expired := by
    intro hw hexp
    have hfalse := hgrace hw t ht
    rw [(graceExpired_iff t).mp hexp] at hfalse
    cases hfalse
  obtain ⟨new, hnew, hkept⟩ := step_keeps hop hexpired hpast
  rw [hafter]
  exact ⟨past ++ new, by rw [hnew, hlog, List.append_assoc], by rwa [← List.append_assoc]⟩

/-- Before any success, the entry of a finite attempt that stays desired is
tidy. -/
theorem run_tidy {ops : List AgentOp} (hops : ∀ op ∈ ops, op.KeepsFinite id)
    (hx : (x.state.view id).Tidy) : ((runFrom EffectExecutor.step x ops).state.view id).Tidy := by
  refine runFrom_of_transitions (P := fun y : EffectExecutor H => (y.state.view id).Tidy) ?_ hx
  intro t ht htidy
  obtain ⟨_, _, hsplit, _, _, hafter⟩ := exists_split_of_mem_transitions ht
  have hop : t.input.KeepsFinite id := hops _ (by simp [hsplit])
  rw [hafter]
  rcases t.before.step_view t.input id with ⟨_, hview⟩ | hchain
  · rw [hview]
    exact htidy
  · exact chain_invariant (P := AttemptView.Tidy)
      (fun _ _ => Turn.tidy (hop.finite t.before.config)) hchain htidy

/-- A pass of a connected agent that returned. -/
def AgentTransition.Returned (t : AgentTransition H) : Prop :=
  t.before.config.authority.isIsolated = false ∧
    (∃ desired now, t.input = .reconcile desired now) ∧ ∃ reports, t.output = .ok reports

/-- A success that waits is recorded by the first pass of the connected agent that
returns. -/
theorem kept_of_returned {t : AgentTransition H} (hreturned : t.Returned)
    (houtput : t.output = (t.before.step t.input).2) (hafter : t.after = (t.before.step t.input).1)
    (h : (t.after.state.view id).Kept isolated id later) :
    (t.after.state.view id).Kept False id later := by
  obtain ⟨hconnected, ⟨desired, now, hinput⟩, reports, hok⟩ := hreturned
  have hnot : (t.after.state.view id).NotTerminal := by
    rw [houtput, hinput] at hok
    rw [hafter, hinput]
    have hsucceeded := (EffectExecutor.perform_snd _ _).mp ⟨reports, hok⟩
    obtain ⟨_, s, hrun⟩ := succeeded_iff.mp hsucceeded
    rw [EffectExecutor.step, EffectExecutor.perform_fst, hrun]
    exact reconcile_notTerminal hconnected hrun id
  refine ⟨h.1, ?_⟩
  rcases h.2 with ⟨_, a, ha, _, hphase, _⟩ | hrecorded
  · exact (hnot a ha _ hphase).elim
  · exact Or.inr hrecorded

theorem noStart_of_eventsOf {l : List AgentEvent} (h : NoStart id (eventsOf id l)) :
    NoStart id l := by
  intro fence ok hmem
  exact h fence ok (List.mem_filter.mpr ⟨hmem, by simp [AgentEvent.attempt]⟩)

/-- After the operation that observed a success, it is kept. -/
theorem kept_after_success {x₁ x₂ : EffectExecutor H} {post : List AgentOp}
    {l₁ l₂ : List AgentEvent} (hop : op.KeepsFinite id) (hx₂ : x₂ = (x₁.step op).1)
    (htidy : (x₁.state.view id).Tidy)
    (hseen : x₂.state.log = x₁.state.log ++ (l₁ ++ .observed id success :: l₂))
    (hgrace : x₁.config.authority.isIsolated = true →
      ∀ t ∈ transitions EffectExecutor.step x₁ (op :: post),
        AgentTransition.graceExpired t = false) :
    (x₂.state.view id).Kept (x₁.config.authority.isIsolated = true) id (eventsOf id l₂) := by
  have hlog : (x₂.state.view id).log = (x₁.state.view id).log ++
      (eventsOf id l₁ ++ .observed id success :: eventsOf id l₂) := by
    rw [show (x₂.state.view id).log = eventsOf id x₂.state.log from rfl, hseen]
    simp [eventsOf, AgentState.view, AgentEvent.attempt]
  rcases x₁.step_view op id with ⟨_, hview⟩ | hchain
  · rw [hx₂, hview] at hlog
    have hnew := List.append_cancel_left hlog
    cases hl : eventsOf id l₁ with
    | nil => simp [hl] at hnew
    | cons e rest => simp [hl] at hnew
  · rw [← hx₂] at hchain
    have hexpired : x₁.config.authority.isIsolated = true →
        ¬ (op.scope x₁.config).expired := by
      intro hw hexp
      have hfalse := hgrace hw _ List.mem_cons_self
      rw [(graceExpired_iff _).mp hexp] at hfalse
      cases hfalse
    obtain ⟨_, new, hnew, hkept⟩ := chain_records (hop.keep x₁.config) (hop.finite x₁.config)
      (fun h => h) hexpired htidy hchain
    exact hkept _ _ (List.append_cancel_left (hnew.symm.trans hlog))

/-- The success of a finite attempt stays with it, over every run that keeps the
attempt desired.  `x₁` is a state of the run, the operation `op` observes the
success, and `post` follows.  A success seen by a connected agent is final: nothing
is started again, and its completion is announced until acknowledged.  A success
seen under isolation is so too unless a later pass finds the grace expired; its
completion is announced from the first pass of the reconnected agent that
returns. -/
theorem finite_success_kept (base : String) (authority : AuthorityState) (world : W)
    (config : AgentConfig) (id : AttemptId) (pre post : List AgentOp) (op : AgentOp)
    (x₁ x₂ y : EffectExecutor H) (l₁ l₂ l₃ : List AgentEvent)
    (hkeeps : ∀ o ∈ pre ++ op :: post, o.KeepsFinite id)
    (hx₁ : x₁ = runFrom EffectExecutor.step
      { EffectExecutor.new base authority world with config := config } pre)
    (hx₂ : x₂ = (x₁.step op).1) (hy : y = runFrom EffectExecutor.step x₂ post)
    (hseen : x₂.state.log = x₁.state.log ++ (l₁ ++ .observed id success :: l₂))
    (hlater : y.state.log = x₂.state.log ++ l₃)
    (hgrace : x₁.config.authority.isIsolated = true →
      ∀ t ∈ transitions EffectExecutor.step x₁ (op :: post),
        AgentTransition.graceExpired t = false) :
    NoStart id (l₂ ++ l₃) ∧
    (.acknowledged id ∉ l₂ ++ l₃ → y.state.completionEvents.contains id = true ∨
      x₁.config.authority.isIsolated = true ∧ (y.state.view id).Waits ∧
        ∀ t ∈ transitions EffectExecutor.step x₂ post, ¬ AgentTransition.Returned t) := by
  have hpre : ∀ o ∈ pre, o.KeepsFinite id := fun o ho => hkeeps o (by simp [ho])
  have hop : op.KeepsFinite id := hkeeps op (by simp)
  have hpost : ∀ o ∈ post, o.KeepsFinite id := fun o ho => hkeeps o (by simp [ho])
  have hgrace' : x₁.config.authority.isIsolated = true →
      ∀ t ∈ transitions EffectExecutor.step x₂ post, AgentTransition.graceExpired t = false :=
    fun hw t ht => hgrace hw t (List.mem_cons_of_mem _ (hx₂ ▸ ht))
  have hlast : y.state.log = x₂.state.log ++ l₃ → ∀ {isolated : Prop} {later : List AgentEvent},
      (∃ new, (y.state.view id).log = (x₂.state.view id).log ++ new ∧
        (y.state.view id).Kept isolated id (later ++ new)) →
      (y.state.view id).Kept isolated id (later ++ eventsOf id l₃) := by
    rintro hlog isolated later ⟨new, hnew, hkept⟩
    rw [show (y.state.view id).log = eventsOf id y.state.log from rfl, hlog,
      eventsOf_append] at hnew
    rwa [← List.append_cancel_left hnew] at hkept
  have hkept₂ := kept_after_success hop hx₂ (hx₁ ▸ run_tidy hpre (tidy_none rfl)) hseen hgrace
  by_cases hreturned : ∃ t ∈ transitions EffectExecutor.step x₂ post, AgentTransition.Returned t
  · -- from the pass that returned on, the success is recorded
    obtain ⟨t, ht, hret⟩ := hreturned
    obtain ⟨p₁, p₂, hsplit, hbefore, houtput, hafter⟩ := exists_split_of_mem_transitions ht
    have hend : t.after = runFrom EffectExecutor.step x₂ (p₁ ++ [t.input]) := by
      rw [runFrom_concat, ← hbefore, hafter]
    have hy' : y = runFrom EffectExecutor.step t.after p₂ := by
      rw [hy, hend, ← runFrom_append, hsplit, List.append_assoc]
      rfl
    obtain ⟨new₁, hlog₁, hkept₁⟩ := run_keeps _ (p₁ ++ [t.input])
      (fun o ho => hpost o (by
        rw [hsplit, List.append_cons]
        exact List.mem_append_left _ ho))
      (fun hw t' ht' => hgrace' hw t' (by
        rw [hsplit, List.append_cons, transitions_append]
        exact List.mem_append_left _ ht')) hkept₂
    rw [← hend] at hlog₁ hkept₁
    obtain ⟨new₂, hlog₂, hkeptEnd⟩ := run_keeps False p₂
      (fun o ho => hpost o (by simp [hsplit, ho])) (fun hw => hw.elim)
      (kept_of_returned hret houtput hafter hkept₁)
    rw [← hy'] at hlog₂ hkeptEnd
    have hkept := hlast hlater ⟨new₁ ++ new₂, by rw [hlog₂, hlog₁, List.append_assoc],
      by rwa [← List.append_assoc]⟩
    rw [← eventsOf_append] at hkept
    refine ⟨noStart_of_eventsOf hkept.1, fun hack => Or.inl ?_⟩
    rcases hkept.2 with ⟨hw, _⟩ | ⟨_, _, hpending⟩
    · exact hw.elim
    · exact hpending fun hmem => hack (List.mem_filter.mp hmem).1
  · have hkept := hlast hlater (hy ▸ run_keeps _ post hpost hgrace' hkept₂)
    rw [← eventsOf_append] at hkept
    refine ⟨noStart_of_eventsOf hkept.1, fun hack => ?_⟩
    rcases hkept.2 with ⟨hw, hwaits⟩ | ⟨_, _, hpending⟩
    · exact Or.inr ⟨hw, hwaits, fun t ht hret => hreturned ⟨t, ht, hret⟩⟩
    · exact Or.inl (hpending fun hmem => hack (List.mem_filter.mp hmem).1)

/-- A pass over one finite placement. -/
def finitePass (now : Nat) : AgentOp := .reconcile [samplePlacement 1 true true {}] now

/-- A finite success seen in the pass that started the attempt, then a further pass: nothing
is started again, and the completion waits to be acknowledged.  A success seen under isolation
is announced once the agent has reconnected. -/
theorem finite_success_kept_next_pass :
    (NoStart (Octets.fill 16 1) [.tickChecks (Octets.fill 16 1)] ∧
      (runFrom EffectExecutor.step (Script.executor { observations := [success] })
        [finitePass 0, finitePass 250]).state.completionEvents.contains (Octets.fill 16 1) = true) ∧
    (runFrom EffectExecutor.step (Script.executor { observations := [⟨true, none⟩, success] })
      [finitePass 0, .markIsolated 10, finitePass 20, .clearIsolation 1 1,
        finitePass 30]).state.completionEvents.contains (Octets.fill 16 1) = true := by
  constructor
  · have hkept := finite_success_kept "/attempts" (.connected 1 1) { observations := [success] }
      (Script.executor { observations := [success] }).config (Octets.fill 16 1) []
      [finitePass 250] (finitePass 0) (Script.executor { observations := [success] }) _ _
      [.startPlacement (Octets.fill 16 1) 1, .driverStart (Octets.fill 16 1) 1 true,
        .observeOne (Octets.fill 16 1)]
      [.tickChecks (Octets.fill 16 1)] []
      (by simp [AgentOp.KeepsFinite, finitePass, isDesired, samplePlacement])
      rfl rfl rfl (by decide +kernel) (by decide +kernel) (fun h => by cases h)
    refine ⟨hkept.1, ?_⟩
    rcases hkept.2 (by simp) with hpending | ⟨hisolated, _⟩
    · exact hpending
    · cases hisolated
  · have hkept := finite_success_kept "/attempts" (.connected 1 1)
      { observations := [⟨true, none⟩, success] }
      (Script.executor { observations := [success] }).config (Octets.fill 16 1)
      [finitePass 0, .markIsolated 10] [.clearIsolation 1 1, finitePass 30] (finitePass 20)
      (runFrom EffectExecutor.step (Script.executor { observations := [⟨true, none⟩, success] })
        [finitePass 0, .markIsolated 10]) _ _
      [.observeOne (Octets.fill 16 1)] []
      [.observeOne (Octets.fill 16 1), .tickChecks (Octets.fill 16 1)]
      (by simp [AgentOp.KeepsFinite, finitePass, isDesired, samplePlacement])
      rfl rfl rfl (by decide +kernel) (by decide +kernel) (fun _ => by decide +kernel)
    simp only [runFrom_cons, runFrom_nil] at hkept ⊢
    rcases hkept.2 (by simp) with hpending | ⟨-, ⟨a, ha, -⟩, -⟩
    · exact hpending
    · have hlive := congrArg Option.isSome ha
      rw [Option.isSome_some] at hlive
      revert hlive
      decide +kernel

/-- What is asked of a run: after each success of the attempt nothing is started,
and its completion is announced until acknowledged. -/
def SuccessFinal (id : AttemptId) (x : EffectExecutor H) (ops : List AgentOp) : Prop :=
  ∀ l₁ l₂, (runFrom EffectExecutor.step x ops).state.log = l₁ ++ .observed id success :: l₂ →
    NoStart id l₂ ∧ (.acknowledged id ∉ l₂ →
      (runFrom EffectExecutor.step x ops).state.completionEvents.contains id = true)

/-- A success seen under isolation is not announced while the isolation lasts. -/
theorem isolated_success_unannounced :
    (∀ op ∈ [finitePass 0, .markIsolated 10, finitePass 20], op.KeepsFinite (Octets.fill 16 1)) ∧
    ¬ SuccessFinal (Octets.fill 16 1)
      (Script.executor { observations := [⟨true, none⟩, success] })
      [finitePass 0, .markIsolated 10, finitePass 20] := by
  refine ⟨by simp [AgentOp.KeepsFinite, finitePass, isDesired, samplePlacement], fun h => ?_⟩
  have hpending := (h [.startPlacement (Octets.fill 16 1) 1,
    .driverStart (Octets.fill 16 1) 1 true, .observeOne (Octets.fill 16 1),
    .observed (Octets.fill 16 1) ⟨true, none⟩, .tickChecks (Octets.fill 16 1),
    .observeOne (Octets.fill 16 1)] [] (by decide +kernel)).2 (by simp)
  revert hpending
  decide +kernel

end Gump.Agent
