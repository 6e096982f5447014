/-
  Agent/Retries.lean --- retries are bounded.

  The count of the executions of an attempt lives in its live entry.  A restart
  removes the entry before it starts the process, so a restart that fails loses
  the count, and a first start that the driver refuses never had one: the next
  pass starts from one again.  Without such failures the driver's start is called
  at most as often as the retry policy allows.
-/
import Mathlib.Algebra.GroupWithZero.Nat
import Gump.Agent.Failures
import Gump.Agent.View

set_option autoImplicit false

namespace Gump.Agent

open Gump.Foundation Gump.Types

variable {W : Type} {H : AgentHost W} {c : AgentConfig} {o : Scope} {id : AttemptId}
  {contract : LifecycleContract} {v v' : AttemptView H}

/-- An operation that keeps the attempt `id` desired under one contract, without
isolation, cancellation or a forced kill. -/
def AgentOp.KeepsContract (id : AttemptId) (contract : LifecycleContract) : AgentOp → Prop
  | .reconcile desired _ => isDesired desired id = true ∧
      ∀ p ∈ desired, p.attemptId = id → p.lifecycle = contract
  | .acknowledgeCompletion _ => True
  | .clearIsolation _ _ => True
  | .setAuthority authority => authority.isIsolated = false
  | _ => False

/-- Whether an event is a call of the driver's start for the attempt. -/
def AgentEvent.isStartOf (id : AttemptId) : AgentEvent → Bool
  | .driverStart id' _ _ => decide (id' = id)
  | _ => false

/-- How often the driver's start was called for the attempt. -/
def driverStarts (id : AttemptId) (log : List AgentEvent) : Nat :=
  log.countP (AgentEvent.isStartOf id)

/-- A failure that loses the count of the attempt: the driver refused a start, or
a restart failed. -/
def AgentEvent.losesCount (id : AttemptId) : AgentEvent → Bool
  | .driverStart id' _ ok => decide (id' = id) && !ok
  | .startFailed id' index _ => decide (id' = id) && decide (1 < index)
  | _ => false

theorem driverStarts_append (id : AttemptId) (l₁ l₂ : List AgentEvent) :
    driverStarts id (l₁ ++ l₂) = driverStarts id l₁ + driverStarts id l₂ := List.countP_append

theorem driverStarts_start (id : AttemptId) (k fence : Nat) (ok : Bool) :
    driverStarts id [.startPlacement id k, .driverStart id fence ok] = 1 := by
  simp [driverStarts, AgentEvent.isStartOf]

/-- The starts of an attempt are among the events about it. -/
theorem driverStarts_eventsOf (id : AttemptId) (log : List AgentEvent) :
    driverStarts id (eventsOf id log) = driverStarts id log := by
  unfold driverStarts eventsOf
  rw [List.countP_filter]
  congr 1
  funext e
  cases e with
  | driverStart id' fence ok =>
    by_cases h : id' = id <;> simp [AgentEvent.isStartOf, AgentEvent.attempt, h]
  | _ => rfl

/-! ## The count of one attempt -/

/-- Whether a phase waits for a restart. -/
def AttemptPhase.isAwaiting : AttemptPhase → Bool
  | .awaitingRestart _ => true
  | _ => false

theorem isAwaiting_of_not_isParked {phase : AttemptPhase} (h : phase.isParked = false) :
    phase.isAwaiting = false := by
  cases phase <;> first | rfl | cases h

/-- After `n` starts the entry counts them: its index is the number of the
execution that runs, or of the one that is due. -/
def LiveAttempt.Counts (contract : LifecycleContract) (n : Nat) (a : LiveAttempt H) : Prop :=
  a.lifecycle = contract ∧ 1 ≤ a.attemptIndex ∧
    if a.phase.isAwaiting then
      n < a.attemptIndex ∧ 1 < a.attemptIndex ∧ a.attemptIndex ≤ contract.retry.maxAttempts
    else n ≤ a.attemptIndex ∧ a.attemptIndex ≤ max 1 contract.retry.maxAttempts

/-- The view counts its starts: in the live entry, or none when nothing lives and
nothing has completed. -/
def AttemptView.Counts (contract : LifecycleContract) (id : AttemptId) (v : AttemptView H) :
    Prop :=
  driverStarts id v.log ≤ max 1 contract.retry.maxAttempts ∧
    (∀ a, v.live = some a → a.Counts contract (driverStarts id v.log)) ∧
    (v.live = none → v.completed = false → driverStarts id v.log = 0)

variable {a : LiveAttempt H}

theorem LiveAttempt.Counts.le {n : Nat} (h : a.Counts contract n) :
    n ≤ max 1 contract.retry.maxAttempts := by
  obtain ⟨_, _, hrest⟩ := h
  split at hrest <;> omega

theorem counts_some (hlive : v.live = some a) (h : a.Counts contract (driverStarts id v.log)) :
    v.Counts contract id := by
  refine ⟨h.le, ?_, ?_⟩
  · intro b hb
    rw [← Option.some.inj (hlive.symm.trans hb)]
    exact h
  · intro hnone
    rw [hlive] at hnone
    cases hnone

/-- An entry with the same contract, index and phase counts the same. -/
theorem LiveAttempt.Counts.congr {n : Nat} {b : LiveAttempt H} (h : a.Counts contract n)
    (hlifecycle : b.lifecycle = a.lifecycle) (hindex : b.attemptIndex = a.attemptIndex)
    (hphase : b.phase.isAwaiting = a.phase.isAwaiting) : b.Counts contract n := by
  unfold LiveAttempt.Counts
  rw [hlifecycle, hindex, hphase]
  exact h

/-- The exit of an entry that ran is counted. -/
theorem counts_settle (hword : contract.retry.maxAttempts ≤ u32Max) {now : Nat} {obs : Observation}
    (hawaiting : a.phase.isAwaiting = false) (h : a.Counts contract (driverStarts id v.log)) :
    (AttemptView.settle c now id a obs v).Counts contract id := by
  obtain ⟨hlifecycle, hone, hindex⟩ := h
  rw [hawaiting] at hindex
  simp only [Bool.false_eq_true, if_false] at hindex
  rcases AttemptView.settle_cases c now id a obs v with ⟨_, _, _, hsettle⟩ | ⟨_, _, _, hsettle⟩ |
      ⟨_, b, hb, _, hsettle⟩
  · rw [hsettle]
    exact counts_some rfl ⟨hlifecycle, hone, hindex⟩
  · rw [hsettle]
    exact ⟨hindex.1.trans hindex.2, by simp, by simp⟩
  · rw [hsettle]
    refine counts_some rfl ⟨hb.lifecycle.trans hlifecycle, ?_⟩
    rcases hb.retry with ⟨⟨after, hphase⟩, hlt, hnext⟩ | ⟨hphase, hsame⟩
    · have hle : a.attemptIndex + 1 ≤ u32Max := by
        rw [hlifecycle] at hlt
        omega
      rw [hnext, saturatingAdd32_eq hle, hphase]
      rw [hlifecycle] at hlt
      simp only [AttemptPhase.isAwaiting, if_true, AttemptView.log_withLive]
      omega
    · have hnot : b.phase.isAwaiting = false := by
        cases hcase : b.phase with
        | awaitingRestart after => exact (hphase after hcase).elim
        | _ => rfl
      rw [hsame, hnot]
      exact ⟨hone, hindex⟩

/-- A turn that neither changes the entry nor calls the driver's start. -/
theorem AttemptView.Counts.quiet (h : v.Counts contract id) {new : List AgentEvent}
    (hnew : driverStarts id new = 0) : (v.emits new).Counts contract id := by
  have hsame : driverStarts id (v.log ++ new) = driverStarts id v.log := by
    rw [driverStarts_append, hnew, Nat.add_zero]
  unfold AttemptView.Counts
  rw [AttemptView.log_emits, hsame]
  exact h

/-- A turn that calls no start and leaves an entry that counts as before. -/
theorem AttemptView.Counts.entry (h : v.Counts contract id) {b : LiveAttempt H}
    (hlive : v.live = some a) (new : List AgentEvent) (hnew : driverStarts id new = 0)
    (hlifecycle : b.lifecycle = a.lifecycle) (hindex : b.attemptIndex = a.attemptIndex)
    (hphase : b.phase.isAwaiting = a.phase.isAwaiting) :
    ((v.emits new).withLive (some b)).Counts contract id :=
  counts_some rfl (((h.quiet hnew).2.1 a hlive).congr hlifecycle hindex hphase)

/-- Without a failure that loses the count, every turn keeps it. -/
theorem Turn.counts (hword : contract.retry.maxAttempts ≤ u32Max) (hkeep : o.keep id)
    (hstart : ∀ p, o.start p → p.attemptId = id → p.lifecycle = contract) (hgrace : ¬ o.expired)
    (h : v.Counts contract id) (hturn : Turn c o id v v')
    (hclean : ∀ e ∈ v'.log, e.losesCount id = false) : v'.Counts contract id := by
  cases hturn with
  | idle => exact h
  | @note e he =>
    refine h.quiet ?_
    cases e <;> first | rfl | exact he.elim
  | forget hD => exact (hD hkeep).elim
  | @startFails p calls e hF hid hlive hcompleted hcalls =>
    rcases hcalls with rfl | ⟨rfl, _⟩
    · exact h.quiet rfl
    · have hlost := hclean (.driverStart id p.placementFence false) (by simp)
      simp [AgentEvent.losesCount] at hlost
  | @starts p running hF hid hlive hcompleted hallowed =>
    -- nothing lives and nothing completed, so this is the first call
    refine counts_some rfl ⟨hstart p hF hid, Nat.le_refl 1, ?_⟩
    simp only [AttemptView.log_withLive, AttemptView.log_emits, driverStarts_append,
      driverStarts_start, h.2.2 hlive hcompleted, freshAttempt, AttemptPhase.isAwaiting,
      Bool.false_eq_true, if_false]
    omega
  | @restartFails a after calls e hD hconnected hlive hphase hcalls =>
    obtain ⟨_, _, hindex⟩ := h.2.1 a hlive
    simp only [hphase, AttemptPhase.isAwaiting, if_true] at hindex
    have hlost := hclean (.startFailed id a.attemptIndex e) (by simp)
    simp [AgentEvent.losesCount, hindex.2.1] at hlost
  | @restarts a after running hD hlive hphase hallowed =>
    obtain ⟨hlifecycle, hone, hindex⟩ := h.2.1 a hlive
    simp only [hphase, AttemptPhase.isAwaiting, if_true] at hindex
    refine counts_some rfl ⟨hlifecycle, hone, ?_⟩
    simp only [AttemptView.log_withLive, AttemptView.log_emits, driverStarts_append,
      driverStarts_start, freshAttempt, AttemptPhase.isAwaiting, Bool.false_eq_true, if_false]
    omega
  | observeErrs running hlive hrunning =>
    simpa [AttemptView.emits] using
      h.entry (b := LiveAttempt.withRunning _ (some running)) hlive [] rfl rfl rfl rfl
  | observesRunning running hlive hrunning hparked hobs =>
    exact h.entry hlive _ rfl rfl rfl (isAwaiting_of_not_isParked hparked).symm
  | @exits a obs events hlive hparked hobs hsource =>
    have hquiet : driverStarts id events = 0 := by
      rcases hsource with ⟨_, rfl⟩ | ⟨_, rfl, _⟩ <;> rfl
    exact counts_settle hword (isAwaiting_of_not_isParked hparked) ((h.quiet hquiet).2.1 a hlive)
  | checksReadiness hlive hphase hspec => exact h.entry hlive _ rfl rfl rfl rfl
  | checksLiveness hlive hphase hspec hfine => exact h.entry hlive _ rfl rfl rfl rfl
  | @livenessFails a spec out kills hlive hphase hspec hfailed hallowed hkills =>
    have hquiet : driverStarts id (.checked id .liveness spec out a.liveness
        (recordLiveness a out spec o.now).liveness :: .livenessFailed id spec :: kills) = 0 := by
      rcases hkills with ⟨_, rfl⟩ | ⟨_, rfl⟩ <;> rfl
    refine counts_settle hword ?_ (((h.quiet hquiet).2.1 a hlive).congr rfl rfl rfl)
    simp [recordLiveness, hphase, AttemptPhase.isAwaiting]
  | stopFails hD hlive hrunning hcalls => exact (hD hkeep).elim
  | stops hD hlive hcalls => exact (hD hkeep).elim
  | graceStops hlive hexpired hkills => exact (hgrace hexpired).elim

/-! ## Runs -/

variable {op : AgentOp}

theorem AgentOp.KeepsContract.keep (h : op.KeepsContract id contract) (c : AgentConfig) :
    (op.scope c).keep id := by
  cases op with
  | reconcile desired now => exact h.1
  | cancel id' => exact h.elim
  | forceKill id' => exact h.elim
  | _ => trivial

theorem AgentOp.KeepsContract.start (h : op.KeepsContract id contract) (c : AgentConfig)
    (p : AcceptedPlacement) (hstart : (op.scope c).start p) (hid : p.attemptId = id) :
    p.lifecycle = contract := by
  cases op with
  | reconcile desired now => exact h.2 p hstart hid
  | _ => exact hstart.elim

theorem scope_not_expired (hconnected : c.authority.isIsolated = false) (op : AgentOp) :
    ¬ (op.scope c).expired := by
  cases op with
  | reconcile desired now => simp [AgentOp.scope, reconcileScope, not_expired hconnected now]
  | _ => exact fun h => h

/-- An operation without isolation leaves a connected agent. -/
theorem connected_step {x : EffectExecutor H} (hop : op.KeepsContract id contract)
    (hx : x.config.authority.isIsolated = false) :
    (x.step op).1.config.authority.isIsolated = false := by
  cases op with
  | reconcile desired now =>
    rw [EffectExecutor.step, EffectExecutor.perform_fst]
    exact hx
  | clearIsolation fence epoch => rfl
  | setAuthority authority => exact hop
  | acknowledgeCompletion id' => exact hx
  | _ => exact hop.elim

/-- Over every run that keeps an attempt desired under one contract, without
isolation, cancellation or a forced kill: as long as the driver refused no start of
the attempt and no restart of it failed, the driver's start was called at most as
often as the retry policy allows. -/
theorem starts_bounded (base : String) (authority : AuthorityState) (world : W)
    (config : AgentConfig) (hconnected : config.authority.isIsolated = false) (id : AttemptId)
    (contract : LifecycleContract) (hword : contract.retry.maxAttempts ≤ u32Max)
    (ops : List AgentOp) (hops : ∀ op ∈ ops, op.KeepsContract id contract) (y : EffectExecutor H)
    (hy : y = runFrom EffectExecutor.step
      { EffectExecutor.new base authority world with config := config } ops)
    (hclean : ∀ e ∈ y.state.log, e.losesCount id = false) :
    driverStarts id y.state.log ≤ max 1 contract.retry.maxAttempts := by
  have hrun : y.config.authority.isIsolated = false ∧
      ((∀ e ∈ (y.state.view id).log, e.losesCount id = false) →
        (y.state.view id).Counts contract id) := by
    rw [hy]
    refine runFrom_of_transitions (P := fun z : EffectExecutor H =>
      z.config.authority.isIsolated = false ∧
        ((∀ e ∈ (z.state.view id).log, e.losesCount id = false) →
          (z.state.view id).Counts contract id)) ?_ ?_
    · rintro t ht ⟨hbefore, hcounts⟩
      obtain ⟨_, _, hsplit, _, _, hafter⟩ := exists_split_of_mem_transitions ht
      have hop : t.input.KeepsContract id contract := hops _ (by simp [hsplit])
      rw [hafter]
      refine ⟨connected_step hop hbefore, ?_⟩
      rcases t.before.step_view t.input id with ⟨_, hview⟩ | hchain
      · rw [hview]
        intro hlog
        have hpast := hcounts fun e he => hlog e (List.mem_append_left _ he)
        have hnone : driverStarts id [.acknowledged id] = 0 := rfl
        exact hpast.quiet hnone
      · -- the events only grow, so what is clean at the end was clean before
        refine chain_invariant (P := fun u : AttemptView H =>
          (∀ e ∈ u.log, e.losesCount id = false) → u.Counts contract id) ?_ hchain hcounts
        intro u u' hu hturn hlog
        obtain ⟨new, hnew⟩ := hturn.log_append
        refine hturn.counts hword (hop.keep _) (hop.start _) (scope_not_expired hbefore _)
          (hu fun e he => hlog e ?_) hlog
        rw [hnew]
        exact List.mem_append_left _ he
    · exact ⟨hconnected, fun _ => ⟨Nat.zero_le _, by simp [AgentState.view, EffectExecutor.new],
        fun _ _ => rfl⟩⟩
  have hcounts := hrun.2 fun e he => hclean e (List.mem_filter.mp he).1
  rw [← driverStarts_eventsOf]
  exact hcounts.1

/-- The contract of the samples below: two executions. -/
def twoAttempts : LifecycleContract := { retry := { maxAttempts := 2 } }

/-- An attempt that exits with a failure and is restarted once. -/
theorem starts_bounded_restart :
    driverStarts (Octets.fill 16 1) (runFrom EffectExecutor.step
      (Script.executor { observations := [⟨false, some 1⟩] })
      [.reconcile [samplePlacement 1 false true twoAttempts] 0,
        .reconcile [samplePlacement 1 false true twoAttempts] 9000]).state.log ≤ max 1 2 := by
  have hbound := starts_bounded "/attempts" (.connected 1 1)
    { observations := [⟨false, some 1⟩] }
    (Script.executor { observations := [⟨false, some 1⟩] }).config rfl (Octets.fill 16 1)
    twoAttempts (by decide)
    [.reconcile [samplePlacement 1 false true twoAttempts] 0,
      .reconcile [samplePlacement 1 false true twoAttempts] 9000]
    (by
      intro op hop
      simp only [List.mem_cons, List.not_mem_nil, or_false] at hop
      rcases hop with rfl | rfl <;> exact ⟨rfl, by simp [samplePlacement]⟩)
    (runFrom EffectExecutor.step (Script.executor { observations := [⟨false, some 1⟩] }) _) rfl
    (by decide +kernel)
  exact hbound

/-- A restart that the driver refuses loses the count: two executions are allowed,
and the driver's start is called three times. -/
theorem refused_restart_recounts :
    (∀ op ∈ ([.reconcile [samplePlacement 1 false true twoAttempts] 0,
        .reconcile [samplePlacement 1 false true twoAttempts] 9000,
        .reconcile [samplePlacement 1 false true twoAttempts] 9250] : List AgentOp),
      op.KeepsContract (Octets.fill 16 1) twoAttempts) ∧
    ¬ driverStarts (Octets.fill 16 1) (runFrom EffectExecutor.step
      (Script.executor { starts := [true, false], observations := [⟨false, some 1⟩] })
      [.reconcile [samplePlacement 1 false true twoAttempts] 0,
        .reconcile [samplePlacement 1 false true twoAttempts] 9000,
        .reconcile [samplePlacement 1 false true twoAttempts] 9250]).state.log
      ≤ max 1 twoAttempts.retry.maxAttempts := by
  refine ⟨?_, by decide +kernel⟩
  intro op hop
  simp only [List.mem_cons, List.not_mem_nil, or_false] at hop
  rcases hop with rfl | rfl | rfl <;> exact ⟨rfl, by simp [samplePlacement]⟩

end Gump.Agent
