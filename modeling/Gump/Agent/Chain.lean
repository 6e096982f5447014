/-
  Agent/Chain.lean --- every method of the executor is a chain of acts.

  Each method is read once, against the acts it is made of.  A pass needs two
  facts between its parts: after the obsolete attempts were stopped only desired
  ones live, and an observation that returned has just matched the fence of the
  attempt whose liveness may be killed next.
-/
import Mathlib.Algebra.GroupWithZero.Nat
import Gump.Agent.Acts

set_option autoImplicit false

namespace Gump.Agent

open Gump.Foundation Gump.Types

variable {W : Type} {H : AgentHost W} {α β : Type}

/-! ## Every method is a chain of acts -/

section Methods

variable {c : AgentConfig} {o : Scope} {now : Nat}

theorem Ambient.reaches {m : AgentM H α} (hm : Ambient m) (s : AgentState H) :
    Reaches (Act c o) m s := by
  obtain ⟨w, hw⟩ := hm s
  exact Reaches.single hw (.world w)

variable {s : AgentState H}

/-- A gate that refuses changes nothing. -/
theorem reaches_gate_bind {decision : Except FenceError Unit} {k : Unit → AgentM H α}
    (h : decision = .ok () → Reaches (Act c o) (k ()) s) :
    Reaches (Act c o) (gate decision >>= k) s := by
  cases decision with
  | ok u => exact h rfl
  | error e => exact Reaches.throw _ _

variable {id : AttemptId}

theorem stopAndCleanup_reaches (hon : o.on id) (hD : ¬ o.keep id) (s : AgentState H) :
    Reaches (Act c o) (stopAndCleanup c id) s := by
  unfold stopAndCleanup
  refine Reaches.get_bind ?_
  cases hlive : s.live.get id with
  | none => exact Reaches.throw _ _
  | some a =>
    refine reaches_gate_bind fun hgate => ?_
    have hallowed : Allowed c a.placementFence := allowEffect_eq_ok.mp hgate
    obtain ⟨running, w, calls, hcalls, hsome, hend⟩ := stopRunning_cases id hlive
    cases hrun : (stopRunning id a).run s with
    | error e t =>
      rw [hrun] at hend
      refine Reaches.single ?_ (.stopFails w hon hD hlive hallowed hsome hcalls)
      rw [run_bind_error hrun, hend]
    | ok u t =>
      rw [hrun] at hend
      obtain ⟨w', hclean⟩ := cleanupLive_end id (t.markStopped id)
      refine Reaches.single ?_ (.stops w' hon hD hlive hallowed hcalls)
      rw [run_bind_ok hrun, run_bind_ok (EStateM.run_modify _ _), hclean,
        AgentState.markStopped_dropLive, show t = _ from hend]
      simp

theorem cancel_reaches (hon : o.on id) (hD : ¬ o.keep id) (s : AgentState H) :
    Reaches (Act c o) (cancel c id) s := by
  unfold cancel
  refine Reaches.get_bind ?_
  cases s.live.get id with
  | none => exact Reaches.throw _ _
  | some a => exact reaches_gate_bind fun _ => stopAndCleanup_reaches hon hD s

theorem forceKill_reaches (hon : o.on id) (hD : ¬ o.keep id) (s : AgentState H) :
    Reaches (Act c o) (forceKill c id) s := by
  unfold forceKill
  refine Reaches.get_bind ?_
  cases hlive : s.live.get id with
  | none => exact Reaches.throw _ _
  | some a =>
    refine reaches_gate_bind fun hgate => ?_
    have hallowed : Allowed c a.placementFence := allowEffect_eq_ok.mp hgate
    obtain ⟨result, running, w, calls, hcalls, hsome, hkill⟩ := killRunning_run id .forced hlive
    have hstop := isStopCall_of_killCalls hcalls (Or.inr rfl)
    cases result with
    | error e =>
      refine Reaches.single ?_ (.stopFails w hon hD hlive hallowed hsome hstop)
      rw [run_bind_ok hkill]
      rfl
    | ok u =>
      obtain ⟨w', hclean⟩ := cleanupLive_end id
        (((s.emits calls).setLive id (a.withRunning running)).withWorld w)
      refine Reaches.single ?_ (.stops w' hon hD hlive hallowed hstop)
      rw [run_bind_ok hkill]
      refine hclean.trans ?_
      simp

theorem forceStopCleanup_reaches (hon : o.on id) (hexpired : o.expired) (s : AgentState H) :
    Reaches (Act c o) (forceStopCleanup id) s := by
  unfold forceStopCleanup
  refine Reaches.get_bind ?_
  cases hlive : s.live.get id with
  | none =>
    obtain ⟨w, hclean⟩ := cleanupLive_end id s
    rw [AgentState.dropLive_of_get hlive] at hclean
    exact Reaches.single hclean (.world w)
  | some a =>
    obtain ⟨result, running, w, kills, hkills, _, hkill⟩ := killRunning_run id .grace hlive
    obtain ⟨w', hclean⟩ := cleanupLive_end id
      (((s.emits kills).setLive id (a.withRunning running)).withWorld w)
    refine Reaches.single ?_ (.graceStops w' hon hlive hexpired hkills)
    rw [run_bind_ok hkill, hclean]
    simp

variable {a : LiveAttempt H}

variable (c now) in
/-- The exit policy settles the live entry, whatever the cleanups answer. -/
theorem applyExitPolicy_end (obs : Observation) (hlive : s.live.get id = some a) :
    ∃ w, endState ((applyExitPolicy c id obs now).run s)
      = (settle c now id a obs s).withWorld w := by
  have hrelease : ∃ w, (releaseHandle a : AgentM H Unit).run s = .ok () (s.withWorld w) := by
    unfold releaseHandle
    split
    · exact ⟨s.world, rfl⟩
    · exact ⟨_, rfl⟩
  obtain ⟨w, hrelease⟩ := hrelease
  unfold applyExitPolicy settle
  rw [run_bind_ok (EStateM.run_get s)]
  simp only [hlive]
  rw [run_bind_ok hrelease]
  split
  · rw [run_bind_ok (EStateM.run_modify _ _)]
    split
    · exact ⟨w, rfl⟩
    · unfold completeAttempt
      rw [run_bind_ok (EStateM.run_modify _ _)]
      obtain ⟨w', hclean⟩ := cleanupLive_end (H := H) id _
      exact ⟨w', hclean.trans (by simp [AgentState.dropLive, AgentState.setLive,
        AgentState.withWorld])⟩
  · split
    · exact ⟨w, rfl⟩
    · exact ⟨w, rfl⟩

/-- The exit policy does not look at the entry it replaces. -/
@[simp] theorem settle_setLive (id : AttemptId) (a b : LiveAttempt H) (obs : Observation)
    (s : AgentState H) :
    settle c now id a obs (s.setLive id b) = settle c now id a obs s := by
  unfold settle
  split
  · split <;> simp
  · split <;> simp

@[simp] theorem settle_withRunning (id : AttemptId) (a : LiveAttempt H) (obs : Observation)
    (r : Option H.Handle) (s : AgentState H) :
    settle c now id (a.withRunning r) obs s = settle c now id a obs s := rfl

@[simp] theorem settle_withWorld (id : AttemptId) (a : LiveAttempt H) (obs : Observation)
    (w : W) (s : AgentState H) :
    settle c now id a obs (s.withWorld w) = (settle c now id a obs s).withWorld w := by
  unfold settle
  split
  · split <;> rfl
  · split <;> rfl

theorem observeRunning_reaches {handle : H.Handle} (hon : o.on id) (hlive : s.live.get id = some a)
    (hrunning : a.running = some handle) (hparked : a.phase.isParked = false) :
    Reaches (Act c o) (observeRunning c id a handle o.now) s := by
  have hsome : a.running.isSome := by simp [hrunning]
  unfold observeRunning Reaches
  rw [run_bind_ok (onHost_run _ s), run_bind_ok (EStateM.run_modify _ _)]
  generalize (H.observe handle).run s.world = o
  obtain ⟨⟨result, handle'⟩, w⟩ := o
  cases result with
  | error e => exact .single (.observeErrs handle' w hon hlive hsome)
  | ok obs =>
    simp only
    rw [run_bind_ok (emit_run _ _)]
    cases hobs : obs.running with
    | true =>
      have hact : Act c o s _ := .observesRunning handle' w hon hlive hsome hparked hobs
      exact .single (by simpa using hact)
    | false =>
      obtain ⟨w', hexit⟩ := applyExitPolicy_end c o.now obs (a := a.withRunning (some handle'))
        (show (((s.emits [.observed id obs]).setLive id
          (a.withRunning (some handle'))).withWorld w).live.get id = _ by simp)
      have hact : Act c o s _ := .exits w' hon hlive hparked hobs (Or.inl ⟨hsome, rfl⟩)
      refine .single ?_
      simp only [Bool.false_eq_true, if_false]
      exact hexit ▸ (by simpa using hact)

/-- An observation notes its attempt first; the rest is a chain of acts. -/
theorem observeOne_chain (hon : o.on id) (s : AgentState H) :
    Relation.ReflTransGen (Act c o) (s.emits [.observeOne id])
      (endState ((observeOne c id o.now).run s)) := by
  unfold observeOne
  rw [run_bind_ok (emit_run _ _), AgentState.emit_eq]
  generalize s.emits [.observeOne id] = s₁
  refine Reaches.get_bind ?_
  cases hlive : s₁.live.get id with
  | none => exact Reaches.throw _ _
  | some a =>
    refine reaches_gate_bind fun _ => ?_
    cases hparked : a.phase.isParked with
    | true =>
      simp only [if_true]
      exact Reaches.pure _ _
    | false =>
      simp only [Bool.false_eq_true, if_false]
      cases hrunning : a.running with
      | none =>
        obtain ⟨w, hexit⟩ := applyExitPolicy_end c o.now ⟨false, a.phase.exitCode⟩ hlive
        have hact : Act c o s₁
            ((settle c o.now id a ⟨false, a.phase.exitCode⟩ (s₁.emits [])).withWorld w) :=
          .exits w hon hlive hparked rfl (Or.inr ⟨hrunning, rfl, rfl⟩)
        exact Reaches.single (by simpa using hexit) hact
      | some handle => exact observeRunning_reaches hon hlive hrunning hparked

theorem observeOne_reaches (hon : o.on id) (s : AgentState H) :
    Reaches (Act c o) (observeOne c id o.now) s :=
  .head (.note (e := .observeOne id) hon trivial) (observeOne_chain hon s)

variable {t : AgentState H}

/-- An observation that returned found the live fence on the entry it leaves. -/
theorem fence_of_observeOne (h : (observeOne c id now).run s = .ok () t)
    (hlive : t.live.get id = some a) : c.authority.placementFence = a.placementFence := by
  have hstart : ∀ b, s.live.get id = some b → c.authority.placementFence = b.placementFence := by
    intro b hb
    obtain ⟨_, s₁, hnote, hrest⟩ := run_bind_eq_ok.mp h
    obtain ⟨rfl, rfl⟩ := EStateM.Result.ok.inj hnote
    rw [run_bind_ok (EStateM.run_get _)] at hrest
    simp only [AgentState.emit_eq, AgentState.live_emits, hb] at hrest
    obtain ⟨_, _, hgate, _⟩ := run_bind_eq_ok.mp hrest
    exact requireFence_eq_ok.mp (gate_eq_ok hgate).1
  -- no act of an observation starts anything, so the fence of the entry is kept
  have hchain : Relation.ReflTransGen (Act c (Scope.watching id now)) s t := by
    have hreach : Reaches (Act c (Scope.watching id now)) (observeOne c id now) s :=
      observeOne_reaches rfl s
    unfold Reaches at hreach
    rwa [h] at hreach
  refine chain_invariant (P := fun u : AgentState H => ∀ b, u.live.get id = some b →
    c.authority.placementFence = b.placementFence) ?_ hchain hstart a hlive
  intro u v hu hact b hb
  rcases hact.entry_contract hb with ⟨a', ha', hfence, _⟩ | ⟨_, hF, _⟩
  · rw [hfence]
    exact hu a' ha'
  · exact hF.elim

/-- A restart keeps the chain; it needs the attempt among those to keep. -/
theorem maybeRestart_reaches (hconnected : c.authority.isIsolated = false) (hon : o.on id)
    (hD : ∀ a, s.live.get id = some a → o.keep id) :
    Reaches (Act c o) (maybeRestart c id o.now) s := by
  unfold maybeRestart
  refine Reaches.get_bind ?_
  cases hlive : s.live.get id with
  | none => exact Reaches.pure _ _
  | some a =>
    have hD' := hD a hlive
    simp only
    split
    · rename_i after hphase
      split
      · exact Reaches.pure _ _
      · rcases startPlacement_cases c (placementOf id a) o.now a.attemptIndex (s.dropLive id) with
          ⟨e, w, calls, hcalls, hrun⟩ | ⟨running, w, hallowed, hrun⟩
        · refine Reaches.single ?_ (.restartFails e w hon hD' hconnected hlive hphase hcalls)
          rw [run_bind_ok (EStateM.run_set _ _), hrun]
          simp [placementOf]
        · refine Reaches.single ?_ (.restarts running w hon hD' hlive hphase hallowed)
          rw [run_bind_ok (EStateM.run_set _ _), hrun]
          simp [placementOf]
    · exact Reaches.pure _ _

theorem startIfMissing_reaches {p : AcceptedPlacement} (hon : o.on p.attemptId) (hF : o.start p)
    (s : AgentState H) :
    Reaches (Act c o) (startIfMissing c o.now p) s := by
  unfold startIfMissing
  refine Reaches.get_bind ?_
  split
  · exact Reaches.pure _ _
  · rename_i hmissing
    simp only [Bool.or_eq_true, not_or, Bool.not_eq_true, OrdMap.contains_eq_false_iff] at hmissing
    obtain ⟨hlive, hcompleted⟩ := hmissing
    rcases startPlacement_cases c p o.now 1 s with
      ⟨e, w, calls, hcalls, hrun⟩ | ⟨running, w, hallowed, hrun⟩
    · exact Reaches.single (by rw [hrun]; rfl) (.startFails e w hon hF hlive hcompleted hcalls)
    · exact Reaches.single (by rw [hrun]; rfl) (.starts running w hon hF hlive hcompleted hallowed)

theorem tickReadiness_reaches (hon : o.on id) (budget : CheckBudget)
    (hphase : ∀ a, s.live.get id = some a → a.phase = .running) :
    Reaches (Act c o) (tickReadiness id o.now budget) s := by
  unfold tickReadiness
  refine Reaches.get_bind ?_
  cases hlive : s.live.get id with
  | none => exact Reaches.pure _ _
  | some a =>
    simp only
    split
    · exact Reaches.pure _ _
    · rename_i spec hspec
      split
      · simp only [Reaches, EStateM.run_bind, onHost_run, EStateM.run_modify, emit_run]
        generalize (runDueCheck .readiness id a spec o.now budget).run s.world = result
        exact .single (.checksReadiness result.2 hon hlive (hphase a hlive) hspec)
      · exact Reaches.pure _ _

/-- The end of a liveness failure is the act of the check, the kill and the exit
policy together. -/
theorem failLiveness_reaches {spec : CheckSpec} {out : CheckOutcome} {w : W} (hon : o.on id)
    (hlive : s.live.get id = some a) (hphase : a.phase = .running)
    (hspec : a.lifecycle.liveness = some spec)
    (hfailed : livenessFailed (recordLiveness a out spec o.now) = true)
    (hallowed : Allowed c a.placementFence) : Relation.ReflTransGen (Act c o) s
      (endState ((failLiveness c id (recordLiveness a out spec o.now) spec o.now).run
        (((s.emits [.checked id .liveness spec out a.liveness
          (recordLiveness a out spec o.now).liveness]).setLive id
          (recordLiveness a out spec o.now)).withWorld w))) := by
  have hlive' : ∀ es, (((s.emits es).setLive id (recordLiveness a out spec o.now)).withWorld
      w).live.get id = some (recordLiveness a out spec o.now) := by simp
  obtain ⟨result, running, w₁, kills, hkills, _, hkill⟩ := killRunning_run id .liveness
    (hlive' [.checked id .liveness spec out a.liveness (recordLiveness a out spec o.now).liveness,
      .livenessFailed id spec])
  obtain ⟨w₂, hexit⟩ := applyExitPolicy_end c o.now ⟨false, none⟩
    (show (((s.emits ([.checked id .liveness spec out a.liveness
      (recordLiveness a out spec o.now).liveness, .livenessFailed id spec] ++ kills)).setLive id
      ((recordLiveness a out spec o.now).withRunning running)).withWorld w₁).live.get id
        = some ((recordLiveness a out spec o.now).withRunning running) by simp)
  have hact : Act c o s _ := .livenessFails w₂ hon hlive hphase hspec hfailed hallowed hkills
  unfold failLiveness
  rw [run_bind_ok (emit_run _ _)]
  simp only [AgentState.emit_eq, AgentState.withWorld_emits, AgentState.setLive_emits,
    AgentState.emits_emits, List.cons_append, List.nil_append] at hkill hexit ⊢
  rw [run_bind_ok hkill]
  simp only [AgentState.withWorld_setLive, AgentState.withWorld_withWorld,
    AgentState.setLive_setLive]
  rw [hexit]
  exact .single (by simpa using hact)

theorem tickLiveness_reaches (hon : o.on id) (budget : CheckBudget)
    (hphase : ∀ a, s.live.get id = some a → a.phase = .running)
    (hallowed : ∀ a, s.live.get id = some a → Allowed c a.placementFence) :
    Reaches (Act c o) (tickLiveness c id o.now budget) s := by
  unfold tickLiveness
  refine Reaches.get_bind ?_
  cases hlive : s.live.get id with
  | none => exact Reaches.pure _ _
  | some a =>
    simp only
    split
    · exact Reaches.pure _ _
    · rename_i spec hspec
      split
      · simp only [Reaches, EStateM.run_bind, onHost_run, EStateM.run_modify, emit_run]
        generalize (runDueCheck .liveness id a spec o.now budget).run s.world = result
        obtain ⟨out, w⟩ := result
        cases hfailed : livenessFailed (recordLiveness a out spec o.now) with
        | false =>
          simp only [Bool.false_eq_true, if_false]
          exact .single (.checksLiveness w hon hlive (hphase a hlive) hspec hfailed)
        | true =>
          simp only [if_true]
          exact failLiveness_reaches hon hlive (hphase a hlive) hspec hfailed (hallowed a hlive)
      · exact Reaches.pure _ _

/-- A readiness check leaves the attempt in the running phase under its fence. -/
theorem entry_of_tickReadiness {budget : CheckBudget}
    (h : (tickReadiness id now budget).run s = .ok () t) {b : LiveAttempt H}
    (hb : t.live.get id = some b) :
    ∃ a, s.live.get id = some a ∧ b.phase = a.phase ∧ b.placementFence = a.placementFence := by
  unfold tickReadiness at h
  rw [run_bind_ok (EStateM.run_get s)] at h
  cases hlive : s.live.get id with
  | none =>
    simp only [hlive] at h
    obtain ⟨_, rfl⟩ := EStateM.Result.ok.inj h
    rw [hlive] at hb
    cases hb
  | some a =>
    simp only [hlive] at h
    split at h
    · obtain ⟨_, rfl⟩ := EStateM.Result.ok.inj h
      exact ⟨a, rfl, by rw [Option.some.inj (hb.symm.trans hlive)]; exact ⟨rfl, rfl⟩⟩
    · split at h
      · simp only [EStateM.run_bind, onHost_run, emit_run, EStateM.run_modify] at h
        obtain ⟨_, rfl⟩ := EStateM.Result.ok.inj h
        simp only [AgentState.live_setLive, OrdMap.get_insert_self, Option.some.injEq] at hb
        exact ⟨a, rfl, by rw [← hb]; exact ⟨rfl, rfl⟩⟩
      · obtain ⟨_, rfl⟩ := EStateM.Result.ok.inj h
        exact ⟨a, rfl, by rw [Option.some.inj (hb.symm.trans hlive)]; exact ⟨rfl, rfl⟩⟩

/-- A round of checks notes its attempt first; the rest is a chain of acts. -/
theorem tickChecks_chain (hon : o.on id) (budget : CheckBudget)
    (hallowed : ∀ a, s.live.get id = some a → Allowed c a.placementFence) :
    Relation.ReflTransGen (Act c o) (s.emits [.tickChecks id])
      (endState ((tickChecks c id o.now budget).run s)) := by
  unfold tickChecks
  rw [run_bind_ok (emit_run _ _), AgentState.emit_eq]
  refine Reaches.get_bind ?_
  cases hlive : s.live.get id with
  | none =>
    simp only [AgentState.live_emits, hlive]
    exact Reaches.pure _ _
  | some a =>
    simp only [AgentState.live_emits, hlive]
    split
    · rename_i hphase
      refine Reaches.bind (tickReadiness_reaches hon budget ?_) ?_
      · intro b hb
        rw [Option.some.inj (hb.symm.trans hlive)]
        exact hphase
      · intro _ s₂ hs₂
        have hentry : ∀ b, s₂.live.get id = some b →
            b.phase = .running ∧ Allowed c b.placementFence := by
          intro b hb
          obtain ⟨a', ha', hphase', hfence'⟩ := entry_of_tickReadiness hs₂ hb
          rw [Option.some.inj (ha'.symm.trans hlive)] at hphase' hfence'
          exact ⟨hphase'.trans hphase, hfence' ▸ hallowed a hlive⟩
        exact tickLiveness_reaches hon budget (fun b hb => (hentry b hb).1)
          (fun b hb => (hentry b hb).2)
    · exact Reaches.pure _ _

theorem tickChecks_reaches (hon : o.on id) (budget : CheckBudget)
    (hallowed : ∀ a, s.live.get id = some a → Allowed c a.placementFence) :
    Reaches (Act c o) (tickChecks c id o.now budget) s :=
  .head (.note (e := .tickChecks id) hon trivial) (tickChecks_chain hon budget hallowed)

/-- Every live attempt is one to keep. -/
def LiveIn (keep : AttemptId → Prop) (s : AgentState H) : Prop :=
  ∀ id a, s.live.get id = some a → keep id

theorem Act.liveIn (hFD : ∀ p, o.start p → o.keep p.attemptId) (hs : LiveIn o.keep s)
    (hact : Act c o s t) : LiveIn o.keep t := by
  intro id b hb
  rcases hact.entry_contract hb with ⟨a, ha, _⟩ | ⟨p, hF, hid, _⟩
  · exact hs id a ha
  · exact hid ▸ hFD p hF

theorem superviseOne_reaches (hconnected : c.authority.isIsolated = false) (budget : CheckBudget)
    (hon : o.on id) (hs : LiveIn o.keep s) :
    Reaches (Act c o) (superviseOne c o.now budget id) s := by
  unfold superviseOne
  refine Reaches.bind (maybeRestart_reaches hconnected hon (hs id)) ?_
  intro _ s₁ _
  refine Reaches.bind (observeOne_reaches hon s₁) ?_
  intro _ s₂ hobserved
  exact tickChecks_reaches hon budget (fun a ha => ⟨fence_of_observeOne hobserved ha, hconnected⟩)

theorem superviseLive_reaches (hconnected : c.authority.isIsolated = false) (hon : ∀ id, o.on id)
    (hFD : ∀ p, o.start p → o.keep p.attemptId) (hs : LiveIn o.keep s) :
    Reaches (Act c o) (superviseLive c o.now) s := by
  unfold superviseLive
  refine Reaches.bind ((Ambient.onHost _).reaches s) ?_
  intro budget s₁ hs₁
  obtain ⟨_, rfl⟩ := EStateM.Result.ok.inj hs₁
  refine Reaches.get_bind ?_
  exact Reaches.forM (I := LiveIn o.keep) (fun _ _ => Act.liveIn hFD)
    (fun id _ t ht => superviseOne_reaches hconnected budget (hon id) ht) hs

variable {desired : List AcceptedPlacement}

theorem startMissing_reaches (hon : ∀ p ∈ desired, o.on p.attemptId) (hF : ∀ p ∈ desired, o.start p)
    (s : AgentState H) : Reaches (Act c o) (startMissing c desired o.now) s :=
  Reaches.forM (I := fun _ => True) (fun _ _ _ _ => trivial)
    (fun p hp t _ => startIfMissing_reaches (hon p hp) (hF p hp) t) trivial

/-- A stop that returned removed the attempt; its events are calls of the stop. -/
theorem stopAndCleanup_ok (h : (stopAndCleanup c id).run s = .ok () t) :
    ∃ fence calls w, (∀ e ∈ calls, IsStopCall id fence e) ∧
      t = ((s.emits calls).dropLive id).withWorld w := by
  unfold stopAndCleanup at h
  rw [run_bind_ok (EStateM.run_get s)] at h
  cases hlive : s.live.get id with
  | none =>
    simp only [hlive] at h
    cases h
  | some a =>
    simp only [hlive] at h
    obtain ⟨_, _, hgate, hrest⟩ := run_bind_eq_ok.mp h
    obtain ⟨_, rfl⟩ := gate_eq_ok hgate
    obtain ⟨running, w, calls, hcalls, _, hend⟩ := stopRunning_cases id hlive
    obtain ⟨_, t₁, hstop, hclean'⟩ := run_bind_eq_ok.mp hrest
    rw [hstop] at hend
    rw [run_bind_ok (EStateM.run_modify _ _)] at hclean'
    obtain ⟨w', hclean⟩ := cleanupLive_end id (t₁.markStopped id)
    rw [hclean', AgentState.markStopped_dropLive, show t₁ = _ from hend] at hclean
    refine ⟨a.placementFence, calls, w', hcalls, ?_⟩
    rw [show t = _ from hclean]
    simp

/-- What a loop of stops leaves, when it returned. -/
theorem stops_ok {ids : List AttemptId}
    (h : (forM ids (stopAndCleanup c) : AgentM H Unit).run s = .ok () t) :
    ∃ calls, t.log = s.log ++ calls ∧ (∀ e ∈ calls, ∃ id fence, IsStopCall id fence e) ∧
      t.completed = s.completed ∧
      ∀ id, t.live.get id = if id ∈ ids then none else s.live.get id := by
  induction ids generalizing s with
  | nil =>
    obtain ⟨_, rfl⟩ := EStateM.Result.ok.inj h
    exact ⟨[], by simp, by simp, rfl, by simp⟩
  | cons x rest ih =>
    rw [forM_cons_run] at h
    obtain ⟨_, u, hstop, hrest⟩ := run_bind_eq_ok.mp h
    obtain ⟨fence, calls, w, hcalls, rfl⟩ := stopAndCleanup_ok hstop
    obtain ⟨later, hlog, hlater, hcompleted, hlive⟩ := ih hrest
    refine ⟨calls ++ later, by simp [hlog], ?_, hcompleted, ?_⟩
    · intro e he
      rcases List.mem_append.mp he with he | he
      · exact ⟨x, fence, hcalls e he⟩
      · exact hlater e he
    · intro id
      rw [hlive]
      by_cases hx : id = x <;> simp [hx, OrdMap.get_erase]

/-- Stopping the obsolete attempts, when it returned, left exactly the desired
ones. -/
theorem stopObsolete_ok (h : (stopObsolete c desired).run s = .ok () t) :
    ∃ calls, t.log = s.log ++ calls ∧ (∀ e ∈ calls, ∃ id fence, IsStopCall id fence e) ∧
      t.completed = s.completed ∧
      ∀ id, t.live.get id = if isDesired desired id then s.live.get id else none := by
  unfold stopObsolete at h
  rw [run_bind_ok (EStateM.run_get s)] at h
  obtain ⟨calls, hlog, hcalls, hcompleted, hlive⟩ := stops_ok h
  refine ⟨calls, hlog, hcalls, hcompleted, fun id => ?_⟩
  rw [hlive]
  cases hget : s.live.get id with
  | none => simp
  | some a =>
    have hmem : id ∈ s.live.keys := OrdMap.mem_keys_iff.mpr ⟨a, hget⟩
    cases hd : isDesired desired id <;> simp [hmem, hd]

/-- After the obsolete attempts were stopped, every live attempt is desired. -/
theorem liveIn_of_stopObsolete (h : (stopObsolete c desired).run s = .ok () t) :
    LiveIn (fun id => isDesired desired id = true) t := by
  obtain ⟨_, _, _, _, hlive⟩ := stopObsolete_ok h
  intro id a ha
  rw [hlive] at ha
  split at ha
  · assumption
  · cases ha

theorem stopObsolete_reaches (hon : ∀ id, o.on id)
    (hD : ∀ id, o.keep id → isDesired desired id = true) (s : AgentState H) :
    Reaches (Act c o) (stopObsolete c desired) s := by
  unfold stopObsolete
  refine Reaches.get_bind ?_
  refine Reaches.forM (I := fun _ => True) (fun _ _ _ _ => trivial) ?_ trivial
  intro id hid t _
  refine stopAndCleanup_reaches (hon id) (fun hDid => ?_) t
  have hnot := (List.mem_filter.mp hid).2
  rw [hD id hDid] at hnot
  cases hnot

theorem isDesired_iff : isDesired desired id = true ↔ ∃ p ∈ desired, p.attemptId = id := by
  simp [isDesired]

/-- The scope of a pass: keep and start what is desired. -/
def reconcileScope (c : AgentConfig) (desired : List AcceptedPlacement) (now : Nat) : Scope where
  on := fun _ => True
  keep := fun id => isDesired desired id = true
  start := fun p => p ∈ desired
  expired := isolationGraceExpired c.authority c.isolation now = true
  now := now

/-- A whole pass is a chain of acts that keeps the desired attempts and starts
desired placements only. -/
theorem reconcile_reaches (c : AgentConfig) (desired : List AcceptedPlacement) (now : Nat)
    (s : AgentState H) :
    Reaches (Act c (reconcileScope c desired now)) (reconcile c desired now) s := by
  have hFD : ∀ p : AcceptedPlacement, p ∈ desired → isDesired desired p.attemptId = true :=
    fun p hp => isDesired_iff.mpr ⟨p, hp, rfl⟩
  unfold reconcile
  split
  · rename_i hexpired
    refine Reaches.get_bind (Reaches.bind ?_ fun _ _ _ => Reaches.throw _ _)
    refine Reaches.forM (I := fun _ => True) (fun _ _ _ _ => trivial) ?_ trivial
    intro id _ t _
    exact forceStopCleanup_reaches trivial hexpired t
  · split
    · refine Reaches.get_bind (Reaches.bind ?_ fun _ _ _ => Reaches.pure _ _)
      exact Reaches.forM (I := fun _ => True) (fun _ _ _ _ => trivial)
        (fun id _ t _ => observeOne_reaches trivial t) trivial
    · rename_i hconnected
      have hconnected' : c.authority.isIsolated = false := by simpa using hconnected
      refine Reaches.bind (Reaches.single rfl (.prune fun id hid => hid)) ?_
      intro _ s₁ _
      refine Reaches.bind (stopObsolete_reaches (fun _ => trivial) (fun _ hid => hid) s₁) ?_
      intro _ s₂ hstopped
      refine Reaches.bind (startMissing_reaches (fun _ _ => trivial) (fun p hp => hp) s₂) ?_
      intro _ s₃ hstarted
      have hlive : LiveIn (fun id => isDesired desired id = true) s₃ := by
        have hchain : Relation.ReflTransGen
            (Act c (reconcileScope c desired now)) s₂ s₃ := by
          have hreach : Reaches (Act c (reconcileScope c desired now))
              (startMissing c desired now) s₂ :=
                startMissing_reaches (fun _ _ => trivial) (fun p hp => hp) s₂
          unfold Reaches at hreach
          rwa [hstarted] at hreach
        exact chain_invariant (P := LiveIn (reconcileScope c desired now).keep)
          (fun _ _ => Act.liveIn hFD) hchain (liveIn_of_stopObsolete hstopped)
      refine Reaches.bind (superviseLive_reaches hconnected' (fun _ => trivial) hFD hlive) ?_
      intro _ s₄ _
      exact Reaches.pure _ _

end Methods

/-! ## Operations -/

/-- The scope of an operation under the configuration `c`. -/
def AgentOp.scope (c : AgentConfig) : AgentOp → Scope
  | .reconcile desired now => reconcileScope c desired now
  | .cancel id => ⟨fun _ => True, fun id' => id' ≠ id, fun _ => False, False, 0⟩
  | .forceKill id => ⟨fun _ => True, fun id' => id' ≠ id, fun _ => False, False, 0⟩
  | _ => ⟨fun _ => True, fun _ => True, fun _ => False, False, 0⟩

namespace EffectExecutor

/-- A method leaves the configuration and the state that its run ends in. -/
theorem perform_fst (x : EffectExecutor H) (method : AgentConfig → AgentM H α) :
    (x.perform method).1 = { x with state := endState ((method x.config).run x.state) } := by
  unfold perform
  cases (method x.config).run x.state <;> rfl

theorem perform_snd (x : EffectExecutor H) (method : AgentConfig → AgentM H α) :
    (∃ a, (x.perform method).2 = .ok a) ↔ succeeded ((method x.config).run x.state) = true := by
  unfold perform
  cases (method x.config).run x.state <;> simp

/-- What an operation does to the state: it acknowledges a completion, or it is a
chain of acts of its scope under the configuration it started with. -/
theorem step_chain (x : EffectExecutor H) (op : AgentOp) :
    (∃ id, op = .acknowledgeCompletion id ∧ (x.step op).1.state = { x.state with
      completionEvents := x.state.completionEvents.erase id
      log := x.state.log ++ [.acknowledged id] }) ∨
    Relation.ReflTransGen (Act x.config (op.scope x.config)) x.state (x.step op).1.state := by
  cases op with
  | reconcile desired now =>
    right
    rw [step, perform_fst]
    exact reconcile_reaches x.config desired now x.state
  | markIsolated now =>
    have hstate : (x.markIsolated now).state = x.state := by
      unfold markIsolated
      split <;> rfl
    right
    rw [step, hstate]
  | clearIsolation fence epoch => exact Or.inr .refl
  | setAuthority authority => exact Or.inr .refl
  | acknowledgeCompletion id => exact Or.inl ⟨id, rfl, rfl⟩
  | cancel id =>
    have hid : ¬ (AgentOp.scope x.config (.cancel id)).keep id := fun hne => hne rfl
    right
    rw [step, perform_fst]
    exact Reaches.bind (cancel_reaches trivial hid x.state) fun _ _ _ => Reaches.pure _ _
  | forceKill id =>
    have hid : ¬ (AgentOp.scope x.config (.forceKill id)).keep id := fun hne => hne rfl
    right
    rw [step, perform_fst]
    exact Reaches.bind (forceKill_reaches trivial hid x.state) fun _ _ _ => Reaches.pure _ _

end EffectExecutor

end Gump.Agent
