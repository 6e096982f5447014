/-
  Agent/Failures.lean --- one attempt that cannot start, and the others.

  A pass starts what is missing and then supervises what lives, one attempt after
  the other, and the first error ends it.  So a start that fails keeps the others
  from being started, observed and checked unless nothing was left to do for them.
  The theorem says exactly when.
-/
import Mathlib.Algebra.GroupWithZero.Nat
import Gump.Agent.Chain

set_option autoImplicit false

namespace Gump.Agent

open Gump.Foundation Gump.Types

variable {W : Type} {H : AgentHost W} {c : AgentConfig} {now : Nat}

/-! ## Looking after one attempt -/

/-- No start failed among the events. -/
def NoFailedStart (new : List AgentEvent) : Prop := ∀ id k e, .startFailed id k e ∉ new

theorem NoFailedStart.append {l₁ l₂ : List AgentEvent} (h₁ : NoFailedStart l₁)
    (h₂ : NoFailedStart l₂) : NoFailedStart (l₁ ++ l₂) := by
  intro id k e he
  rcases List.mem_append.mp he with he | he
  · exact h₁ id k e he
  · exact h₂ id k e he

/-- Between `s` and `t`, with the events `new`, only the attempt `id` was
touched. -/
structure Touches (id : AttemptId) (s t : AgentState H) (new : List AgentEvent) : Prop where
  log : t.log = s.log ++ new
  about : ∀ e ∈ new, e.attempt = id
  frame : ∀ id', id' ≠ id → t.live.get id' = s.live.get id'

theorem Touches.refl (id : AttemptId) (s : AgentState H) : Touches id s s [] :=
  ⟨by simp, by simp, fun _ _ => rfl⟩

variable {id : AttemptId} {s t : AgentState H}

theorem Touches.trans {u : AgentState H} {l₁ l₂ : List AgentEvent} (h₁ : Touches id s t l₁)
    (h₂ : Touches id t u l₂) : Touches id s u (l₁ ++ l₂) where
  log := by rw [h₂.log, h₁.log, List.append_assoc]
  about := by
    intro e he
    rcases List.mem_append.mp he with he | he
    · exact h₁.about e he
    · exact h₂.about e he
  frame := fun id' hne => (h₂.frame id' hne).trans (h₁.frame id' hne)

/-- A chain that watches one attempt touches it only and starts nothing. -/
theorem touches_of_watching (h : Relation.ReflTransGen (Act c (Scope.watching id now)) s t) :
    ∃ new, Touches id s t new ∧ NoFailedStart new := by
  obtain ⟨new, hlog, hguard⟩ := chain_guarded h
  refine ⟨new, ⟨hlog, fun e he => (hguard e he).1, ?_⟩, ?_⟩
  · intro id' hne
    exact chain_invariant (P := fun u : AgentState H => u.live.get id' = s.live.get id')
      (fun u v hu hact => (hact.frame hne).trans hu) h rfl
  · intro id' k e he
    have hwanted : (Scope.watching id now).Wanted id' := (hguard _ he).2
    simp [Scope.Wanted, Scope.watching] at hwanted

/-- What a restart can do: nothing, fail and lose the live entry, or start. -/
theorem maybeRestart_cases (c : AgentConfig) (id : AttemptId) (now : Nat) (s : AgentState H) :
    (maybeRestart c id now).run s = .ok () s ∨
    (∃ a e calls w, s.live.get id = some a ∧ FailedCalls c id a.placementFence calls ∧
      (maybeRestart c id now).run s = .error e (((s.emits (.startPlacement id a.attemptIndex ::
        calls ++ [.startFailed id a.attemptIndex e])).dropLive id).withWorld w)) ∨
    ∃ a b w, s.live.get id = some a ∧ (maybeRestart c id now).run s
      = .ok () (((s.emits [.startPlacement id a.attemptIndex,
        .driverStart id a.placementFence true]).setLive id b).withWorld w) := by
  unfold maybeRestart
  rw [run_bind_ok (EStateM.run_get s)]
  cases hlive : s.live.get id with
  | none => exact Or.inl rfl
  | some a =>
    simp only
    split
    · split
      · exact Or.inl rfl
      · right
        rw [run_bind_ok (EStateM.run_set _ _)]
        rcases startPlacement_cases c (placementOf id a) now a.attemptIndex (s.dropLive id) with
          ⟨e, w, calls, hcalls, hrun⟩ | ⟨running, w, _, hrun⟩
        · exact Or.inl ⟨a, e, calls, w, rfl, hcalls, hrun⟩
        · rw [hrun]
          exact Or.inr ⟨a, freshAttempt c (placementOf id a) now a.attemptIndex running, w, rfl,
            by simp [placementOf]⟩
    · exact Or.inl rfl

/-- A restart that returned touched its attempt only. -/
theorem maybeRestart_ok (h : (maybeRestart c id now).run s = .ok () t) :
    ∃ new, Touches id s t new ∧ NoFailedStart new := by
  rcases maybeRestart_cases c id now s with hrun | ⟨a, e, calls, w, _, _, hrun⟩ |
      ⟨a, b, w, _, hrun⟩
  · obtain ⟨_, rfl⟩ := EStateM.Result.ok.inj (h.symm.trans hrun)
    exact ⟨[], Touches.refl id _, fun _ _ _ => List.not_mem_nil⟩
  · cases h.symm.trans hrun
  · obtain ⟨_, rfl⟩ := EStateM.Result.ok.inj (h.symm.trans hrun)
    refine ⟨_, ⟨rfl, by simp [AgentEvent.attempt], ?_⟩, by simp [NoFailedStart]⟩
    intro id' hne
    exact OrdMap.get_insert_of_ne _ _ hne

/-- Supervision of one attempt, once its restart returned: it touches the attempt
only, fails no start, and if it returns it has observed and checked the attempt. -/
theorem superviseOne_of_restart (hconnected : c.authority.isIsolated = false) (budget : CheckBudget)
    (h : (maybeRestart c id now).run s = .ok () t) :
    ∃ new, Touches id s (endState ((superviseOne c now budget id).run s)) new ∧
      NoFailedStart new ∧ (succeeded ((superviseOne c now budget id).run s) = true →
        .observeOne id ∈ new ∧ .tickChecks id ∈ new) := by
  obtain ⟨l₁, h₁, hf₁⟩ := maybeRestart_ok h
  have hwatch : Relation.ReflTransGen (Act c (Scope.watching id now)) (t.emits [.observeOne id])
      (endState ((observeOne c id now).run t)) := observeOne_chain rfl t
  obtain ⟨l₂, h₂, hf₂⟩ := touches_of_watching hwatch
  have hnote : ∀ (u : AgentState H) (e : AgentEvent), e.attempt = id →
      Touches id u (u.emits [e]) [e] := fun u e he => ⟨rfl, by simp [he], fun _ _ => rfl⟩
  have hobserving : NoFailedStart [.observeOne id] := by simp [NoFailedStart]
  have hchecking : NoFailedStart [.tickChecks id] := by simp [NoFailedStart]
  unfold superviseOne
  rw [run_bind_ok h]
  cases hobserve : (observeOne c id now).run t with
  | error e u =>
    rw [run_bind_error hobserve]
    rw [hobserve] at h₂
    exact ⟨_, h₁.trans ((hnote t _ rfl).trans h₂), hf₁.append (hobserving.append hf₂), by simp⟩
  | ok r u =>
    rw [run_bind_ok hobserve]
    rw [hobserve] at h₂
    have hcheck : Relation.ReflTransGen (Act c (Scope.watching id now)) (u.emits [.tickChecks id])
        (endState ((tickChecks c id now budget).run u)) :=
      tickChecks_chain rfl budget fun a ha => ⟨fence_of_observeOne hobserve ha, hconnected⟩
    obtain ⟨l₃, h₃, hf₃⟩ := touches_of_watching hcheck
    exact ⟨_, h₁.trans (((hnote t _ rfl).trans h₂).trans ((hnote u _ rfl).trans h₃)),
      hf₁.append ((hobserving.append hf₂).append (hchecking.append hf₃)),
      by simp⟩

/-- The restart inside a supervision that returned did return. -/
theorem restart_of_superviseOne {budget : CheckBudget}
    (h : (superviseOne c now budget id).run s = .ok () t) :
    ∃ u, (maybeRestart c id now).run s = .ok () u := by
  obtain ⟨_, u, hrestart, _⟩ := run_bind_eq_ok.mp h
  exact ⟨u, hrestart⟩

/-! ## The loops of a pass -/

/-- A round of supervision that returned has observed and checked each of its
attempts, and touched no other. -/
theorem supervise_ok (hconnected : c.authority.isIsolated = false) {budget : CheckBudget}
    {ids : List AttemptId}
    (h : (forM ids (superviseOne c now budget) : AgentM H Unit).run s = .ok () t) :
    ∃ new, t.log = s.log ++ new ∧ NoFailedStart new ∧ (∀ e ∈ new, e.attempt ∈ ids) ∧
      (∀ id ∈ ids, .observeOne id ∈ new ∧ .tickChecks id ∈ new) ∧
      ∀ id, id ∉ ids → t.live.get id = s.live.get id := by
  induction ids generalizing s with
  | nil =>
    obtain ⟨_, rfl⟩ := EStateM.Result.ok.inj h
    exact ⟨[], by simp, by simp [NoFailedStart], by simp, by simp, fun _ _ => rfl⟩
  | cons x rest ih =>
    rw [forM_cons_run] at h
    obtain ⟨_, u, hx, hrest⟩ := run_bind_eq_ok.mp h
    obtain ⟨_, hrestart⟩ := restart_of_superviseOne hx
    obtain ⟨l₁, h₁, hf₁, hserved⟩ := superviseOne_of_restart hconnected budget hrestart
    rw [hx, endState_ok] at h₁
    rw [hx] at hserved
    obtain ⟨l₂, hlog, hf₂, habout, hserved₂, hframe⟩ := ih hrest
    refine ⟨l₁ ++ l₂, by rw [hlog, h₁.log, List.append_assoc], hf₁.append hf₂, ?_, ?_, ?_⟩
    · intro e he
      rcases List.mem_append.mp he with he | he
      · exact h₁.about e he ▸ List.mem_cons_self
      · exact List.mem_cons_of_mem _ (habout e he)
    · intro id hid
      rcases List.mem_cons.mp hid with rfl | hid
      · exact ⟨List.mem_append_left _ (hserved rfl).1, List.mem_append_left _ (hserved rfl).2⟩
      · exact ⟨List.mem_append_right _ (hserved₂ id hid).1,
          List.mem_append_right _ (hserved₂ id hid).2⟩
    · intro id hid
      rw [hframe id (fun hmem => hid (List.mem_cons_of_mem _ hmem))]
      exact h₁.frame id fun heq => hid (heq ▸ List.mem_cons_self)

/-- The attempt neither lives nor has completed. -/
def AgentState.Missing (s : AgentState H) (id : AttemptId) : Prop :=
  s.live.get id = none ∧ s.completed.get id = none

/-- The entry of a placement in the start loop: skip it, or start it. -/
theorem startIfMissing_run (c : AgentConfig) (now : Nat) (p : AcceptedPlacement)
    (s : AgentState H) :
    ¬ s.Missing p.attemptId ∧ (startIfMissing c now p).run s = .ok () s ∨
    s.Missing p.attemptId ∧ (startIfMissing c now p).run s = (startPlacement c p now 1).run s := by
  unfold startIfMissing AgentState.Missing
  rw [run_bind_ok (EStateM.run_get s)]
  cases hlive : s.live.get p.attemptId <;> cases hdone : s.completed.get p.attemptId <;>
    simp [OrdMap.contains, hlive, hdone]

/-- An event of a start that succeeded. -/
def AgentEvent.IsStart : AgentEvent → Prop
  | .startPlacement _ _ => True
  | .driverStart _ _ ok => ok = true
  | _ => False

/-- A round of starts over `placements` from `s` to `t` with the events `new`: each
placement was started or did not have to be, and nothing else was touched. -/
structure Started (placements : List AcceptedPlacement) (s t : AgentState H)
    (new : List AgentEvent) : Prop where
  log : t.log = s.log ++ new
  starts : ∀ e ∈ new, e.IsStart
  source : ∀ id k, .startPlacement id k ∈ new → s.Missing id ∧ ∃ a, t.live.get id = some a
  done : ∀ p ∈ placements, ¬ t.Missing p.attemptId
  noted : ∀ id, s.Missing id → ¬ t.Missing id → .startPlacement id 1 ∈ new
  kept : ∀ id a, s.live.get id = some a → t.live.get id = some a
  back : ∀ id a, t.live.get id = some a →
    s.live.get id = some a ∨ s.Missing id ∧ ∃ p ∈ placements, p.attemptId = id
  completed : t.completed = s.completed

namespace Started

variable {placements : List AcceptedPlacement} {s t u : AgentState H} {l₁ l₂ : List AgentEvent}

/-- What a round leaves missing was missing before it. -/
theorem missing (h : Started placements s t l₁) {id : AttemptId} (hmissing : t.Missing id) :
    s.Missing id := by
  refine ⟨?_, h.completed ▸ hmissing.2⟩
  cases hlive : s.live.get id with
  | none => rfl
  | some a =>
    have hkept := h.kept id a hlive
    rw [hmissing.1] at hkept
    cases hkept

theorem nil (s : AgentState H) : Started [] s s [] where
  log := by simp
  starts := by simp
  source := by simp
  done := by simp
  noted := fun _ h hn => (hn h).elim
  kept := fun _ _ h => h
  back := fun _ _ => Or.inl
  completed := rfl

variable {p : AcceptedPlacement}

theorem cons (h₁ : Started [p] s t l₁) (h₂ : Started placements t u l₂) :
    Started (p :: placements) s u (l₁ ++ l₂) where
  log := by rw [h₂.log, h₁.log, List.append_assoc]
  starts := by
    intro e he
    rcases List.mem_append.mp he with he | he
    · exact h₁.starts e he
    · exact h₂.starts e he
  source := by
    intro id k hmem
    rcases List.mem_append.mp hmem with hmem | hmem
    · obtain ⟨hs, a, ha⟩ := h₁.source id k hmem
      exact ⟨hs, a, h₂.kept id a ha⟩
    · obtain ⟨ht, hu⟩ := h₂.source id k hmem
      exact ⟨h₁.missing ht, hu⟩
  done := by
    intro q hq hmissing
    rcases List.mem_cons.mp hq with rfl | hq
    · exact h₁.done q (by simp) (h₂.missing hmissing)
    · exact h₂.done q hq hmissing
  noted := by
    intro id hs hu
    by_cases ht : t.Missing id
    · exact List.mem_append_right _ (h₂.noted id ht hu)
    · exact List.mem_append_left _ (h₁.noted id hs ht)
  kept := fun id a ha => h₂.kept id a (h₁.kept id a ha)
  back := by
    intro id a ha
    rcases h₂.back id a ha with ht | ⟨hmissing, q, hq, hid⟩
    · rcases h₁.back id a ht with hs | ⟨hmissing, q, hq, hid⟩
      · exact Or.inl hs
      · exact Or.inr ⟨hmissing, q, List.mem_cons.mpr (Or.inl (List.mem_singleton.mp hq)), hid⟩
    · exact Or.inr ⟨h₁.missing hmissing, q, List.mem_cons_of_mem _ hq, hid⟩
  completed := h₂.completed.trans h₁.completed

theorem skip (hskip : ¬ s.Missing p.attemptId) : Started [p] s s [] :=
  { nil s with
    done := by simpa using hskip
    back := fun _ _ => Or.inl }

theorem start (hmissing : s.Missing p.attemptId) (b : LiveAttempt H) (w : W) :
    Started [p] s (((s.emits [.startPlacement p.attemptId 1,
        .driverStart p.attemptId p.placementFence true]).setLive p.attemptId b).withWorld w)
      [.startPlacement p.attemptId 1, .driverStart p.attemptId p.placementFence true] where
  log := rfl
  starts := by simp [AgentEvent.IsStart]
  source := by
    intro id k hmem
    simp only [List.mem_cons, AgentEvent.startPlacement.injEq, List.not_mem_nil, or_false,
      reduceCtorEq] at hmem
    rw [hmem.1]
    exact ⟨hmissing, b, by simp⟩
  done := by simp [AgentState.Missing]
  noted := by
    intro id hs ht
    by_cases hid : id = p.attemptId
    · simp [hid]
    · refine (ht ?_).elim
      simpa [AgentState.Missing, OrdMap.get_insert_of_ne _ _ hid] using hs
  kept := by
    intro id a ha
    refine (OrdMap.get_insert_of_ne _ _ ?_).trans ha
    rintro rfl
    rw [hmissing.1] at ha
    cases ha
  back := by
    intro id a ha
    rcases get_setLive_cases ha with ha | ⟨rfl, _⟩
    · exact Or.inl ha
    · exact Or.inr ⟨hmissing, p, by simp, rfl⟩
  completed := rfl

end Started

/-- A loop of starts that returned is a round of starts. -/
theorem startMissing_ok {placements : List AcceptedPlacement}
    (h : (startMissing c placements now).run s = .ok () t) : ∃ new, Started placements s t new := by
  unfold startMissing at h
  induction placements generalizing s with
  | nil =>
    obtain ⟨_, rfl⟩ := EStateM.Result.ok.inj h
    exact ⟨[], Started.nil _⟩
  | cons p rest ih =>
    rw [forM_cons_run] at h
    obtain ⟨_, u, hp, hrest⟩ := run_bind_eq_ok.mp h
    obtain ⟨l₂, hround⟩ := ih hrest
    rcases startIfMissing_run c now p s with ⟨hskip, hrun⟩ | ⟨hmissing, hrun⟩
    · obtain ⟨_, rfl⟩ := EStateM.Result.ok.inj (hp.symm.trans hrun)
      exact ⟨_, (Started.skip hskip).cons hround⟩
    · rcases startPlacement_cases c p now 1 s with ⟨_, _, _, _, hfails⟩ | ⟨running, w, _, hok⟩
      · cases (hp.symm.trans hrun).trans hfails
      · obtain ⟨_, rfl⟩ := EStateM.Result.ok.inj ((hp.symm.trans hrun).trans hok)
        exact ⟨_, (Started.start hmissing _ w).cons hround⟩

/-! ## One failure -/

section Pass

variable (c : AgentConfig) (desired : List AcceptedPlacement) (now : Nat) (s : AgentState H)

/-- The events of a pass. -/
def passEvents : List AgentEvent :=
  (endState ((reconcile c desired now).run s)).log.drop s.log.length

/-- When the start of one placement fails, every other desired placement that
neither lived nor had completed is still started, and every other attempt that
lives is still observed and checked. -/
def OthersServed : Prop :=
  ∀ id k e, .startFailed id k e ∈ passEvents c desired now s →
    (∀ q ∈ desired, q.attemptId ≠ id → s.Missing q.attemptId →
      .startPlacement q.attemptId 1 ∈ passEvents c desired now s) ∧
    ∀ id', id' ≠ id →
      isDesired desired id' = true ∧ s.live.contains id' = true ∨
        (endState ((reconcile c desired now).run s)).live.contains id' = true →
      .observeOne id' ∈ passEvents c desired now s ∧ .tickChecks id' ∈ passEvents c desired now s

/-- The pass has stopped what is obsolete and stands in `s₁` before its starts. -/
def BeforeStarts (s₁ : AgentState H) : Prop :=
  c.authority.isIsolated = false ∧
    (pruneCompleted desired >>= fun _ => stopObsolete c desired).run s = .ok () s₁

/-- In the pass the start of `p` fails, after the starts of the placements before
it. -/
def StartFails (p : AcceptedPlacement) : Prop :=
  ∃ pre post s₁ u, desired = pre ++ p :: post ∧ BeforeStarts c desired s s₁ ∧
    (startMissing c pre now).run s₁ = .ok () u ∧
    succeeded ((startIfMissing c now p).run u) = false

/-- In the pass the restart of `id` fails, with the attempts `post` still to be
supervised. -/
def RestartFails (id : AttemptId) (post : List AttemptId) : Prop :=
  ∃ pre s₁ s₂ s₃ u budget, BeforeStarts c desired s s₁ ∧
    (startMissing c desired now).run s₁ = .ok () s₂ ∧
    (onHost (CheckBudget.new H c.checkBudgetMs) : AgentM H CheckBudget).run s₂ = .ok budget s₃ ∧
    s₃.live.keys = pre ++ id :: post ∧
    (forM pre (superviseOne c now budget) : AgentM H Unit).run s₃ = .ok () u ∧
    succeeded ((maybeRestart c id now).run u) = false

end Pass

section OneFailure

variable {desired : List AcceptedPlacement} {s s₁ s₂ : AgentState H}

theorem not_expired (hconnected : c.authority.isIsolated = false) (now : Nat) :
    isolationGraceExpired c.authority c.isolation now = false := by
  cases h : isolationGraceExpired c.authority c.isolation now with
  | false => rfl
  | true =>
    rw [isIsolated_of_graceExpired h] at hconnected
    cases hconnected

/-- A pass of a connected agent, from the state before its starts on. -/
theorem reconcile_run (h : BeforeStarts c desired s s₁) :
    (reconcile c desired now).run s = (startMissing c desired now >>= fun _ =>
      superviseLive c now >>= fun _ => get >>= fun t =>
        pure (t.live.entries.map fun e => makeReport e.1 e.2)).run s₁ := by
  obtain ⟨hconnected, hstops⟩ := h
  obtain ⟨_, t, hprune, hstop⟩ := run_bind_eq_ok.mp hstops
  unfold reconcile
  simp only [not_expired hconnected, hconnected, Bool.false_eq_true, if_false]
  rw [run_bind_ok hprune, run_bind_ok hstop]

/-- The state before the starts: only desired attempts live, as they did. -/
theorem beforeStarts_ok (h : BeforeStarts c desired s s₁) :
    ∃ calls, s₁.log = s.log ++ calls ∧ (∀ e ∈ calls, ∃ id fence, IsStopCall id fence e) ∧
      (∀ id, s₁.live.get id = if isDesired desired id then s.live.get id else none) ∧
      ∀ id, isDesired desired id = true → s₁.completed.get id = s.completed.get id := by
  obtain ⟨_, t, hprune, hstop⟩ := run_bind_eq_ok.mp h.2
  obtain ⟨_, rfl⟩ := EStateM.Result.ok.inj hprune
  obtain ⟨calls, hlog, hcalls, hcompleted, hlive⟩ := stopObsolete_ok hstop
  refine ⟨calls, hlog, hcalls, hlive, fun id hid => ?_⟩
  rw [hcompleted, OrdMap.get_retain]
  cases s.completed.get id <;> simp [hid]

variable {id : AttemptId}

theorem missing_beforeStarts (h : BeforeStarts c desired s s₁) (hid : isDesired desired id = true) :
    s₁.Missing id ↔ s.Missing id := by
  obtain ⟨_, _, _, hlive, hcompleted⟩ := beforeStarts_ok h
  unfold AgentState.Missing
  rw [hlive, hcompleted id hid, if_pos hid]

/-- A pass of a connected agent that returned has observed and checked every desired
attempt that lived. -/
theorem watched_of_returned (hconnected : c.authority.isIsolated = false)
    {reports : List AttemptReport} {t : AgentState H}
    (h : (reconcile c desired now).run s = .ok reports t) (hdesired : isDesired desired id = true)
    (hlive : s.live.contains id = true) :
    .observeOne id ∈ passEvents c desired now s ∧ .tickChecks id ∈ passEvents c desired now s := by
  have hpass := h
  unfold reconcile at hpass
  simp only [not_expired hconnected, hconnected, Bool.false_eq_true, if_false] at hpass
  obtain ⟨_, s₀, hprune, hpass⟩ := run_bind_eq_ok.mp hpass
  obtain ⟨_, s₁, hstop, hpass⟩ := run_bind_eq_ok.mp hpass
  obtain ⟨_, s₂, hstarts, hpass⟩ := run_bind_eq_ok.mp hpass
  obtain ⟨_, s₃, hsupervise, hpass⟩ := run_bind_eq_ok.mp hpass
  obtain ⟨_, rfl⟩ := EStateM.Result.ok.inj hpass
  have hbefore : BeforeStarts c desired s s₁ :=
    ⟨hconnected, run_bind_eq_ok.mpr ⟨_, s₀, hprune, hstop⟩⟩
  obtain ⟨calls, hcalls, _, hlive₁, _⟩ := beforeStarts_ok hbefore
  obtain ⟨l₁, hstarted⟩ := startMissing_ok hstarts
  obtain ⟨budget, s₄, hbudget, hloop⟩ := run_bind_eq_ok.mp hsupervise
  rw [run_bind_ok (EStateM.run_get _)] at hloop
  obtain ⟨l₂, hlog₂, _, _, hserved, _⟩ := supervise_ok hconnected hloop
  obtain ⟨_, hworld⟩ := EStateM.Result.ok.inj hbudget
  -- The attempt still lives when the supervision starts.
  have hkey : id ∈ s₄.live.keys := by
    obtain ⟨a, ha⟩ := OrdMap.contains_eq_true_iff.mp hlive
    refine OrdMap.mem_keys_iff.mpr ⟨a, ?_⟩
    rw [← hworld]
    refine hstarted.kept id a ?_
    rw [hlive₁, if_pos hdesired, ha]
  have hnew : passEvents c desired now s = (calls ++ l₁) ++ l₂ := by
    unfold passEvents
    rw [h, endState_ok, hlog₂, ← hworld]
    simp [hstarted.log, hcalls]
  rw [hnew]
  exact ⟨List.mem_append_right _ (hserved id hkey).1, List.mem_append_right _ (hserved id hkey).2⟩

/-- The events of a start that failed. -/
theorem mem_failed {id' : AttemptId} {k : Nat} {e : AgentError} {fence : Nat}
    {calls : List AgentEvent} (hcalls : FailedCalls c id fence calls) {x : AgentEvent}
    (h : x ∈ .startPlacement id k :: calls ++ [.startFailed id k e]) :
    x ≠ .observeOne id' ∧ (∀ k', x = .startPlacement id' k' → id' = id) ∧
      ∀ k' e', x = .startFailed id' k' e' → id' = id := by
  rcases hcalls with rfl | ⟨rfl, _⟩
  · simp only [List.cons_append, List.nil_append, List.mem_cons, List.not_mem_nil, or_false] at h
    rcases h with rfl | rfl <;> simp_all
  · simp only [List.cons_append, List.nil_append, List.mem_cons, List.not_mem_nil, or_false] at h
    rcases h with rfl | rfl | rfl <;> simp_all

/-- The events of the stops and the starts before: no observation and no failed
start, and each start is that of an attempt that lives then. -/
theorem mem_before {calls l₁ : List AgentEvent} {placements : List AcceptedPlacement}
    {u : AgentState H} (hcalls : ∀ e ∈ calls, ∃ id fence, IsStopCall id fence e)
    (hstarted : Started placements s₁ u l₁) {x : AgentEvent} (h : x ∈ calls ++ l₁) :
    x ≠ .observeOne id ∧ (∀ k, x = .startPlacement id k → ∃ a, u.live.get id = some a) ∧
      ∀ k e, x ≠ .startFailed id k e := by
  rcases List.mem_append.mp h with h | h
  · obtain ⟨_, _, hstop⟩ := hcalls x h
    cases x <;> simp_all [IsStopCall]
  · have hx := hstarted.starts x h
    refine ⟨?_, ?_, ?_⟩
    · rintro rfl
      exact hx
    · rintro k rfl
      exact (hstarted.source id k h).2
    · rintro k e rfl
      exact hx

/-- When the start of `p` fails, the others are served exactly when nothing was
to be done for them. -/
theorem othersServed_of_startFails {p : AcceptedPlacement} (h : StartFails c desired now s p) :
    OthersServed c desired now s ↔ ∀ q ∈ desired, q.attemptId ≠ p.attemptId →
      s.completed.contains q.attemptId = true ∧ s.live.contains q.attemptId = false := by
  obtain ⟨pre, post, s₁, u, hsplit, hbefore, hpre, hfails⟩ := h
  obtain ⟨calls, hcallsLog, hcalls, hlive₁, hcompleted₁⟩ := beforeStarts_ok hbefore
  obtain ⟨l₁, hstarted⟩ := startMissing_ok hpre
  rcases startIfMissing_run c now p u with ⟨_, hrun⟩ | ⟨hmissing, hrun⟩
  · rw [hrun] at hfails
    cases hfails
  rcases startPlacement_cases c p now 1 u with ⟨e, w, fcalls, hfcalls, hstart⟩ | ⟨_, _, _, hstart⟩
  swap
  · rw [hrun, hstart] at hfails
    cases hfails
  -- the pass ends where the start of `p` failed
  have hend : endState ((reconcile c desired now).run s)
      = (u.emits (.startPlacement p.attemptId 1 :: fcalls ++
          [.startFailed p.attemptId 1 e])).withWorld w := by
    have hloop : (startMissing c desired now).run s₁ = .error e
        ((u.emits (.startPlacement p.attemptId 1 :: fcalls ++
          [.startFailed p.attemptId 1 e])).withWorld w) :=
      forM_run_eq_error.mpr ⟨pre, p, post, u, hsplit, hpre, hrun.trans hstart⟩
    rw [reconcile_run hbefore, run_bind_error hloop, endState_error]
  have hnew : passEvents c desired now s = (calls ++ l₁) ++
      (.startPlacement p.attemptId 1 :: fcalls ++ [.startFailed p.attemptId 1 e]) := by
    unfold passEvents
    rw [hend]
    simp [hstarted.log, hcallsLog]
  have hunseen : ∀ id', .observeOne id' ∉ passEvents c desired now s := by
    intro id' hmem
    rcases List.mem_append.mp (hnew ▸ hmem) with hmem | hmem
    · exact (mem_before hcalls hstarted hmem).1 rfl
    · exact (mem_failed hfcalls hmem).1 rfl
  have hdesired : ∀ q ∈ desired, isDesired desired q.attemptId = true :=
    fun q hq => isDesired_iff.mpr ⟨q, hq, rfl⟩
  constructor
  · -- any other attempt that lives would have to be observed, and the pass observes none
    intro hserved q hq hne
    obtain ⟨hstartsOther, hobserves⟩ := hserved p.attemptId 1 e (by simp [hnew])
    have hdead : s.live.contains q.attemptId = false := by
      by_contra hlive
      exact hunseen _ (hobserves _ hne (Or.inl ⟨hdesired q hq, by simpa using hlive⟩)).1
    refine ⟨?_, hdead⟩
    by_contra hdone
    have hmiss : s.Missing q.attemptId :=
      ⟨OrdMap.contains_eq_false_iff.mp hdead,
        OrdMap.contains_eq_false_iff.mp (by simpa using hdone)⟩
    rcases List.mem_append.mp (hnew ▸ hstartsOther q hq hne hmiss) with hmem | hmem
    · obtain ⟨a, ha⟩ := (mem_before hcalls hstarted hmem).2.1 1 rfl
      refine hunseen _ (hobserves _ hne (Or.inr ?_)).1
      rw [hend]
      exact OrdMap.contains_eq_true_iff.mpr ⟨a, ha⟩
    · exact hne ((mem_failed hfcalls hmem).2.1 1 rfl)
  · intro hidle id k e' hfailed
    have hid : id = p.attemptId := by
      rcases List.mem_append.mp (hnew ▸ hfailed) with hmem | hmem
      · exact ((mem_before hcalls hstarted hmem).2.2 k e' rfl).elim
      · exact (mem_failed hfcalls hmem).2.2 k e' rfl
    have hidle' : ∀ id', isDesired desired id' = true → id' ≠ id →
        s.completed.contains id' = true ∧ s.live.contains id' = false := by
      intro id' hd hne
      obtain ⟨q, hq, rfl⟩ := isDesired_iff.mp hd
      exact hidle q hq (hid ▸ hne)
    refine ⟨?_, ?_⟩
    · intro q hq hne hmiss
      have hdone := (hidle' _ (hdesired q hq) hne).1
      rw [OrdMap.contains_eq_false_iff.mpr hmiss.2] at hdone
      cases hdone
    · rintro id' hne (⟨hd, hlive⟩ | hlive)
      · rw [(hidle' id' hd hne).2] at hlive
        cases hlive
      · rw [hend] at hlive
        obtain ⟨a, ha⟩ := OrdMap.contains_eq_true_iff.mp hlive
        rcases hstarted.back id' a ha with ha₁ | ⟨hmiss, q, hq, rfl⟩
        · rw [hlive₁] at ha₁
          split at ha₁
          · rename_i hd
            have hdead := (hidle' id' hd hne).2
            rw [OrdMap.contains_eq_true_iff.mpr ⟨a, ha₁⟩] at hdead
            cases hdead
          · cases ha₁
        · have hd := hdesired q (by simp [hsplit, hq])
          obtain ⟨_, hdone⟩ := OrdMap.contains_eq_true_iff.mp (hidle' _ hd hne).1
          rw [← hcompleted₁ _ hd, hmiss.2] at hdone
          cases hdone

/-- When the restart of `id` fails, the others are served exactly when none was
left to supervise. -/
theorem othersServed_of_restartFails {post : List AttemptId}
    (h : RestartFails c desired now s id post) : OthersServed c desired now s ↔ post = [] := by
  obtain ⟨pre, s₁, s₂, s₃, u, budget, hbefore, hstarts, hbudget, hkeys, hpre, hfails⟩ := h
  obtain ⟨calls, hcallsLog, hcalls, hlive₁, hcompleted₁⟩ := beforeStarts_ok hbefore
  obtain ⟨l₁, hstarted⟩ := startMissing_ok hstarts
  obtain ⟨_, hworld⟩ := EStateM.Result.ok.inj hbudget
  obtain ⟨l₂, hlog₂, hf₂, habout, hserved₂, hframe⟩ := supervise_ok hbefore.1 hpre
  rcases maybeRestart_cases c id now u with hrun | ⟨a, e, fcalls, w, hlive, hfcalls, hrun⟩ |
      ⟨_, _, _, _, hrun⟩
  · rw [hrun] at hfails
    cases hfails
  swap
  · rw [hrun] at hfails
    cases hfails
  -- the pass ends where the restart of `id` failed
  have hend : endState ((reconcile c desired now).run s)
      = ((u.emits (.startPlacement id a.attemptIndex :: fcalls ++
          [.startFailed id a.attemptIndex e])).dropLive id).withWorld w := by
    have hone : (superviseOne c now budget id).run u = .error e
        (((u.emits (.startPlacement id a.attemptIndex :: fcalls ++
          [.startFailed id a.attemptIndex e])).dropLive id).withWorld w) := run_bind_error hrun
    have hloop := forM_run_eq_error.mpr ⟨pre, id, post, u, hkeys, hpre, hone⟩
    have hsupervise : (superviseLive c now).run s₂ = .error e
        (((u.emits (.startPlacement id a.attemptIndex :: fcalls ++
          [.startFailed id a.attemptIndex e])).dropLive id).withWorld w) := by
      unfold superviseLive
      rw [run_bind_ok hbudget, run_bind_ok (EStateM.run_get _), hloop]
    rw [reconcile_run hbefore, run_bind_ok hstarts, run_bind_error hsupervise, endState_error]
  have hnew : passEvents c desired now s = ((calls ++ l₁) ++ l₂) ++
      (.startPlacement id a.attemptIndex :: fcalls ++ [.startFailed id a.attemptIndex e]) := by
    unfold passEvents
    rw [hend]
    simp [hlog₂, ← hworld, hstarted.log, hcallsLog]
  have hlive₃ : s₃.live = s₂.live := by rw [← hworld]; rfl
  have hnodup : (pre ++ id :: post).Nodup := hkeys ▸ s₃.live.keys_nodup
  constructor
  · intro hserved
    by_contra hpost
    obtain ⟨id', hid'⟩ := List.exists_mem_of_ne_nil _ hpost
    obtain ⟨_, hnodup', hdisjoint⟩ := List.nodup_append.mp hnodup
    have hne : id' ≠ id := by
      rintro rfl
      exact (List.nodup_cons.mp hnodup').1 hid'
    have hout : id' ∉ pre := fun hmem => hdisjoint id' hmem id' (by simp [hid']) rfl
    obtain ⟨b, hb⟩ : ∃ b, s₃.live.get id' = some b := OrdMap.mem_keys_iff.mp (by simp [hkeys, hid'])
    have hstill : (endState ((reconcile c desired now).run s)).live.contains id' = true := by
      rw [hend]
      refine OrdMap.contains_eq_true_iff.mpr ⟨b, ?_⟩
      exact (OrdMap.get_erase_of_ne _ hne).trans ((hframe id' hout).trans hb)
    have hobserve := ((hserved id a.attemptIndex e (by simp [hnew])).2 id' hne (Or.inr hstill)).1
    rcases List.mem_append.mp (hnew ▸ hobserve) with hmem | hmem
    · rcases List.mem_append.mp hmem with hmem | hmem
      · exact (mem_before hcalls hstarted hmem).1 rfl
      · exact hout (habout _ hmem)
    · exact (mem_failed hfcalls hmem).1 rfl
  · rintro rfl id₁ k e' hfailed
    have hid : id₁ = id := by
      rcases List.mem_append.mp (hnew ▸ hfailed) with hmem | hmem
      · rcases List.mem_append.mp hmem with hmem | hmem
        · exact ((mem_before hcalls hstarted hmem).2.2 k e' rfl).elim
        · exact (hf₂ _ _ _ hmem).elim
      · exact (mem_failed hfcalls hmem).2.2 k e' rfl
    subst hid
    have hserved : ∀ id', id' ∈ pre → .observeOne id' ∈ passEvents c desired now s ∧
        .tickChecks id' ∈ passEvents c desired now s := by
      intro id' hmem
      simp [hnew, hserved₂ id' hmem]
    have hpre' : ∀ id' b, id' ≠ id₁ → s₂.live.get id' = some b → id' ∈ pre := by
      intro id' b hne hb
      have hmem : id' ∈ pre ++ [id₁] := hkeys ▸ OrdMap.mem_keys_iff.mpr ⟨b, hlive₃ ▸ hb⟩
      simpa [hne] using hmem
    refine ⟨?_, ?_⟩
    · intro q hq _ hmiss
      have hd : isDesired desired q.attemptId = true := isDesired_iff.mpr ⟨q, hq, rfl⟩
      have hnoted := hstarted.noted _ ((missing_beforeStarts hbefore hd).mpr hmiss)
        (hstarted.done q hq)
      simp [hnew, hnoted]
    · rintro id' hne (⟨hd, hlives⟩ | hlives)
      · obtain ⟨b, hb⟩ := OrdMap.contains_eq_true_iff.mp hlives
        refine hserved id' (hpre' id' b hne (hstarted.kept id' b ?_))
        rw [hlive₁, if_pos hd, hb]
      · rw [hend] at hlives
        obtain ⟨b, hb⟩ := OrdMap.contains_eq_true_iff.mp hlives
        have hu : u.live.get id' = some b := (OrdMap.get_erase_of_ne _ hne).symm.trans hb
        by_cases hmem : id' ∈ pre
        · exact hserved id' hmem
        · rw [hframe id' hmem, hlive₃] at hu
          exact (hmem (hpre' id' b hne hu)).elim

/-- A pass of an isolated agent does not look at what is desired. -/
theorem reconcile_isolated (hisolated : c.authority.isIsolated = true) :
    (reconcile c desired now : AgentM H (List AttemptReport)) = reconcile c [] now := by
  unfold reconcile
  simp only [hisolated, if_true]

/-- The events of a chain that starts nothing, up to the end of the pass. -/
theorem noFailedStart_of_chain {o : Scope} (hwanted : ∀ id, ¬ o.Wanted id)
    (h : Relation.ReflTransGen (Act c o) s (endState ((reconcile c desired now).run s))) :
    NoFailedStart (passEvents c desired now s) := by
  obtain ⟨new, hlog, hguard⟩ := chain_guarded h
  have hnew : passEvents c desired now s = new := by simp [passEvents, hlog]
  intro id k e hmem
  exact hwanted id (hguard (.startFailed id k e) (hnew ▸ hmem)).2

/-- A round of supervision in which no restart fails has no failed start in its
events. -/
theorem superviseLive_noFailedStart (hconnected : c.authority.isIsolated = false)
    (hrestart : ∀ pre id post s₃ u budget,
      (onHost (CheckBudget.new H c.checkBudgetMs) : AgentM H CheckBudget).run s = .ok budget s₃ →
      s₃.live.keys = pre ++ id :: post →
      (forM pre (superviseOne c now budget) : AgentM H Unit).run s₃ = .ok () u →
      succeeded ((maybeRestart c id now).run u) = true) :
    ∃ new, (endState ((superviseLive c now).run s)).log = s.log ++ new ∧ NoFailedStart new := by
  obtain ⟨budget, s₃, hbudget, hlog₃⟩ : ∃ budget s₃,
      (onHost (CheckBudget.new H c.checkBudgetMs) : AgentM H CheckBudget).run s = .ok budget s₃ ∧
      s₃.log = s.log := ⟨_, _, rfl, rfl⟩
  unfold superviseLive
  rw [run_bind_ok hbudget, run_bind_ok (EStateM.run_get _), ← hlog₃]
  cases hloop : (forM s₃.live.keys (superviseOne c now budget) : AgentM H Unit).run s₃ with
  | ok _ t =>
    obtain ⟨l₂, hlog₂, hf₂, _⟩ := supervise_ok hconnected hloop
    exact ⟨l₂, hlog₂, hf₂⟩
  | error e t =>
    obtain ⟨pre, id, post, u, hkeys, hpre, hone⟩ := forM_run_eq_error.mp hloop
    obtain ⟨l₂, hlog₂, hf₂, _⟩ := supervise_ok hconnected hpre
    obtain ⟨_, t', hfirst⟩ := succeeded_iff.mp (hrestart pre id post s₃ u budget hbudget hkeys hpre)
    obtain ⟨l₃, htouches, hf₃, _⟩ := superviseOne_of_restart hconnected budget hfirst
    rw [hone, endState_error] at htouches
    refine ⟨l₂ ++ l₃, ?_, hf₂.append hf₃⟩
    rw [endState_error, htouches.log, hlog₂, List.append_assoc]

/-- A pass in which no start and no restart fails has no failed start in its
events. -/
theorem noFailedStart_of_no_failure (hstart : ∀ p, ¬ StartFails c desired now s p)
    (hrestart : ∀ id post, ¬ RestartFails c desired now s id post) :
    NoFailedStart (passEvents c desired now s) := by
  cases hisolated : c.authority.isIsolated with
  | true =>
    refine noFailedStart_of_chain (o := reconcileScope c [] now) ?_ ?_
    · simp [Scope.Wanted, reconcileScope, isDesired]
    · rw [reconcile_isolated hisolated]
      exact reconcile_reaches c [] now s
  | false =>
    cases hstops : (pruneCompleted desired >>= fun _ => stopObsolete c desired :
        AgentM H Unit).run s with
    | error e t =>
      refine noFailedStart_of_chain
        (o := ⟨fun _ => True, fun _ => False, fun _ => False, False, now⟩) ?_ ?_
      · simp [Scope.Wanted]
      · have hpass : (reconcile c desired now).run s = .error e t := by
          unfold reconcile
          simp only [not_expired hisolated, hisolated, Bool.false_eq_true, if_false]
          rw [← bind_assoc, run_bind_error hstops]
        have hchain : Reaches (Act c ⟨fun _ => True, fun _ => False, fun _ => False, False,
            now⟩) (pruneCompleted desired >>= fun _ => stopObsolete c desired) s :=
          (Reaches.single rfl (.prune fun _ => False.elim)).bind fun _ t _ =>
            stopObsolete_reaches (fun _ => trivial) (fun _ => False.elim) t
        unfold Reaches at hchain
        rw [hstops] at hchain
        rwa [hpass]
    | ok _ s₁ =>
      have hbefore : BeforeStarts c desired s s₁ := ⟨hisolated, hstops⟩
      obtain ⟨calls, hcallsLog, hcalls, _⟩ := beforeStarts_ok hbefore
      cases hstarts : (startMissing c desired now).run s₁ with
      | error e t =>
        obtain ⟨pre, p, post, u, hsplit, hpre, hp⟩ := forM_run_eq_error.mp hstarts
        exact (hstart p ⟨pre, post, s₁, u, hsplit, hbefore, hpre, by rw [hp]; rfl⟩).elim
      | ok _ s₂ =>
        obtain ⟨l₁, hstarted⟩ := startMissing_ok hstarts
        -- what is left is the supervision, and the reports change nothing
        have hend : endState ((reconcile c desired now).run s)
            = endState ((superviseLive c now).run s₂) := by
          rw [reconcile_run hbefore, run_bind_ok hstarts]
          cases hsup : (superviseLive c now).run s₂ with
          | ok _ t => rw [run_bind_ok hsup]; rfl
          | error e t => rw [run_bind_error hsup]; rfl
        obtain ⟨l₂, hlog₂, hf₂⟩ : ∃ l₂, (endState ((superviseLive c now).run s₂)).log
            = s₂.log ++ l₂ ∧ NoFailedStart l₂ :=
          superviseLive_noFailedStart hisolated
            fun pre id post s₃ u budget hbudget hkeys hpre => by
              by_contra hfails
              exact hrestart id post ⟨pre, s₁, s₂, s₃, u, budget, hbefore, hstarts, hbudget,
                hkeys, hpre, by simpa using hfails⟩
        have hnew : passEvents c desired now s = (calls ++ l₁) ++ l₂ := by
          unfold passEvents
          rw [hend, hlog₂]
          simp [hstarted.log, hcallsLog]
        intro id k e hmem
        rcases List.mem_append.mp (hnew ▸ hmem) with hmem | hmem
        · exact (mem_before hcalls hstarted hmem).2.2 k e rfl
        · exact hf₂ id k e hmem

/-- For every state, every desired list and every host: one start that fails
leaves the others served exactly when nothing was left to do for them, that is when
every other desired placement has completed, for a start, and when no attempt was
left to supervise, for a restart. -/
theorem others_served_iff (c : AgentConfig) (desired : List AcceptedPlacement) (now : Nat)
    (s : AgentState H) :
    OthersServed c desired now s ↔
      (∀ p, StartFails c desired now s p → ∀ q ∈ desired, q.attemptId ≠ p.attemptId →
        s.completed.contains q.attemptId = true ∧ s.live.contains q.attemptId = false) ∧
      ∀ id post, RestartFails c desired now s id post → post = [] := by
  constructor
  · intro hserved
    exact ⟨fun p hp => (othersServed_of_startFails hp).mp hserved,
      fun id post hfails => (othersServed_of_restartFails hfails).mp hserved⟩
  · rintro ⟨hstart, hrestart⟩
    by_cases hfails : ∃ p, StartFails c desired now s p
    · obtain ⟨p, hp⟩ := hfails
      exact (othersServed_of_startFails hp).mpr (hstart p hp)
    · by_cases hrefails : ∃ id post, RestartFails c desired now s id post
      · obtain ⟨id, post, hid⟩ := hrefails
        exact (othersServed_of_restartFails hid).mpr (hrestart id post hid)
      · have hnone := noFailedStart_of_no_failure (fun p hp => hfails ⟨p, hp⟩)
          (fun id post hid => hrefails ⟨id, post, hid⟩)
        intro id k e hmem
        exact (hnone id k e hmem).elim

end OneFailure

/-- A Capsule that was not verified keeps the placement after it from being
started. -/
theorem unverified_starves_next :
    ¬ OthersServed (Script.executor {}).config
      [samplePlacement 1 false false {}, samplePlacement 2 false true {}] 0
      (Script.executor {}).state := by
  intro h
  have hstart := (h (Octets.fill 16 1) 1 .unverifiedCapsule (by decide)).1
    (samplePlacement 2 false true {}) (by decide) (by decide) ⟨rfl, rfl⟩
  revert hstart
  decide

end Gump.Agent
