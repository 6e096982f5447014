/-
  Server/Independence.lean --- one app's failure and the other apps of a snapshot.

  The loop over the desired declarations comes before the executors, and its first
  error ends the pass.  So an app gets its placements handed over, and its running
  attempts looked after, exactly when no other declaration of the snapshot fails.
-/
import Mathlib.Algebra.GroupWithZero.Nat
import Gump.Agent.Failures
import Gump.Server.Steps

set_option autoImplicit false

namespace Gump.Server

open Gump.Foundation Gump.Types Gump.Memory Gump.Agent Gump.Scheduler

variable {W : Type} {R : RuntimeHost W}

/-! ## Connected executors -/

/-- No executor of the node is isolated. -/
def RuntimeCoordinator.Connected (s : RuntimeCoordinator R) : Prop :=
  ∀ kind, (s.executor kind).config.authority.isIsolated = false

theorem SettleStep.config {view : ClusterView} {now : Nat} {p q : Pass R}
    (h : SettleStep view now p q) (kind : DriverKind) :
    (q.node.executor kind).config = (p.node.executor kind).config := by
  cases h with
  | hands kind' => cases kind' <;> cases kind <;> rfl
  | acknowledges event =>
    obtain ⟨kind', id⟩ := event
    cases kind' <;> cases kind <;> rfl
  | _ => cases kind <;> rfl

theorem reconcile_connected [Blake3] (s : RuntimeCoordinator R) (input : PassInput)
    (hs : s.Connected) : (s.reconcile input).1.Connected := by
  have hplaced := placeDesired_sameExecutors input.view input.nowMs (s.beginPass input.nowMs)
  have hstart : (s.beginPass input.nowMs).node.Connected := by
    intro kind
    cases kind
    · exact hs .native
    · exact hs .script
  rcases reconcile_cases s input with ⟨e, p, hrun, hend⟩ | ⟨p, q, hrun, hsettled, hend⟩
  · rw [hrun] at hplaced
    rw [hend]
    intro kind
    have hsame : p.node.executor kind = (s.beginPass input.nowMs).node.executor kind :=
      hplaced.executor kind
    rw [hsame]
    exact hstart kind
  · rw [hrun] at hplaced
    have hswept := hplaced.trans (swept_sameExecutors p)
    rw [hend]
    refine chain_invariant (P := fun u : Pass R => u.node.Connected) ?_ hsettled ?_
    · intro u v hu hstep kind
      rw [hstep.config kind]
      exact hu kind
    · intro kind
      rw [hswept.executor kind]
      exact hstart kind

/-! ## The units of one declaration -/

/-- Only units of one declaration were placed. -/
def AddsOnly (entry : DesiredSnapshotEntry) (p q : Pass R) : Prop :=
  ∃ more, q.acc.placed = p.acc.placed ++ more ∧ ∀ x ∈ more, x.entry = entry

theorem AddsOnly.refl (entry : DesiredSnapshotEntry) (p : Pass R) : AddsOnly entry p p :=
  ⟨[], by simp, by simp⟩

theorem AddsOnly.trans {entry : DesiredSnapshotEntry} {p q u : Pass R}
    (h₁ : AddsOnly entry p q) (h₂ : AddsOnly entry q u) : AddsOnly entry p u := by
  obtain ⟨l₁, hplaced₁, hentry₁⟩ := h₁
  obtain ⟨l₂, hplaced₂, hentry₂⟩ := h₂
  refine ⟨l₁ ++ l₂, by rw [hplaced₂, hplaced₁, List.append_assoc], ?_⟩
  intro x hx
  exact (List.mem_append.mp hx).elim (hentry₁ x) (hentry₂ x)

section Rounds

variable [Blake3] {view : ClusterView} {now : Nat}

variable {entry : DesiredSnapshotEntry} {p q : Pass R}

theorem placeUnit_addsOnly {identity : ReleaseIdentity} {loaded : LoadedRelease} {unitIndex : Nat}
    (h : (placeUnit view now entry identity loaded unitIndex).run p = .ok () q) :
    AddsOnly entry p q := by
  rcases placeUnit_run view now entry identity loaded unitIndex p with hrun | hrun | hrun
  · obtain ⟨_, rfl⟩ := EStateM.Result.ok.inj (h.symm.trans hrun)
    exact ⟨[], by simp [Pass.mapAcc], by simp⟩
  · obtain ⟨_, rfl⟩ := EStateM.Result.ok.inj (h.symm.trans hrun)
    exact .refl _ _
  · obtain ⟨_, hacc⟩ := placeLocal_ok (hrun.symm.trans h)
    exact ⟨[_], by rw [hacc]; rfl, by simp [placedUnit]⟩

theorem placeUnits_addsOnly {identity : ReleaseIdentity} {loaded : LoadedRelease}
    {indexes : List Nat}
    (h : (forM indexes (placeUnit view now entry identity loaded)).run p = .ok () q) :
    AddsOnly entry p q := by
  induction indexes generalizing p with
  | nil =>
    obtain ⟨_, rfl⟩ := EStateM.Result.ok.inj h
    exact .refl _ _
  | cons i rest ih =>
    rw [forM_cons_run] at h
    obtain ⟨_, u, hi, hrest⟩ := run_bind_eq_ok.mp h
    exact (placeUnit_addsOnly hi).trans (ih hrest)

/-- The round of a declaration places units of that declaration only. -/
theorem placeEntry_addsOnly (h : (placeEntry view now entry).run p = .ok () q) :
    AddsOnly entry p q := by
  unfold placeEntry at h
  cases hrelease : releaseOf R entry with
  | error e =>
    rw [hrelease] at h
    cases h
  | ok identity =>
    rw [hrelease] at h
    simp only at h
    rw [run_bind_ok (modifyAcc_run _ p)] at h
    obtain ⟨loaded, u, hload, hunits⟩ := run_bind_eq_ok.mp h
    obtain ⟨more, hplaced, hentry⟩ := placeUnits_addsOnly hunits
    obtain ⟨_, _, hacc⟩ := loadReleaseCached_ok hload
    exact ⟨more, by rw [hplaced, hacc]; rfl, hentry⟩

/-- A loop over declarations keeps what was placed. -/
theorem placeEntries_placed {entries : List DesiredSnapshotEntry}
    (h : (forM entries (placeEntry view now)).run p = .ok () q) :
    p.acc.placed <+: q.acc.placed := by
  induction entries generalizing p with
  | nil =>
    obtain ⟨_, rfl⟩ := EStateM.Result.ok.inj h
    exact List.prefix_rfl
  | cons e rest ih =>
    rw [forM_cons_run] at h
    obtain ⟨_, u, hround, hrest⟩ := run_bind_eq_ok.mp h
    obtain ⟨more, hplaced, _⟩ := placeEntry_addsOnly hround
    exact (hplaced ▸ List.prefix_append _ _).trans (ih hrest)

end Rounds

/-! ## Executors whose passes return -/

section Returning

variable {view : ClusterView} {now : Nat}

/-- What an executor whose pass returned adds to the log. -/
theorem runExecutor_returned {kind : DriverKind} {p q : Pass R} {reports : List AttemptReport}
    (h : (runExecutor view now kind).run p = .ok reports q) :
    q.node.log = p.node.log ++ ((.handed kind (p.acc.placements kind) ::
      (passEvents (p.node.executor kind).config (p.acc.placements kind) now
        (beforeExecutor p.node kind)).map (.agent kind)).map (NodeEvent.mk view)) ∧
      ∃ st, (Agent.reconcile (p.node.executor kind).config (p.acc.placements kind)
        now).run (beforeExecutor p.node kind) = .ok reports st := by
  have hend := runExecutor_end view now kind p
  rw [h, endState_ok] at hend
  constructor
  · rw [hend]
    unfold passEvents
    have hlog : (beforeExecutor p.node kind).log = [] := rfl
    rw [hlog, List.length_nil, List.drop_zero]
    cases kind <;> rfl
  · cases hrun : (Agent.reconcile (p.node.executor kind).config (p.acc.placements kind) now).run
        (beforeExecutor p.node kind) with
    | ok reports' st =>
      rw [runExecutor_ok hrun] at h
      obtain ⟨rfl, _⟩ := EStateM.Result.ok.inj h
      exact ⟨st, rfl⟩
    | error e st =>
      rw [runExecutor_error hrun] at h
      cases h

/-- What an executor whose pass returned does with a placement. -/
theorem runExecutor_serves {kind : DriverKind} {p q : Pass R} {reports : List AttemptReport}
    (hconnected : p.node.Connected) (h : (runExecutor view now kind).run p = .ok reports q) :
    ⟨view, .handed kind (p.acc.placements kind)⟩ ∈ q.node.log.drop p.node.log.length ∧
      ∀ x ∈ p.acc.placements kind, (p.node.executor kind).state.live.contains x.attemptId = true →
        ⟨view, .agent kind (.observeOne x.attemptId)⟩ ∈ q.node.log.drop p.node.log.length ∧
        ⟨view, .agent kind (.tickChecks x.attemptId)⟩ ∈ q.node.log.drop p.node.log.length := by
  obtain ⟨hlog, st, hrun⟩ := runExecutor_returned h
  rw [hlog, List.drop_left]
  refine ⟨by simp, ?_⟩
  intro x hx hlive
  obtain ⟨hobserve, hcheck⟩ := watched_of_returned (hconnected kind) hrun
    (isDesired_iff.mpr ⟨x, hx, rfl⟩) hlive
  constructor
  · exact List.mem_map_of_mem (List.mem_cons_of_mem _ (List.mem_map_of_mem hobserve))
  · exact List.mem_map_of_mem (List.mem_cons_of_mem _ (List.mem_map_of_mem hcheck))

end Returning

/-! ## Serving one app -/

section Serving

variable [Blake3]

namespace RuntimeCoordinator

/-- What a pass did, in order. -/
def passActs (s : RuntimeCoordinator R) (input : PassInput) : List NodeAct :=
  ((s.reconcile input).1.log.drop s.log.length).map NodeEvent.act

/-- The loop over the declarations stands before `entry` in the pass `p`. -/
def Before (s : RuntimeCoordinator R) (input : PassInput) (entry : DesiredSnapshotEntry)
    (p : Pass R) : Prop :=
  ∃ pre post, input.view.desired = pre ++ entry :: post ∧
    (forM pre (placeEntry input.view input.nowMs)).run (s.beginPass input.nowMs) = .ok () p

/-- The declaration of an app is sound and has units on this node: when the loop
comes to it, its binding decodes, its release loads, and its units fit. -/
def Healthy (s : RuntimeCoordinator R) (input : PassInput) (entry : DesiredSnapshotEntry) : Prop :=
  ∀ p, s.Before input entry p → ∃ q, (placeEntry input.view input.nowMs entry).run p = .ok () q ∧
    p.acc.placed.length < q.acc.placed.length

/-- When the loop comes to another declaration, that one does not fail. -/
def OthersSucceed (s : RuntimeCoordinator R) (input : PassInput) (entry : DesiredSnapshotEntry) :
    Prop :=
  ∀ other p, other ≠ entry → s.Before input other p →
    succeeded ((placeEntry input.view input.nowMs other).run p) = true

/-- Once the executors are called, their passes return. -/
def ExecutorsReturn (s : RuntimeCoordinator R) (input : PassInput) : Prop :=
  ∀ p, (placeDesired input.view input.nowMs).run (s.beginPass input.nowMs) = .ok () p →
    ∃ native q script u, (runExecutor input.view input.nowMs .native).run p.swept = .ok native q ∧
      (runExecutor input.view input.nowMs .script).run q = .ok script u

/-- The app has its units placed, its placements are handed to their executors, and
those of its attempts that already live are observed and checked. -/
structure Served (s : RuntimeCoordinator R) (input : PassInput) (entry : DesiredSnapshotEntry) :
    Prop where
  placed : ∃ x ∈ s.placedIn input, x.entry = entry
  handed : ∀ x ∈ s.placedIn input, x.entry = entry → ∃ placements, x.placement ∈ placements ∧
    .handed x.loaded.runtime.kind placements ∈ s.passActs input
  watched : ∀ x ∈ s.placedIn input, x.entry = entry →
    (s.executor x.loaded.runtime.kind).state.live.contains x.placement.attemptId = true →
    .agent x.loaded.runtime.kind (.observeOne x.placement.attemptId) ∈ s.passActs input ∧
    .agent x.loaded.runtime.kind (.tickChecks x.placement.attemptId) ∈ s.passActs input

end RuntimeCoordinator

variable {s : RuntimeCoordinator R} {input : PassInput} {entry : DesiredSnapshotEntry}

/-- The loop fails exactly when one declaration does. -/
theorem placeDesired_fails_iff :
    (∃ e p, (placeDesired input.view input.nowMs).run (s.beginPass input.nowMs) = .error e p) ↔
      ∃ other p, s.Before input other p ∧
        succeeded ((placeEntry input.view input.nowMs other).run p) = false := by
  constructor
  · rintro ⟨e, q, hrun⟩
    obtain ⟨pre, other, post, p, hsplit, hpre, hother⟩ := forM_run_eq_error.mp hrun
    exact ⟨other, p, ⟨pre, post, hsplit, hpre⟩, by rw [hother]; rfl⟩
  · rintro ⟨other, p, ⟨pre, post, hsplit, hpre⟩, hfails⟩
    cases hother : (placeEntry input.view input.nowMs other).run p with
    | ok u q =>
      rw [hother] at hfails
      cases hfails
    | error e q => exact ⟨e, q, forM_run_eq_error.mpr ⟨pre, other, post, p, hsplit, hpre, hother⟩⟩

variable {p : Pass R}

/-- A pass that fails in its placements does nothing. -/
theorem passActs_of_error {e : NodeError}
    (h : (placeDesired input.view input.nowMs).run (s.beginPass input.nowMs) = .error e p) :
    s.passActs input = [] := by
  have hlog := (placeDesired_sameExecutors input.view input.nowMs (s.beginPass input.nowMs)).log
  rw [h] at hlog
  have hsame : p.node.log = s.log := hlog
  unfold RuntimeCoordinator.passActs
  rw [reconcile_of_error h, hsame]
  simp

theorem othersSucceed_of_served (h : s.Served input entry) : s.OthersSucceed input entry := by
  intro other p _ hbefore
  by_contra hfails
  obtain ⟨e, q, hrun⟩ := placeDesired_fails_iff.mpr ⟨other, p, hbefore, by simpa using hfails⟩
  obtain ⟨x, hx, hentry⟩ := h.placed
  obtain ⟨placements, _, hmem⟩ := h.handed x hx hentry
  rw [passActs_of_error hrun] at hmem
  cases hmem

theorem placeDesired_of_othersSucceed (hhealthy : s.Healthy input entry)
    (hothers : s.OthersSucceed input entry) :
    ∃ p, (placeDesired input.view input.nowMs).run (s.beginPass input.nowMs) = .ok () p := by
  cases hrun : (placeDesired input.view input.nowMs).run (s.beginPass input.nowMs) with
  | ok u p => exact ⟨p, rfl⟩
  | error e p =>
    obtain ⟨other, q, hbefore, hfails⟩ := placeDesired_fails_iff.mp ⟨e, p, hrun⟩
    by_cases heq : other = entry
    · subst heq
      obtain ⟨u, hround, _⟩ := hhealthy q hbefore
      rw [hround] at hfails
      cases hfails
    · rw [hothers other q heq hbefore] at hfails
      cases hfails

/-- A healthy app of a snapshot whose placements return has a placed unit. -/
theorem placed_of_healthy (hentry : entry ∈ input.view.desired) (hhealthy : s.Healthy input entry)
    (h : (placeDesired input.view input.nowMs).run (s.beginPass input.nowMs) = .ok () p) :
    ∃ x ∈ p.acc.placed, x.entry = entry := by
  obtain ⟨pre, post, hsplit⟩ := List.append_of_mem hentry
  unfold placeDesired at h
  rw [hsplit] at h
  obtain ⟨t, u, hpre, hround, hpost⟩ := forM_run_split h
  obtain ⟨u', hround', hmore⟩ := hhealthy t ⟨pre, post, hsplit, hpre⟩
  obtain ⟨_, rfl⟩ := EStateM.Result.ok.inj (hround.symm.trans hround')
  obtain ⟨more, hplaced, hof⟩ := placeEntry_addsOnly hround
  have hne : more ≠ [] := by
    rintro rfl
    simp [hplaced] at hmore
  obtain ⟨x, hx⟩ := List.exists_mem_of_ne_nil _ hne
  refine ⟨x, (placeEntries_placed hpost).subset ?_, hof x hx⟩
  rw [hplaced]
  exact List.mem_append_right _ hx

/-- An event that one part of a pass added is an act of the pass. -/
theorem mem_passActs {q : Pass R} {act : NodeAct} (hbase : s.log.length ≤ p.node.log.length)
    (hgrow : q.node.log <+: (s.reconcile input).1.log)
    (hmem : ⟨input.view, act⟩ ∈ q.node.log.drop p.node.log.length) : act ∈ s.passActs input := by
  have hlater : (⟨input.view, act⟩ : NodeEvent) ∈ q.node.log.drop s.log.length :=
    (List.drop_sublist_drop_left _ hbase).subset hmem
  exact List.mem_map.mpr ⟨⟨input.view, act⟩, (hgrow.sublist.drop _).subset hlater, rfl⟩

/-- For every run and every snapshot: a sound app with units on the node, whose
executors return, is served exactly when no other declaration of the snapshot fails
in the loop before the executors. -/
theorem served_iff_others_succeed (clusterId : ClusterId) (memoryNodeId : Nat)
    (privateIp : Option String) (stateRoot : String) (outer : W) (history : List PassInput)
    (s : RuntimeCoordinator R)
    (hs : s = runFrom RuntimeCoordinator.reconcile
      (RuntimeCoordinator.new R clusterId memoryNodeId privateIp stateRoot outer) history)
    (input : PassInput) (entry : DesiredSnapshotEntry) (hentry : entry ∈ input.view.desired)
    (hhealthy : s.Healthy input entry) (hreturn : s.ExecutorsReturn input) :
    s.Served input entry ↔ s.OthersSucceed input entry := by
  refine ⟨othersSucceed_of_served, fun hothers => ?_⟩
  obtain ⟨p, hrun⟩ := placeDesired_of_othersSucceed hhealthy hothers
  obtain ⟨native, q, script, u, hnative, hscript⟩ := hreturn p hrun
  have hplacedIn : s.placedIn input = p.acc.placed := by
    rw [RuntimeCoordinator.placedIn, hrun]
    rfl
  have hfaithful := placeDesired_faithful s input
  rw [hrun, endState_ok] at hfaithful
  -- The executors are those of the node before the pass.
  have hsame := placeDesired_sameExecutors input.view input.nowMs (s.beginPass input.nowMs)
  rw [hrun, endState_ok] at hsame
  have hswept := hsame.trans (swept_sameExecutors p)
  have hconnected : p.swept.node.Connected := by
    have hstart : s.Connected := by
      rw [hs]
      exact runFrom_invariant (P := RuntimeCoordinator.Connected) (fun s input hs =>
        reconcile_connected s input hs) (fun | .native => rfl | .script => rfl) history
    intro kind
    rw [hswept.executor kind]
    cases kind
    · exact hstart .native
    · exact hstart .script
  have hq : q = p.swept.mapNode fun s => afterExecutor s input.view .native
      (p.swept.acc.placements .native) (executorEnd p.swept input.nowMs .native) := by
    rw [← runExecutor_end, hnative, endState_ok]
  have hqscript : q.node.script = s.script := by
    rw [hq]
    exact hswept.script
  have hqconnected : q.node.Connected := by
    intro kind
    rw [hq, SettleStep.config (.hands .native) kind]
    exact hconnected kind
  -- What the executors add to the log stays in it to the end of the pass.
  have hlogs : p.swept.node.log <+: q.node.log ∧ q.node.log <+: u.node.log := by
    rw [(runExecutor_returned hscript).1, (runExecutor_returned hnative).1]
    exact ⟨List.prefix_append _ _, List.prefix_append _ _⟩
  have hfinal : u.node.log <+: (s.reconcile input).1.log := by
    rw [reconcile_of_ok_fst hrun]
    unfold finishPass
    rw [run_bind_ok hnative, run_bind_ok hscript]
    exact log_settled (concludePass_reaches _ _ _ _ u)
  have hbase : s.log.length ≤ p.swept.node.log.length := le_of_eq (congrArg _ hswept.log.symm)
  obtain ⟨hhanded₁, hwatched₁⟩ := runExecutor_serves hconnected hnative
  obtain ⟨hhanded₂, hwatched₂⟩ := runExecutor_serves hqconnected hscript
  have hacc : q.acc = p.acc := by rw [hq]; rfl
  have hmem : ∀ x ∈ p.acc.placed, x.placement ∈ p.acc.placements x.loaded.runtime.kind := by
    intro x hx
    rw [hfaithful.handed]
    exact List.mem_map_of_mem (List.mem_filter.mpr ⟨hx, by simp⟩)
  refine ⟨hplacedIn ▸ placed_of_healthy hentry hhealthy hrun, ?_, ?_⟩
  · intro x hx _
    rw [hplacedIn] at hx
    have hplacement := hmem x hx
    cases hkind : x.loaded.runtime.kind with
    | native =>
      rw [hkind] at hplacement
      exact ⟨_, hplacement, mem_passActs hbase (hlogs.2.trans hfinal) hhanded₁⟩
    | script =>
      rw [hkind, ← hacc] at hplacement
      exact ⟨_, hplacement, mem_passActs (hbase.trans hlogs.1.length_le) hfinal hhanded₂⟩
  · intro x hx _ hlive
    rw [hplacedIn] at hx
    have hplacement := hmem x hx
    cases hkind : x.loaded.runtime.kind with
    | native =>
      rw [hkind] at hplacement hlive
      have hlive' : (p.swept.node.executor .native).state.live.contains x.placement.attemptId =
          true := by
        rw [hswept.executor .native]
        exact hlive
      obtain ⟨hobserve, hcheck⟩ := hwatched₁ x.placement hplacement hlive'
      exact ⟨mem_passActs hbase (hlogs.2.trans hfinal) hobserve,
        mem_passActs hbase (hlogs.2.trans hfinal) hcheck⟩
    | script =>
      rw [hkind] at hlive
      rw [hkind, ← hacc] at hplacement
      have hlive' : (q.node.executor .script).state.live.contains x.placement.attemptId =
          true := by
        change q.node.script.state.live.contains _ = true
        rw [hqscript]
        exact hlive
      obtain ⟨hobserve, hcheck⟩ := hwatched₂ x.placement hplacement hlive'
      exact ⟨mem_passActs (hbase.trans hlogs.1.length_le) hfinal hobserve,
        mem_passActs (hbase.trans hlogs.1.length_le) hfinal hcheck⟩

/-- In a snapshot without repetition the loop comes to a declaration once. -/
theorem before_unique (hnodup : input.view.desired.Nodup) {q : Pass R} (hp : s.Before input entry p)
    (hq : s.Before input entry q) : p = q := by
  obtain ⟨pre, post, hsplit, hrun⟩ := hp
  obtain ⟨pre', post', hsplit', hrun'⟩ := hq
  rw [hsplit] at hnodup hsplit'
  obtain ⟨_, hrest, hdisjoint⟩ := List.nodup_append.mp hnodup
  obtain ⟨rfl, _⟩ := (List.append_cons_inj_of_notMem
    (fun hmem => hdisjoint entry hmem entry (by simp) rfl)
    (List.nodup_cons.mp hrest).1).mp hsplit'
  exact (EStateM.Result.ok.inj (hrun.symm.trans hrun')).2

/-- The second of two declarations whose rounds both return. -/
theorem healthy_of_pair {first second : DesiredSnapshotEntry}
    (hpair : input.view.desired = [first, second]) (hne : first ≠ second)
    (hfirst : succeeded ((placeEntry input.view input.nowMs first).run
      (s.beginPass input.nowMs)) = true)
    (hsecond : succeeded ((placeEntry input.view input.nowMs second).run (endState
      ((placeEntry input.view input.nowMs first).run (s.beginPass input.nowMs)))) = true)
    (hmore : (endState ((placeEntry input.view input.nowMs first).run
        (s.beginPass input.nowMs))).acc.placed.length <
      (endState ((placeEntry input.view input.nowMs second).run (endState
        ((placeEntry input.view input.nowMs first).run
          (s.beginPass input.nowMs))))).acc.placed.length) :
    s.Healthy input second ∧ s.OthersSucceed input second := by
  have hnodup : input.view.desired.Nodup := by simp [hpair, hne]
  obtain ⟨_, t, hrun⟩ := succeeded_iff.mp hfirst
  rw [hrun, endState_ok] at hsecond hmore
  obtain ⟨_, u, hround⟩ := succeeded_iff.mp hsecond
  have hbefore : s.Before input second t := by
    refine ⟨[first], [], hpair, ?_⟩
    rw [forM_cons_run, run_bind_ok hrun]
    rfl
  constructor
  · intro p hp
    rw [before_unique hnodup hp hbefore]
    rw [hround, endState_ok] at hmore
    exact ⟨u, hround, hmore⟩
  · intro other p hother hp
    obtain ⟨pre, post, hsplit, hpre⟩ := hp
    have hmem : other ∈ [first, second] := by simp [← hpair, hsplit]
    obtain rfl : other = first := by simpa [hother] using hmem
    have hstart : s.Before input other (s.beginPass input.nowMs) := ⟨[], [second], hpair, rfl⟩
    rw [before_unique hnodup ⟨pre, post, hsplit, hpre⟩ hstart]
    exact hfirst

theorem not_served_of_idle (h : s.passActs input = []) : ¬s.Served input entry := by
  intro hserved
  obtain ⟨x, hx, hentry⟩ := hserved.placed
  obtain ⟨placements, _, hmem⟩ := hserved.handed x hx hentry
  rw [h] at hmem
  cases hmem

theorem executorsReturn_of_succeeded
    (h : succeeded ((runExecutor input.view input.nowMs .native >>= fun _ =>
      runExecutor input.view input.nowMs .script).run (endState ((placeDesired input.view
        input.nowMs).run (s.beginPass input.nowMs))).swept) = true) : s.ExecutorsReturn input := by
  intro p hrun
  rw [hrun, endState_ok] at h
  obtain ⟨script, u, hboth⟩ := succeeded_iff.mp h
  obtain ⟨native, q, hnative, hscript⟩ := run_bind_eq_ok.mp hboth
  exact ⟨native, q, script, u, hnative, hscript⟩

end Serving

/-! ## A snapshot with two apps -/

namespace Sample

/-- A node without attempts; both Capsules hold a service. -/
def idle : RuntimeCoordinator (host (release 10 100 false) (release 11 100 false) true) :=
  node _ _ true {}

def twoApps : PassInput := pass 0 [("api", 1, 1), ("web", 1, 2)]

end Sample

/-- Both apps of the snapshot are sound, so the second is served. -/
theorem second_app_is_served :
    letI := Sample.blake3
    Sample.idle.Healthy Sample.twoApps (Sample.desired "web" 1 2) ∧
      Sample.idle.Served Sample.twoApps (Sample.desired "web" 1 2) :=
  letI := Sample.blake3
  have hpair : Sample.idle.Healthy Sample.twoApps (Sample.desired "web" 1 2) ∧
      Sample.idle.OthersSucceed Sample.twoApps (Sample.desired "web" 1 2) :=
    @healthy_of_pair _ _ Sample.blake3 Sample.idle Sample.twoApps (Sample.desired "api" 1 1) _ rfl
      (by decide +kernel) (by decide +kernel) (by decide +kernel) (by decide +kernel)
  ⟨hpair.1, (@served_iff_others_succeed _ _ Sample.blake3 (Sample.id 9) 1 none "/var/lib/gump" {}
    [] Sample.idle rfl Sample.twoApps (Sample.desired "web" 1 2) (by decide +kernel) hpair.1
    (@executorsReturn_of_succeeded _ _ Sample.blake3 Sample.idle Sample.twoApps
      (by decide +kernel))).mpr hpair.2⟩

namespace Sample

/-- The node while it runs the second app. -/
def runsWeb : RuntimeCoordinator (host (release 10 100 false) (release 11 100 false) true) :=
  letI := blake3
  runFrom RuntimeCoordinator.reconcile idle [pass 0 [("web", 1, 2)]]

/-- The attempt of the second app. -/
def webAttempt : AttemptId :=
  ⟨[81, 249, 21, 248, 208, 157, 126, 158, 137, 14, 180, 242, 202, 16, 239, 101], rfl⟩

/-- The second app beside one whose binding is empty. -/
def besideBroken : PassInput :=
  ⟨view [⟨"prod", "api", 1, Octets.fill 32 3, []⟩, desired "web" 1 2], 250⟩

end Sample

/-- Alone, the running app is observed and checked.  Beside an app whose binding
does not decode, the pass ends before it hands over or looks at anything. -/
theorem undecodable_binding_starves_other_app :
    letI := Sample.blake3
    .agent .native (.observeOne Sample.webAttempt) ∈
        Sample.runsWeb.passActs (Sample.pass 250 [("web", 1, 2)]) ∧
      .agent .native (.tickChecks Sample.webAttempt) ∈
        Sample.runsWeb.passActs (Sample.pass 250 [("web", 1, 2)]) ∧
      (Sample.runsWeb.reconcile Sample.besideBroken).2 =
        .error (.decodeBinding "prod" "api" "EOF while parsing a value at line 1 column 0") ∧
      Sample.runsWeb.passActs Sample.besideBroken = [] ∧
      ¬Sample.runsWeb.Served Sample.besideBroken (Sample.desired "web" 1 2) :=
  ⟨by decide +kernel, by decide +kernel, by decide +kernel, by decide +kernel,
    @not_served_of_idle _ _ Sample.blake3 _ _ _ (by decide +kernel)⟩

end Gump.Server
