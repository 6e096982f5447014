/-
  Server/Completions.lean --- which run a reported completion is of.

  The identifier of an attempt is derived from its unit and its Capsule.  When two
  declarations of one app name the same Capsule, the executor goes on with the
  attempt it has, and a completion is reported under the generation that is desired
  when it is seen.  Every completion that a node reports is traced here to the last
  start of its attempt, and that start to the declarations of its pass.
-/
import Mathlib.Algebra.GroupWithZero.Nat
import Gump.Agent.View
import Gump.Server.Steps

set_option autoImplicit false

namespace Gump.Server

open Gump.Foundation Gump.Types Gump.Memory Gump.Agent Gump.Scheduler

variable {W : Type} {R : RuntimeHost W}

/-! ## What is asked of the log -/

/-- The executor of a kind started a process for the attempt `id`. -/
def NodeEvent.isStart (kind : DriverKind) (id : AttemptId) (e : NodeEvent) : Bool :=
  match e.act with
  | .agent kind' (.driverStart id' _ ok) => decide (kind' = kind) && decide (id' = id) && ok
  | _ => false

/-- A generation of an app is desired in a view. -/
def ClusterView.Declares (view : ClusterView) (ns app : String) (generation : Nat) : Prop :=
  ∃ entry ∈ view.desired, entry.ns = ns ∧ entry.app = app ∧ entry.generation = generation

/-- Each completion in the log is of a process whose last start was made under a
view in which the generation that the completion names was desired. -/
def CompletesOwnRuns (log : List NodeEvent) : Prop :=
  ∀ pre view kind id target post, log = pre ++ ⟨view, .submitted kind id target⟩ :: post →
    ∃ before start after, pre = before ++ start :: after ∧ start.isStart kind id = true ∧
      (∀ e ∈ after, e.isStart kind id = false) ∧
      start.view.Declares target.ns target.app target.generation

theorem NodeEvent.isStart_iff {kind : DriverKind} {id : AttemptId} {e : NodeEvent} :
    e.isStart kind id = true ↔ ∃ fence, e.act = .agent kind (.driverStart id fence true) := by
  unfold NodeEvent.isStart
  constructor
  · split
    · rename_i kind' id' fence ok hact
      intro h
      simp only [Bool.and_eq_true, decide_eq_true_eq] at h
      obtain ⟨⟨rfl, rfl⟩, rfl⟩ := h
      exact ⟨fence, hact⟩
    · intro h
      cases h
  · rintro ⟨fence, hact⟩
    simp [hact]

/-- A list with an element of a kind splits at the last one. -/
theorem exists_last {α : Type} (f : α → Bool) {l : List α} (h : ∃ a ∈ l, f a = true) :
    ∃ before a after, l = before ++ a :: after ∧ f a = true ∧ ∀ b ∈ after, f b = false := by
  induction l with
  | nil => simp at h
  | cons x rest ih =>
    by_cases hrest : ∃ a ∈ rest, f a = true
    · obtain ⟨before, a, after, hsplit, ha, hafter⟩ := ih hrest
      exact ⟨x :: before, a, after, by rw [hsplit]; rfl, ha, hafter⟩
    · refine ⟨[], x, rest, rfl, ?_, fun b hb => ?_⟩
      · obtain ⟨a, ha, hfa⟩ := h
        rcases List.mem_cons.mp ha with rfl | ha
        · exact hfa
        · exact absurd ⟨a, ha, hfa⟩ hrest
      · exact Bool.eq_false_iff.mpr fun hfb => hrest ⟨b, hb, hfb⟩

/-! ## Tracing the log -/

/-- The executor of a kind has the attempt among its live ones, or announces its
completion. -/
def RuntimeCoordinator.Engages (s : RuntimeCoordinator R) (kind : DriverKind) (id : AttemptId) :
    Prop :=
  ((s.executor kind).state.live.get id).isSome = true ∨
    (s.executor kind).state.completionEvents.contains id = true

/-- What an executor is engaged with was started, what was started or reported was
placed by the pass that did it, and what was reported had been started. -/
structure Traced (Origin : ClusterView → Placed → Prop) (s : RuntimeCoordinator R) : Prop where
  engaged : ∀ kind id, s.Engages kind id → ∃ e ∈ s.log, e.isStart kind id = true
  started : ∀ e ∈ s.log, ∀ kind id, e.isStart kind id = true →
    ∃ x, Origin e.view x ∧ x.placement.attemptId = id
  reported : ∀ pre view kind id target post,
    s.log = pre ++ ⟨view, .submitted kind id target⟩ :: post →
    (∃ e ∈ pre, e.isStart kind id = true) ∧
      ∃ x, Origin view x ∧ x.placement.attemptId = id ∧ x.target = target

section Tracing

variable {Origin : ClusterView → Placed → Prop} {s s' : RuntimeCoordinator R}

/-- Nothing was reported, and what is new was started by the pass. -/
theorem Traced.grow (h : Traced Origin s) {new : List NodeEvent} (hlog : s'.log = s.log ++ new)
    (hengaged : ∀ kind id, s'.Engages kind id →
      s.Engages kind id ∨ ∃ e ∈ new, e.isStart kind id = true)
    (hstarted : ∀ e ∈ new, ∀ kind id, e.isStart kind id = true →
      ∃ x, Origin e.view x ∧ x.placement.attemptId = id)
    (hquiet : ∀ e ∈ new, ∀ kind id target, e.act ≠ .submitted kind id target) :
    Traced Origin s' where
  engaged := by
    intro kind id hs'
    rw [hlog]
    rcases hengaged kind id hs' with hold | ⟨e, he, hstart⟩
    · obtain ⟨e, he, hstart⟩ := h.engaged kind id hold
      exact ⟨e, List.mem_append_left _ he, hstart⟩
    · exact ⟨e, List.mem_append_right _ he, hstart⟩
  started := by
    intro e he kind id hstart
    rw [hlog] at he
    rcases List.mem_append.mp he with he | he
    · exact h.started e he kind id hstart
    · exact hstarted e he kind id hstart
  reported := by
    intro pre view kind id target post hsplit
    rw [hlog] at hsplit
    rcases split_append hsplit with ⟨post', hold, _⟩ | ⟨pre', _, hnew⟩
    · exact h.reported pre view kind id target post' hold
    · refine absurd rfl (hquiet ⟨view, .submitted kind id target⟩ ?_ kind id target)
      rw [hnew]
      simp

/-- A completion is reported of an attempt whose executor announces it. -/
theorem Traced.report (h : Traced Origin s) {view : ClusterView} {kind : DriverKind}
    {id : AttemptId} {target : CompletionKey} (hengaged : s.Engages kind id)
    (hplaced : ∃ x, Origin view x ∧ x.placement.attemptId = id ∧ x.target = target) :
    Traced Origin (s.emit view [.submitted kind id target]) where
  engaged := by
    intro kind' id' hs'
    have hold : s.Engages kind' id' := by cases kind' <;> exact hs'
    obtain ⟨e, he, hstart⟩ := h.engaged kind' id' hold
    exact ⟨e, List.mem_append_left _ he, hstart⟩
  started := by
    intro e he kind' id' hstart
    rcases List.mem_append.mp he with he | he
    · exact h.started e he kind' id' hstart
    · rw [List.map_singleton, List.mem_singleton] at he
      rw [he] at hstart
      cases hstart
  reported := by
    intro pre view' kind' id' target' post hsplit
    rcases split_append hsplit with ⟨post', hold, _⟩ | ⟨pre', hpre, hnew⟩
    · exact h.reported pre view' kind' id' target' post' hold
    · cases pre' with
      | nil =>
        rw [List.map_singleton, List.nil_append, List.cons.injEq] at hnew
        cases hnew.1
        rw [hpre, List.append_nil]
        exact ⟨h.engaged kind id hengaged, hplaced⟩
      | cons x rest => simp at hnew

end Tracing

/-! ## A pass -/

section Pass

variable {Origin : ClusterView → Placed → Prop} {view : ClusterView} {now : Nat}

/-- After the placements: the node is traced, and what the pass placed is an origin
of its view. -/
structure TracedPass [Blake3] (Origin : ClusterView → Placed → Prop) (view : ClusterView)
    (p : Pass R) : Prop where
  node : Traced Origin p.node
  faithful : p.acc.Faithful view R
  origins : ∀ x ∈ p.acc.placed, Origin view x

variable {kind : DriverKind} {id : AttemptId}

theorem engages_setExecutor_of_ne {s : RuntimeCoordinator R} {kind' : DriverKind}
    {x : EffectExecutor (nodeHost R kind)} (hne : kind' ≠ kind)
    (h : (s.setExecutor kind x).Engages kind' id) : s.Engages kind' id := by
  unfold RuntimeCoordinator.Engages at h ⊢
  rwa [executor_setExecutor_of_ne hne] at h

variable {p : Pass R}

/-- What an executor is engaged with after its pass, it was engaged with before or
started in it. -/
theorem engages_afterExecutor
    (h : (afterExecutor p.node view kind (p.acc.placements kind)
      (executorEnd p now kind)).Engages kind id) : p.node.Engages kind id ∨
      ∃ fence, .driverStart id fence true ∈ (executorEnd p now kind).log := by
  have hchain : Relation.ReflTransGen (Act (p.node.executor kind).config
      (reconcileScope (p.node.executor kind).config (p.acc.placements kind) now))
      (beforeExecutor p.node kind) (executorEnd p now kind) := reconcile_reaches _ _ now _
  have hstarted : ((executorEnd p now kind).view id).Started (p.node.Engages kind id) id :=
    chain_invariant (P := AttemptView.Started (p.node.Engages kind id) id)
      (fun _ _ hv hturn => hturn.started hv) (chain_turn hchain id) fun hv => Or.inl hv
  have hend : ((executorEnd p now kind).view id).live.isSome = true ∨
      ((executorEnd p now kind).view id).pending = true := by
    cases kind <;> exact h
  refine (hstarted hend).imp_right ?_
  rintro ⟨fence, hmem⟩
  exact ⟨fence, List.mem_of_mem_filter hmem⟩

/-- An executor starts attempts of its placements only. -/
theorem placed_of_driverStart [Blake3] {fence : Nat} {ok : Bool} (hp : p.acc.Faithful view R)
    (h : .driverStart id fence ok ∈ (executorEnd p now kind).log) :
    ∃ x ∈ p.acc.placed, x.placement.attemptId = id := by
  have hchain : Relation.ReflTransGen (Act (p.node.executor kind).config
      (reconcileScope (p.node.executor kind).config (p.acc.placements kind) now))
      (beforeExecutor p.node kind) (executorEnd p now kind) := reconcile_reaches _ _ now _
  obtain ⟨new, hlog, hguard⟩ := chain_guarded hchain
  have hmem : AgentEvent.driverStart id fence ok ∈ new := by
    rw [hlog] at h
    exact h
  have hwanted : ∃ q ∈ p.acc.placements kind, q.attemptId = id := by
    rcases (hguard _ hmem).2.2 with hkeep | ⟨q, hq, hid⟩
    · exact isDesired_iff.mp hkeep
    · exact ⟨q, hq, hid⟩
  obtain ⟨q, hq, hid⟩ := hwanted
  rw [hp.handed kind] at hq
  obtain ⟨x, hx, rfl⟩ := List.mem_map.mp hq
  exact ⟨x, List.mem_of_mem_filter hx, hid⟩

/-- A step after the sweep keeps the trace. -/
theorem SettleStep.traced [Blake3] {q : Pass R} (hstep : SettleStep view now p q)
    (h : TracedPass Origin view p) : TracedPass Origin view q := by
  cases hstep with
  | outer outer => exact ⟨⟨h.node.engaged, h.node.started, h.node.reported⟩, h.faithful, h.origins⟩
  | counts =>
    refine ⟨h.node, ⟨h.faithful.stems, ?_, h.faithful.units, h.faithful.targets⟩, h.origins⟩
    exact fun | .native => h.faithful.handed .native | .script => h.faithful.handed .script
  | reports status =>
    exact ⟨⟨h.node.engaged, h.node.started, h.node.reported⟩, h.faithful, h.origins⟩
  | hands kind =>
    have hlog : (afterExecutor p.node view kind (p.acc.placements kind)
        (executorEnd p now kind)).log = p.node.log ++
          (NodeAct.handed kind (p.acc.placements kind) ::
            (executorEnd p now kind).log.map (.agent kind)).map (NodeEvent.mk view) := by
      cases kind <;> rfl
    refine ⟨h.node.grow hlog ?_ ?_ ?_, h.faithful, h.origins⟩
    · intro kind' id hengaged
      by_cases hkind : kind' = kind
      · subst hkind
        refine (engages_afterExecutor hengaged).imp_right ?_
        rintro ⟨fence, hmem⟩
        refine ⟨⟨view, .agent kind' (.driverStart id fence true)⟩, ?_,
          NodeEvent.isStart_iff.mpr ⟨fence, rfl⟩⟩
        simpa using hmem
      · exact Or.inl (engages_setExecutor_of_ne hkind hengaged)
    · intro e he kind' id hstart
      obtain ⟨fence, hact⟩ := NodeEvent.isStart_iff.mp hstart
      obtain ⟨act, hact', rfl⟩ := List.mem_map.mp he
      simp only at hact
      subst hact
      rcases List.mem_cons.mp hact' with hhanded | hmem
      · cases hhanded
      · obtain ⟨event, hevent, heq⟩ := List.mem_map.mp hmem
        cases heq
        obtain ⟨x, hx, hid⟩ := placed_of_driverStart h.faithful hevent
        exact ⟨x, h.origins x hx, hid⟩
    · intro e he kind' id target hact
      obtain ⟨act, hact', rfl⟩ := List.mem_map.mp he
      simp only at hact
      subst hact
      simp at hact'
  | @submits event target htarget hevent =>
    obtain ⟨x, hx, hid, hxt⟩ := h.faithful.targets event.2 target htarget
    exact ⟨h.node.report (Or.inr hevent) ⟨x, h.origins x hx, hid, hxt⟩, h.faithful, h.origins⟩
  | acknowledges event =>
    have hlog : (p.node.setExecutor event.1
        ((p.node.executor event.1).acknowledgeCompletion event.2)).log = p.node.log ++ [] := by
      rw [List.append_nil]
      cases event.1 <;> rfl
    refine ⟨h.node.grow hlog ?_ (by simp) (by simp), h.faithful, h.origins⟩
    intro kind' id' hengaged
    left
    by_cases hkind : kind' = event.1
    · subst hkind
      unfold RuntimeCoordinator.Engages at hengaged ⊢
      simp only [Pass.mapNode, executor_setExecutor_self,
        EffectExecutor.acknowledgeCompletion] at hengaged
      refine hengaged.imp_right fun hpending => ?_
      exact ((OrdMap.contains_erase _ _ _).mp hpending).2
    · exact engages_setExecutor_of_ne hkind hengaged

theorem Traced.of_sameExecutors {q : Pass R} (h : Traced Origin p.node)
    (hsame : SameExecutors p q) : Traced Origin q.node := by
  have hlog : q.node.log = p.node.log ++ [] := by rw [hsame.log, List.append_nil]
  refine h.grow hlog ?_ (by simp) (by simp)
  intro kind id hengaged
  left
  unfold RuntimeCoordinator.Engages at hengaged ⊢
  rwa [hsame.executor kind] at hengaged

/-- A pass keeps the trace when what it places is an origin of its view. -/
theorem reconcile_traced [Blake3] {s : RuntimeCoordinator R} {input : PassInput}
    (h : Traced Origin s) (horigins : ∀ x ∈ s.placedIn input, Origin input.view x) :
    Traced Origin (s.reconcile input).1 := by
  have hbegin : Traced Origin (s.beginPass input.nowMs).node := ⟨h.engaged, h.started, h.reported⟩
  have hsame := placeDesired_sameExecutors input.view input.nowMs (s.beginPass input.nowMs)
  have hfaithful := placeDesired_faithful s input
  unfold RuntimeCoordinator.placedIn at horigins
  rcases reconcile_cases s input with ⟨e, p, hrun, hend⟩ | ⟨p, q, hrun, hsettled, hend⟩
  · rw [hrun] at hsame
    rw [hend]
    exact hbegin.of_sameExecutors hsame
  · rw [hrun] at hsame hfaithful horigins
    have hswept : TracedPass Origin input.view p.swept :=
      ⟨hbegin.of_sameExecutors (hsame.trans (swept_sameExecutors p)), hfaithful, horigins⟩
    rw [hend]
    exact (chain_invariant (P := TracedPass Origin input.view)
      (fun _ _ hu hstep => SettleStep.traced hstep hu) hsettled hswept).node

end Pass

/-! ## Runs -/

/-- The transitions of a node from its first pass on. -/
abbrev NodeRun (R : RuntimeHost W) : Type :=
  List (Transition (RuntimeCoordinator R) PassInput (Except NodeError RuntimeStatus))

/-- A unit that some pass of a run placed under a view. -/
def PlacedUnder [Blake3] (run : NodeRun R) (view : ClusterView) (x : Placed) : Prop :=
  ∃ t ∈ run, t.input.view = view ∧ x ∈ t.before.placedIn t.input

/-- BLAKE3 gives the attempts of a run one identifier only if they run the same
Capsule for the same unit. -/
def DistinctAttempts [Blake3] (run : NodeRun R) : Prop :=
  ∀ t ∈ run, ∀ t' ∈ run, ∀ x ∈ t.before.placedIn t.input, ∀ x' ∈ t'.before.placedIn t'.input,
    x.placement.attemptId = x'.placement.attemptId →
    x.placement.unitId = x'.placement.unitId ∧ x.release.capsuleId = x'.release.capsuleId

/-- The Capsule that a desired declaration names. -/
def capsuleOf (R : RuntimeHost W) (entry : DesiredSnapshotEntry) : Option CapsuleId :=
  (releaseOf R entry).toOption.map ReleaseIdentity.capsuleId

/-- Two declarations name different Capsules, or they are of one app and
generation. -/
def CapsulesApart (R : RuntimeHost W) (entry entry' : DesiredSnapshotEntry) : Prop :=
  (capsuleOf R entry).isSome = true → capsuleOf R entry = capsuleOf R entry' →
    entry.ns = entry'.ns ∧ entry.app = entry'.app ∧ entry.generation = entry'.generation

/-- No Capsule is named by declarations of different apps or generations. -/
def CapsulePerGeneration (R : RuntimeHost W) (inputs : List PassInput) : Prop :=
  ∀ input ∈ inputs, ∀ input' ∈ inputs, ∀ entry ∈ input.view.desired,
    ∀ entry' ∈ input'.view.desired, CapsulesApart R entry entry'

theorem new_traced [Blake3] (Origin : ClusterView → Placed → Prop) (clusterId : ClusterId)
    (memoryNodeId : Nat) (privateIp : Option String) (stateRoot : String) (outer : W) :
    Traced Origin (RuntimeCoordinator.new R clusterId memoryNodeId privateIp stateRoot outer) where
  engaged := by
    intro kind id h
    cases kind <;> simp [RuntimeCoordinator.Engages, RuntimeCoordinator.executor,
      RuntimeCoordinator.new, EffectExecutor.new, OrdMap.contains] at h
  started := by
    intro e he
    cases he
  reported := by
    intro pre view kind id target post hsplit
    simp [RuntimeCoordinator.new] at hsplit

/-- Every completion that a node reports is of a process started while the
generation that it names was desired, in every run in which no Capsule is named by
declarations of different apps or generations. -/
theorem completions_of_own_runs [Blake3] (clusterId : ClusterId) (memoryNodeId : Nat)
    (privateIp : Option String) (stateRoot : String) (outer : W) (inputs : List PassInput)
    (s₀ : RuntimeCoordinator R) (hs₀ : s₀ = .new R clusterId memoryNodeId privateIp stateRoot outer)
    (hdistinct : DistinctAttempts (transitions RuntimeCoordinator.reconcile s₀ inputs))
    (hcapsules : CapsulePerGeneration R inputs) :
    CompletesOwnRuns (runFrom RuntimeCoordinator.reconcile s₀ inputs).log := by
  have htraced : Traced (PlacedUnder (transitions RuntimeCoordinator.reconcile s₀ inputs))
      (runFrom RuntimeCoordinator.reconcile s₀ inputs) := by
    refine runFrom_of_transitions (fun t ht hbefore => ?_)
      (hs₀ ▸ new_traced _ clusterId memoryNodeId privateIp stateRoot outer)
    obtain ⟨_, _, _, _, _, hafter⟩ := exists_split_of_mem_transitions ht
    rw [hafter]
    exact reconcile_traced hbefore fun x hx => ⟨t, ht, rfl, hx⟩
  intro pre view kind id target post hsplit
  obtain ⟨hstart, x, hx, hid, rfl⟩ := htraced.reported pre view kind id target post hsplit
  obtain ⟨before, start, after, hpre, hisStart, hlast⟩ := exists_last _ hstart
  refine ⟨before, start, after, hpre, hisStart, hlast, ?_⟩
  obtain ⟨x', hx', hid'⟩ := htraced.started start (by rw [hsplit, hpre]; simp) kind id hisStart
  obtain ⟨t, ht, hview, hmem⟩ := hx
  obtain ⟨t', ht', hview', hmem'⟩ := hx'
  -- The start and the completion belong to units that run the same Capsule.
  have hcapsule := (hdistinct t' ht' t ht x' hmem' x hmem (hid'.trans hid.symm)).2
  have hstems := (placeDesired_faithful t.before t.input).stems x hmem
  have hstems' := (placeDesired_faithful t'.before t'.input).stems x' hmem'
  have hinput : ∀ u ∈ transitions RuntimeCoordinator.reconcile s₀ inputs, u.input ∈ inputs := by
    intro u hu
    obtain ⟨_, _, hinputs, _⟩ := exists_split_of_mem_transitions hu
    rw [hinputs]
    simp
  have hnames : ∀ {view : ClusterView} {y : Placed}, y.StemsFrom view R →
      capsuleOf R y.entry = some y.release.capsuleId := by
    intro view y hy
    rw [capsuleOf, hy.release]
    rfl
  obtain ⟨hns, happ, hgeneration⟩ := hcapsules t'.input (hinput t' ht') t.input (hinput t ht)
    x'.entry hstems'.entry x.entry hstems.entry (by rw [hnames hstems']; rfl)
    (by rw [hnames hstems', hnames hstems, hcapsule])
  rw [← hview']
  exact ⟨x'.entry, hstems'.entry, hns, happ, hgeneration⟩

instance (view : ClusterView) (ns app : String) (generation : Nat) :
    Decidable (view.Declares ns app generation) :=
  inferInstanceAs (Decidable (∃ entry ∈ view.desired, _))

instance [Blake3] (run : NodeRun R) : Decidable (DistinctAttempts run) :=
  inferInstanceAs (Decidable (∀ t ∈ run, _))

instance (entry entry' : DesiredSnapshotEntry) : Decidable (CapsulesApart R entry entry') :=
  inferInstanceAs (Decidable (_ → _ → _))

instance (inputs : List PassInput) : Decidable (CapsulePerGeneration R inputs) :=
  inferInstanceAs (Decidable (∀ input ∈ inputs, _))

/-- A completion reported after starts that were all made under other generations. -/
theorem not_completesOwnRuns {log : List NodeEvent} (n : Nat) {kind : DriverKind}
    {id : AttemptId} {target : CompletionKey}
    (hreport : log[n]?.map NodeEvent.act = some (.submitted kind id target))
    (hstarts : ∀ e ∈ log.take n, e.isStart kind id = true →
      ¬e.view.Declares target.ns target.app target.generation) : ¬CompletesOwnRuns log := by
  intro hown
  obtain ⟨e, he, hact⟩ := Option.map_eq_some_iff.mp hreport
  obtain ⟨hn, rfl⟩ := List.getElem?_eq_some_iff.mp he
  have hsplit :
      log = log.take n ++ ⟨log[n].view, .submitted kind id target⟩ :: log.drop (n + 1) := by
    rw [← hact, List.getElem_cons_drop, List.take_append_drop]
  obtain ⟨before, start, after, hpre, hstart, _, hdeclares⟩ := hown _ _ _ _ _ _ hsplit
  exact hstarts start (by rw [hpre]; simp) hstart hdeclares

namespace Sample

/-- A node on which Capsule 1 is a finite job that succeeds at once. -/
def jobNode : RuntimeCoordinator (host (release 10 100 true) (release 11 100 false) true) :=
  node _ _ true { observations := [⟨true, none⟩, ⟨false, some 0⟩] }

/-- What the only voter reads after a number of deployments of Capsule 1. -/
def redeployed (times : Nat) : ClusterView :=
  letI := blake3
  .observed (runFrom ClusterState.apply .new ((List.range times).map fun generation =>
    .putDesired "prod" "api" generation (payload 1) (Octets.fill 32 1))) [1]

/-- Two passes over one deployment. -/
def oneDeployment : List PassInput := [⟨redeployed 1, 0⟩, ⟨redeployed 1, 250⟩]

/-- A pass over the first deployment, and one over the second. -/
def twoDeployments : List PassInput := [⟨redeployed 1, 0⟩, ⟨redeployed 2, 250⟩]

end Sample

/-- The job of the only generation runs and its completion is reported. -/
theorem only_generation_completes :
    letI := Sample.blake3
    (runFrom RuntimeCoordinator.reconcile Sample.jobNode Sample.oneDeployment).log.any
        (fun e => decide (e.act matches .submitted _ _ _)) = true ∧
      CompletesOwnRuns
        (runFrom RuntimeCoordinator.reconcile Sample.jobNode Sample.oneDeployment).log :=
  ⟨by decide +kernel, @completions_of_own_runs _ _ Sample.blake3 (Sample.id 9) 1 none
    "/var/lib/gump" _ Sample.oneDeployment Sample.jobNode rfl (by decide +kernel)
    (by decide +kernel)⟩

/-- The job started under generation 1 is reported as the completion of
generation 2. -/
theorem old_run_completes_new_generation :
    letI := Sample.blake3
    ¬CompletesOwnRuns
      (runFrom RuntimeCoordinator.reconcile Sample.jobNode Sample.twoDeployments).log :=
  not_completesOwnRuns 12
    (show _ = some (NodeAct.submitted .native
      (@stableAttemptId Sample.blake3 Sample.firstUnit (Sample.id 1))
      ⟨"prod", "api", 2, Sample.firstUnit⟩) by decide +kernel) (by decide +kernel)

end Gump.Server
