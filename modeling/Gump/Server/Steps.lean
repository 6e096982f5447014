/-
  Server/Steps.lean --- what a pass of the coordinator is made of.

  Each method is read once.  The placements are a chain of small steps on the
  state of the pass; so is everything after the sweep that forgets what is no
  longer desired.  A step that asks the store for something of a release is taken
  only when no earlier failure defers that release.
-/
import Mathlib.Algebra.GroupWithZero.Nat
import Gump.Server.Runtime

set_option autoImplicit false

namespace Gump.Server

open Gump.Foundation Gump.Types Gump.Memory Gump.Agent Gump.Scheduler

variable {W : Type} {R : RuntimeHost W} {α : Type}

namespace Pass

def mapNode (p : Pass R) (f : RuntimeCoordinator R → RuntimeCoordinator R) : Pass R :=
  { p with node := f p.node }

def mapAcc (p : Pass R) (f : PassAcc → PassAcc) : Pass R := { p with acc := f p.acc }

/-- The world outside moved, and the store was asked for something. -/
def asks (p : Pass R) (outer : W) (events : List StoreEvent) : Pass R :=
  p.mapNode fun s => { s with
    world := { s.world with outer := outer, reads := s.world.reads ++ events } }

end Pass

/-- The node once a unit has its reservation. -/
def RuntimeCoordinator.admitted (s : RuntimeCoordinator R) (req : WorkloadRequirements) :
    RuntimeCoordinator R :=
  { s with
    scheduler := (s.scheduler.place req).1
    knownUnits := s.knownUnits.insert req.unitId () }

/-! ## The methods, read once -/

variable {p : Pass R}

/-- What an operation on the world of the node does to a pass. -/
theorem onWorld_asks {op : StateM (NodeWorld W) α} {a : α} {outer : W} {events : List StoreEvent}
    (h : op.run p.node.world = (a, { p.node.world with
      outer := outer, reads := p.node.world.reads ++ events })) :
    (onWorld op).run p = .ok a (p.asks outer events) := by
  change EStateM.Result.ok (op.run p.node.world).1 _ = _
  rw [h]
  rfl

theorem modifyNode_run (f : RuntimeCoordinator R → RuntimeCoordinator R) (p : Pass R) :
    (modifyNode f).run p = .ok () (p.mapNode f) := rfl

theorem modifyAcc_run (f : PassAcc → PassAcc) (p : Pass R) :
    (modifyAcc f).run p = .ok () (p.mapAcc f) := rfl

/-- An operation on the world outside asks the store for nothing. -/
theorem onOuter_run (op : StateM W α) (w : NodeWorld W) :
    (onOuter op).run w = ((op.run w.outer).1, { w with
      outer := (op.run w.outer).2, reads := w.reads ++ [] }) := by
  rw [List.append_nil]
  rfl

theorem loadRelease_run (stateRoot : String) (identity : ReleaseIdentity) (w : NodeWorld W) :
    (∃ outer loaded, (loadRelease R stateRoot identity).run w = (.ok loaded, { w with
      outer := outer, reads := w.reads ++ [.metadata identity w.clock true] })) ∨
    ∃ outer e, (loadRelease R stateRoot identity).run w = (.error e, { w with
      outer := outer, reads := w.reads ++ [.metadata identity w.clock false] }) := by
  have hrun : (loadRelease R stateRoot identity).run w =
      (((R.openCapsule identity).run w.outer).1.map fun declaration =>
        { declaration with
          capsuleId := identity.capsuleId
          releaseRoot := stateRoot ++ "/apps/" ++ toHyphenated identity.capsuleId },
      { w with
        outer := ((R.openCapsule identity).run w.outer).2
        reads := w.reads ++ [.metadata identity w.clock
          ((R.openCapsule identity).run w.outer).1.isOk] }) := rfl
  cases hopen : ((R.openCapsule identity).run w.outer).1 with
  | ok declaration => exact Or.inl ⟨_, _, by rw [hrun, hopen]; rfl⟩
  | error e => exact Or.inr ⟨_, e, by rw [hrun, hopen]; rfl⟩

theorem releasePresent_run (identity : ReleaseIdentity) (loaded : LoadedRelease) (w : NodeWorld W) :
    (∃ outer, (releasePresent R identity loaded).run w = (true, { w with
      outer := outer, reads := w.reads ++ [.present identity w.clock] })) ∨
    ∃ outer, (releasePresent R identity loaded).run w = (false, { w with
      outer := outer, reads := w.reads ++ [] }) := by
  have hrun : (releasePresent R identity loaded).run w =
      (if ((R.isDir loaded.releaseRoot).run w.outer).1 then do
          noteRead fun now => .present identity now
          pure true
        else pure false : StateM (NodeWorld W) Bool).run
        { w with outer := ((R.isDir loaded.releaseRoot).run w.outer).2 } := rfl
  cases hdir : ((R.isDir loaded.releaseRoot).run w.outer).1 with
  | true => exact Or.inl ⟨_, by rw [hrun, hdir]; rfl⟩
  | false => exact Or.inr ⟨_, by rw [hrun, hdir, List.append_nil]; rfl⟩

/-- The three ends of extracting a release: it is on disk, its archive was read, or
it could not be read. -/
theorem materializeRelease_run (identity : ReleaseIdentity) (loaded : LoadedRelease)
    (w : NodeWorld W) :
    ∃ outer events result, (materializeRelease R identity loaded).run w =
      (result, { w with outer := outer, reads := w.reads ++ events }) ∧
      (result = .ok () ∧ (events = [.present identity w.clock] ∨
          events = [.archive identity w.clock true]) ∨
        (∃ e, result = .error e) ∧ (events = [] ∨ events = [.archive identity w.clock false])) := by
  rcases releasePresent_run identity loaded w with ⟨outer, hpresent⟩ | ⟨outer, hpresent⟩
  · refine ⟨outer, _, _, ?_, Or.inl ⟨rfl, Or.inl rfl⟩⟩
    rw [materializeRelease, stateM_run_bind hpresent]
    rfl
  · cases hdescriptor : descriptor loaded.capsuleMeta .applicationArchive with
    | error e =>
      refine ⟨outer, _, _, ?_, Or.inr ⟨⟨e, rfl⟩, Or.inl rfl⟩⟩
      rw [materializeRelease, stateM_run_bind hpresent, hdescriptor]
      rfl
    | ok d =>
      -- The archive is asked for in the world that the look at the disk left.
      cases hextract : (R.extractArchive loaded.capsuleId
          (segmentRange loaded.capsuleMeta d)).run outer with
      | mk extracted outer' =>
        have hread : (materializeRelease R identity loaded).run w = (extracted, { w with
            outer := outer'
            reads := w.reads ++ [.archive identity w.clock extracted.isOk] }) := by
          rw [materializeRelease, stateM_run_bind hpresent, hdescriptor, List.append_nil]
          change ((((R.extractArchive loaded.capsuleId (segmentRange loaded.capsuleMeta d)).run
            outer).1, _) : _ × NodeWorld W) = _
          rw [hextract]
        cases extracted with
        | ok u => exact ⟨outer', _, _, hread, Or.inl ⟨rfl, Or.inr rfl⟩⟩
        | error e => exact ⟨outer', _, _, hread, Or.inr ⟨⟨e, rfl⟩, Or.inr rfl⟩⟩

/-- The four ends of obtaining a release: it is deferred, cached, loaded, or the
load fails. -/
theorem loadReleaseCached_cases (identity : ReleaseIdentity) (now : Nat) (p : Pass R) :
    (∃ f, p.node.deferral identity now = some f ∧
      (loadReleaseCached identity now).run p = .error (.deferred identity.capsuleId f) p) ∨
    p.node.deferral identity now = none ∧
      ((∃ loaded, p.node.releaseCache.get identity = some loaded ∧
        (loadReleaseCached identity now).run p = .ok loaded p) ∨
      (∃ outer loaded, (loadReleaseCached identity now).run p = .ok loaded
        ((p.asks outer [.metadata identity p.node.world.clock true]).mapNode
          (·.cacheRelease identity loaded))) ∨
      ∃ outer e, (loadReleaseCached identity now).run p = .error (.load e)
        ((p.asks outer [.metadata identity p.node.world.clock false]).mapNode
          (·.recordReleaseFailure identity now e))) := by
  unfold loadReleaseCached
  rw [run_bind_ok (EStateM.run_get p)]
  cases hdeferral : p.node.deferral identity now with
  | some f => exact Or.inl ⟨f, rfl, rfl⟩
  | none =>
    refine Or.inr ⟨rfl, ?_⟩
    cases hcache : p.node.releaseCache.get identity with
    | some loaded => exact Or.inl ⟨loaded, rfl, rfl⟩
    | none =>
      right
      rcases loadRelease_run (R := R) p.node.stateRoot identity p.node.world with
        ⟨outer, loaded, hload⟩ | ⟨outer, e, hload⟩
      · exact Or.inl ⟨outer, loaded, by simp only [run_bind_ok (onWorld_asks hload)]; rfl⟩
      · exact Or.inr ⟨outer, e, by simp only [run_bind_ok (onWorld_asks hload)]; rfl⟩

/-- Having a release on disk ends with its failures forgotten, or with one more. -/
theorem ensureReleaseMaterialized_cases (identity : ReleaseIdentity) (loaded : LoadedRelease)
    (now : Nat) (p : Pass R) :
    (∃ outer events, (events = [.present identity p.node.world.clock] ∨
        events = [.archive identity p.node.world.clock true]) ∧
      (ensureReleaseMaterialized identity loaded now).run p =
        .ok () ((p.asks outer events).mapNode (·.clearReleaseFailure identity))) ∨
    ∃ outer events e, (events = [] ∨ events = [.archive identity p.node.world.clock false]) ∧
      (ensureReleaseMaterialized identity loaded now).run p = .error (.materialize e)
        ((p.asks outer events).mapNode (·.recordReleaseFailure identity now e)) := by
  unfold ensureReleaseMaterialized
  rcases releasePresent_run (R := R) identity loaded p.node.world with
    ⟨outer, hpresent⟩ | ⟨outer, hpresent⟩
  · exact Or.inl ⟨outer, _, Or.inl rfl, by rw [run_bind_ok (onWorld_asks hpresent)]; rfl⟩
  · obtain ⟨outer', events, result, hrun, hends⟩ :=
      materializeRelease_run (R := R) identity loaded (p.asks outer []).node.world
    have hasks : (p.asks outer []).asks outer' events = p.asks outer' events := by
      simp [Pass.asks, Pass.mapNode]
    rw [run_bind_ok (onWorld_asks hpresent)]
    simp only [Bool.false_eq_true, if_false, run_bind_ok (onWorld_asks hrun), hasks]
    rcases hends with ⟨rfl, hevents⟩ | ⟨⟨e, rfl⟩, hevents⟩
    · exact Or.inl ⟨outer', events, hevents, rfl⟩
    · exact Or.inr ⟨outer', events, e, hevents, rfl⟩

/-- Admission: the unit is known, or it is reserved now, or nothing changes. -/
theorem admitUnit_cases (req : WorkloadRequirements) (p : Pass R) :
    (p.node.knownUnits.contains req.unitId = true ∧ (admitUnit req).run p = .ok () p) ∨
    p.node.knownUnits.contains req.unitId = false ∧
      ((∃ plan, (p.node.scheduler.place req).2 = .scheduled plan ∧
        (admitUnit req).run p = .ok () (p.mapNode (·.admitted req))) ∨
      ∃ matrix summary, (p.node.scheduler.place req).2 = .unschedulable matrix summary ∧
        (admitUnit req).run p =
          .error (.unschedulable req.unitId (.unschedulable matrix summary)) p) := by
  unfold admitUnit
  rw [run_bind_ok (EStateM.run_get p)]
  cases hknown : p.node.knownUnits.contains req.unitId with
  | true => exact Or.inl ⟨rfl, rfl⟩
  | false =>
    refine Or.inr ⟨rfl, ?_⟩
    simp only [Bool.false_eq_true, if_false]
    rw [run_bind_ok (modifyNode_run _ p)]
    cases houtcome : (p.node.scheduler.place req).2 with
    | scheduled plan => exact Or.inl ⟨plan, rfl, rfl⟩
    | unschedulable matrix summary =>
      refine Or.inr ⟨matrix, summary, rfl, ?_⟩
      have hsame := PlacementController.place_unschedulable houtcome
      change EStateM.Result.error _ (p.mapNode fun s =>
        { s with scheduler := (p.node.scheduler.place req).1 }) = _
      rw [hsame]
      rfl

theorem placements_record (acc : PassAcc) (placed : Placed) (kind : DriverKind) :
    (acc.record placed).placements kind = acc.placements kind ++
      if placed.loaded.runtime.kind = kind then [placed.placement] else [] := by
  cases kind <;> simp only [PassAcc.record, PassAcc.placements] <;> split <;> simp

/-- Between two passes under way failures were only forgotten. -/
def FailuresSubset (p q : Pass R) : Prop :=
  ∀ r f, q.node.releaseFailures.get r = some f → p.node.releaseFailures.get r = some f

variable {q : Pass R}

theorem FailuresSubset.trans {u : Pass R} (h₁ : FailuresSubset p q) (h₂ : FailuresSubset q u) :
    FailuresSubset p u := fun r f hf => h₁ r f (h₂ r f hf)

variable {identity : ReleaseIdentity} {now : Nat}

/-- A release stays due while failures are only forgotten. -/
theorem FailuresSubset.due (h : FailuresSubset p q) (hdue : p.node.deferral identity now = none) :
    q.node.deferral identity now = none := by
  unfold RuntimeCoordinator.deferral at hdue ⊢
  cases hq : q.node.releaseFailures.get identity with
  | none => rfl
  | some f =>
    rw [h identity f hq] at hdue
    exact hdue

/-- A release obtained in a pass is due. -/
theorem loadReleaseCached_ok {loaded : LoadedRelease}
    (h : (loadReleaseCached identity now).run p = .ok loaded q) :
    p.node.deferral identity now = none ∧ FailuresSubset p q ∧ q.acc = p.acc := by
  rcases loadReleaseCached_cases identity now p with ⟨f, _, hrun⟩ |
      ⟨hdue, ⟨l, _, hrun⟩ | ⟨outer, l, hrun⟩ | ⟨outer, e, hrun⟩⟩
  · cases h.symm.trans hrun
  · obtain ⟨_, rfl⟩ := EStateM.Result.ok.inj (h.symm.trans hrun)
    exact ⟨hdue, fun _ _ hf => hf, rfl⟩
  · obtain ⟨_, rfl⟩ := EStateM.Result.ok.inj (h.symm.trans hrun)
    exact ⟨hdue, fun r f hf => OrdMap.get_of_get_erase hf, rfl⟩
  · cases h.symm.trans hrun

theorem ensureReleaseMaterialized_ok {loaded : LoadedRelease}
    (h : (ensureReleaseMaterialized identity loaded now).run p = .ok () q) :
    FailuresSubset p q ∧ q.acc = p.acc := by
  rcases ensureReleaseMaterialized_cases identity loaded now p with
    ⟨outer, events, _, hrun⟩ | ⟨outer, events, e, _, hrun⟩
  · obtain ⟨_, rfl⟩ := EStateM.Result.ok.inj (h.symm.trans hrun)
    exact ⟨fun r f hf => OrdMap.get_of_get_erase hf, rfl⟩
  · cases h.symm.trans hrun

theorem admitUnit_ok {req : WorkloadRequirements} (h : (admitUnit req).run p = .ok () q) :
    FailuresSubset p q ∧ q.acc = p.acc := by
  rcases admitUnit_cases req p with ⟨_, hrun⟩ | ⟨_, ⟨plan, _, hrun⟩ | ⟨matrix, summary, _, hrun⟩⟩
  · obtain ⟨_, rfl⟩ := EStateM.Result.ok.inj (h.symm.trans hrun)
    exact ⟨fun _ _ hf => hf, rfl⟩
  · obtain ⟨_, rfl⟩ := EStateM.Result.ok.inj (h.symm.trans hrun)
    exact ⟨fun _ _ hf => hf, rfl⟩
  · cases h.symm.trans hrun

theorem placeLocal_ok {placed : Placed} (h : (placeLocal now placed).run p = .ok () q) :
    FailuresSubset p q ∧ q.acc = p.acc.record placed := by
  obtain ⟨_, p₁, hensure, h₁⟩ := run_bind_eq_ok.mp h
  obtain ⟨_, p₂, hadmits, h₂⟩ := run_bind_eq_ok.mp h₁
  obtain ⟨hsubset₁, hacc₁⟩ := ensureReleaseMaterialized_ok hensure
  obtain ⟨hsubset₂, hacc₂⟩ := admitUnit_ok hadmits
  rw [run_bind_ok (modifyNode_run _ p₂), modifyAcc_run] at h₂
  obtain ⟨_, rfl⟩ := EStateM.Result.ok.inj h₂
  have hbind : FailuresSubset p₂ (p₂.mapNode (bindSecrets · placed)) := by
    intro r f hf
    simp only [Pass.mapNode, bindSecrets] at hf
    split at hf <;> exact hf
  refine ⟨hsubset₁.trans (hsubset₂.trans hbind), ?_⟩
  rw [← hacc₁, ← hacc₂]
  rfl

/-! ## The steps of the placements -/

section Placing

variable [Blake3] {view : ClusterView} {now : Nat}

/-- Where a placed unit comes from: a declaration of the view and the release that
it names. -/
structure Placed.StemsFrom (view : ClusterView) (R : RuntimeHost W) (placed : Placed) : Prop where
  entry : placed.entry ∈ view.desired
  release : releaseOf R placed.entry = .ok placed.release
  shape : ∃ s : RuntimeCoordinator R,
    placed = placedUnit s placed.entry placed.release placed.loaded placed.unitIndex

/-- One step of the placements of a pass at the time `now`. -/
inductive PlaceStep (view : ClusterView) (now : Nat) : Pass R → Pass R → Prop
  | counts {p : Pass R} : PlaceStep view now p
      (p.mapAcc fun acc => { acc with completed := saturatingAdd acc.completed 1 })
  | wants {p : Pass R} (identity : ReleaseIdentity) : PlaceStep view now p
      (p.mapAcc fun acc => { acc with currentReleases := acc.currentReleases.insert identity () })
  | loads {p : Pass R} {identity : ReleaseIdentity} (outer : W) (loaded : LoadedRelease)
      (hdue : p.node.deferral identity now = none) :
      PlaceStep view now p ((p.asks outer [.metadata identity p.node.world.clock true]).mapNode
        (·.cacheRelease identity loaded))
  | obtains {p : Pass R} {identity : ReleaseIdentity} (outer : W) {events : List StoreEvent}
      (hdue : p.node.deferral identity now = none)
      (hevents : events = [.present identity p.node.world.clock] ∨
        events = [.archive identity p.node.world.clock true]) :
      PlaceStep view now p ((p.asks outer events).mapNode (·.clearReleaseFailure identity))
  | fails {p : Pass R} {identity : ReleaseIdentity} (outer : W) {events : List StoreEvent}
      (e : String) (hdue : p.node.deferral identity now = none)
      (hevents : events = [] ∨ events = [.metadata identity p.node.world.clock false] ∨
        events = [.archive identity p.node.world.clock false]) :
      PlaceStep view now p ((p.asks outer events).mapNode (·.recordReleaseFailure identity now e))
  | admits {p : Pass R} {req : WorkloadRequirements} {plan : PlacementPlan}
      (hunknown : p.node.knownUnits.contains req.unitId = false)
      (hplan : (p.node.scheduler.place req).2 = .scheduled plan) :
      PlaceStep view now p (p.mapNode (·.admitted req))
  | places {p : Pass R} {placed : Placed} (hstems : placed.StemsFrom view R) :
      PlaceStep view now p ((p.mapNode (bindSecrets · placed)).mapAcc (·.record placed))

theorem loadReleaseCached_reaches (identity : ReleaseIdentity) (p : Pass R) :
    Reaches (PlaceStep view now) (loadReleaseCached identity now) p := by
  rcases loadReleaseCached_cases identity now p with ⟨f, _, hrun⟩ |
      ⟨hdue, ⟨l, _, hrun⟩ | ⟨outer, l, hrun⟩ | ⟨outer, e, hrun⟩⟩
  · exact Reaches.idle (by rw [hrun]; rfl)
  · exact Reaches.idle (by rw [hrun]; rfl)
  · exact Reaches.single (by rw [hrun]; rfl) (.loads outer l hdue)
  · exact Reaches.single (by rw [hrun]; rfl) (.fails outer e hdue (Or.inr (Or.inl rfl)))

variable {p : Pass R}

theorem ensureReleaseMaterialized_reaches {identity : ReleaseIdentity} (loaded : LoadedRelease)
    (hdue : p.node.deferral identity now = none) :
    Reaches (PlaceStep view now) (ensureReleaseMaterialized identity loaded now) p := by
  rcases ensureReleaseMaterialized_cases identity loaded now p with
    ⟨outer, events, hevents, hrun⟩ | ⟨outer, events, e, hevents, hrun⟩
  · exact Reaches.single (by rw [hrun]; rfl) (.obtains outer hdue hevents)
  · refine Reaches.single (by rw [hrun]; rfl) (.fails outer e hdue ?_)
    exact hevents.imp_right Or.inr

theorem admitUnit_reaches (req : WorkloadRequirements) (p : Pass R) :
    Reaches (PlaceStep view now) (admitUnit req) p := by
  rcases admitUnit_cases req p with ⟨_, hrun⟩ |
      ⟨hunknown, ⟨plan, hplan, hrun⟩ | ⟨matrix, summary, _, hrun⟩⟩
  · exact Reaches.idle (by rw [hrun]; rfl)
  · exact Reaches.single (by rw [hrun]; rfl) (.admits hunknown hplan)
  · exact Reaches.idle (by rw [hrun]; rfl)

/-- A unit whose completion is recorded is counted; one that falls on another node
is skipped; the others are placed. -/
theorem placeUnit_run (view : ClusterView) (now : Nat) (entry : DesiredSnapshotEntry)
    (identity : ReleaseIdentity) (loaded : LoadedRelease) (unitIndex : Nat) (p : Pass R) :
    (placeUnit view now entry identity loaded unitIndex).run p = .ok () (p.mapAcc fun acc =>
      { acc with completed := saturatingAdd acc.completed 1 }) ∨
    (placeUnit view now entry identity loaded unitIndex).run p = .ok () p ∨
    (placeUnit view now entry identity loaded unitIndex).run p =
      (placeLocal now (placedUnit p.node entry identity loaded unitIndex)).run p := by
  unfold placeUnit
  rw [run_bind_ok (EStateM.run_get p)]
  simp only
  split
  · exact Or.inl rfl
  · split
    · exact Or.inr (Or.inl rfl)
    · exact Or.inr (Or.inr rfl)

theorem placeLocal_reaches {placed : Placed} (hstems : placed.StemsFrom view R)
    (hdue : p.node.deferral placed.release now = none) :
    Reaches (PlaceStep view now) (placeLocal now placed) p := by
  refine (ensureReleaseMaterialized_reaches _ hdue).bind fun _ q _ => ?_
  refine (admitUnit_reaches _ q).bind fun _ u _ => ?_
  exact Reaches.single rfl (.places hstems)

section Units

variable {entry : DesiredSnapshotEntry} {identity : ReleaseIdentity} {loaded : LoadedRelease}

theorem placeUnit_reaches (hentry : entry ∈ view.desired)
    (hrelease : releaseOf R entry = .ok identity) (unitIndex : Nat) {p : Pass R}
    (hdue : p.node.deferral identity now = none) :
    Reaches (PlaceStep view now) (placeUnit view now entry identity loaded unitIndex) p := by
  rcases placeUnit_run view now entry identity loaded unitIndex p with hrun | hrun | hrun
  · exact Reaches.single (by rw [hrun]; rfl) .counts
  · exact Reaches.idle (by rw [hrun]; rfl)
  · unfold Reaches
    rw [hrun]
    exact placeLocal_reaches ⟨hentry, hrelease, ⟨p.node, rfl⟩⟩ hdue

theorem placeUnit_ok {unitIndex : Nat} {p q : Pass R}
    (h : (placeUnit view now entry identity loaded unitIndex).run p = .ok () q) :
    FailuresSubset p q ∧ q.acc.currentReleases = p.acc.currentReleases := by
  rcases placeUnit_run view now entry identity loaded unitIndex p with hrun | hrun | hrun
  · obtain ⟨_, rfl⟩ := EStateM.Result.ok.inj (h.symm.trans hrun)
    exact ⟨fun _ _ hf => hf, rfl⟩
  · obtain ⟨_, rfl⟩ := EStateM.Result.ok.inj (h.symm.trans hrun)
    exact ⟨fun _ _ hf => hf, rfl⟩
  · obtain ⟨hsubset, hacc⟩ := placeLocal_ok (hrun.symm.trans h)
    exact ⟨hsubset, by rw [hacc]; rfl⟩

end Units

theorem placeEntry_reaches {entry : DesiredSnapshotEntry} (hentry : entry ∈ view.desired)
    (p : Pass R) : Reaches (PlaceStep view now) (placeEntry view now entry) p := by
  unfold placeEntry
  cases hrelease : releaseOf R entry with
  | error e => exact Reaches.throw _ _
  | ok identity =>
    refine Reaches.bind (Reaches.single rfl (.wants identity)) fun _ p₁ _ => ?_
    refine (loadReleaseCached_reaches identity p₁).bind fun loaded p₂ hload => ?_
    obtain ⟨hdue, hsubset, _⟩ := loadReleaseCached_ok hload
    -- The release stays due from one unit to the next.
    refine Reaches.forM_of_ok (I := fun u : Pass R => u.node.deferral identity now = none)
      (fun i _ u hu => placeUnit_reaches hentry hrelease i hu) ?_ (hsubset.due hdue)
    intro i _ u v hu hrun
    exact (placeUnit_ok hrun).1.due hu

/-- The placements of a pass are a chain of steps. -/
theorem placeDesired_reaches (view : ClusterView) (now : Nat) (p : Pass R) :
    Reaches (PlaceStep view now) (placeDesired view now) p :=
  Reaches.forM (I := fun _ => True) (fun _ _ _ _ => trivial)
    (fun _ hentry q _ => placeEntry_reaches hentry q) trivial

/-- The lists and maps of a pass say what the placed units say. -/
structure PassAcc.Faithful (view : ClusterView) (R : RuntimeHost W) (acc : PassAcc) : Prop where
  stems : ∀ x ∈ acc.placed, x.StemsFrom view R
  handed : ∀ kind, acc.placements kind =
    (acc.placed.filter fun x => decide (x.loaded.runtime.kind = kind)).map Placed.placement
  units : ∀ unit, acc.currentUnits.contains unit = true ↔
    ∃ x ∈ acc.placed, x.placement.unitId = unit
  targets : ∀ id target, acc.completionTargets.get id = some target →
    ∃ x ∈ acc.placed, x.placement.attemptId = id ∧ x.target = target

theorem PassAcc.Faithful.empty : PassAcc.Faithful view R {} where
  stems := by simp
  handed := by intro kind; cases kind <;> rfl
  units := by simp [OrdMap.contains]
  targets := by simp

theorem PassAcc.Faithful.record {acc : PassAcc} (h : acc.Faithful view R) {placed : Placed}
    (hstems : placed.StemsFrom view R) : (acc.record placed).Faithful view R where
  stems := by
    intro x hx
    rcases List.mem_append.mp hx with hx | hx
    · exact h.stems x hx
    · rw [List.mem_singleton.mp hx]
      exact hstems
  handed := by
    intro kind
    have hplaced : (acc.record placed).placed = acc.placed ++ [placed] := rfl
    rw [placements_record, hplaced, List.filter_append, List.map_append, h.handed kind]
    by_cases hkind : placed.loaded.runtime.kind = kind <;> simp [hkind]
  units := by
    intro unit
    simp only [PassAcc.record, OrdMap.contains_insert, h.units, List.mem_append, List.mem_singleton]
    constructor
    · rintro (rfl | ⟨x, hx, hunit⟩)
      · exact ⟨placed, Or.inr rfl, rfl⟩
      · exact ⟨x, Or.inl hx, hunit⟩
    · rintro ⟨x, hx | rfl, hunit⟩
      · exact Or.inr ⟨x, hx, hunit⟩
      · exact Or.inl hunit.symm
  targets := by
    intro id target htarget
    have hold : acc.completionTargets.get id = some target →
        ∃ x ∈ acc.placed ++ [placed], x.placement.attemptId = id ∧ x.target = target := by
      intro hget
      obtain ⟨x, hx, hid⟩ := h.targets id target hget
      exact ⟨x, List.mem_append_left _ hx, hid⟩
    simp only [PassAcc.record] at htarget ⊢
    split at htarget
    · rw [OrdMap.get_insert] at htarget
      split at htarget
      · rename_i hid
        exact ⟨placed, by simp, hid.symm, Option.some.inj htarget⟩
      · exact hold htarget
    · exact hold htarget

theorem PlaceStep.faithful {q : Pass R} (h : PlaceStep view now p q) (hp : p.acc.Faithful view R) :
    q.acc.Faithful view R := by
  cases h with
  | counts =>
    exact ⟨hp.stems, fun | .native => hp.handed .native | .script => hp.handed .script,
      hp.units, hp.targets⟩
  | wants identity =>
    exact ⟨hp.stems, fun | .native => hp.handed .native | .script => hp.handed .script,
      hp.units, hp.targets⟩
  | places hstems => exact hp.record hstems
  | _ => exact hp

/-- The units that a pass places on the node, each with its release. -/
def RuntimeCoordinator.placedIn (s : RuntimeCoordinator R) (input : PassInput) : List Placed :=
  (endState ((placeDesired input.view input.nowMs).run (s.beginPass input.nowMs))).acc.placed

/-- Whatever way the placements of a pass end, its lists and maps are faithful. -/
theorem placeDesired_faithful (s : RuntimeCoordinator R) (input : PassInput) :
    (endState ((placeDesired input.view input.nowMs).run
      (s.beginPass input.nowMs))).acc.Faithful input.view R :=
  chain_invariant (P := fun p : Pass R => p.acc.Faithful input.view R)
    (fun _ _ hp hstep => PlaceStep.faithful hstep hp)
    (placeDesired_reaches input.view input.nowMs (s.beginPass input.nowMs)) .empty

end Placing

/-! ## What the placements leave alone -/

/-- The executors and the log are as they were. -/
structure SameExecutors (p q : Pass R) : Prop where
  native : q.node.native = p.node.native
  script : q.node.script = p.node.script
  log : q.node.log = p.node.log

namespace SameExecutors

theorem refl (p : Pass R) : SameExecutors p p := ⟨rfl, rfl, rfl⟩

theorem trans {p q u : Pass R} (h₁ : SameExecutors p q) (h₂ : SameExecutors q u) :
    SameExecutors p u :=
  ⟨h₂.native.trans h₁.native, h₂.script.trans h₁.script, h₂.log.trans h₁.log⟩

theorem executor {p q : Pass R} (h : SameExecutors p q) (kind : DriverKind) :
    q.node.executor kind = p.node.executor kind := by
  cases kind
  · exact h.native
  · exact h.script

end SameExecutors

variable {view : ClusterView}

theorem PlaceStep.sameExecutors [Blake3] (h : PlaceStep view now p q) : SameExecutors p q := by
  cases h with
  | places hstems =>
    simp only [Pass.mapNode, Pass.mapAcc, bindSecrets]
    split <;> exact ⟨rfl, rfl, rfl⟩
  | _ => exact ⟨rfl, rfl, rfl⟩

theorem placeDesired_sameExecutors [Blake3] (view : ClusterView) (now : Nat) (p : Pass R) :
    SameExecutors p (endState ((placeDesired view now).run p)) :=
  chain_invariant (P := SameExecutors p) (fun _ _ hp hstep => hp.trans hstep.sameExecutors)
    (placeDesired_reaches view now p) (.refl p)

/-! ## The sweep -/

/-- The pass once it forgot what is no longer desired. -/
def Pass.swept (p : Pass R) : Pass R :=
  (p.mapNode fun s => (p.node.knownUnits.keys.filter fun unit =>
      !p.acc.currentUnits.contains unit).foldl RuntimeCoordinator.forgetUnit s).mapNode fun s =>
    { s with
      world := { s.world with
        bindings := s.world.bindings.retain fun id _ => p.acc.currentAttempts.contains id }
      releaseCache := s.releaseCache.retain fun id _ => p.acc.currentReleases.contains id
      releaseFailures := s.releaseFailures.retain fun id _ =>
        p.acc.currentReleases.contains id }

theorem sweep_run (p : Pass R) : sweep.run p = .ok () p.swept := rfl

theorem forgetAll_executors (units : List UnitId) (s : RuntimeCoordinator R) :
    (units.foldl RuntimeCoordinator.forgetUnit s).native = s.native ∧
      (units.foldl RuntimeCoordinator.forgetUnit s).script = s.script ∧
      (units.foldl RuntimeCoordinator.forgetUnit s).log = s.log := by
  induction units generalizing s with
  | nil => exact ⟨rfl, rfl, rfl⟩
  | cons unit rest ih => exact ih (s.forgetUnit unit)

theorem swept_sameExecutors (p : Pass R) : SameExecutors p p.swept :=
  have h := forgetAll_executors (p.node.knownUnits.keys.filter fun unit =>
    !p.acc.currentUnits.contains unit) p.node
  ⟨h.1, h.2.1, h.2.2⟩

/-! ## The steps after the sweep -/

section Settling

variable {view : ClusterView} {now : Nat}

@[simp] theorem executor_setExecutor_self (s : RuntimeCoordinator R) (kind : DriverKind)
    (x : EffectExecutor (nodeHost R kind)) : (s.setExecutor kind x).executor kind = x := by
  cases kind <;> rfl

variable {kind : DriverKind}

theorem executor_setExecutor_of_ne {s : RuntimeCoordinator R} {kind' : DriverKind}
    {x : EffectExecutor (nodeHost R kind)} (h : kind' ≠ kind) :
    (s.setExecutor kind x).executor kind' = s.executor kind' := by
  cases kind <;> cases kind' <;> first | rfl | exact absurd rfl h

/-- The state in which the executor of a kind ends its pass. -/
def executorEnd (p : Pass R) (now : Nat) (kind : DriverKind) : AgentState (nodeHost R kind) :=
  endState ((Agent.reconcile (p.node.executor kind).config (p.acc.placements kind) now).run
    (beforeExecutor p.node kind))

/-- The executor of a kind announces the completion of an attempt. -/
def Pass.Announces (p : Pass R) (event : DriverKind × AttemptId) : Prop :=
  (p.node.executor event.1).state.completionEvents.contains event.2 = true

/-- One step after the sweep of a pass at the time `now`. -/
inductive SettleStep (view : ClusterView) (now : Nat) : Pass R → Pass R → Prop
  | outer {p : Pass R} (outer : W) : SettleStep view now p (p.asks outer [])
  | counts {p : Pass R} : SettleStep view now p
      (p.mapAcc fun acc => { acc with completed := saturatingAdd acc.completed 1 })
  | reports {p : Pass R} (status : RuntimeStatus) : SettleStep view now p
      (p.mapNode fun s => { s with status := status })
  | hands {p : Pass R} (kind : DriverKind) : SettleStep view now p
      (p.mapNode fun s => afterExecutor s view kind (p.acc.placements kind)
        (executorEnd p now kind))
  | submits {p : Pass R} {event : DriverKind × AttemptId} {target : CompletionKey}
      (htarget : p.acc.completionTargets.get event.2 = some target) (hevent : p.Announces event) :
      SettleStep view now p (p.mapNode (·.emit view [.submitted event.1 event.2 target]))
  | acknowledges {p : Pass R} (event : DriverKind × AttemptId) : SettleStep view now p
      (p.mapNode fun s => s.setExecutor event.1
        ((s.executor event.1).acknowledgeCompletion event.2))

theorem onOuter_reaches (op : StateM W α) (p : Pass R) :
    Reaches (SettleStep view now) (onWorld (onOuter op)) p :=
  Reaches.single (by rw [onWorld_asks (onOuter_run op _)]; rfl) (.outer _)

variable {p : Pass R}

/-- An executor whose pass returns. -/
theorem runExecutor_ok {reports : List AttemptReport} {st : AgentState (nodeHost R kind)}
    (h : (Agent.reconcile (p.node.executor kind).config (p.acc.placements kind) now).run
      (beforeExecutor p.node kind) = .ok reports st) :
    (runExecutor view now kind).run p = .ok reports
      { p with node := afterExecutor p.node view kind (p.acc.placements kind) st } := by
  rw [EStateM.run, runExecutor, h]

/-- An executor whose pass fails. -/
theorem runExecutor_error {e : AgentError} {st : AgentState (nodeHost R kind)}
    (h : (Agent.reconcile (p.node.executor kind).config (p.acc.placements kind) now).run
      (beforeExecutor p.node kind) = .error e st) :
    (runExecutor view now kind).run p = .error (.agent e)
      { p with node := afterExecutor p.node view kind (p.acc.placements kind) st } := by
  rw [EStateM.run, runExecutor, h]

theorem runExecutor_end (view : ClusterView) (now : Nat) (kind : DriverKind) (p : Pass R) :
    endState ((runExecutor view now kind).run p) = p.mapNode fun s =>
      afterExecutor s view kind (p.acc.placements kind) (executorEnd p now kind) := by
  unfold executorEnd
  cases hrun : (Agent.reconcile (p.node.executor kind).config (p.acc.placements kind) now).run
      (beforeExecutor p.node kind) with
  | ok reports st =>
    rw [runExecutor_ok hrun]
    rfl
  | error e st =>
    rw [runExecutor_error hrun]
    rfl

theorem runExecutor_reaches (kind : DriverKind) (p : Pass R) :
    Reaches (SettleStep view now) (runExecutor view now kind) p :=
  Reaches.single (runExecutor_end view now kind p) (.hands kind)

theorem exchangeHiccup_reaches (p : Pass R) :
    Reaches (SettleStep view now) (exchangeHiccup now) p := by
  refine Reaches.get_bind ((onOuter_reaches _ p).bind fun result q _ => ?_)
  cases result with
  | ok u => exact Reaches.pure _ _
  | error e => exact Reaches.throw _ _

variable {event : DriverKind × AttemptId}

theorem submitCompletion_reaches (hevent : p.Announces event) :
    Reaches (SettleStep view now) (submitCompletion view event) p := by
  refine Reaches.get_bind ?_
  cases htarget : p.acc.completionTargets.get event.2 with
  | none => exact Reaches.throw _ _
  | some target =>
    refine Reaches.bind (Reaches.single rfl (.submits htarget hevent)) fun _ q _ => ?_
    refine (onOuter_reaches _ q).bind fun reply u _ => ?_
    have haccepted : Reaches (SettleStep view now) (do
        modifyAcc fun acc => { acc with completed := saturatingAdd acc.completed 1 }
        modifyNode fun s => s.setExecutor event.1
          ((s.executor event.1).acknowledgeCompletion event.2)) u :=
      Reaches.bind (Reaches.single rfl .counts) fun _ v _ =>
        Reaches.single rfl (.acknowledges event)
    cases reply with
    | error e => exact Reaches.throw _ _
    | ok answer =>
      cases answer with
      | rejected reason => exact Reaches.throw _ _
      | applied => exact haccepted
      | replay => exact haccepted

/-- Submitting one completion leaves the other announcements. -/
theorem submitCompletion_ok {other : DriverKind × AttemptId} {q : Pass R}
    (h : (submitCompletion view event).run p = .ok () q) (hne : other ≠ event)
    (hother : p.Announces other) : q.Announces other := by
  unfold submitCompletion at h
  rw [run_bind_ok (EStateM.run_get p)] at h
  cases htarget : p.acc.completionTargets.get event.2 with
  | none =>
    rw [htarget] at h
    cases h
  | some target =>
    rw [htarget] at h
    simp only at h
    rw [run_bind_ok (modifyNode_run _ p), run_bind_ok (onWorld_asks (onOuter_run _ _))] at h
    have hkept : ∀ u : Pass R, u.node.native = p.node.native → u.node.script = p.node.script →
        ((u.mapNode fun s => s.setExecutor event.1
          ((s.executor event.1).acknowledgeCompletion event.2)).Announces other) := by
      intro u hnative hscript
      have hsame : u.node.executor other.1 = p.node.executor other.1 := by
        cases other.1
        · exact hnative
        · exact hscript
      unfold Pass.Announces at hother ⊢
      rw [← hsame] at hother
      by_cases hkind : other.1 = event.1
      · obtain ⟨kind, id⟩ := other
        obtain ⟨kind', id'⟩ := event
        simp only at hkind
        subst hkind
        have hid : id ≠ id' := fun heq => hne (by rw [heq])
        simpa [Pass.mapNode, EffectExecutor.acknowledgeCompletion, OrdMap.contains,
          OrdMap.get_erase_of_ne _ hid] using hother
      · simpa [Pass.mapNode, executor_setExecutor_of_ne hkind] using hother
    split at h
    · cases h
    · cases h
    · obtain ⟨_, rfl⟩ := EStateM.Result.ok.inj h
      exact hkept _ rfl rfl

theorem submitAll_reaches {events : List (DriverKind × AttemptId)} (hnodup : events.Nodup)
    (hevents : ∀ event ∈ events, p.Announces event) :
    Reaches (SettleStep view now) (forM events (submitCompletion view)) p := by
  induction events generalizing p with
  | nil => exact Reaches.pure _ _
  | cons event rest ih =>
    rw [List.forM_cons]
    have hfresh := List.nodup_cons.mp hnodup
    refine (submitCompletion_reaches (hevents event (by simp))).bind fun _ q hrun => ?_
    refine ih hfresh.2 fun other hother => ?_
    have hne : other ≠ event := by
      rintro rfl
      exact hfresh.1 hother
    exact submitCompletion_ok hrun hne (hevents other (by simp [hother]))

theorem completionEvents_nodup (s : RuntimeCoordinator R) : (completionEvents s).Nodup := by
  unfold completionEvents
  rw [List.nodup_append]
  refine ⟨(OrdMap.keys_nodup _).map fun _ _ h => (Prod.mk.inj h).2,
    (OrdMap.keys_nodup _).map fun _ _ h => (Prod.mk.inj h).2, ?_⟩
  simp

theorem announces_of_mem (h : event ∈ completionEvents p.node) : p.Announces event := by
  unfold completionEvents at h
  unfold Pass.Announces
  rcases List.mem_append.mp h with h | h
  · obtain ⟨id, hid, rfl⟩ := List.mem_map.mp h
    exact OrdMap.contains_eq_true_iff.mpr (OrdMap.mem_keys_iff.mp hid)
  · obtain ⟨id, hid, rfl⟩ := List.mem_map.mp h
    exact OrdMap.contains_eq_true_iff.mpr (OrdMap.mem_keys_iff.mp hid)

theorem concludePass_reaches (view : ClusterView) (now : Nat) (native script : List AttemptReport)
    (p : Pass R) : Reaches (SettleStep view now) (concludePass view now native script) p := by
  refine (exchangeHiccup_reaches p).bind fun _ p₁ _ => ?_
  refine Reaches.bind (Reaches.get_bind (submitAll_reaches (completionEvents_nodup _)
    fun _ => announces_of_mem)) fun _ p₂ _ => ?_
  refine (onOuter_reaches _ p₂).bind fun _ p₃ _ => ?_
  refine (onOuter_reaches _ p₃).bind fun _ p₄ _ => ?_
  refine Reaches.get_bind ?_
  exact Reaches.bind (Reaches.single rfl (.reports _)) fun _ p₅ _ => Reaches.pure _ _

/-- Everything after the sweep is a chain of steps. -/
theorem finishPass_reaches (view : ClusterView) (now : Nat) (p : Pass R) :
    Reaches (SettleStep view now) (finishPass view now) p := by
  refine (runExecutor_reaches .native p).bind fun _ p₁ _ => ?_
  refine (runExecutor_reaches .script p₁).bind fun _ p₂ _ => ?_
  exact concludePass_reaches view now _ _ p₂

end Settling

/-- The log of a node only grows. -/
theorem SettleStep.log (h : SettleStep view now p q) : p.node.log <+: q.node.log := by
  cases h with
  | hands kind => cases kind <;> exact List.prefix_append _ _
  | submits htarget hevent => exact List.prefix_append _ _
  | acknowledges event =>
    obtain ⟨kind, id⟩ := event
    cases kind <;> exact List.prefix_rfl
  | _ => exact List.prefix_rfl

theorem log_settled (h : Relation.ReflTransGen (SettleStep view now) p q) :
    p.node.log <+: q.node.log :=
  chain_invariant (P := fun u : Pass R => p.node.log <+: u.node.log)
    (fun _ _ hu hstep => hu.trans hstep.log) h List.prefix_rfl

/-! ## A whole pass -/

variable {s : RuntimeCoordinator R} {input : PassInput}

/-- A pass whose placements fail ends there. -/
theorem reconcile_of_error [Blake3] {e : NodeError}
    (h : (placeDesired input.view input.nowMs).run (s.beginPass input.nowMs) = .error e p) :
    s.reconcile input = (p.node, .error e) := by
  simp [RuntimeCoordinator.reconcile, runPass, run_bind_error h]

/-- A pass whose placements return goes on after the sweep. -/
theorem reconcile_of_ok [Blake3]
    (h : (placeDesired input.view input.nowMs).run (s.beginPass input.nowMs) = .ok () p) :
    s.reconcile input = match (finishPass input.view input.nowMs).run p.swept with
      | .ok status q => (q.node, .ok status)
      | .error e q => (q.node, .error e) := by
  have hrun : (runPass input.view input.nowMs).run (s.beginPass input.nowMs) =
      (finishPass input.view input.nowMs).run p.swept := by
    unfold runPass
    rw [run_bind_ok h, run_bind_ok (sweep_run p)]
  cases hfinish : (finishPass input.view input.nowMs).run p.swept with
  | ok status q => simp only [RuntimeCoordinator.reconcile, hrun, hfinish]
  | error e q => simp only [RuntimeCoordinator.reconcile, hrun, hfinish]

theorem reconcile_of_ok_fst [Blake3]
    (h : (placeDesired input.view input.nowMs).run (s.beginPass input.nowMs) = .ok () p) :
    (s.reconcile input).1 = (endState ((finishPass input.view input.nowMs).run p.swept)).node := by
  rw [reconcile_of_ok h]
  cases (finishPass input.view input.nowMs).run p.swept <;> rfl

/-- How a pass ends: in the placements, or after them and the sweep. -/
theorem reconcile_cases [Blake3] (s : RuntimeCoordinator R) (input : PassInput) :
    (∃ e p, (placeDesired input.view input.nowMs).run (s.beginPass input.nowMs) = .error e p ∧
      s.reconcile input = (p.node, .error e)) ∨
    ∃ p q, (placeDesired input.view input.nowMs).run (s.beginPass input.nowMs) = .ok () p ∧
      Relation.ReflTransGen (SettleStep input.view input.nowMs) p.swept q ∧
      (s.reconcile input).1 = q.node := by
  cases hplace : (placeDesired input.view input.nowMs).run (s.beginPass input.nowMs) with
  | error e p => exact Or.inl ⟨e, p, rfl, reconcile_of_error hplace⟩
  | ok u p =>
    exact Or.inr ⟨p, _, rfl, finishPass_reaches input.view input.nowMs p.swept,
      reconcile_of_ok_fst hplace⟩

end Gump.Server
