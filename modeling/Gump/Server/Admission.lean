/-
  Server/Admission.lean --- the books of a node over a pass.

  The placements of a pass read the books only when they admit a unit.  So the same
  pass on other books goes the same way as long as those books admit the same
  units, and fails with an unschedulable unit when they do not.
-/
import Mathlib.Algebra.GroupWithZero.Nat
import Gump.Server.Books
import Gump.Server.Steps

set_option autoImplicit false

namespace Gump.Server

open Gump.Foundation Gump.Types Gump.Memory Gump.Agent Gump.Scheduler

variable {W : Type} {R : RuntimeHost W} {α β : Type}

namespace RuntimeCoordinator

def books (s : RuntimeCoordinator R) : Books := ⟨s.scheduler, s.knownUnits⟩

def withBooks (s : RuntimeCoordinator R) (b : Books) : RuntimeCoordinator R :=
  { s with scheduler := b.scheduler, knownUnits := b.known }

/-- The report of the node on itself. -/
def report (s : RuntimeCoordinator R) : CapabilityReport := localCapabilities R s.nodeId

end RuntimeCoordinator

namespace Pass

def books (p : Pass R) : Books := p.node.books

def withBooks (p : Pass R) (b : Books) : Pass R := p.mapNode (·.withBooks b)

/-- The requests of the units placed so far, in order. -/
def demands (p : Pass R) : List WorkloadRequirements :=
  p.acc.placed.map fun x => requirementsOf R x.loaded x.placement.unitId

end Pass

/-! ## Methods that leave the books alone -/

/-- A method that neither uses the books nor places a unit. -/
structure Blind (m : PassM R α) : Prop where
  same : ∀ p b, m.run (p.withBooks b) = mapState (·.withBooks b) (m.run p)
  demands : ∀ p, (endState (m.run p)).demands = p.demands

namespace Blind

theorem pure (a : α) : Blind (pure a : PassM R α) := ⟨fun _ _ => rfl, fun _ => rfl⟩

theorem throw (e : NodeError) : Blind (throw e : PassM R α) := ⟨fun _ _ => rfl, fun _ => rfl⟩

theorem onWorld (op : StateM (NodeWorld W) α) : Blind (onWorld op : PassM R α) :=
  ⟨fun _ _ => rfl, fun _ => rfl⟩

theorem modifyNode {f : RuntimeCoordinator R → RuntimeCoordinator R}
    (hf : ∀ s b, f (s.withBooks b) = (f s).withBooks b) : Blind (modifyNode f) := by
  refine ⟨fun p b => ?_, fun _ => rfl⟩
  change EStateM.Result.ok () ((p.withBooks b).mapNode f) = .ok () ((p.mapNode f).withBooks b)
  simp [Pass.mapNode, Pass.withBooks, hf]

theorem modifyAcc {f : PassAcc → PassAcc} (hf : ∀ acc, (f acc).placed = acc.placed) :
    Blind (modifyAcc f : PassM R Unit) := by
  refine ⟨fun _ _ => rfl, fun p => ?_⟩
  change (p.mapAcc f).demands = p.demands
  simp [Pass.demands, Pass.mapAcc, hf]

theorem bind {m : PassM R α} {k : α → PassM R β} (hm : Blind m) (hk : ∀ a, Blind (k a)) :
    Blind (m >>= k) where
  same := by
    intro p b
    have hsame := hm.same p b
    cases hrun : m.run p with
    | ok a q =>
      rw [hrun] at hsame
      rw [run_bind_ok hsame, run_bind_ok hrun, (hk a).same]
    | error e q =>
      rw [hrun] at hsame
      rw [run_bind_error hsame, run_bind_error hrun]
      rfl
  demands := by
    intro p
    have hdemands := hm.demands p
    cases hrun : m.run p with
    | ok a q =>
      rw [hrun] at hdemands
      rw [run_bind_ok hrun, (hk a).demands]
      exact hdemands
    | error e q =>
      rw [hrun] at hdemands
      rw [run_bind_error hrun]
      exact hdemands

/-- Reading the state, by a method that does not look at the books. -/
theorem get_bind {k : Pass R → PassM R α} (hlook : ∀ p b, k (p.withBooks b) = k p)
    (hk : ∀ p, Blind (k p)) : Blind (get >>= k) where
  same := by
    intro p b
    change (k (p.withBooks b)).run (p.withBooks b) = mapState _ ((k p).run p)
    rw [hlook, (hk p).same]
  demands := fun p => (hk p).demands p

end Blind

theorem loadReleaseCached_blind (identity : ReleaseIdentity) (now : Nat) :
    Blind (loadReleaseCached identity now : PassM R LoadedRelease) := by
  refine Blind.get_bind (fun _ _ => rfl) fun p => ?_
  cases p.node.deferral identity now with
  | some f => exact Blind.throw _
  | none =>
    cases p.node.releaseCache.get identity with
    | some loaded => exact Blind.pure _
    | none =>
      refine (Blind.onWorld _).bind fun result => ?_
      cases result with
      | ok loaded => exact (Blind.modifyNode (by intros; rfl)).bind fun _ => Blind.pure _
      | error e => exact (Blind.modifyNode (by intros; rfl)).bind fun _ => Blind.throw _

theorem ensureReleaseMaterialized_blind (identity : ReleaseIdentity) (loaded : LoadedRelease)
    (now : Nat) : Blind (ensureReleaseMaterialized identity loaded now : PassM R Unit) := by
  refine (Blind.onWorld _).bind fun present => ?_
  cases present with
  | true => exact Blind.modifyNode (f := (·.clearReleaseFailure identity)) (by intros; rfl)
  | false =>
    refine (Blind.onWorld _).bind fun result => ?_
    cases result with
    | ok u => exact Blind.modifyNode (by intros; rfl)
    | error e => exact (Blind.modifyNode (by intros; rfl)).bind fun _ => Blind.throw _

/-! ## Methods that admit units -/

/-- What a method that returned in `q` does on other books, when it asked for the
units of `reqs`. -/
structure Follows (m : PassM R α) (p : Pass R) (a : α) (q : Pass R)
    (reqs : List WorkloadRequirements) (b : Books) : Prop where
  admitted : ∀ b', b.admitAll reqs = some b' → m.run (p.withBooks b) = .ok a (q.withBooks b')
  refused : b.admitAll reqs = none →
    ∃ unit outcome t, m.run (p.withBooks b) = .error (.unschedulable unit outcome) t

/-- A method that uses the books only to admit the units that it places. -/
def Paced (m : PassM R α) : Prop :=
  ∀ p a q, m.run p = .ok a q → ∃ reqs, q.demands = p.demands ++ reqs ∧ ∀ b, Follows m p a q reqs b

variable {m : PassM R α}

theorem Follows.bind {k : α → PassM R β} {p q u : Pass R} {a : α} {c : β}
    {reqs reqs' : List WorkloadRequirements} {b : Books} (hm : Follows m p a q reqs b)
    (hk : ∀ b', Follows (k a) q c u reqs' b') : Follows (m >>= k) p c u (reqs ++ reqs') b where
  admitted := by
    intro b'' h
    rw [Books.admitAll_append] at h
    obtain ⟨b', hfirst, hsecond⟩ := Option.bind_eq_some_iff.mp h
    rw [run_bind_ok (hm.admitted b' hfirst)]
    exact (hk b').admitted b'' hsecond
  refused := by
    intro h
    rw [Books.admitAll_append] at h
    cases hfirst : b.admitAll reqs with
    | none =>
      obtain ⟨unit, outcome, t, hrun⟩ := hm.refused hfirst
      exact ⟨unit, outcome, t, run_bind_error hrun⟩
    | some b' =>
      rw [hfirst] at h
      rw [run_bind_ok (hm.admitted b' hfirst)]
      exact (hk b').refused h

theorem Paced.bind {k : α → PassM R β} (hm : Paced m) (hk : ∀ a, Paced (k a)) :
    Paced (m >>= k) := by
  intro p c u hrun
  obtain ⟨a, q, hfirst, hsecond⟩ := run_bind_eq_ok.mp hrun
  obtain ⟨reqs, hdemands, hfollows⟩ := hm p a q hfirst
  obtain ⟨reqs', hdemands', hfollows'⟩ := hk a q c u hsecond
  exact ⟨reqs ++ reqs', by rw [hdemands', hdemands, List.append_assoc],
    fun b => (hfollows b).bind hfollows'⟩

theorem Blind.paced (hm : Blind m) : Paced m := by
  intro p a q hrun
  have hdemands := hm.demands p
  rw [hrun] at hdemands
  refine ⟨[], by rw [List.append_nil]; exact hdemands, fun b => ?_⟩
  have hsame := hm.same p b
  rw [hrun] at hsame
  refine ⟨fun b' hb' => ?_, fun hnone => by cases hnone⟩
  cases hb'
  exact hsame

theorem Paced.forM {ι : Type} {f : ι → PassM R PUnit} (hf : ∀ x, Paced (f x)) (xs : List ι) :
    Paced (forM xs f : PassM R PUnit) := by
  induction xs with
  | nil => exact (Blind.pure _).paced
  | cons x rest ih =>
    rw [List.forM_cons]
    exact (hf x).bind fun _ => ih

/-- The books that a paced method leaves. -/
theorem Paced.books (hm : Paced m) {p q : Pass R} {a : α} (hrun : m.run p = .ok a q) :
    ∃ reqs, q.demands = p.demands ++ reqs ∧ p.books.admitAll reqs = some q.books := by
  obtain ⟨reqs, hdemands, hfollows⟩ := hm p a q hrun
  refine ⟨reqs, hdemands, ?_⟩
  cases hadmits : p.books.admitAll reqs with
  | none =>
    obtain ⟨unit, outcome, t, herror⟩ := (hfollows p.books).refused hadmits
    cases hrun.symm.trans herror
  | some b' =>
    have hown := (hfollows p.books).admitted b' hadmits
    obtain ⟨_, hq⟩ := EStateM.Result.ok.inj (hrun.symm.trans hown)
    rw [hq]
    rfl

/-! ## The placements of a pass -/

section Placing

/-- Admission reads the books and nothing else. -/
theorem admitUnit_run (req : WorkloadRequirements) (p : Pass R) :
    (∀ b', p.books.admitOne req = some b' → (admitUnit req).run p = .ok () (p.withBooks b')) ∧
      (p.books.admitOne req = none →
        ∃ unit outcome, (admitUnit req).run p = .error (.unschedulable unit outcome) p) := by
  rcases admitUnit_cases req p with ⟨hknown, hrun⟩ |
      ⟨hunknown, ⟨plan, hplan, hrun⟩ | ⟨matrix, summary, hplan, hrun⟩⟩
  · have hadmits : p.books.admitOne req = some p.books := Books.admitOne_of_known hknown
    rw [hadmits]
    refine ⟨fun b' hb' => ?_, fun hnone => by cases hnone⟩
    cases hb'
    exact hrun
  · have hadmits : p.books.admitOne req = some (p.mapNode (·.admitted req)).books := by
      simp only [Books.admitOne, Pass.books, RuntimeCoordinator.books, hunknown,
        Bool.false_eq_true, if_false, hplan]
      rfl
    rw [hadmits]
    refine ⟨fun b' hb' => ?_, fun hnone => by cases hnone⟩
    cases hb'
    exact hrun
  · have hadmits : p.books.admitOne req = none := by
      simp only [Books.admitOne, Pass.books, RuntimeCoordinator.books, hunknown,
        Bool.false_eq_true, if_false, hplan]
    rw [hadmits]
    exact ⟨fun b' hb' => (by cases hb'), fun _ => ⟨_, _, hrun⟩⟩

/-- Admit a unit and enter its placement. -/
def admitPlaced (placed : Placed) : PassM R Unit := do
  admitUnit (requirementsOf R placed.loaded placed.placement.unitId)
  modifyNode (bindSecrets · placed)
  modifyAcc (·.record placed)

/-- The pass with the placement of a unit entered. -/
def Pass.entered (p : Pass R) (placed : Placed) : Pass R :=
  (p.mapNode (bindSecrets · placed)).mapAcc (·.record placed)

theorem bindSecrets_withBooks (s : RuntimeCoordinator R) (b : Books) (placed : Placed) :
    bindSecrets (s.withBooks b) placed = (bindSecrets s placed).withBooks b := by
  unfold bindSecrets
  have hworld : (s.withBooks b).world = s.world := rfl
  rw [hworld]
  split <;> rfl

theorem entered_withBooks (p : Pass R) (b : Books) (placed : Placed) :
    (p.withBooks b).entered placed = (p.entered placed).withBooks b := by
  simp only [Pass.entered, Pass.mapNode, Pass.mapAcc, Pass.withBooks, bindSecrets_withBooks]

theorem admitPlaced_run (placed : Placed) (p : Pass R) :
    (∀ b', p.books.admitOne (requirementsOf R placed.loaded placed.placement.unitId) = some b' →
      (admitPlaced placed).run p = .ok () ((p.entered placed).withBooks b')) ∧
    (p.books.admitOne (requirementsOf R placed.loaded placed.placement.unitId) = none →
      ∃ unit outcome, (admitPlaced placed).run p = .error (.unschedulable unit outcome) p) := by
  obtain ⟨hadmitted, hrefused⟩ := admitUnit_run
    (requirementsOf R placed.loaded placed.placement.unitId) p
  unfold admitPlaced
  constructor
  · intro b' hb'
    rw [run_bind_ok (hadmitted b' hb'), run_bind_ok (modifyNode_run _ _), modifyAcc_run,
      ← entered_withBooks]
    rfl
  · intro hnone
    obtain ⟨unit, outcome, hrun⟩ := hrefused hnone
    exact ⟨unit, outcome, run_bind_error hrun⟩

theorem admitPlaced_paced (placed : Placed) : Paced (admitPlaced placed : PassM R Unit) := by
  intro p a q hrun
  obtain ⟨hadmitted, hrefused⟩ := admitPlaced_run placed p
  cases hadmits : p.books.admitOne (requirementsOf R placed.loaded placed.placement.unitId) with
  | none =>
    obtain ⟨unit, outcome, herror⟩ := hrefused hadmits
    cases hrun.symm.trans herror
  | some own =>
    obtain ⟨_, rfl⟩ := EStateM.Result.ok.inj (hrun.symm.trans (hadmitted own hadmits))
    refine ⟨[requirementsOf R placed.loaded placed.placement.unitId], List.map_append, fun b => ?_⟩
    obtain ⟨hother, hother'⟩ := admitPlaced_run placed (p.withBooks b)
    refine ⟨fun b' hb' => ?_, fun hnone => ?_⟩
    · simp only [Books.admitAll, Option.bind_fun_some] at hb'
      rw [hother b' hb', entered_withBooks]
      rfl
    · simp only [Books.admitAll, Option.bind_fun_some] at hnone
      obtain ⟨unit, outcome, hrun'⟩ := hother' hnone
      exact ⟨unit, outcome, _, hrun'⟩

theorem placeLocal_paced (now : Nat) (placed : Placed) :
    Paced (placeLocal now placed : PassM R Unit) :=
  (ensureReleaseMaterialized_blind _ _ _).paced.bind fun _ => admitPlaced_paced placed

variable [Blake3]

theorem placeUnit_paced (view : ClusterView) (now : Nat) (entry : DesiredSnapshotEntry)
    (identity : ReleaseIdentity) (loaded : LoadedRelease) (unitIndex : Nat) :
    Paced (placeUnit view now entry identity loaded unitIndex : PassM R Unit) := by
  -- Which way a unit goes, and the placement it gets, do not depend on the books.
  have hway : ∀ p : Pass R, ∃ m : PassM R Unit, Paced m ∧ ∀ b,
      (placeUnit view now entry identity loaded unitIndex).run (p.withBooks b) =
        m.run (p.withBooks b) := by
    intro p
    by_cases hdone : loaded.lifecycleFinite ∧ view.finiteCompleted
        ⟨entry.ns, entry.app, entry.generation, stableUnitId loaded.workloadId unitIndex⟩
    · refine ⟨modifyAcc fun acc => { acc with completed := saturatingAdd acc.completed 1 },
        (Blind.modifyAcc (by intro; rfl)).paced, fun b => ?_⟩
      unfold placeUnit
      rw [run_bind_ok (EStateM.run_get _), if_pos hdone]
    · by_cases hlocal : (!isLocal p.node view unitIndex) = true
      · refine ⟨Pure.pure (), (Blind.pure _).paced, fun b => ?_⟩
        unfold placeUnit
        rw [run_bind_ok (EStateM.run_get _), if_neg hdone]
        exact congrArg (fun m : PassM R Unit => m.run (p.withBooks b)) (if_pos hlocal)
      · refine ⟨placeLocal now (placedUnit p.node entry identity loaded unitIndex),
          placeLocal_paced _ _, fun b => ?_⟩
        unfold placeUnit
        rw [run_bind_ok (EStateM.run_get _), if_neg hdone]
        exact congrArg (fun m : PassM R Unit => m.run (p.withBooks b)) (if_neg hlocal)
  intro p a q hrun
  obtain ⟨m, hm, hsame⟩ := hway p
  have hown := hsame p.books
  obtain ⟨reqs, hdemands, hfollows⟩ := hm p a q (hown.symm.trans hrun)
  refine ⟨reqs, hdemands, fun b => ?_⟩
  exact ⟨fun b' hb' => (hsame b).trans ((hfollows b).admitted b' hb'),
    fun hnone => by rw [hsame b]; exact (hfollows b).refused hnone⟩

theorem placeEntry_paced (view : ClusterView) (now : Nat) (entry : DesiredSnapshotEntry) :
    Paced (placeEntry view now entry : PassM R Unit) := by
  unfold placeEntry
  cases releaseOf R entry with
  | error e => exact (Blind.throw e).paced
  | ok identity =>
    refine (Blind.modifyAcc (by intro; rfl)).paced.bind fun _ => ?_
    refine (loadReleaseCached_blind identity now).paced.bind fun loaded => ?_
    exact Paced.forM (fun i => placeUnit_paced view now entry identity loaded i) _

theorem placeDesired_paced (view : ClusterView) (now : Nat) :
    Paced (placeDesired view now : PassM R Unit) :=
  Paced.forM (fun entry => placeEntry_paced view now entry) _

end Placing

/-! ## Sound books -/

section Soundness

variable {view : ClusterView} {now : Nat}

theorem books_forgetAll (units : List UnitId) (s : RuntimeCoordinator R) :
    (units.foldl RuntimeCoordinator.forgetUnit s).books = units.foldl Books.forget s.books ∧
      (units.foldl RuntimeCoordinator.forgetUnit s).nodeId = s.nodeId := by
  induction units generalizing s with
  | nil => exact ⟨rfl, rfl⟩
  | cons unit rest ih => exact ih (s.forgetUnit unit)

/-- The units that a pass releases at its end. -/
def Pass.obsolete (p : Pass R) : List UnitId :=
  p.node.knownUnits.keys.filter fun unit => !p.acc.currentUnits.contains unit

theorem books_swept (p : Pass R) : p.swept.books = p.obsolete.foldl Books.forget p.books :=
  (books_forgetAll p.obsolete p.node).1

theorem report_swept (p : Pass R) : p.swept.node.report = p.node.report := by
  have hnode : p.swept.node.nodeId = p.node.nodeId := (books_forgetAll p.obsolete p.node).2
  rw [RuntimeCoordinator.report, hnode, RuntimeCoordinator.report]

variable {p q : Pass R}

/-- The steps after the sweep leave the books. -/
theorem SettleStep.books (h : SettleStep view now p q) :
    q.books = p.books ∧ q.node.report = p.node.report := by
  cases h with
  | hands kind => cases kind <;> exact ⟨rfl, rfl⟩
  | acknowledges event =>
    obtain ⟨kind, id⟩ := event
    cases kind <;> exact ⟨rfl, rfl⟩
  | _ => exact ⟨rfl, rfl⟩

theorem books_settled (h : Relation.ReflTransGen (SettleStep view now) p q) :
    q.books = p.books ∧ q.node.report = p.node.report := by
  refine chain_invariant (P := fun u : Pass R =>
    u.books = p.books ∧ u.node.report = p.node.report) ?_ h ⟨rfl, rfl⟩
  intro u v hu hstep
  exact ⟨hstep.books.1.trans hu.1, hstep.books.2.trans hu.2⟩

/-- A step of the placements keeps the books sound. -/
theorem PlaceStep.sound [Blake3] (h : PlaceStep view now p q) (hp : p.books.Sound p.node.report) :
    q.books.Sound q.node.report := by
  cases h with
  | admits hunknown hplan =>
    rename_i req plan
    have hadmits : p.books.admitOne req = some (p.mapNode (·.admitted req)).books := by
      simp only [Books.admitOne, Pass.books, RuntimeCoordinator.books, hunknown,
        Bool.false_eq_true, if_false, hplan]
      rfl
    exact hp.admitOne hadmits
  | places hstems =>
    rename_i placed
    have hsame : (bindSecrets p.node placed).books = p.node.books ∧
        (bindSecrets p.node placed).report = p.node.report := by
      unfold bindSecrets
      split <;> exact ⟨rfl, rfl⟩
    change (bindSecrets p.node placed).books.Sound (bindSecrets p.node placed).report
    rw [hsame.1, hsame.2]
    exact hp
  | _ => exact hp

/-- A pass keeps the books sound. -/
theorem reconcile_sound [Blake3] (s : RuntimeCoordinator R) (input : PassInput)
    (hs : s.books.Sound s.report) :
    (s.reconcile input).1.books.Sound (s.reconcile input).1.report := by
  have hplaced := chain_invariant (P := fun p : Pass R => p.books.Sound p.node.report)
    (fun _ _ hp hstep => PlaceStep.sound hstep hp)
    (placeDesired_reaches input.view input.nowMs (s.beginPass input.nowMs)) hs
  rcases reconcile_cases s input with ⟨e, p, hrun, hend⟩ | ⟨p, q, hrun, hsettled, hend⟩
  · rw [hrun] at hplaced
    rw [hend]
    exact hplaced
  · rw [hrun] at hplaced
    obtain ⟨hbooks, hreport⟩ := books_settled hsettled
    rw [hend]
    change q.books.Sound q.node.report
    rw [hbooks, hreport, books_swept, report_swept]
    exact Books.Sound.forgetAll hplaced _

/-- The books of a node are sound after every run. -/
theorem runFrom_sound [Blake3] {clusterId : ClusterId} {memoryNodeId : Nat}
    {privateIp : Option String} {stateRoot : String} {outer : W} {history : List PassInput}
    {s : RuntimeCoordinator R} (hs : s = runFrom RuntimeCoordinator.reconcile
      (.new R clusterId memoryNodeId privateIp stateRoot outer) history) :
    s.books.Sound s.report := by
  rw [hs]
  refine runFrom_invariant (P := fun s : RuntimeCoordinator R => s.books.Sound s.report)
    (fun s input hs => reconcile_sound s input hs) ?_ history
  -- a new node has nothing reserved
  exact Books.sound_emptied (b := ⟨localScheduler R _, .empty⟩) (localAllocatable_le R) rfl

end Soundness

end Gump.Server
