/-
  Server/Reservations.lean --- what the ledger of a node holds and refuses.

  A unit keeps its identifier from one release to the next.  The reservation it got
  first stays as it is while the unit stays desired, and the reservations of units
  that are no longer desired are released only after every new unit found room.
-/
import Mathlib.Algebra.GroupWithZero.Nat
import Gump.Server.Admission

set_option autoImplicit false

namespace Gump.Server

open Gump.Foundation Gump.Types Gump.Memory Gump.Agent Gump.Scheduler

variable {W : Type} {R : RuntimeHost W}

/-! ## The ledger after a pass -/

/-- The ledger holds a reservation for exactly the placed units, each for the
request of the release of its unit. -/
structure Accounted (L : ResourceLedger) (placed : List Placed) : Prop where
  held : ∀ unit, (L.get unit).isSome = true ↔ ∃ x ∈ placed, x.placement.unitId = unit
  resources : ∀ x ∈ placed, ∀ r, L.get x.placement.unitId = some r →
    r.resources = withHeadroom x.loaded.resources

/-- The requests of a pass agree with each other and with what is reserved. -/
structure RequestsAgree (L : ResourceLedger) (placed : List Placed) : Prop where
  reserved : ∀ x ∈ placed, ∀ r, L.get x.placement.unitId = some r →
    r.resources = withHeadroom x.loaded.resources
  shared : ∀ x ∈ placed, ∀ y ∈ placed, x.placement.unitId = y.placement.unitId →
    withHeadroom x.loaded.resources = withHeadroom y.loaded.resources

instance (L : ResourceLedger) (placed : List Placed) : Decidable (RequestsAgree L placed) :=
  decidable_of_iff ((∀ x ∈ placed, ∀ r ∈ L.get x.placement.unitId,
      r.resources = withHeadroom x.loaded.resources) ∧
    ∀ x ∈ placed, ∀ y ∈ placed, x.placement.unitId = y.placement.unitId →
      withHeadroom x.loaded.resources = withHeadroom y.loaded.resources)
    ⟨fun h => ⟨h.1, h.2⟩, fun h => ⟨h.1, h.2⟩⟩

/-- A release requires a port only if it requests one, so its request is taken as it
stands. -/
theorem needOf_requirementsOf (report : CapabilityReport) (loaded : LoadedRelease) (unit : UnitId) :
    Books.needOf report (requirementsOf R loaded unit) = withHeadroom loaded.resources := by
  have hnormal : normalizePorts (requirementsOf R loaded unit) = requirementsOf R loaded unit := by
    unfold normalizePorts
    split
    · rename_i h
      simp only [requirementsOf, LoadedRelease.requiresPort, decide_eq_true_eq] at h
      omega
    · rfl
  simp only [Books.needOf, PlacementController.reservationOn, hnormal]
  rfl

section Ledger

variable [Blake3]

/-- What a pass that returned did: its units were admitted in order, and the
reservations of the others released. -/
theorem reconcile_ok {s : RuntimeCoordinator R} {input : PassInput} {status : RuntimeStatus}
    (h : (s.reconcile input).2 = .ok status) :
    ∃ p : Pass R, s.placedIn input = p.acc.placed ∧ p.acc.Faithful input.view R ∧
      s.books.admitAll p.demands = some p.books ∧
      (s.reconcile input).1.books = p.obsolete.foldl Books.forget p.books := by
  rcases reconcile_cases s input with ⟨e, p, hrun, hend⟩ | ⟨p, q, hrun, hsettled, hend⟩
  · rw [hend] at h
    cases h
  · have hfaithful := placeDesired_faithful s input
    rw [hrun] at hfaithful
    obtain ⟨reqs, hdemands, hadmits⟩ := (placeDesired_paced input.view input.nowMs).books hrun
    have hempty : (s.beginPass input.nowMs).demands = [] := rfl
    rw [hempty, List.nil_append] at hdemands
    refine ⟨p, by rw [RuntimeCoordinator.placedIn, hrun]; rfl, hfaithful, ?_, ?_⟩
    · rw [hdemands]
      exact hadmits
    · rw [hend]
      exact (books_settled hsettled).1.trans (books_swept p)

/-- The ledger after a pass that returned: a placed unit keeps the reservation it
had or has the one of its first request, and no other unit has any. -/
theorem get_reconciled {s : RuntimeCoordinator R} (hs : s.books.Sound s.report) {input : PassInput}
    {status : RuntimeStatus} (h : (s.reconcile input).2 = .ok status) (unit : UnitId) :
    (s.reconcile input).1.scheduler.ledger.get unit =
      if ∃ x ∈ s.placedIn input, x.placement.unitId = unit then
        (s.scheduler.ledger.get unit).or (((s.placedIn input).find? fun x =>
          decide (x.placement.unitId = unit)).map fun x =>
            PlacementController.reservationOn s.report
              (requirementsOf R x.loaded x.placement.unitId))
      else none := by
  obtain ⟨p, hplaced, hfaithful, hadmits, hbooks⟩ := reconcile_ok h
  have hsound := hs.admitAll hadmits
  have hget := Books.get_admitAll hs hadmits unit
  have hend : (s.reconcile input).1.scheduler.ledger.get unit =
      if unit ∈ p.obsolete then none else p.books.scheduler.ledger.get unit := by
    rw [← Books.get_forgetAll hsound]
    exact congrArg (fun b : Books => b.scheduler.ledger.get unit) hbooks
  have hknown : unit ∈ p.obsolete ↔ p.books.known.contains unit = true ∧
      ¬∃ x ∈ s.placedIn input, x.placement.unitId = unit := by
    rw [hplaced, ← hfaithful.units, Pass.obsolete, List.mem_filter, OrdMap.mem_keys_iff,
      ← OrdMap.contains_eq_true_iff]
    simp [Pass.books, RuntimeCoordinator.books]
  rw [hend]
  by_cases hwanted : ∃ x ∈ s.placedIn input, x.placement.unitId = unit
  · rw [if_neg (fun hmem => (hknown.mp hmem).2 hwanted), if_pos hwanted, hget, hplaced]
    simp only [Pass.demands, List.find?_map, Option.map_map]
    rfl
  · rw [if_neg hwanted]
    by_cases hmem : unit ∈ p.obsolete
    · rw [if_pos hmem]
    · -- A unit that is neither wanted nor released is not known, so it holds nothing.
      rw [if_neg hmem]
      have hunknown : ¬p.books.known.contains unit = true :=
        fun hcontains => hmem (hknown.mpr ⟨hcontains, hwanted⟩)
      rw [hsound.known, ← ResourceLedger.isSome_get_iff hsound.consistent] at hunknown
      simpa using hunknown

/-- After a successful pass of any run, the ledger accounts for the placed units
exactly when no placed unit asks for something else than what is reserved for it,
and units that share an identifier ask for the same. -/
theorem accounted_iff_requests_agree (clusterId : ClusterId) (memoryNodeId : Nat)
    (privateIp : Option String) (stateRoot : String) (outer : W) (history : List PassInput)
    (s : RuntimeCoordinator R)
    (hs : s = runFrom RuntimeCoordinator.reconcile
      (RuntimeCoordinator.new R clusterId memoryNodeId privateIp stateRoot outer) history)
    (input : PassInput) (status : RuntimeStatus) (h : (s.reconcile input).2 = .ok status) :
    Accounted (s.reconcile input).1.scheduler.ledger (s.placedIn input) ↔
      RequestsAgree s.scheduler.ledger (s.placedIn input) := by
  have hsound := runFrom_sound hs
  have hget := get_reconciled hsound h
  have hfirst : ∀ x ∈ s.placedIn input, ∃ y ∈ s.placedIn input,
      y.placement.unitId = x.placement.unitId ∧
      (s.placedIn input).find? (fun z => decide (z.placement.unitId = x.placement.unitId)) =
        some y := by
    intro x hx
    cases hfind : (s.placedIn input).find? fun z =>
        decide (z.placement.unitId = x.placement.unitId) with
    | none => simpa using List.find?_eq_none.mp hfind x hx
    | some y =>
      exact ⟨y, List.mem_of_find?_eq_some hfind, by simpa using List.find?_some hfind, rfl⟩
  -- The reservation of a placed unit, in the two cases.
  have hkept : ∀ x ∈ s.placedIn input, ∀ r, s.scheduler.ledger.get x.placement.unitId = some r →
      (s.reconcile input).1.scheduler.ledger.get x.placement.unitId = some r := by
    intro x hx r hr
    rw [hget, if_pos ⟨x, hx, rfl⟩, hr, Option.some_or]
  have hentered : ∀ x ∈ s.placedIn input, s.scheduler.ledger.get x.placement.unitId = none →
      ∃ y ∈ s.placedIn input, y.placement.unitId = x.placement.unitId ∧
        ∃ r, (s.reconcile input).1.scheduler.ledger.get x.placement.unitId = some r ∧
          r.resources = withHeadroom y.loaded.resources := by
    intro x hx hnone
    obtain ⟨y, hy, hunit, hfind⟩ := hfirst x hx
    refine ⟨y, hy, hunit, PlacementController.reservationOn s.report
      (requirementsOf R y.loaded y.placement.unitId), ?_, needOf_requirementsOf _ _ _⟩
    rw [hget, if_pos ⟨x, hx, rfl⟩, hnone, hfind]
    rfl
  constructor
  · intro hacc
    refine ⟨fun x hx r hr => hacc.resources x hx r (hkept x hx r hr), ?_⟩
    intro x hx y hy hunit
    obtain ⟨r, hr⟩ := Option.isSome_iff_exists.mp ((hacc.held _).mpr ⟨x, hx, rfl⟩)
    rw [← hacc.resources x hx r hr, hacc.resources y hy r (hunit ▸ hr)]
  · intro hagree
    constructor
    · intro unit
      by_cases hwanted : ∃ x ∈ s.placedIn input, x.placement.unitId = unit
      · obtain ⟨x, hx, rfl⟩ := hwanted
        refine iff_of_true ?_ ⟨x, hx, rfl⟩
        cases hold : s.scheduler.ledger.get x.placement.unitId with
        | some r => rw [hkept x hx r hold]; rfl
        | none =>
          obtain ⟨_, _, _, r, hr, _⟩ := hentered x hx hold
          rw [hr]
          rfl
      · rw [hget, if_neg hwanted]
        exact iff_of_false (by simp) hwanted
    · intro x hx r hr
      cases hold : s.scheduler.ledger.get x.placement.unitId with
      | some r' =>
        rw [hkept x hx r' hold, Option.some.injEq] at hr
        rw [← hr]
        exact hagree.reserved x hx r' hold
      | none =>
        obtain ⟨y, hy, hunit, r', hr', hresources⟩ := hentered x hx hold
        rw [hr', Option.some.injEq] at hr
        rw [← hr, hresources]
        exact hagree.shared y hy x hx hunit

end Ledger

theorem not_accounted {L : ResourceLedger} {placed : List Placed}
    (h : ∃ x ∈ placed, (L.get x.placement.unitId).map Reservation.resources ≠
      some (withHeadroom x.loaded.resources)) : ¬Accounted L placed := by
  intro hacc
  obtain ⟨x, hx, hne⟩ := h
  obtain ⟨r, hr⟩ := Option.isSome_iff_exists.mp ((hacc.held _).mpr ⟨x, hx, rfl⟩)
  rw [hr, Option.map_some, hacc.resources x hx r hr] at hne
  exact hne rfl

/-- A node on which a workload can be deployed with 100 millicores or with 200. -/
def Sample.resized :
    RuntimeCoordinator (Sample.host (Sample.release 10 100 false) (Sample.release 10 200 false)
      true) :=
  Sample.node _ _ true {}

/-- The node after its first pass. -/
def Sample.deployed :
    RuntimeCoordinator (Sample.host (Sample.release 10 100 false) (Sample.release 10 200 false)
      true) :=
  letI := Sample.blake3
  runFrom RuntimeCoordinator.reconcile Sample.resized [Sample.pass 0 [("api", 1, 1)]]

/-- The app is redeployed with the same Capsule, and the reservation that is held accounts
for it. -/
theorem same_capsule_accounted :
    letI := Sample.blake3
    (Sample.deployed.scheduler.ledger.get Sample.firstUnit).isSome = true ∧
      (Sample.deployed.reconcile (Sample.pass 250 [("api", 2, 1)])).2 =
        .ok { desired := 1, placements := 1 } ∧
      Accounted (Sample.deployed.reconcile (Sample.pass 250 [("api", 2, 1)])).1.scheduler.ledger
        (Sample.deployed.placedIn (Sample.pass 250 [("api", 2, 1)])) :=
  ⟨by decide +kernel, by decide +kernel, (@accounted_iff_requests_agree _ _ Sample.blake3
    (Sample.id 9) 1 none "/var/lib/gump" ({} : Script) [Sample.pass 0 [("api", 1, 1)]]
    Sample.deployed rfl (Sample.pass 250 [("api", 2, 1)]) { desired := 1, placements := 1 }
    (by decide +kernel)).mpr (by decide +kernel)⟩

/-- The app is redeployed with the Capsule that asks for 200 millicores.  The pass
succeeds, and the reservation stays that of the old request. -/
theorem redeploy_keeps_old_reservation :
    letI := Sample.blake3
    (Sample.deployed.reconcile (Sample.pass 250 [("api", 2, 2)])).2 =
        .ok { desired := 1, placements := 1 } ∧
      ((Sample.deployed.reconcile (Sample.pass 250 [("api", 2, 2)])).1.scheduler.ledger.get
        Sample.firstUnit).map Reservation.resources = some (withHeadroom ⟨100, 1048576, 0, 0⟩) ∧
      ¬Accounted (Sample.deployed.reconcile (Sample.pass 250 [("api", 2, 2)])).1.scheduler.ledger
        (Sample.deployed.placedIn (Sample.pass 250 [("api", 2, 2)])) :=
  ⟨by decide +kernel, by decide +kernel, not_accounted (by decide +kernel)⟩

/-! ## Units that find no room -/

/-- An error other than an unschedulable unit. -/
def NotUnschedulable (e : NodeError) : Prop := ∀ unit outcome, e ≠ .unschedulable unit outcome

theorem runExecutor_failsWith (view : ClusterView) (now : Nat) (kind : DriverKind) :
    FailsWith NotUnschedulable (runExecutor view now kind : PassM R (List AttemptReport)) := by
  intro p q e hrun
  have herror : ∃ err, e = .agent err := by
    cases hpass : (Agent.reconcile (p.node.executor kind).config (p.acc.placements kind) now).run
        (beforeExecutor p.node kind) with
    | ok reports st =>
      rw [runExecutor_ok hpass] at hrun
      cases hrun
    | error err st =>
      rw [runExecutor_error hpass] at hrun
      exact ⟨err, (EStateM.Result.error.inj hrun).1.symm⟩
  obtain ⟨err, rfl⟩ := herror
  intro unit outcome h
  cases h

theorem submitCompletion_failsWith (view : ClusterView) (event : DriverKind × AttemptId) :
    FailsWith NotUnschedulable (submitCompletion view event : PassM R Unit) := by
  refine (FailsWith.of_ok fun p => ⟨_, _, rfl⟩).bind fun p => ?_
  cases p.acc.completionTargets.get event.2 with
  | none => exact FailsWith.throw (fun _ _ h => by cases h)
  | some target =>
    refine (FailsWith.of_ok fun p => ⟨_, _, rfl⟩).bind fun _ => ?_
    refine (FailsWith.of_ok fun p => ⟨_, _, rfl⟩).bind fun reply => ?_
    cases reply with
    | error e => exact FailsWith.throw (fun _ _ h => by cases h)
    | ok answer =>
      cases answer with
      | rejected reason => exact FailsWith.throw (fun _ _ h => by cases h)
      | _ => exact FailsWith.of_ok fun p => ⟨_, _, rfl⟩

/-- Only the placements of a pass call a unit unschedulable. -/
theorem finishPass_failsWith (view : ClusterView) (now : Nat) :
    FailsWith NotUnschedulable (finishPass view now : PassM R RuntimeStatus) := by
  refine (runExecutor_failsWith view now .native).bind fun _ => ?_
  refine (runExecutor_failsWith view now .script).bind fun _ => ?_
  refine FailsWith.bind ?_ fun _ => ?_
  · refine (FailsWith.of_ok fun p => ⟨_, _, rfl⟩).bind fun p => ?_
    refine (FailsWith.of_ok fun p => ⟨_, _, rfl⟩).bind fun result => ?_
    cases result with
    | ok u => exact FailsWith.of_ok fun p => ⟨_, _, rfl⟩
    | error e => exact FailsWith.throw (fun _ _ h => by cases h)
  · refine FailsWith.bind ?_ fun _ => FailsWith.of_ok fun p => ⟨_, _, rfl⟩
    refine (FailsWith.of_ok fun p => ⟨_, _, rfl⟩).bind fun p => ?_
    exact FailsWith.forM (submitCompletion_failsWith view) _

section Room

variable [Blake3]

namespace RuntimeCoordinator

/-- The node with an empty ledger. -/
def emptied (s : RuntimeCoordinator R) : RuntimeCoordinator R := s.withBooks s.books.emptied

/-- On an empty ledger the placements of the pass go through: every release loads
and every unit fits. -/
def FitsEmpty (s : RuntimeCoordinator R) (input : PassInput) : Prop :=
  succeeded ((placeDesired input.view input.nowMs).run (s.emptied.beginPass input.nowMs)) = true

/-- The requests of the units that the node must run. -/
def requests (s : RuntimeCoordinator R) (input : PassInput) : List WorkloadRequirements :=
  (s.emptied.placedIn input).map fun x => requirementsOf R x.loaded x.placement.unitId

/-- Beside everything that is reserved, obsolete or not, there is room for the units
that have no reservation. -/
structure HasRoomFor (s : RuntimeCoordinator R) (reqs : List WorkloadRequirements) : Prop where
  resources : s.books.reserved s.report +
    Books.totalNeed s.report (Books.fresh s.knownUnits reqs) ≤ s.report.allocatable
  count : s.scheduler.ledger.reservationCount + (Books.fresh s.knownUnits reqs).length ≤
    s.scheduler.ledger.maxReservations

instance (s : RuntimeCoordinator R) (input : PassInput) : Decidable (s.FitsEmpty input) :=
  inferInstanceAs (Decidable (_ = _))

instance (s : RuntimeCoordinator R) (reqs : List WorkloadRequirements) :
    Decidable (s.HasRoomFor reqs) :=
  decidable_of_iff (s.books.reserved s.report +
      Books.totalNeed s.report (Books.fresh s.knownUnits reqs) ≤ s.report.allocatable ∧
    s.scheduler.ledger.reservationCount + (Books.fresh s.knownUnits reqs).length ≤
      s.scheduler.ledger.maxReservations) ⟨fun h => ⟨h.1, h.2⟩, fun h => ⟨h.1, h.2⟩⟩

end RuntimeCoordinator

/-- A pass calls a unit unschedulable exactly when its placements do. -/
theorem reconcile_unschedulable_iff (s : RuntimeCoordinator R) (input : PassInput) :
    (∃ unit outcome, (s.reconcile input).2 = .error (.unschedulable unit outcome)) ↔
      ∃ unit outcome p, (placeDesired input.view input.nowMs).run (s.beginPass input.nowMs) =
        .error (.unschedulable unit outcome) p := by
  cases hplace : (placeDesired input.view input.nowMs).run (s.beginPass input.nowMs) with
  | error e p =>
    rw [reconcile_of_error hplace]
    simp
  | ok u p =>
    refine iff_of_false ?_ (by rintro ⟨_, _, _, ⟨⟩⟩)
    rintro ⟨unit, outcome, hend⟩
    rw [reconcile_of_ok hplace] at hend
    cases hfinish : (finishPass input.view input.nowMs).run p.swept with
    | ok status q =>
      rw [hfinish] at hend
      cases hend
    | error e q =>
      rw [hfinish] at hend
      obtain rfl : e = .unschedulable unit outcome := by simpa using hend
      exact finishPass_failsWith input.view input.nowMs _ _ _ hfinish unit outcome rfl

/-- Where the units of a snapshot fit an empty ledger, a pass after any run calls
none of them unschedulable exactly when the new ones fit beside everything that is
reserved at its start. -/
theorem schedules_iff_room_beside_reserved (clusterId : ClusterId) (memoryNodeId : Nat)
    (privateIp : Option String) (stateRoot : String) (outer : W) (history : List PassInput)
    (s : RuntimeCoordinator R)
    (hs : s = runFrom RuntimeCoordinator.reconcile
      (RuntimeCoordinator.new R clusterId memoryNodeId privateIp stateRoot outer) history)
    (input : PassInput) (hfits : s.FitsEmpty input) :
    (∀ unit outcome, (s.reconcile input).2 ≠ .error (.unschedulable unit outcome)) ↔
      s.HasRoomFor (s.requests input) := by
  have hsound := runFrom_sound hs
  obtain ⟨_, p, hrun⟩ := succeeded_iff.mp hfits
  obtain ⟨reqs, hdemands, hfollows⟩ := placeDesired_paced _ _ _ _ _ hrun
  have hreqs : s.requests input = reqs := by
    have hempty : (s.emptied.beginPass input.nowMs).demands = [] := rfl
    rw [hempty, List.nil_append] at hdemands
    rw [← hdemands, RuntimeCoordinator.requests, RuntimeCoordinator.placedIn, hrun]
    rfl
  -- The same placements on an empty ledger and on the ledger of the node.
  have hempty : (s.books.emptied.admitAll reqs).isSome = true := by
    cases hadmits : s.books.emptied.admitAll reqs with
    | some b => rfl
    | none =>
      obtain ⟨unit, outcome, t, herror⟩ := (hfollows s.books.emptied).refused hadmits
      cases hrun.symm.trans herror
  have hroom : (s.books.admitAll reqs).isSome = true ↔ s.HasRoomFor (s.requests input) := by
    rw [Books.admitAll_iff_of_emptied hsound hempty, hreqs]
    exact ⟨fun h => ⟨h.1, h.2⟩, fun h => ⟨h.1, h.2⟩⟩
  have hwithBooks : (s.emptied.beginPass input.nowMs).withBooks s.books =
    s.beginPass input.nowMs := rfl
  rw [← hroom]
  cases hadmits : s.books.admitAll reqs with
  | some b =>
    refine iff_of_true ?_ rfl
    have hplaced := (hfollows s.books).admitted b hadmits
    rw [hwithBooks] at hplaced
    intro unit outcome hend
    obtain ⟨_, _, q, herror⟩ := (reconcile_unschedulable_iff s input).mp ⟨unit, outcome, hend⟩
    cases hplaced.symm.trans herror
  | none =>
    refine iff_of_false ?_ (by simp)
    obtain ⟨unit, outcome, t, herror⟩ := (hfollows s.books).refused hadmits
    rw [hwithBooks] at herror
    obtain ⟨unit', outcome', hend⟩ := (reconcile_unschedulable_iff s input).mpr
      ⟨unit, outcome, t, herror⟩
    exact fun hnever => hnever unit' outcome' hend

end Room

/-- The unit that a pass called unschedulable. -/
def unschedulableUnit : Except NodeError RuntimeStatus → Option UnitId
  | .error (.unschedulable unit _) => some unit
  | _ => none

theorem of_unschedulableUnit {result : Except NodeError RuntimeStatus} {unit : UnitId}
    (h : unschedulableUnit result = some unit) :
    ∃ outcome, result = .error (.unschedulable unit outcome) := by
  unfold unschedulableUnit at h
  split at h
  · rename_i u outcome
    exact ⟨outcome, by rw [Option.some.inj h]⟩
  · cases h

/-- A node with 1000 millicores on which two workloads can be deployed, the first of which
asks for 500 and runs.  A reservation takes a fifth more. -/
def Sample.occupied (second : Nat) :
    RuntimeCoordinator (Sample.host (Sample.release 10 500 false) (Sample.release 11 second false)
      true) :=
  letI := Sample.blake3
  runFrom RuntimeCoordinator.reconcile (Sample.node _ _ true {}) [Sample.pass 0 [("api", 1, 1)]]

/-- The first app is replaced by a smaller second, which fits beside the reservation of the
first. -/
theorem smaller_replacement_is_scheduled :
    letI := Sample.blake3
    (Sample.occupied 300).FitsEmpty (Sample.pass 250 [("web", 1, 2)]) ∧
      ∀ unit outcome, ((Sample.occupied 300).reconcile (Sample.pass 250 [("web", 1, 2)])).2 ≠
        .error (.unschedulable unit outcome) :=
  ⟨by decide +kernel, (@schedules_iff_room_beside_reserved _ _ Sample.blake3 (Sample.id 9) 1 none
    "/var/lib/gump" ({} : Script) [Sample.pass 0 [("api", 1, 1)]] (Sample.occupied 300) rfl
    (Sample.pass 250 [("web", 1, 2)]) (by decide +kernel)).mpr (by decide +kernel)⟩

/-- The first app is replaced by a second of its size.  Alone the second fits, but the pass
finds it unschedulable beside the reservation of the first. -/
theorem replacement_is_unschedulable :
    letI := Sample.blake3
    (Sample.occupied 500).FitsEmpty (Sample.pass 250 [("web", 1, 2)]) ∧
      ∃ outcome, ((Sample.occupied 500).reconcile (Sample.pass 250 [("web", 1, 2)])).2 =
        .error (.unschedulable Sample.secondUnit outcome) :=
  ⟨by decide +kernel, of_unschedulableUnit (by decide +kernel)⟩

end Gump.Server
