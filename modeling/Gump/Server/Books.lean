/-
  Server/Books.lean --- admission of units on one node.

  The books of a node are its scheduler and the set of units that hold a
  reservation.  A pass admits its units one after the other; a unit that is
  already known is not looked at again.  The first request of each new unit
  decides, and the whole list is admitted exactly when the sum of those requests
  fits beside what is reserved.
-/
import Mathlib.Algebra.GroupWithZero.Nat
import Gump.Scheduler.Place

set_option autoImplicit false

namespace Gump.Server

open Gump.Foundation Gump.Types Gump.Scheduler

/-- The scheduler of a node and the units that hold a reservation. -/
structure Books where
  scheduler : PlacementController
  known : OrdSet UnitId

namespace Books

/-- Admit one unit, unless it is known. -/
def admitOne (b : Books) (req : WorkloadRequirements) : Option Books :=
  if b.known.contains req.unitId then some b
  else
    match (b.scheduler.place req).2 with
    | .scheduled _ => some ⟨(b.scheduler.place req).1, b.known.insert req.unitId ()⟩
    | .unschedulable _ _ => none

/-- Admit units in order. -/
def admitAll (b : Books) : List WorkloadRequirements → Option Books
  | [] => some b
  | req :: rest => (b.admitOne req).bind fun b' => b'.admitAll rest

theorem admitAll_append (b : Books) (xs ys : List WorkloadRequirements) :
    b.admitAll (xs ++ ys) = (b.admitAll xs).bind fun b' => b'.admitAll ys := by
  induction xs generalizing b with
  | nil => rfl
  | cons x rest ih =>
    simp only [List.cons_append, admitAll]
    cases b.admitOne x with
    | none => rfl
    | some b' => exact ih b'

/-- The resources reserved on the node that the report is about. -/
def reserved (b : Books) (report : CapabilityReport) : NodeResources :=
  b.scheduler.ledger.reservedOn report.nodeId

/-- The resources that a unit takes. -/
def needOf (report : CapabilityReport) (req : WorkloadRequirements) : NodeResources :=
  (PlacementController.reservationOn report req).resources

/-- Books of a node that reports only itself. -/
structure Sound (report : CapabilityReport) (b : Books) : Prop where
  words : report.allocatable ≤ NodeResources.wordMax
  reports : b.scheduler.Reports report
  onlyOn : b.scheduler.ledger.OnlyOn report.nodeId
  consistent : b.scheduler.ledger.Consistent
  nodes : 0 < b.scheduler.ledger.maxNodes
  known : ∀ unit, b.known.contains unit = b.scheduler.ledger.unitIndex.contains unit
  within : b.reserved report ≤ report.allocatable
  count : b.scheduler.ledger.unitIndex.size ≤ b.scheduler.ledger.maxReservations

/-- A unit that gets a reservation when it has none. -/
structure Grants (b : Books) (report : CapabilityReport) (req : WorkloadRequirements) : Prop where
  suits : Suits req report
  count : b.scheduler.ledger.unitIndex.size < b.scheduler.ledger.maxReservations
  room : b.reserved report + needOf report req ≤ report.allocatable

/-- The books once a unit has its reservation. -/
def enter (b : Books) (report : CapabilityReport) (req : WorkloadRequirements) : Books where
  scheduler :=
    { b.scheduler with
      ledger := b.scheduler.ledger.commit (PlacementController.reservationOn report req) }
  known := b.known.insert req.unitId ()

variable {report : CapabilityReport} {b b' : Books} {req : WorkloadRequirements}

theorem Sound.fresh (hb : b.Sound report) (hfresh : b.known.contains req.unitId = false) :
    b.scheduler.ledger.unitIndex.get req.unitId = none := by
  rw [hb.known] at hfresh
  exact OrdMap.contains_eq_false_iff.mp hfresh

theorem fits_iff_grants (hb : b.Sound report) (hfresh : b.known.contains req.unitId = false) :
    b.scheduler.Fits report req ↔ b.Grants report req := by
  constructor
  · intro h
    exact ⟨h.suits, h.room.reservations, (NodeResources.le_saturatingSub_iff hb.within).mp h.free⟩
  · intro h
    exact ⟨h.suits, ⟨hb.fresh hfresh, h.count, hb.onlyOn.room hb.nodes⟩,
      (NodeResources.le_saturatingSub_iff hb.within).mpr h.room⟩

theorem admitOne_of_known (h : b.known.contains req.unitId = true) : b.admitOne req = some b := by
  simp [admitOne, h]

theorem admitOne_of_grants (hb : b.Sound report) (hfresh : b.known.contains req.unitId = false)
    (h : b.Grants report req) : b.admitOne req = some (b.enter report req) := by
  obtain ⟨hscheduler, plan, hplan⟩ := PlacementController.place_of_fits hb.reports
    ((fits_iff_grants hb hfresh).mpr h)
  simp [admitOne, hfresh, hplan, hscheduler, enter]

theorem admitOne_of_not_grants (hb : b.Sound report) (hfresh : b.known.contains req.unitId = false)
    (h : ¬b.Grants report req) : b.admitOne req = none := by
  obtain ⟨_, matrix, summary, houtcome⟩ := PlacementController.place_of_not_fits hb.reports
    (fun hfits => h ((fits_iff_grants hb hfresh).mp hfits))
  simp [admitOne, hfresh, houtcome]

/-- A reservation that fits is added exactly. -/
theorem reserved_enter (hb : b.Sound report) (h : b.Grants report req) :
    (b.enter report req).reserved report = b.reserved report + needOf report req := by
  have hadd := ResourceLedger.reservedOn_commit b.scheduler.ledger
    (PlacementController.reservationOn report req)
  exact hadd.trans (NodeResources.saturatingAdd_eq_add (NodeResources.le_trans h.room hb.words))

theorem size_enter (hb : b.Sound report) (hfresh : b.known.contains req.unitId = false) :
    (b.enter report req).scheduler.ledger.unitIndex.size = b.scheduler.ledger.unitIndex.size + 1 :=
  OrdMap.size_insert_of_none _ (hb.fresh hfresh)

theorem Sound.enter (hb : b.Sound report) (hfresh : b.known.contains req.unitId = false)
    (h : b.Grants report req) : (b.enter report req).Sound report where
  words := hb.words
  reports := hb.reports
  onlyOn := ResourceLedger.OnlyOn.commit (r := PlacementController.reservationOn report req)
    hb.onlyOn
  consistent := hb.consistent.commit (hb.fresh hfresh)
  nodes := hb.nodes
  known := by
    intro unit
    rw [Bool.eq_iff_iff]
    refine (OrdMap.contains_insert _ _ _ _).trans ((or_congr_right ?_).trans
      (OrdMap.contains_insert _ _ _ _).symm)
    rw [hb.known]
  within := by
    rw [reserved_enter hb h]
    exact h.room
  count := by
    rw [size_enter hb hfresh]
    exact h.count

/-- Admission keeps the books sound. -/
theorem Sound.admitOne (hb : b.Sound report) (h : b.admitOne req = some b') : b'.Sound report := by
  cases hknown : b.known.contains req.unitId with
  | true =>
    rw [admitOne_of_known hknown, Option.some.injEq] at h
    exact h ▸ hb
  | false =>
    by_cases hgrants : b.Grants report req
    · rw [admitOne_of_grants hb hknown hgrants, Option.some.injEq] at h
      exact h ▸ hb.enter hknown hgrants
    · rw [admitOne_of_not_grants hb hknown hgrants] at h
      cases h

variable {reqs : List WorkloadRequirements}

theorem Sound.admitAll (hb : b.Sound report) (h : b.admitAll reqs = some b') : b'.Sound report := by
  induction reqs generalizing b with
  | nil =>
    cases h
    exact hb
  | cons req rest ih =>
    obtain ⟨b₁, hadmits, hrest⟩ := Option.bind_eq_some_iff.mp h
    exact ih (hb.admitOne hadmits) hrest

/-- Release the reservation of a unit. -/
def forget (b : Books) (unit : UnitId) : Books where
  scheduler := { b.scheduler with ledger := (b.scheduler.ledger.release unit).2 }
  known := b.known.erase unit

theorem Sound.forget (hb : b.Sound report) (unit : UnitId) : (b.forget unit).Sound report where
  words := hb.words
  reports := hb.reports
  onlyOn := hb.onlyOn.release unit
  consistent := hb.consistent.release unit
  nodes := by
    simp only [Books.forget, ResourceLedger.limits_release]
    exact hb.nodes
  known := by
    intro other
    rw [Bool.eq_iff_iff]
    simp only [Books.forget, ResourceLedger.unitIndex_release, OrdMap.contains_erase, hb.known]
  within := NodeResources.le_trans (ResourceLedger.reservedOn_release_le hb.consistent unit _)
    hb.within
  count := by
    simp only [Books.forget, ResourceLedger.unitIndex_release, ResourceLedger.limits_release]
    exact (OrdMap.size_retain_le _ _).trans hb.count

theorem Sound.forgetAll (hb : b.Sound report) (units : List UnitId) :
    (units.foldl Books.forget b).Sound report := by
  induction units generalizing b with
  | nil => exact hb
  | cons unit rest ih => exact ih (hb.forget unit)

/-- What is left when units are released. -/
theorem get_forgetAll (hb : b.Sound report) (units : List UnitId) (unit : UnitId) :
    (units.foldl Books.forget b).scheduler.ledger.get unit =
      if unit ∈ units then none else b.scheduler.ledger.get unit := by
  induction units generalizing b with
  | nil => simp
  | cons first rest ih =>
    rw [List.foldl_cons, ih (hb.forget first)]
    by_cases hunit : unit = first
    · subst hunit
      simp [Books.forget, ResourceLedger.get_release_self]
    · simp [hunit, Books.forget, ResourceLedger.get_release_of_ne hb.consistent hunit]

/-! ## The reservation of a unit after an admission -/

/-- What admission leaves of the reservation of a unit: the one it had, or the one
of its first request. -/
theorem get_admitAll (hb : b.Sound report) (h : b.admitAll reqs = some b') (unit : UnitId) :
    b'.scheduler.ledger.get unit = (b.scheduler.ledger.get unit).or
      ((reqs.find? fun req => decide (req.unitId = unit)).map
        (PlacementController.reservationOn report)) := by
  induction reqs generalizing b with
  | nil =>
    cases h
    simp
  | cons req rest ih =>
    obtain ⟨b₁, hadmits, hrest⟩ := Option.bind_eq_some_iff.mp h
    rw [ih (hb.admitOne hadmits) hrest]
    cases hknown : b.known.contains req.unitId with
    | true =>
      rw [admitOne_of_known hknown, Option.some.injEq] at hadmits
      subst hadmits
      by_cases hunit : req.unitId = unit
      · -- A known unit keeps its reservation whatever is asked for it.
        have hheld : (b.scheduler.ledger.get unit).isSome = true := by
          rw [ResourceLedger.isSome_get_iff hb.consistent, ← hb.known, ← hunit]
          exact hknown
        obtain ⟨r, hr⟩ := Option.isSome_iff_exists.mp hheld
        simp [hr]
      · simp [hunit]
    | false =>
      by_cases hgrants : b.Grants report req
      · rw [admitOne_of_grants hb hknown hgrants, Option.some.injEq] at hadmits
        subst hadmits
        by_cases hunit : req.unitId = unit
        · subst hunit
          have hnone : b.scheduler.ledger.get req.unitId = none := by
            simp [ResourceLedger.get, hb.fresh hknown]
          have hself : (b.enter report req).scheduler.ledger.get req.unitId =
              some (PlacementController.reservationOn report req) :=
            ResourceLedger.get_commit_self _ _
          simp [hnone, hself]
        · have hother : (b.enter report req).scheduler.ledger.get unit =
              b.scheduler.ledger.get unit :=
            ResourceLedger.get_commit_of_ne (Ne.symm hunit)
          simp [hother, hunit]
      · rw [admitOne_of_not_grants hb hknown hgrants] at hadmits
        cases hadmits

/-! ## When a list is admitted -/

/-- The first request of every unit that is not known. -/
def fresh (known : OrdSet UnitId) : List WorkloadRequirements → List WorkloadRequirements
  | [] => []
  | req :: rest =>
    if known.contains req.unitId then fresh known rest
    else req :: fresh (known.insert req.unitId ()) rest

/-- What a list of units takes together. -/
def totalNeed (report : CapabilityReport) : List WorkloadRequirements → NodeResources
  | [] => 0
  | req :: rest => needOf report req + totalNeed report rest

/-- Every unit is admitted exactly when the new ones suit the node and fit together
beside what is reserved. -/
theorem admitAll_isSome_iff (hb : b.Sound report) (reqs : List WorkloadRequirements) :
    (b.admitAll reqs).isSome = true ↔
      (∀ req ∈ fresh b.known reqs, Suits req report) ∧
      b.reserved report + totalNeed report (fresh b.known reqs) ≤ report.allocatable ∧
      b.scheduler.ledger.unitIndex.size + (fresh b.known reqs).length ≤
        b.scheduler.ledger.maxReservations := by
  induction reqs generalizing b with
  | nil => simp [admitAll, fresh, totalNeed, hb.within, hb.count]
  | cons req rest ih =>
    simp only [admitAll, fresh]
    cases hknown : b.known.contains req.unitId with
    | true => simpa [admitOne_of_known hknown] using ih hb
    | false =>
      simp only [Bool.false_eq_true, if_false, List.forall_mem_cons, totalNeed, List.length_cons]
      by_cases hgrants : b.Grants report req
      · -- The unit is entered, and the rest is admitted beside it.
        have hrest := ih (hb.enter hknown hgrants)
        rw [reserved_enter hb hgrants, size_enter hb hknown, NodeResources.add_assoc] at hrest
        have hmax : (b.enter report req).scheduler.ledger.maxReservations =
          b.scheduler.ledger.maxReservations := rfl
        have hinsert : (b.enter report req).known = b.known.insert req.unitId () := rfl
        rw [admitOne_of_grants hb hknown hgrants, Option.bind_some, hrest, hmax, hinsert]
        constructor
        · rintro ⟨hsuits, hroom, hcount⟩
          exact ⟨⟨hgrants.suits, hsuits⟩, hroom, by omega⟩
        · rintro ⟨⟨_, hsuits⟩, hroom, hcount⟩
          exact ⟨hsuits, hroom, by omega⟩
      · rw [admitOne_of_not_grants hb hknown hgrants]
        simp only [Option.bind_none, Option.isSome_none, Bool.false_eq_true, false_iff]
        rintro ⟨⟨hsuits, _⟩, hroom, hcount⟩
        refine hgrants ⟨hsuits, by omega, ?_⟩
        refine NodeResources.le_trans ?_ hroom
        rw [← NodeResources.add_assoc]
        exact NodeResources.le_add_right _ _

/-- Fewer known units leave more to admit. -/
theorem fresh_subset {known known' : OrdSet UnitId}
    (h : ∀ unit, known'.contains unit = true → known.contains unit = true)
    (reqs : List WorkloadRequirements) : ∀ req ∈ fresh known reqs, req ∈ fresh known' reqs := by
  induction reqs generalizing known known' with
  | nil => simp [fresh]
  | cons req rest ih =>
    simp only [fresh]
    cases hknown' : known'.contains req.unitId with
    | true =>
      simp only [h _ hknown', if_true]
      exact ih h
    | false =>
      simp only [Bool.false_eq_true, if_false]
      cases hknown : known.contains req.unitId with
      | true =>
        simp only [if_true]
        intro r hr
        refine List.mem_cons_of_mem _ (ih ?_ r hr)
        intro unit hunit
        rcases (OrdMap.contains_insert _ _ _ _).mp hunit with rfl | hunit
        · exact hknown
        · exact h unit hunit
      | false =>
        simp only [Bool.false_eq_true, if_false]
        intro r hr
        rcases List.mem_cons.mp hr with rfl | hr
        · exact List.mem_cons_self
        · refine List.mem_cons_of_mem _ (ih ?_ r hr)
          intro unit hunit
          rcases (OrdMap.contains_insert _ _ _ _).mp hunit with rfl | hunit
          · exact (OrdMap.contains_insert _ _ _ _).mpr (Or.inl rfl)
          · exact (OrdMap.contains_insert _ _ _ _).mpr (Or.inr (h unit hunit))

/-- The books with every reservation taken out. -/
def emptied (b : Books) : Books where
  scheduler := { b.scheduler with ledger := .new }
  known := .empty

theorem sound_emptied (hwords : report.allocatable ≤ NodeResources.wordMax)
    (hreports : b.scheduler.Reports report) : b.emptied.Sound report where
  words := hwords
  reports := hreports
  onlyOn := fun _ _ => rfl
  consistent := ResourceLedger.consistent_new
  nodes := (by decide : 0 < ResourceLedger.new.maxNodes)
  known := fun _ => rfl
  within := NodeResources.zero_le _
  count := Nat.zero_le _

/-- Where the units fit into empty books, they fit beside what is reserved exactly
when the new ones together leave the allocatable resources and the ceiling on
reservations. -/
theorem admitAll_iff_of_emptied (hb : b.Sound report)
    (hempty : (b.emptied.admitAll reqs).isSome = true) : (b.admitAll reqs).isSome = true ↔
      b.reserved report + totalNeed report (fresh b.known reqs) ≤ report.allocatable ∧
      b.scheduler.ledger.unitIndex.size + (fresh b.known reqs).length ≤
        b.scheduler.ledger.maxReservations := by
  have hsuits := ((admitAll_isSome_iff (sound_emptied hb.words hb.reports) reqs).mp hempty).1
  rw [admitAll_isSome_iff hb]
  refine and_iff_right ?_
  intro req hreq
  refine hsuits req (fresh_subset ?_ reqs req hreq)
  intro unit hunit
  cases hunit

end Books

end Gump.Server
