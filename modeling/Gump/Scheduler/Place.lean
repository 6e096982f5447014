/-
  Scheduler/Place.lean --- filter, score and reserve.

  The controller keeps the capability reports and the resource ledger.  Placing a
  unit filters every report, keeps the best score, and reserves on the node that
  won.  The outcome lists what every node said.
-/
import Mathlib.Algebra.GroupWithZero.Nat
import Mathlib.Data.List.Sort
import Gump.Scheduler.Ledger

set_option autoImplicit false

namespace Gump.Scheduler

open Gump.Foundation Gump.Types

/-- What one node said about a unit. -/
structure NodeFeasibility where
  nodeId : NodeId
  feasible : Bool
  reasons : List ExplainReason
  score : Option Int
  scoreExplain : Option ExplainReason
  deriving DecidableEq, Repr

structure PlacementPlan where
  reservation : Reservation
  score : Int
  scoreExplain : ExplainReason
  matrix : List NodeFeasibility
  deriving DecidableEq, Repr

inductive PlacementOutcome where
  | scheduled (plan : PlacementPlan)
  | unschedulable (matrix : List NodeFeasibility) (summary : ExplainReason)
  deriving DecidableEq, Repr

/-- Capability corpus and resource ledger. -/
structure PlacementController where
  reports : OrdMap NodeId CapabilityReport
  ledger : ResourceLedger
  maxReports : Nat
  deriving DecidableEq

/-- The node that leads so far. -/
structure Candidate where
  nodeId : NodeId
  score : Int
  scoreExplain : ExplainReason
  deriving DecidableEq, Repr

/-- The loop over the reports: the matrix and the leading node. -/
structure Scan where
  matrix : List NodeFeasibility := []
  best : Option Candidate := none
  deriving DecidableEq, Repr

/-- A workload that requires a port asks for at least one. -/
def normalizePorts (req : WorkloadRequirements) : WorkloadRequirements :=
  if req.requiresPort ∧ req.request.ports = 0 then
    { req with request := { req.request with ports := 1 } }
  else req

/-- Whether a node takes the lead: a higher score, or the same with the lower
identifier. -/
def takesLead (best : Option Candidate) (nodeId : NodeId) (score : Int) : Bool :=
  match best with
  | none => true
  | some b => decide (score > b.score ∨
      (score = b.score ∧ toHyphenated nodeId < toHyphenated b.nodeId))

/-- Filter and score one report. -/
def considerReport (ledger : ResourceLedger) (req : WorkloadRequirements) (scan : Scan)
    (report : CapabilityReport) : Scan :=
  let free := ledger.freeOn report.nodeId report.allocatable
  match hardFilter req report free with
  | .ok () =>
    let scored := scoreResidualHeadroom free req.request
    { matrix := scan.matrix ++ [⟨report.nodeId, true, [], some scored.1, some scored.2⟩]
      best := if takesLead scan.best report.nodeId scored.1 then
          some ⟨report.nodeId, scored.1, scored.2⟩
        else scan.best }
  | .error reasons =>
    { scan with matrix := scan.matrix ++ [⟨report.nodeId, false, reasons, none, none⟩] }

/-- The matrix in the order of the node identifiers' text. -/
def sortMatrix (matrix : List NodeFeasibility) : List NodeFeasibility :=
  matrix.insertionSort (fun a b => toHyphenated a.nodeId ≤ toHyphenated b.nodeId)

/-- The row of the node that refused its reservation. -/
def markRefused (nodeId : NodeId) (reason : ExplainReason) (row : NodeFeasibility) :
    NodeFeasibility :=
  if row.nodeId = nodeId then
    { row with
      feasible := false, reasons := row.reasons ++ [reason], score := none, scoreExplain := none }
  else row

namespace PlacementController

def defaultMaxReports : Nat := 4096

def new : PlacementController where
  reports := .empty
  ledger := .new
  maxReports := defaultMaxReports

/-- Enter a report; at the ceiling the report of the least node is dropped. -/
def upsertReport (c : PlacementController) (report : CapabilityReport) :
    Except ExplainReason PlacementController :=
  let evicts := !c.reports.contains report.nodeId ∧ c.reports.size ≥ c.maxReports
  let reports := if evicts then
      match c.reports.keys.head? with
      | some oldest => c.reports.erase oldest
      | none => c.reports
    else c.reports
  if !reports.contains report.nodeId ∧ reports.size ≥ c.maxReports then
    .error ⟨.ledgerFull, asI64 c.maxReports, "capability report ceiling reached"⟩
  else .ok { c with reports := reports.insert report.nodeId report }

/-- Filter, score and reserve for one independent unit. -/
def place (c : PlacementController) (requirements : WorkloadRequirements) :
    PlacementController × PlacementOutcome :=
  let req := normalizePorts requirements
  let scan := c.reports.values.foldl (considerReport c.ledger req) {}
  let matrix := sortMatrix scan.matrix
  match scan.best with
  | none => (c, .unschedulable matrix ⟨.noCandidate, 0, "no node passed hard filters"⟩)
  | some best =>
    match c.reports.get best.nodeId with
    | none => (c, .unschedulable matrix ⟨.noCandidate, 0, "selected node vanished"⟩)
    | some report =>
      match c.ledger.reserve req.unitId best.nodeId req.request report.allocatable
          report.revision report.placementFence with
      | .ok (reservation, ledger) =>
        ({ c with ledger := ledger },
          .scheduled ⟨reservation, best.score, best.scoreExplain, matrix⟩)
      | .error reason =>
        (c, .unschedulable (matrix.map (markRefused best.nodeId reason)) reason)

/-- A refused placement changes nothing. -/
theorem place_unschedulable {c : PlacementController} {req : WorkloadRequirements}
    {matrix : List NodeFeasibility} {summary : ExplainReason}
    (h : (c.place req).2 = .unschedulable matrix summary) : (c.place req).1 = c := by
  unfold place at h ⊢
  simp only at h ⊢
  split
  · rfl
  · split
    · rfl
    · rename_i best hbest _ report hreport
      simp only [hbest, hreport] at h
      split
      · rename_i hreserve
        simp [hreserve] at h
      · rfl

/-- The controller of a node that reports only itself. -/
def Reports (c : PlacementController) (report : CapabilityReport) : Prop :=
  c.reports.entries = [(report.nodeId, report)]

/-! ## Placing on one node -/

section OneNode

variable {c : PlacementController} {report : CapabilityReport} {req : WorkloadRequirements}

/-- The reservation that placing a unit on the node enters. -/
def reservationOn (report : CapabilityReport) (req : WorkloadRequirements) : Reservation :=
  ResourceLedger.reservationFor req.unitId report.nodeId (normalizePorts req).request
    report.revision report.placementFence

/-- The unit suits the node, fits what is free there, and has room in the
ledger. -/
structure Fits (c : PlacementController) (report : CapabilityReport)
    (req : WorkloadRequirements) : Prop where
  suits : Suits req report
  room : c.ledger.HasRoom req.unitId report.nodeId
  free : (reservationOn report req).resources ≤ c.ledger.freeOn report.nodeId report.allocatable

theorem values_of_reports (h : c.Reports report) : c.reports.values = [report] := by
  unfold Reports at h
  rw [OrdMap.values, h, List.map_singleton]

theorem get_of_reports (h : c.Reports report) : c.reports.get report.nodeId = some report := by
  rw [← OrdMap.mem_entries_iff, h]
  exact List.mem_singleton.mpr rfl

theorem suits_normalizePorts : Suits (normalizePorts req) report ↔ Suits req report := by
  unfold normalizePorts
  split
  · exact ⟨fun h => ⟨h.1, h.2, h.3, h.4⟩, fun h => ⟨h.1, h.2, h.3, h.4⟩⟩
  · rfl

theorem unitId_normalizePorts : (normalizePorts req).unitId = req.unitId := by
  unfold normalizePorts
  split <;> rfl

/-- A normalized request for a port asks for one. -/
theorem ports_normalizePorts (h : (normalizePorts req).requiresPort = true) :
    1 ≤ (normalizePorts req).request.ports := by
  unfold normalizePorts at h ⊢
  split
  · exact Nat.le_refl 1
  · rename_i hcondition
    simp only [hcondition, if_false] at h
    have : req.request.ports ≠ 0 := fun hzero => hcondition ⟨h, hzero⟩
    omega

/-- A node whose free resources hold the reservation passes the filter. -/
theorem hardFilter_of_fits (hsuits : Suits req report) {free : NodeResources}
    (hfree : (reservationOn report req).resources ≤ free) :
    hardFilter (normalizePorts req) report free = .ok () := by
  refine hardFilter_eq_ok.mpr ⟨suits_normalizePorts.mpr hsuits, hfree.1, hfree.2.1, hfree.2.2.1, ?_⟩
  intro hport
  exact (ports_normalizePorts hport).trans hfree.2.2.2

theorem place_of_fits (h : c.Reports report) (hfits : c.Fits report req) :
    (c.place req).1 = { c with ledger := c.ledger.commit (reservationOn report req) } ∧
      ∃ plan, (c.place req).2 = .scheduled plan := by
  have hfilter := hardFilter_of_fits hfits.suits hfits.free
  have hreserve := ResourceLedger.reserve_of_fits report.revision report.placementFence
    hfits.room hfits.free
  simp only [place, values_of_reports h, List.foldl_cons, List.foldl_nil, considerReport, hfilter,
    takesLead, if_true, get_of_reports h, unitId_normalizePorts, hreserve]
  exact ⟨rfl, _, rfl⟩

theorem place_of_not_fits (h : c.Reports report) (hfits : ¬c.Fits report req) :
    (c.place req).1 = c ∧ ∃ matrix summary, (c.place req).2 = .unschedulable matrix summary := by
  simp only [place, values_of_reports h, List.foldl_cons, List.foldl_nil, considerReport]
  cases hfilter : hardFilter (normalizePorts req) report
      (c.ledger.freeOn report.nodeId report.allocatable) with
  | error reasons => exact ⟨rfl, _, _, rfl⟩
  | ok u =>
    have hsuits := suits_normalizePorts.mp (hardFilter_eq_ok.mp hfilter).1
    have hrefused : ¬(c.ledger.HasRoom req.unitId report.nodeId ∧
        withHeadroom (normalizePorts req).request ≤
          c.ledger.freeOn report.nodeId report.allocatable) :=
      fun hroom => hfits ⟨hsuits, hroom.1, hroom.2⟩
    obtain ⟨reason, hreserve⟩ := ResourceLedger.reserve_of_not_fits report.revision
      report.placementFence hrefused
    simp only [takesLead, if_true, get_of_reports h, unitId_normalizePorts, hreserve]
    exact ⟨trivial, _, _, rfl⟩

end OneNode

end PlacementController

end Gump.Scheduler
