/-
  Scheduler/Choice.lean --- which node a placement chooses.

  The scan keeps the leading node among those that pass the hard filter; the
  ledger then checks the request once more.  The filter looks at one port where
  the ledger looks at all that are requested, and a refused leader is not followed
  by the next node.
-/
import Mathlib.Data.List.Induction
import Gump.Scheduler.Place

set_option autoImplicit false

namespace Gump.Scheduler

open Gump.Foundation Gump.Types

namespace PlacementController

variable (c : PlacementController) (req : WorkloadRequirements)

/-- What is free on the node of a report. -/
def freeFor (report : CapabilityReport) : NodeResources :=
  c.ledger.freeOn report.nodeId report.allocatable

/-- The request that a placement reserves. -/
def need : NodeResources := withHeadroom (normalizePorts req).request

def scoreFor (report : CapabilityReport) : Int :=
  (scoreResidualHeadroom (c.freeFor report) (normalizePorts req).request).1

/-- The node passes the hard filter. -/
def Passes (report : CapabilityReport) : Prop :=
  hardFilter (normalizePorts req) report (c.freeFor report) = .ok ()

/-- The node is reported, meets the requirements and has room for the whole
request. -/
structure Feasible (report : CapabilityReport) : Prop where
  reported : report ∈ c.reports.values
  suits : Suits req report
  free : need req ≤ c.freeFor report

/-- A higher score, or the same and no larger identifier. -/
def Ahead (a b : CapabilityReport) : Prop :=
  c.scoreFor req b < c.scoreFor req a ∨
    (c.scoreFor req a = c.scoreFor req b ∧ toHyphenated a.nodeId ≤ toHyphenated b.nodeId)

/-- The node leads those that pass the filter. -/
structure Leads (report : CapabilityReport) : Prop where
  reported : report ∈ c.reports.values
  passes : c.Passes req report
  ahead : ∀ other ∈ c.reports.values, c.Passes req other → c.Ahead req report other

/-- The candidate is the node of the report with its score. -/
def IsCandidate (report : CapabilityReport) (candidate : Candidate) : Prop :=
  candidate.nodeId = report.nodeId ∧ candidate.score = c.scoreFor req report

/-- Every report is kept under its own node. -/
def Keyed : Prop := ∀ node report, c.reports.get node = some report → report.nodeId = node

/-- The controllers that the interface makes, `new` and the derived default first.
The ledger is a public field. -/
inductive Reachable : PlacementController → Prop
  | empty ledger maxReports : Reachable ⟨.empty, ledger, maxReports⟩
  | upsertReport {c c' : PlacementController} {report : CapabilityReport} :
    Reachable c → c.upsertReport report = .ok c' → Reachable c'
  | place {c : PlacementController} req : Reachable c → Reachable (c.place req).1
  | setLedger {c : PlacementController} ledger : Reachable c → Reachable { c with ledger }

variable {c req} {report : CapabilityReport}

theorem Keyed.upsertReport (hc : c.Keyed) {c' : PlacementController}
    (h : c.upsertReport report = .ok c') : c'.Keyed := by
  unfold Keyed at hc ⊢
  grind [PlacementController.upsertReport]

theorem Keyed.place (hc : c.Keyed) : (c.place req).1.Keyed := by
  unfold Keyed at hc ⊢
  grind [PlacementController.place]

theorem Reachable.keyed (h : Reachable c) : c.Keyed := by
  induction h with
  | empty => exact fun _ _ h => by simp at h
  | upsertReport _ hok ih => exact ih.upsertReport hok
  | place _ _ ih => exact ih.place
  | setLedger _ _ ih => exact ih

theorem passes_iff :
    c.Passes req report ↔ Suits req report ∧ (need req).millicores ≤ (c.freeFor report).millicores ∧
      (need req).memoryBytes ≤ (c.freeFor report).memoryBytes ∧
      (need req).gpuDevices ≤ (c.freeFor report).gpuDevices ∧
      ((normalizePorts req).requiresPort = true → 1 ≤ (c.freeFor report).ports) := by
  rw [Passes, hardFilter_eq_ok, suits_normalizePorts]
  rfl

theorem Feasible.passes (h : c.Feasible req report) : c.Passes req report :=
  hardFilter_of_fits h.suits h.free

/-- A node that passes is feasible once its free ports hold the request. -/
theorem Leads.feasible (h : c.Leads req report)
    (hports : (need req).ports ≤ (c.freeFor report).ports) : c.Feasible req report := by
  obtain ⟨hsuits, hcpu, hmem, hgpu, -⟩ := passes_iff.mp h.passes
  exact ⟨h.reported, hsuits, hcpu, hmem, hgpu, hports⟩

theorem Ahead.trans {a b d : CapabilityReport} (hab : c.Ahead req a b) (hbd : c.Ahead req b d) :
    c.Ahead req a d := by
  rcases hab with hab | ⟨hab, hid⟩ <;> rcases hbd with hbd | ⟨hbd, hid'⟩
  · exact Or.inl (hbd.trans hab)
  · exact Or.inl (hbd ▸ hab)
  · exact Or.inl (hab ▸ hbd)
  · exact Or.inr ⟨hab.trans hbd, hid.trans hid'⟩

/-- Only one node leads. -/
theorem Leads.unique (hc : c.Keyed) {a b : CapabilityReport} (ha : c.Leads req a)
    (hb : c.Leads req b) : a = b := by
  have hid : a.nodeId = b.nodeId := by
    apply toHyphenated_injective
    rcases ha.ahead b hb.reported hb.passes with hab | ⟨hab, hle⟩ <;>
      rcases hb.ahead a ha.reported ha.passes with hba | ⟨hba, hge⟩
    · omega
    · omega
    · omega
    · exact le_antisymm hle hge
  have hget {r : CapabilityReport} (hr : r ∈ c.reports.values) :
      c.reports.get r.nodeId = some r := by
    obtain ⟨⟨node, r'⟩, hmem, rfl⟩ := List.mem_map.mp hr
    have hnode := OrdMap.mem_entries_iff.mp hmem
    rw [hc node r' hnode]
    exact hnode
  have hsame := hget ha.reported
  rw [hid, hget hb.reported] at hsame
  exact (Option.some.inj hsame).symm

/-! ## The scan -/

section Scan

variable (c req)

/-- What one report does to the lead: it takes it, or leaves it. -/
theorem best_considerReport (scan : Scan) (report : CapabilityReport) :
    (c.Passes req report ∧ takesLead scan.best report.nodeId (c.scoreFor req report) = true ∧
      ∃ b, c.IsCandidate req report b ∧
        (considerReport c.ledger (normalizePorts req) scan report).best = some b) ∨
    ((c.Passes req report → takesLead scan.best report.nodeId (c.scoreFor req report) = false) ∧
      (considerReport c.ledger (normalizePorts req) scan report).best = scan.best) := by
  grind [considerReport, Passes, scoreFor, freeFor, IsCandidate]

/-- Over any reports the scan keeps one that passes and is ahead of the others
that pass, and keeps none only if none passes. -/
theorem scan_spec (reports : List CapabilityReport) :
    ((reports.foldl (considerReport c.ledger (normalizePorts req)) {}).best = none →
      ∀ r ∈ reports, ¬c.Passes req r) ∧
    ∀ b, (reports.foldl (considerReport c.ledger (normalizePorts req)) {}).best = some b →
      ∃ a ∈ reports, c.Passes req a ∧ c.IsCandidate req a b ∧
        ∀ r ∈ reports, c.Passes req r → c.Ahead req a r := by
  induction reports using List.reverseRecOn with
  | nil => simp
  | append_singleton reports report ih =>
    obtain ⟨hnone, hsome⟩ := ih
    rw [List.foldl_concat]
    generalize reports.foldl (considerReport c.ledger (normalizePorts req)) {} = scan
      at hnone hsome ⊢
    rcases best_considerReport c req scan report with
      ⟨hpasses, hlead, b, hb, hbest⟩ | ⟨hlead, hbest⟩
    · rw [hbest]
      refine ⟨by simp, fun b' hb' => ?_⟩
      obtain rfl := Option.some.inj hb'
      refine ⟨report, by simp, hpasses, hb, fun r hr hr' => ?_⟩
      -- The new leader is ahead of the old one, and so of all before it.
      rcases List.mem_append.mp hr with hr | hr
      · cases hold : scan.best with
        | none => exact absurd hr' (hnone hold r hr)
        | some old =>
          obtain ⟨a, -, -, ha, hahead⟩ := hsome old hold
          refine Ahead.trans ?_ (hahead r hr hr')
          simp only [hold, takesLead, decide_eq_true_iff, ha.1, ha.2] at hlead
          exact hlead.imp id fun h => ⟨h.1, h.2.le⟩
      · rw [List.mem_singleton.mp hr]
        exact Or.inr ⟨rfl, le_refl _⟩
    · rw [hbest]
      refine ⟨fun h r hr => ?_, fun b hb => ?_⟩
      · rcases List.mem_append.mp hr with hr | hr
        · exact hnone h r hr
        · rw [List.mem_singleton.mp hr]
          intro hpasses
          simpa [h, takesLead] using hlead hpasses
      · obtain ⟨a, ha, hpasses, hcand, hahead⟩ := hsome b hb
        refine ⟨a, List.mem_append_left _ ha, hpasses, hcand, fun r hr hr' => ?_⟩
        rcases List.mem_append.mp hr with hr | hr
        · exact hahead r hr hr'
        · rw [List.mem_singleton.mp hr] at hr' ⊢
          have hkeeps := hlead hr'
          simp only [hb, takesLead, decide_eq_false_iff_not, hcand.1, hcand.2, not_or,
            not_and, not_lt] at hkeeps
          rcases hkeeps.1.lt_or_eq with hlt | heq
          · exact Or.inl hlt
          · exact Or.inr ⟨heq.symm, hkeeps.2 heq⟩

end Scan

/-! ## The outcome -/

/-- In a controller that the interface has made, the unit has no reservation and the
ledger is below its ceilings. -/
structure Open (c : PlacementController) (req : WorkloadRequirements) : Prop where
  reachable : Reachable c
  fresh : c.ledger.unitIndex.get req.unitId = none
  reservations : c.ledger.unitIndex.size < c.ledger.maxReservations
  nodes : c.ledger.nodes.size < c.ledger.maxNodes

/-- A placement schedules on the leading node or, if that lacks the ports or there
is none, nowhere. -/
theorem place_cases (h : c.Open req) :
    (∃ a plan, c.Leads req a ∧ (need req).ports ≤ (c.freeFor a).ports ∧
      (c.place req).2 = .scheduled plan ∧ plan.reservation.nodeId = a.nodeId) ∨
    ((∀ plan, (c.place req).2 ≠ .scheduled plan) ∧
      ((∀ r ∈ c.reports.values, ¬c.Passes req r) ∨
        ∃ a, c.Leads req a ∧ ¬(need req).ports ≤ (c.freeFor a).ports)) := by
  obtain ⟨hnone, hsome⟩ := scan_spec c req c.reports.values
  cases hbest : (c.reports.values.foldl (considerReport c.ledger (normalizePorts req)) {}).best with
  | none =>
    right
    exact ⟨by simp [place, hbest], Or.inl (hnone hbest)⟩
  | some b =>
    obtain ⟨a, ha, hpasses, hcand, hahead⟩ := hsome b hbest
    have hleads : c.Leads req a := ⟨ha, hpasses, hahead⟩
    obtain ⟨node, hget⟩ := OrdMap.mem_values_iff.mp ha
    obtain rfl := h.reachable.keyed node a hget
    by_cases hports : (need req).ports ≤ (c.freeFor a).ports
    · left
      have hreserve := ResourceLedger.reserve_of_fits a.revision a.placementFence
        ⟨h.fresh, h.reservations, Or.inr h.nodes⟩ (hleads.feasible hports).free
      have hplan : ∃ plan, (c.place req).2 = .scheduled plan ∧
          plan.reservation.nodeId = a.nodeId := by
        simp only [place, hbest, hcand.1, hget, unitId_normalizePorts, hreserve]
        exact ⟨_, rfl, rfl⟩
      obtain ⟨plan, hplan, hnode⟩ := hplan
      exact ⟨a, plan, hleads, hports, hplan, hnode⟩
    · right
      have hlack : ¬(c.ledger.HasRoom req.unitId a.nodeId ∧ need req ≤ c.freeFor a) :=
        fun hfits => hports hfits.2.2.2.2
      obtain ⟨reason, hreserve⟩ := ResourceLedger.reserve_of_not_fits a.revision
        a.placementFence hlack
      refine ⟨?_, Or.inr ⟨a, hleads, hports⟩⟩
      simp [place, hbest, hcand.1, hget, unitId_normalizePorts, hreserve]

/-- A placement finds a node whenever one is feasible, takes the best of them, and
leaves the ledger alone when it finds none. -/
structure PlacesWell (c : PlacementController) (req : WorkloadRequirements) : Prop where
  complete : (∃ plan, (c.place req).2 = .scheduled plan) ↔ ∃ a, c.Feasible req a
  best : ∀ plan, (c.place req).2 = .scheduled plan → ∃ a, c.Feasible req a ∧
    plan.reservation.nodeId = a.nodeId ∧ ∀ b, c.Feasible req b → c.Ahead req a b
  unchanged : ∀ matrix summary, (c.place req).2 = .unschedulable matrix summary →
    (c.place req).1.ledger = c.ledger

/-- A placement is complete exactly when, some node being feasible, the node that
leads the filter has the ports of the request free. -/
theorem place_complete_iff (h : c.Open req) :
    c.PlacesWell req ↔ ((∃ a, c.Feasible req a) → ∀ a, c.Leads req a →
      (need req).ports ≤ (c.freeFor a).ports) := by
  constructor
  · intro hwell hfeasible a ha
    rcases place_cases h with ⟨a', plan, hleads, hports, -, -⟩ | ⟨hrefused, -⟩
    · rw [ha.unique h.reachable.keyed hleads]
      exact hports
    · obtain ⟨plan, hplan⟩ := hwell.complete.mpr hfeasible
      exact absurd hplan (hrefused plan)
  · intro hports
    have hunchanged (matrix) (summary) (hout : (c.place req).2 = .unschedulable matrix summary) :
        (c.place req).1.ledger = c.ledger := by rw [place_unschedulable hout]
    rcases place_cases h with ⟨a, plan, hleads, hfree, hplan, hnode⟩ | ⟨hrefused, hreason⟩
    · refine ⟨⟨fun _ => ⟨a, hleads.feasible hfree⟩, fun _ => ⟨plan, hplan⟩⟩, ?_, hunchanged⟩
      intro plan' hplan'
      rw [hplan] at hplan'
      cases hplan'
      exact ⟨a, hleads.feasible hfree, hnode, fun b hb => hleads.ahead b hb.reported hb.passes⟩
    · refine ⟨⟨fun ⟨plan, hplan⟩ => absurd hplan (hrefused plan), fun hfeasible => ?_⟩,
        fun plan hplan => absurd hplan (hrefused plan), hunchanged⟩
      obtain ⟨b, hb⟩ := hfeasible
      rcases hreason with hnopass | ⟨a, hleads, hlack⟩
      · exact absurd hb.passes (hnopass b hb.reported)
      · exact absurd (hports ⟨b, hb⟩ a hleads) hlack

/-- A node under one byte with some allocatable resources. -/
def sampleReport (byte : UInt8) (allocatable : NodeResources) : CapabilityReport where
  nodeId := Octets.fill 16 byte
  revision := 1
  placementFence := 1
  arch := "x86_64"
  drivers := ["native"]
  capabilities := .empty
  allocatable := allocatable
  drained := false

/-- A unit that asks for two ports. -/
def sampleUnit : WorkloadRequirements where
  workloadId := Octets.fill 16 9
  unitId := Octets.fill 16 9
  arch := "x86_64"
  driver := "native"
  requiredEnforced := []
  request := ⟨100, 0, 0, 2⟩
  requiresPort := true
  lifecycleFinite := false

/-- A large node with some ports and a small one with two. -/
def sampleController (ports : Nat) : PlacementController where
  reports := .insert
    (.insert .empty (Octets.fill 16 1) (sampleReport 1 ⟨8000, 0, 0, ports⟩))
    (Octets.fill 16 2) (sampleReport 2 ⟨1000, 0, 0, 2⟩)
  ledger := .new
  maxReports := 4096

theorem open_sampleController (ports : Nat) : (sampleController ports).Open sampleUnit where
  reachable := by
    have hlarge : new.upsertReport (sampleReport 1 ⟨8000, 0, 0, ports⟩) = .ok _ := rfl
    exact ((Reachable.empty _ _).upsertReport hlarge).upsertReport
      (show upsertReport _ (sampleReport 2 ⟨1000, 0, 0, 2⟩) = _ from rfl)
  fresh := by simp [sampleController, ResourceLedger.new, ResourceLedger.withLimits]
  reservations := show 0 < 65536 by decide
  nodes := show 0 < 4096 by decide

theorem place_complete_iff_ports : (sampleController 2).Open sampleUnit ∧
    ((sampleController 2).PlacesWell sampleUnit ↔
      ((∃ a, (sampleController 2).Feasible sampleUnit a) →
        ∀ a, (sampleController 2).Leads sampleUnit a →
          (need sampleUnit).ports ≤ ((sampleController 2).freeFor a).ports)) :=
  ⟨open_sampleController 2, place_complete_iff (open_sampleController 2)⟩

/-- The large node leads with one port, the ledger refuses it, and the small node
that holds the whole request is not tried. -/
theorem feasible_node_unscheduled :
    (new.upsertReport (sampleReport 1 ⟨8000, 0, 0, 1⟩) >>=
      fun c => c.upsertReport (sampleReport 2 ⟨1000, 0, 0, 2⟩)) = .ok (sampleController 1) ∧
    (sampleController 1).Open sampleUnit ∧
    (sampleController 1).Feasible sampleUnit (sampleReport 2 ⟨1000, 0, 0, 2⟩) ∧
    ((sampleController 1).place sampleUnit).2 = .unschedulable
      [⟨Octets.fill 16 1, false,
          [⟨.millicores, 8000, "capacity changed before reserve commit"⟩], none, none⟩,
        ⟨Octets.fill 16 2, true, [], some 880,
          some ⟨.scoreHeadroom, 880, "residual headroom after headroomed request"⟩⟩]
      ⟨.millicores, 8000, "capacity changed before reserve commit"⟩ := by
  refine ⟨by decide +kernel, open_sampleController 1,
    ⟨by decide +kernel, ⟨rfl, rfl, by decide +kernel, by simp [sampleUnit]⟩, by decide +kernel⟩, ?_⟩
  decide +kernel

end PlacementController

end Gump.Scheduler
