/-
  Scheduler/Balance.lean --- the books of the resource ledger.

  The ledger keeps a sum per node beside the reservations it sums, and an index
  beside both.  `Balanced` says that the three agree, that the sums are exact and
  that the ceilings hold.  Every call keeps it.
-/
import Gump.Foundation.Run
import Gump.Scheduler.Ledger

set_option autoImplicit false

namespace Gump.Scheduler

open Gump.Foundation Gump.Types

/-- The exact sum of the resources of some reservations. -/
def total (m : OrdMap UnitId Reservation) : NodeResources where
  millicores := m.sumBy fun _ r => r.resources.millicores
  memoryBytes := m.sumBy fun _ r => r.resources.memoryBytes
  gpuDevices := m.sumBy fun _ r => r.resources.gpuDevices
  ports := m.sumBy fun _ r => r.resources.ports

theorem total_insert {m : OrdMap UnitId Reservation} {unit : UnitId} (r : Reservation)
    (h : m.get unit = none) : total (m.insert unit r) = total m + r.resources := by
  have hsum (f : UnitId → Reservation → Nat) :
      (m.insert unit r).sumBy f = m.sumBy f + f unit r := by
    simpa [h] using m.sumBy_insert f unit r
  ext <;> simp only [total, hsum] <;> rfl

theorem total_erase {m : OrdMap UnitId Reservation} {unit : UnitId} {r : Reservation}
    (h : m.get unit = some r) : total (m.erase unit) + r.resources = total m := by
  have hsum (f : UnitId → Reservation → Nat) := OrdMap.sumBy_erase f h
  ext <;> simp only [total, ← hsum] <;> rfl

theorem NodeResources.saturatingSub_of_add {a b c : NodeResources} (h : a + b = c) :
    c.saturatingSub b = a := by
  subst h
  ext <;> simp [NodeResources.saturatingSub]

/-- A need that fits beside what is used stays within the larger of what is used
and what there is. -/
theorem NodeResources.add_le_of_fits {used need all bound : NodeResources}
    (hfits : need ≤ all.saturatingSub used) (hused : used ≤ bound) (hall : all ≤ bound) :
    used + need ≤ bound := by
  simp only [NodeResources.le_def, NodeResources.saturatingSub, NodeResources.add_millicores,
    NodeResources.add_memoryBytes, NodeResources.add_gpuDevices,
    NodeResources.add_ports] at hfits hused hall ⊢
  omega

namespace ResourceLedger

/-- The books agree, the sums are exact and the ceilings hold. -/
structure Balanced (L : ResourceLedger) : Prop extends L.Consistent where
  named : ∀ node l unit r, L.nodes.get node = some l → l.byUnit.get unit = some r →
    r.unitId = unit ∧ r.nodeId = node
  sums : ∀ node, L.reservedOn node = total (L.nodeLedger node).byUnit
  words : ∀ node, L.reservedOn node ≤ NodeResources.wordMax
  inhabited : ∀ node l, L.nodes.get node = some l → l.byUnit.size ≠ 0
  nodes_le : L.nodes.size ≤ L.maxNodes
  reservations_le : L.unitIndex.size ≤ L.maxReservations

theorem balanced_withLimits (maxNodes maxReservations : Nat) :
    (withLimits maxNodes maxReservations).Balanced where
  held := by intro unit node h; simp [withLimits] at h
  indexed := by intro node l unit r h; simp [withLimits] at h
  named := by intro node l unit r h; simp [withLimits] at h
  sums := by intro node; simp [reservedOn, nodeLedger, withLimits]; rfl
  words := by intro node; simp [reservedOn, nodeLedger, withLimits]; exact NodeResources.zero_le _
  inhabited := by intro node l h; simp [withLimits] at h
  nodes_le := Nat.zero_le _
  reservations_le := Nat.zero_le _

theorem nodeLedger_commit (L : ResourceLedger) (r : Reservation) (node : NodeId) :
    (L.commit r).nodeLedger node = if node = r.nodeId then
      { reserved := (L.reservedOn node).saturatingAdd r.resources
        byUnit := (L.nodeLedger node).byUnit.insert r.unitId r }
      else L.nodeLedger node := by
  grind [nodeLedger, commit, reservedOn]

variable {L : ResourceLedger} {unit : UnitId}

theorem nodeLedger_get_none (hL : L.Consistent) (h : L.unitIndex.get unit = none) (node : NodeId) :
    (L.nodeLedger node).byUnit.get unit = none := by
  cases hl : L.nodes.get node with
  | none => simp [nodeLedger, hl]
  | some l =>
    rw [nodeLedger, hl, Option.getD_some, Option.eq_none_iff_forall_ne_some]
    intro r hr
    rw [hL.indexed node l unit r hl hr] at h
    cases h

variable {r : Reservation}

/-- A reservation that fits within machine words keeps the books. -/
theorem Balanced.commit (hL : L.Balanced) (hroom : L.HasRoom r.unitId r.nodeId)
    (hfits : L.reservedOn r.nodeId + r.resources ≤ NodeResources.wordMax) :
    (L.commit r).Balanced := by
  have hexact := NodeResources.saturatingAdd_eq_add hfits
  have hfresh := nodeLedger_get_none hL.toConsistent hroom.fresh r.nodeId
  refine ⟨hL.toConsistent.commit hroom.fresh, ?_, ?_, ?_, ?_, ?_, ?_⟩
  · intro node l unit r' hl hr'
    have hnamed := hL.named
    cases hold : L.nodes.get r.nodeId <;> grind [ResourceLedger.commit, nodeLedger]
  · intro node
    by_cases hnode : node = r.nodeId
    · subst hnode
      rw [reservedOn, nodeLedger_commit, if_pos rfl]
      simp only [hexact, total_insert r hfresh, ← hL.sums]
    · rw [reservedOn, nodeLedger_commit, if_neg hnode]
      exact hL.sums node
  · intro node
    by_cases hnode : node = r.nodeId
    · subst hnode
      rw [reservedOn_commit, hexact]
      exact hfits
    · rw [reservedOn, nodeLedger_commit, if_neg hnode]
      exact hL.words node
  · intro node l hl
    have hsome := hL.inhabited
    grind [ResourceLedger.commit, nodeLedger]
  · have hnodes := hroom.nodes
    have hle := hL.nodes_le
    simp only [ResourceLedger.commit]
    cases hold : L.nodes.get r.nodeId with
    | none => grind
    | some l => rw [OrdMap.size_insert_of_some _ hold]; exact hle
  · simp only [ResourceLedger.commit, OrdMap.size_insert_of_none _ hroom.fresh]
    exact hroom.reservations

/-! ## Releasing -/

variable {node : NodeId}

/-- What a release does: it hands the reservation out and takes it off its node. -/
theorem release_spec (hL : L.Balanced) (hindex : L.unitIndex.get unit = some node) :
    ∃ l r, L.nodes.get node = some l ∧ l.byUnit.get unit = some r ∧
      L.release unit = (some r, { L with
        unitIndex := L.unitIndex.erase unit
        nodes := if (l.byUnit.erase unit).size = 0 then L.nodes.erase node
          else L.nodes.insert node (NodeLedger.without l r unit) }) := by
  obtain ⟨l, r, hl, hr⟩ := hL.held unit node hindex
  exact ⟨l, r, hl, hr, by simp [release, hindex, hl, hr]⟩

/-- A release takes exactly the reservation's resources off its node. -/
theorem nodeLedger_release (hL : L.Balanced) (hindex : L.unitIndex.get unit = some node)
    (m : NodeId) : ∃ l r, L.nodes.get node = some l ∧ l.byUnit.get unit = some r ∧
      (L.release unit).2.nodeLedger m = (if m = node then
        { reserved := total (l.byUnit.erase unit), byUnit := l.byUnit.erase unit }
        else L.nodeLedger m) := by
  obtain ⟨l, r, hl, hr, hrelease⟩ := release_spec hL hindex
  refine ⟨l, r, hl, hr, ?_⟩
  have hsum : l.reserved.saturatingSub r.resources = total (l.byUnit.erase unit) := by
    apply NodeResources.saturatingSub_of_add
    rw [total_erase hr]
    simpa [reservedOn, nodeLedger, hl] using (hL.sums node).symm
  rw [hrelease]
  by_cases hm : m = node
  · subst hm
    simp only [nodeLedger, if_true]
    split
    · rename_i hempty
      rw [OrdMap.size_eq_zero_iff.mp hempty, OrdMap.get_erase_self]
      rfl
    · rw [OrdMap.get_insert_self, Option.getD_some, NodeLedger.without, hsum]
  · grind [nodeLedger]

theorem Balanced.release (hL : L.Balanced) (unit : UnitId) : (L.release unit).2.Balanced := by
  cases hindex : L.unitIndex.get unit with
  | none => rw [release_of_absent hindex]; exact hL
  | some node =>
    obtain ⟨l, r, hl, hr, hrelease⟩ := release_spec hL hindex
    have hnode (m : NodeId) := nodeLedger_release hL hindex m
    have hle (m : NodeId) := reservedOn_release_le hL.toConsistent unit m
    refine ⟨hL.toConsistent.release unit, ?_, ?_, ?_, ?_, ?_, ?_⟩
    · have hnamed := hL.named
      grind [NodeLedger.without]
    · intro m
      obtain ⟨l', r', hl', hr', hm⟩ := hnode m
      rw [reservedOn, hm]
      split
      · rfl
      · exact hL.sums m
    · intro m
      exact NodeResources.le_trans (hle m) (hL.words m)
    · have hsome := hL.inhabited
      grind [NodeLedger.without]
    · have hbound := hL.nodes_le
      rw [hrelease]
      simp only
      split
      · have := OrdMap.size_erase_of_some hl
        omega
      · rw [OrdMap.size_insert_of_some _ hl]
        exact hbound
    · have hbound := hL.reservations_le
      have := OrdMap.size_erase_of_some hindex
      rw [unitIndex_release, (limits_release L unit).2]
      omega

/-- Releasing what was just reserved gives the ledger back. -/
theorem release_commit (hL : L.Balanced) (hfresh : L.unitIndex.get r.unitId = none)
    (hfits : L.reservedOn r.nodeId + r.resources ≤ NodeResources.wordMax) :
    (L.commit r).release r.unitId = (some r, L) := by
  have hback : (L.reservedOn r.nodeId + r.resources).saturatingSub r.resources =
      L.reservedOn r.nodeId := NodeResources.saturatingSub_of_add rfl
  have hunit := nodeLedger_get_none hL.toConsistent hfresh r.nodeId
  have hindex := OrdMap.erase_of_get_none hfresh
  rw [← NodeResources.saturatingAdd_eq_add hfits] at hback
  simp only [release, ResourceLedger.commit, OrdMap.get_insert_self, OrdMap.erase_insert_self,
    OrdMap.erase_of_get_none hunit, hindex, NodeLedger.without, OrdMap.insert_insert_self]
  rw [show (L.nodeLedger r.nodeId).reserved = L.reservedOn r.nodeId from rfl, hback]
  cases hold : L.nodes.get r.nodeId with
  | none => simp [nodeLedger, hold, OrdMap.erase_of_get_none hold]
  | some l =>
    have hsome := hL.inhabited _ l hold
    simp [reservedOn, nodeLedger, hold, hsome, OrdMap.insert_of_get hold]

/-! ## Calls -/

/-- A call on the ledger.  The counters of an allocatable are machine words. -/
inductive LedgerCall where
  | reserve (unitId : UnitId) (nodeId : NodeId) (request : NodeResources)
      (allocatable : { a : NodeResources // a ≤ NodeResources.wordMax })
      (capabilityRevision placementFence : Nat)
  | release (unitId : UnitId)

/-- One call; a refused reservation leaves the ledger. -/
def call (L : ResourceLedger) : LedgerCall → ResourceLedger × Option Reservation
  | .reserve unitId nodeId request allocatable revision fence =>
    match L.reserve unitId nodeId request allocatable revision fence with
    | .ok (r, L') => (L', some r)
    | .error _ => (L, none)
  | .release unitId => ((L.release unitId).2, (L.release unitId).1)

/-- What a reservation does: nothing, or it enters one that fits. -/
theorem call_reserve_cases (L : ResourceLedger) (unitId : UnitId) (nodeId : NodeId)
    (request : NodeResources) (allocatable : { a : NodeResources // a ≤ NodeResources.wordMax })
    (revision fence : Nat) :
    L.call (.reserve unitId nodeId request allocatable revision fence) = (L, none) ∨
      ∃ r : Reservation, r.unitId = unitId ∧ r.nodeId = nodeId ∧ L.HasRoom r.unitId r.nodeId ∧
        r.resources ≤ L.freeOn r.nodeId allocatable ∧
        L.call (.reserve unitId nodeId request allocatable revision fence) =
          (L.commit r, some r) := by
  by_cases h : L.HasRoom unitId nodeId ∧ withHeadroom request ≤ L.freeOn nodeId allocatable
  · right
    exact ⟨reservationFor unitId nodeId request revision fence, rfl, rfl, h.1, h.2,
      by simp only [call, reserve_of_fits revision fence h.1 h.2]⟩
  · left
    obtain ⟨reason, hreason⟩ := reserve_of_not_fits revision fence h
    simp only [call, hreason]

theorem Balanced.fits (hL : L.Balanced) {need : NodeResources}
    {allocatable : { a : NodeResources // a ≤ NodeResources.wordMax }}
    (h : need ≤ L.freeOn node allocatable) : L.reservedOn node + need ≤ NodeResources.wordMax :=
  NodeResources.add_le_of_fits h (hL.words node) allocatable.2

theorem Balanced.call (hL : L.Balanced) (c : LedgerCall) : (L.call c).1.Balanced := by
  cases c with
  | release unitId => exact hL.release unitId
  | reserve unitId nodeId request allocatable revision fence =>
    rcases call_reserve_cases L unitId nodeId request allocatable revision fence with
      hcall | ⟨r, hunit, hnode, hroom, hfits, hcall⟩
    · rw [hcall]
      exact hL
    · rw [hcall]
      exact hL.commit hroom (hL.fits hfits)

theorem limits_call (L : ResourceLedger) (c : LedgerCall) :
    (L.call c).1.maxNodes = L.maxNodes ∧ (L.call c).1.maxReservations = L.maxReservations := by
  cases c with
  | release unitId => exact limits_release L unitId
  | reserve unitId nodeId request allocatable revision fence =>
    rcases call_reserve_cases L unitId nodeId request allocatable revision fence with
      hcall | ⟨r, hunit, hnode, hroom, hfits, hcall⟩ <;> rw [hcall] <;> exact ⟨rfl, rfl⟩

/-- The ledger after some calls. -/
def afterCalls (maxNodes maxReservations : Nat) (calls : List LedgerCall) : ResourceLedger :=
  runFrom call (withLimits maxNodes maxReservations) calls

theorem balanced_afterCalls (maxNodes maxReservations : Nat) (calls : List LedgerCall) :
    (afterCalls maxNodes maxReservations calls).Balanced :=
  runFrom_invariant (fun _ c hL => hL.call c) (balanced_withLimits maxNodes maxReservations) calls

theorem limits_afterCalls (maxNodes maxReservations : Nat) (calls : List LedgerCall) :
    (afterCalls maxNodes maxReservations calls).maxNodes = max maxNodes 1 ∧
      (afterCalls maxNodes maxReservations calls).maxReservations = max maxReservations 1 :=
  runFrom_invariant (P := fun L : ResourceLedger => L.maxNodes = max maxNodes 1 ∧
      L.maxReservations = max maxReservations 1)
    (fun L c hL => by rw [(limits_call L c).1, (limits_call L c).2]; exact hL) ⟨rfl, rfl⟩ calls

/-- The call reserves on the node against what the node has. -/
def LedgerCall.Against (node : NodeId) (all : NodeResources) : LedgerCall → Prop
  | .reserve _ nodeId _ allocatable _ _ => nodeId = node → allocatable = all
  | .release _ => True

/-- What is reserved on a node stays within the allocatable that every
reservation there is checked against. -/
theorem reservedOn_le_of_against (hL : L.Balanced) {all : NodeResources}
    (hle : L.reservedOn node ≤ all) {c : LedgerCall} (hc : c.Against node all) :
    (L.call c).1.reservedOn node ≤ all := by
  cases c with
  | release unitId =>
    exact NodeResources.le_trans (reservedOn_release_le hL.toConsistent unitId node) hle
  | reserve unitId nodeId request allocatable revision fence =>
    rcases call_reserve_cases L unitId nodeId request allocatable revision fence with
      hcall | ⟨r, hunit, hnode, hroom, hfits, hcall⟩
    · rw [hcall]
      exact hle
    · rw [hcall]
      by_cases hsame : node = r.nodeId
      · subst hsame
        rw [reservedOn_commit, NodeResources.saturatingAdd_eq_add (hL.fits hfits)]
        have hall : allocatable.1 = all := hc hnode.symm
        rw [hall] at hfits
        exact NodeResources.add_le_of_fits hfits hle (NodeResources.le_refl _)
      · rw [reservedOn, nodeLedger_commit, if_neg hsame]
        exact hle

theorem afterCalls_le_of_against (maxNodes maxReservations : Nat) {all : NodeResources}
    {calls : List LedgerCall} (h : ∀ c ∈ calls, c.Against node all) :
    (afterCalls maxNodes maxReservations calls).reservedOn node ≤ all := by
  refine (runFrom_of_inputs (P := fun (L : ResourceLedger) (rest : List LedgerCall) =>
    L.Balanced ∧ L.reservedOn node ≤ all ∧ ∀ c ∈ rest, c.Against node all) ?_
    ⟨balanced_withLimits maxNodes maxReservations, NodeResources.zero_le _, h⟩).2.1
  intro L c rest hL
  obtain ⟨hbalanced, hle, hall⟩ := hL
  exact ⟨hbalanced.call c, reservedOn_le_of_against hbalanced hle (hall c List.mem_cons_self),
    fun c' hc' => hall c' (List.mem_cons_of_mem _ hc')⟩

/-- A reservation followed by the release of its unit restores the ledger. -/
theorem release_call_reserve (hL : L.Balanced) {unitId : UnitId} {nodeId : NodeId}
    {request : NodeResources} {allocatable : { a : NodeResources // a ≤ NodeResources.wordMax }}
    {revision fence : Nat}
    (h : (L.call (.reserve unitId nodeId request allocatable revision fence)).2 = some r) :
    (L.call (.reserve unitId nodeId request allocatable revision fence)).1.release unitId =
      (some r, L) := by
  rcases call_reserve_cases L unitId nodeId request allocatable revision fence with
    hcall | ⟨r', hunit, hnode, hroom, hfits, hcall⟩
  · rw [hcall] at h
    cases h
  · rw [hcall] at h ⊢
    cases h
    subst hunit
    exact release_commit hL hroom.fresh (hL.fits hfits)

/-- A release hands out the unit's reservation and takes its resources off its
node and off no other. -/
theorem release_exact (hL : L.Balanced) (h : L.get unit = some r) : (L.release unit).1 = some r ∧
      (L.release unit).2.reservedOn r.nodeId + r.resources = L.reservedOn r.nodeId ∧
      ∀ node, node ≠ r.nodeId → (L.release unit).2.reservedOn node = L.reservedOn node := by
  obtain ⟨node, hindex, hbind⟩ := Option.bind_eq_some_iff.mp h
  obtain ⟨l, hl, hr⟩ := Option.bind_eq_some_iff.mp hbind
  obtain ⟨l', r', hl', hr', hrelease⟩ := release_spec hL hindex
  obtain rfl : r' = r := by grind
  obtain rfl : l' = l := by grind
  have hnode : r'.nodeId = node := (hL.named node l' unit r' hl hr).2
  have hafter (m : NodeId) := nodeLedger_release hL hindex m
  refine ⟨by rw [hrelease], ?_, ?_⟩
  · obtain ⟨l'', r'', hl'', hr'', hm⟩ := hafter r'.nodeId
    obtain rfl : l'' = l' := by grind
    have hsums := hL.sums node
    simp only [reservedOn, nodeLedger, hl, Option.getD_some] at hsums
    rw [reservedOn, hm, if_pos hnode, total_erase hr]
    simp [reservedOn, nodeLedger, hnode, hl, hsums]
  · intro m hm
    obtain ⟨l'', r'', hl'', hr'', hm'⟩ := hafter m
    rw [reservedOn, hm', if_neg (by rw [← hnode]; exact hm)]
    rfl

theorem call_of_none (hL : L.Balanced) {c : LedgerCall} (h : (L.call c).2 = none) :
    (L.call c).1 = L := by
  cases c with
  | release unitId =>
    cases hindex : L.unitIndex.get unitId with
    | none => simp [call, release_of_absent hindex]
    | some node =>
      obtain ⟨l, r, hl, hr, hrelease⟩ := release_spec hL hindex
      simp [call, hrelease] at h
  | reserve unitId nodeId request allocatable revision fence =>
    rcases call_reserve_cases L unitId nodeId request allocatable revision fence with
      hcall | ⟨r, hunit, hnode, hroom, hfits, hcall⟩ <;> rw [hcall] at h ⊢
    cases h

/-- After every sequence of calls the index and the nodes hold the same
reservations, each sum is exact, the ceilings hold, a release undoes its
reservation, a call that fails changes nothing, and a node whose reservations are
all checked against one allocatable never exceeds it. -/
theorem ledger_balanced (maxNodes maxReservations : Nat) (calls : List LedgerCall) :
    let L := afterCalls maxNodes maxReservations calls
    (∀ unit node, L.unitIndex.get unit = some node ↔
      ∃ l r, L.nodes.get node = some l ∧ l.byUnit.get unit = some r ∧
        r.unitId = unit ∧ r.nodeId = node) ∧
    (∀ node l unit, L.nodes.get node = some l → (l.byUnit.get unit).isSome →
      L.unitIndex.get unit = some node) ∧
    (∀ node, L.reservedOn node = total (L.nodeLedger node).byUnit ∧
      L.reservedOn node ≤ NodeResources.wordMax) ∧
    L.nodes.size ≤ max maxNodes 1 ∧ L.unitIndex.size ≤ max maxReservations 1 ∧
    (∀ unitId nodeId request allocatable revision fence r,
      (L.call (.reserve unitId nodeId request allocatable revision fence)).2 = some r →
      (L.call (.reserve unitId nodeId request allocatable revision fence)).1.get unitId = some r ∧
      (L.call (.reserve unitId nodeId request allocatable revision fence)).1.release unitId =
        (some r, L)) ∧
    (∀ unit r, L.get unit = some r → (L.release unit).1 = some r ∧
      (L.release unit).2.get unit = none ∧
      (∀ other, other ≠ unit → (L.release unit).2.get other = L.get other) ∧
      (L.release unit).2.reservedOn r.nodeId + r.resources = L.reservedOn r.nodeId ∧
      ∀ node, node ≠ r.nodeId → (L.release unit).2.reservedOn node = L.reservedOn node) ∧
    (∀ c, (L.call c).2 = none → (L.call c).1 = L) ∧
    ∀ node all, (∀ c ∈ calls, c.Against node all) → L.reservedOn node ≤ all := by
  intro L
  have hL : L.Balanced := balanced_afterCalls maxNodes maxReservations calls
  have hlimits := limits_afterCalls maxNodes maxReservations calls
  refine ⟨?_, ?_, fun node => ⟨hL.sums node, hL.words node⟩, ?_, ?_, ?_, ?_,
    fun c hc => call_of_none hL hc, fun node all h => afterCalls_le_of_against _ _ h⟩
  · intro unit node
    constructor
    · intro hindex
      obtain ⟨l, r, hl, hr⟩ := hL.held unit node hindex
      exact ⟨l, r, hl, hr, hL.named node l unit r hl hr⟩
    · rintro ⟨l, r, hl, hr, -⟩
      exact hL.indexed node l unit r hl hr
  · intro node l unit hl hunit
    obtain ⟨r, hr⟩ := Option.isSome_iff_exists.mp hunit
    exact hL.indexed node l unit r hl hr
  · rw [← hlimits.1]
    exact hL.nodes_le
  · rw [← hlimits.2]
    exact hL.reservations_le
  · intro unitId nodeId request allocatable revision fence r hr
    have hundo := release_call_reserve hL hr
    refine ⟨?_, hundo⟩
    rcases call_reserve_cases L unitId nodeId request allocatable revision fence with
      hcall | ⟨r', hunit, hnode, hroom, hfits, hcall⟩
    · rw [hcall] at hr
      cases hr
    · rw [hcall] at hr ⊢
      cases hr
      subst hunit
      exact get_commit_self L r
  · intro unit r hr
    obtain ⟨hout, hsum, hothers⟩ := release_exact hL hr
    exact ⟨hout, get_release_self L unit, fun other hne => get_release_of_ne hL.toConsistent hne,
      hsum, hothers⟩

end ResourceLedger

end Gump.Scheduler
