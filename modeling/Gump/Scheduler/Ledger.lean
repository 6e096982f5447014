/-
  Scheduler/Ledger.lean --- the bounded resource ledger.

  A reservation holds the headroomed request of one unit on one node.  The ledger
  keeps the reservations by node with a running sum, and an index from units to
  nodes.  A reservation is refused before anything changes; a release drops it
  from both sides.
-/
import Mathlib.Algebra.GroupWithZero.Nat
import Gump.Scheduler.Capability

set_option autoImplicit false

namespace Gump.Scheduler

open Gump.Foundation Gump.Types

/-- Ceiling on retained node ledgers. -/
def defaultMaxNodes : Nat := 4096

/-- Ceiling on reservations. -/
def defaultMaxReservations : Nat := 65536

structure Reservation where
  unitId : UnitId
  nodeId : NodeId
  resources : NodeResources
  /-- Capability revision pinned at commit time. -/
  capabilityRevision : Nat
  /-- Placement fence pinned at commit time. -/
  placementFence : Nat
  deriving DecidableEq, Repr

/-- What is reserved on one node. -/
structure NodeLedger where
  reserved : NodeResources := {}
  byUnit : OrdMap UnitId Reservation := .empty
  deriving DecidableEq

/-- A node's ledger without the reservation of a unit. -/
def NodeLedger.without (node : NodeLedger) (r : Reservation) (unit : UnitId) : NodeLedger where
  reserved := node.reserved.saturatingSub r.resources
  byUnit := node.byUnit.erase unit

/-- Process-local resource ledger. -/
structure ResourceLedger where
  nodes : OrdMap NodeId NodeLedger
  /-- Index from units to nodes. -/
  unitIndex : OrdMap UnitId NodeId
  maxNodes : Nat
  maxReservations : Nat
  deriving DecidableEq

namespace ResourceLedger

def withLimits (maxNodes maxReservations : Nat) : ResourceLedger where
  nodes := .empty
  unitIndex := .empty
  maxNodes := max maxNodes 1
  maxReservations := max maxReservations 1

def new : ResourceLedger := withLimits defaultMaxNodes defaultMaxReservations

def reservationCount (L : ResourceLedger) : Nat := L.unitIndex.size

/-- The ledger of a node, empty if there is none. -/
def nodeLedger (L : ResourceLedger) (node : NodeId) : NodeLedger := (L.nodes.get node).getD {}

def reservedOn (L : ResourceLedger) (node : NodeId) : NodeResources := (L.nodeLedger node).reserved

def freeOn (L : ResourceLedger) (node : NodeId) (allocatable : NodeResources) : NodeResources :=
  allocatable.saturatingSub (L.reservedOn node)

/-- The reservation of a unit. -/
def get (L : ResourceLedger) (unit : UnitId) : Option Reservation :=
  (L.unitIndex.get unit).bind fun node => (L.nodes.get node).bind fun l => l.byUnit.get unit

/-- Enter a reservation on both sides. -/
def commit (L : ResourceLedger) (r : Reservation) : ResourceLedger :=
  let entry := L.nodeLedger r.nodeId
  { L with
    nodes := L.nodes.insert r.nodeId
      { reserved := entry.reserved.saturatingAdd r.resources
        byUnit := entry.byUnit.insert r.unitId r }
    unitIndex := L.unitIndex.insert r.unitId r.nodeId }

/-- Reserve the headroomed request of a unit if the free capacity allows. -/
def reserve (L : ResourceLedger) (unitId : UnitId) (nodeId : NodeId)
    (request allocatable : NodeResources) (capabilityRevision placementFence : Nat) :
    Except ExplainReason (Reservation × ResourceLedger) :=
  if L.unitIndex.contains unitId then
    .error ⟨.ledgerFull, 0, "unit already has a reservation"⟩
  else if L.unitIndex.size ≥ L.maxReservations then
    .error ⟨.ledgerFull, asI64 L.maxReservations, "reservation ceiling reached"⟩
  else if !L.nodes.contains nodeId ∧ L.nodes.size ≥ L.maxNodes then
    .error ⟨.ledgerFull, asI64 L.maxNodes, "node ledger ceiling reached"⟩
  else
    let need := withHeadroom request
    let free := L.freeOn nodeId allocatable
    if free.millicores < need.millicores ∨ free.memoryBytes < need.memoryBytes ∨
        free.gpuDevices < need.gpuDevices ∨ (need.ports > 0 ∧ free.ports < need.ports) then
      .error ⟨.millicores, free.millicores, "capacity changed before reserve commit"⟩
    else
      let reservation : Reservation :=
        ⟨unitId, nodeId, { need with ports := if need.ports > 0 then need.ports else 0 },
          capabilityRevision, placementFence⟩
      .ok (reservation, L.commit reservation)

/-- Drop the reservation of a unit; a node without reservations is dropped too. -/
def release (L : ResourceLedger) (unitId : UnitId) : Option Reservation × ResourceLedger :=
  match L.unitIndex.get unitId with
  | none => (none, L)
  | some nodeId =>
    let L₁ := { L with unitIndex := L.unitIndex.erase unitId }
    match L.nodes.get nodeId with
    | none => (none, L₁)
    | some node =>
      match node.byUnit.get unitId with
      | none => (none, L₁)
      | some r =>
        (some r, { L₁ with nodes :=
          if (node.byUnit.erase unitId).size = 0 then L.nodes.erase nodeId
          else L.nodes.insert nodeId (NodeLedger.without node r unitId) })

/-! ## Reserving -/

/-- The reservation that a unit would get on a node. -/
def reservationFor (unitId : UnitId) (nodeId : NodeId) (request : NodeResources)
    (capabilityRevision placementFence : Nat) : Reservation :=
  ⟨unitId, nodeId, withHeadroom request, capabilityRevision, placementFence⟩

/-- There is room in the ledger for a new reservation on a node. -/
structure HasRoom (L : ResourceLedger) (unitId : UnitId) (nodeId : NodeId) : Prop where
  fresh : L.unitIndex.get unitId = none
  reservations : L.unitIndex.size < L.maxReservations
  nodes : L.nodes.contains nodeId = true ∨ L.nodes.size < L.maxNodes

theorem commit_ports (need : NodeResources) :
    ({ need with ports := if need.ports > 0 then need.ports else 0 } : NodeResources) = need := by
  ext <;> simp
  omega

/-- The capacity test of a reservation is that the need fits what is free. -/
theorem capacity_iff {need free : NodeResources} :
    ¬(free.millicores < need.millicores ∨ free.memoryBytes < need.memoryBytes ∨
        free.gpuDevices < need.gpuDevices ∨ (need.ports > 0 ∧ free.ports < need.ports)) ↔
      need ≤ free := by
  rw [NodeResources.le_def]
  omega

variable {L : ResourceLedger}

theorem reserve_of_fits {unitId : UnitId} {nodeId : NodeId} {request allocatable : NodeResources}
    (revision fence : Nat) (hroom : L.HasRoom unitId nodeId)
    (hfits : withHeadroom request ≤ L.freeOn nodeId allocatable) :
    L.reserve unitId nodeId request allocatable revision fence =
      .ok (reservationFor unitId nodeId request revision fence,
        L.commit (reservationFor unitId nodeId request revision fence)) := by
  have hfresh : L.unitIndex.contains unitId = false := OrdMap.contains_eq_false_iff.mpr hroom.fresh
  have hcount : ¬ L.unitIndex.size ≥ L.maxReservations := Nat.not_le.mpr hroom.reservations
  have hnodes : ¬((!L.nodes.contains nodeId) = true ∧ L.nodes.size ≥ L.maxNodes) := by
    rintro ⟨habsent, hfull⟩
    rcases hroom.nodes with hpresent | hlt
    · simp [hpresent] at habsent
    · omega
  unfold reserve
  simp only [hfresh, Bool.false_eq_true, if_false, hcount, hnodes, capacity_iff.mpr hfits,
    commit_ports]
  rfl

theorem reserve_of_not_fits {unitId : UnitId} {nodeId : NodeId}
    {request allocatable : NodeResources} (revision fence : Nat)
    (h : ¬(L.HasRoom unitId nodeId ∧ withHeadroom request ≤ L.freeOn nodeId allocatable)) :
    ∃ reason, L.reserve unitId nodeId request allocatable revision fence = .error reason := by
  unfold reserve
  split
  · exact ⟨_, rfl⟩
  · rename_i hfresh
    split
    · exact ⟨_, rfl⟩
    · rename_i hcount
      split
      · exact ⟨_, rfl⟩
      · rename_i hnodes
        simp only
        split
        · exact ⟨_, rfl⟩
        · rename_i hcapacity
          refine absurd ⟨⟨?_, by omega, ?_⟩, capacity_iff.mp hcapacity⟩ h
          · exact OrdMap.contains_eq_false_iff.mp (Bool.eq_false_iff.mpr hfresh)
          · by_contra hnone
            simp only [not_or, Bool.not_eq_true, not_lt] at hnone
            exact hnodes ⟨by simp [hnone.1], hnone.2⟩

/-! ## The reservation of a unit -/

/-- The index and the reservations by node list the same units. -/
structure Consistent (L : ResourceLedger) : Prop where
  held : ∀ unit node, L.unitIndex.get unit = some node →
    ∃ l r, L.nodes.get node = some l ∧ l.byUnit.get unit = some r
  indexed : ∀ node l unit r, L.nodes.get node = some l → l.byUnit.get unit = some r →
    L.unitIndex.get unit = some node

theorem consistent_new : new.Consistent where
  held := by intro unit node h; simp [new, withLimits] at h
  indexed := by intro node l unit r h; simp [new, withLimits] at h

variable {unit : UnitId}

theorem isSome_get_iff (hL : L.Consistent) :
    (L.get unit).isSome = true ↔ L.unitIndex.contains unit = true := by
  unfold get OrdMap.contains
  cases hindex : L.unitIndex.get unit with
  | none => simp
  | some node =>
    obtain ⟨l, r, hnode, hunit⟩ := hL.held unit node hindex
    simp [hnode, hunit]

@[simp] theorem get_commit_self (L : ResourceLedger) (r : Reservation) :
    (L.commit r).get r.unitId = some r := by
  simp [get, commit]

variable {r : Reservation}

theorem get_commit_of_ne (h : unit ≠ r.unitId) : (L.commit r).get unit = L.get unit := by
  simp only [get, commit, OrdMap.get_insert_of_ne _ _ h]
  cases L.unitIndex.get unit with
  | none => rfl
  | some node =>
    simp only [Option.bind_some]
    by_cases hnode : node = r.nodeId
    · subst hnode
      cases hl : L.nodes.get r.nodeId <;> simp [nodeLedger, hl, OrdMap.get_insert_of_ne _ _ h]
    · rw [OrdMap.get_insert_of_ne _ _ hnode]

theorem Consistent.commit (hL : L.Consistent) (hfresh : L.unitIndex.get r.unitId = none) :
    (L.commit r).Consistent where
  held := by
    intro unit node hindex
    by_cases hunit : unit = r.unitId
    · subst hunit
      simp only [ResourceLedger.commit, OrdMap.get_insert_self, Option.some.injEq] at hindex
      subst hindex
      exact ⟨_, r, OrdMap.get_insert_self _ _ _, OrdMap.get_insert_self _ _ _⟩
    · simp only [ResourceLedger.commit, OrdMap.get_insert_of_ne _ _ hunit] at hindex ⊢
      obtain ⟨l, r', hl, hr'⟩ := hL.held unit node hindex
      by_cases hnode : node = r.nodeId
      · subst hnode
        refine ⟨_, r', OrdMap.get_insert_self _ _ _, ?_⟩
        simpa [nodeLedger, hl, OrdMap.get_insert_of_ne _ _ hunit] using hr'
      · exact ⟨l, r', by rw [OrdMap.get_insert_of_ne _ _ hnode]; exact hl, hr'⟩
  indexed := by
    intro node l unit r' hl hr'
    simp only [ResourceLedger.commit] at hl ⊢
    -- A unit held after the commit is the new one or was held before it.
    by_cases hunit : unit = r.unitId
    · by_cases hnode : node = r.nodeId
      · rw [hunit, hnode, OrdMap.get_insert_self]
      · rw [OrdMap.get_insert_of_ne _ _ hnode] at hl
        have hold := hL.indexed node l unit r' hl hr'
        rw [hunit, hfresh] at hold
        cases hold
    · rw [OrdMap.get_insert_of_ne _ _ hunit]
      by_cases hnode : node = r.nodeId
      · subst hnode
        rw [OrdMap.get_insert_self, Option.some.injEq] at hl
        subst hl
        simp only [OrdMap.get_insert_of_ne _ _ hunit] at hr'
        cases hold : L.nodes.get r.nodeId with
        | none => simp [nodeLedger, hold] at hr'
        | some l₀ =>
          refine hL.indexed _ l₀ unit r' hold ?_
          simpa [nodeLedger, hold] using hr'
      · rw [OrdMap.get_insert_of_ne _ _ hnode] at hl
        exact hL.indexed node l unit r' hl hr'

/-! ## Releasing -/

/-- What a release does to a consistent ledger that holds the unit. -/
theorem release_eq (hL : L.Consistent) {node : NodeId} (hindex : L.unitIndex.get unit = some node) :
    ∃ l r, L.nodes.get node = some l ∧ l.byUnit.get unit = some r ∧
      (L.release unit).2 = { L with
        unitIndex := L.unitIndex.erase unit
        nodes := if (l.byUnit.erase unit).size = 0 then L.nodes.erase node
          else L.nodes.insert node (NodeLedger.without l r unit) } := by
  obtain ⟨l, r, hl, hr⟩ := hL.held unit node hindex
  exact ⟨l, r, hl, hr, by simp [release, hindex, hl, hr]⟩

theorem release_of_absent (h : L.unitIndex.get unit = none) : L.release unit = (none, L) := by
  simp [release, h]

@[simp] theorem unitIndex_release (L : ResourceLedger) (unit : UnitId) :
    (L.release unit).2.unitIndex = L.unitIndex.erase unit := by
  unfold release
  cases hindex : L.unitIndex.get unit with
  | none => exact (OrdMap.erase_of_get_none hindex).symm
  | some node =>
    simp only
    split
    · rfl
    · split <;> rfl

theorem limits_release (L : ResourceLedger) (unit : UnitId) :
    (L.release unit).2.maxNodes = L.maxNodes ∧
      (L.release unit).2.maxReservations = L.maxReservations := by
  unfold release
  cases L.unitIndex.get unit with
  | none => simp
  | some node =>
    simp only
    split
    · simp
    · split <;> simp

/-- The reservations on a node after a release: those of the other units. -/
theorem byUnit_release (hL : L.Consistent) {node : NodeId}
    (hindex : L.unitIndex.get unit = some node) (m : NodeId) (other : UnitId) (hne : other ≠ unit) :
    (((L.release unit).2.nodes.get m).bind fun l => l.byUnit.get other) =
      (L.nodes.get m).bind fun l => l.byUnit.get other := by
  obtain ⟨l, r, hl, hr, hrelease⟩ := release_eq hL hindex
  rw [hrelease]
  simp only
  by_cases hm : m = node
  · subst hm
    split
    · rename_i hempty
      have hnone : l.byUnit.get other = none := by
        rw [← OrdMap.get_erase_of_ne _ hne, OrdMap.size_eq_zero_iff.mp hempty, OrdMap.get_empty]
      simp [hl, hnone]
    · simp [hl, NodeLedger.without, OrdMap.get_erase_of_ne _ hne]
  · split
    · rw [OrdMap.get_erase_of_ne _ hm]
    · rw [OrdMap.get_insert_of_ne _ _ hm]

theorem get_release_self (L : ResourceLedger) (unit : UnitId) :
    (L.release unit).2.get unit = none := by
  simp [get]

theorem get_release_of_ne (hL : L.Consistent) {other : UnitId} (hne : other ≠ unit) :
    (L.release unit).2.get other = L.get other := by
  cases hindex : L.unitIndex.get unit with
  | none => rw [release_of_absent hindex]
  | some node =>
    unfold get
    rw [unitIndex_release, OrdMap.get_erase_of_ne _ hne]
    cases L.unitIndex.get other with
    | none => rfl
    | some m => exact byUnit_release hL hindex m other hne

theorem Consistent.release (hL : L.Consistent) (unit : UnitId) : (L.release unit).2.Consistent := by
  cases hindex : L.unitIndex.get unit with
  | none =>
    rw [release_of_absent hindex]
    exact hL
  | some node =>
    refine ⟨?_, ?_⟩
    · intro other m hother
      rw [unitIndex_release] at hother
      have hne : other ≠ unit := by
        rintro rfl
        simp at hother
      rw [OrdMap.get_erase_of_ne _ hne] at hother
      obtain ⟨l, r, hl, hr⟩ := hL.held other m hother
      have hkept := byUnit_release hL hindex m other hne
      rw [hl, Option.bind_some, hr] at hkept
      obtain ⟨l', hl', hr'⟩ := Option.bind_eq_some_iff.mp hkept
      exact ⟨l', r, hl', hr'⟩
    · intro m l' other r' hl' hr'
      by_cases hne : other = unit
      · -- The released unit is gone from its node, and was on no other node.
        subst hne
        obtain ⟨l, r, hl, hr, hrelease⟩ := release_eq hL hindex
        rw [hrelease] at hl'
        simp only at hl'
        by_cases hm : m = node
        · subst hm
          split at hl'
          · simp at hl'
          · rw [OrdMap.get_insert_self, Option.some.injEq] at hl'
            subst hl'
            simp [NodeLedger.without] at hr'
        · have hold : L.nodes.get m = some l' := by
            split at hl'
            · rwa [OrdMap.get_erase_of_ne _ hm] at hl'
            · rwa [OrdMap.get_insert_of_ne _ _ hm] at hl'
          have hother := hL.indexed m l' other r' hold hr'
          rw [hindex, Option.some.injEq] at hother
          exact absurd hother.symm hm
      · rw [unitIndex_release, OrdMap.get_erase_of_ne _ hne]
        have hkept := byUnit_release hL hindex m other hne
        rw [hl', Option.bind_some, hr'] at hkept
        obtain ⟨l, hl, hr⟩ := Option.bind_eq_some_iff.mp hkept.symm
        exact hL.indexed m l other r' hl hr

/-! ## The sum on a node -/

@[simp] theorem reservedOn_commit (L : ResourceLedger) (r : Reservation) :
    (L.commit r).reservedOn r.nodeId = (L.reservedOn r.nodeId).saturatingAdd r.resources := by
  simp [reservedOn, nodeLedger, commit]

theorem reservedOn_release_le (hL : L.Consistent) (unit : UnitId) (m : NodeId) :
    (L.release unit).2.reservedOn m ≤ L.reservedOn m := by
  cases hindex : L.unitIndex.get unit with
  | none =>
    rw [release_of_absent hindex]
    exact NodeResources.le_refl _
  | some node =>
    obtain ⟨l, r, hl, hr, hrelease⟩ := release_eq hL hindex
    rw [hrelease]
    simp only [reservedOn, nodeLedger]
    by_cases hm : m = node
    · subst hm
      split
      · simp only [OrdMap.get_erase_self, Option.getD_none]
        exact NodeResources.zero_le _
      · simp only [OrdMap.get_insert_self, hl, Option.getD_some, NodeLedger.without]
        simp [NodeResources.le_def, NodeResources.saturatingSub]
    · split
      · rw [OrdMap.get_erase_of_ne _ hm]
        exact NodeResources.le_refl _
      · rw [OrdMap.get_insert_of_ne _ _ hm]
        exact NodeResources.le_refl _

/-- Every reservation is on the node `n`. -/
def OnlyOn (n : NodeId) (L : ResourceLedger) : Prop := ∀ m, m ≠ n → L.nodes.get m = none

theorem OnlyOn.commit (h : L.OnlyOn r.nodeId) : (L.commit r).OnlyOn r.nodeId := by
  intro m hm
  simp only [ResourceLedger.commit, OrdMap.get_insert_of_ne _ _ hm]
  exact h m hm

theorem OnlyOn.release {n : NodeId} (h : L.OnlyOn n) (unit : UnitId) :
    (L.release unit).2.OnlyOn n := by
  intro m hm
  have hnone := h m hm
  unfold ResourceLedger.release
  split
  · exact hnone
  · rename_i node hindex
    simp only
    split
    · exact hnone
    · rename_i l hl
      have hne : m ≠ node := by
        rintro rfl
        rw [hnone] at hl
        cases hl
      split
      · exact hnone
      · simp only
        split
        · rw [OrdMap.get_erase_of_ne _ hne]; exact hnone
        · rw [OrdMap.get_insert_of_ne _ _ hne]; exact hnone

/-- A ledger confined to one node never meets the ceiling on nodes there. -/
theorem OnlyOn.room {n : NodeId} (h : L.OnlyOn n) (hmax : 0 < L.maxNodes) :
    L.nodes.contains n = true ∨ L.nodes.size < L.maxNodes := by
  cases hn : L.nodes.get n with
  | some l => exact Or.inl (OrdMap.contains_eq_true_iff.mpr ⟨l, hn⟩)
  | none =>
    right
    have hempty : L.nodes = OrdMap.empty := by
      apply OrdMap.ext_get
      intro m
      by_cases hm : m = n
      · rw [hm, hn, OrdMap.get_empty]
      · rw [h m hm, OrdMap.get_empty]
    rw [hempty, OrdMap.size_empty]
    exact hmax

end ResourceLedger

end Gump.Scheduler
