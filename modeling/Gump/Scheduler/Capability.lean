/-
  Scheduler/Capability.lean --- node facts, hard requirements and scores.

  A node reports what it can run and what it can allocate.  A workload declares
  hard requirements; a conservative headroom is added to its request.  The hard
  filter lists every requirement that fails, and a score among the survivors
  prefers the node with the most left.
-/
import Mathlib.Algebra.GroupWithZero.Nat
import Mathlib.Data.String.Basic
import Gump.Foundation.OrdMap
import Gump.Foundation.Words
import Gump.Types.Id

set_option autoImplicit false

namespace Gump.Scheduler

open Gump.Foundation Gump.Types

/-! ## Resources -/

/-- Allocatable or reserved resource counters of one node. -/
@[ext] structure NodeResources where
  millicores : Nat := 0
  memoryBytes : Nat := 0
  gpuDevices : Nat := 0
  /-- Ephemeral host ports. -/
  ports : Nat := 0
  deriving DecidableEq, Repr

namespace NodeResources

def saturatingSub (a used : NodeResources) : NodeResources where
  millicores := a.millicores - used.millicores
  memoryBytes := a.memoryBytes - used.memoryBytes
  gpuDevices := a.gpuDevices - used.gpuDevices
  ports := a.ports - used.ports

def saturatingAdd (a b : NodeResources) : NodeResources where
  millicores := saturatingAdd32 a.millicores b.millicores
  memoryBytes := Foundation.saturatingAdd a.memoryBytes b.memoryBytes
  gpuDevices := saturatingAdd32 a.gpuDevices b.gpuDevices
  ports := saturatingAdd32 a.ports b.ports

/-- The exact sum of two counters. -/
instance : Add NodeResources where
  add a b := ⟨a.millicores + b.millicores, a.memoryBytes + b.memoryBytes,
    a.gpuDevices + b.gpuDevices, a.ports + b.ports⟩

instance : Zero NodeResources := ⟨{}⟩

/-- Every counter is at most the other. -/
instance : LE NodeResources where
  le a b := a.millicores ≤ b.millicores ∧ a.memoryBytes ≤ b.memoryBytes ∧
    a.gpuDevices ≤ b.gpuDevices ∧ a.ports ≤ b.ports

instance (a b : NodeResources) : Decidable (a ≤ b) :=
  inferInstanceAs (Decidable (_ ∧ _ ∧ _ ∧ _))

/-- Every counter fits its machine word. -/
def wordMax : NodeResources := ⟨u32Max, u64Max, u32Max, u32Max⟩

theorem le_def {a b : NodeResources} :
    a ≤ b ↔ a.millicores ≤ b.millicores ∧ a.memoryBytes ≤ b.memoryBytes ∧
      a.gpuDevices ≤ b.gpuDevices ∧ a.ports ≤ b.ports := Iff.rfl

variable (a b : NodeResources)

@[simp] theorem add_millicores : (a + b).millicores = a.millicores + b.millicores := rfl

@[simp] theorem add_memoryBytes : (a + b).memoryBytes = a.memoryBytes + b.memoryBytes := rfl

@[simp] theorem add_gpuDevices : (a + b).gpuDevices = a.gpuDevices + b.gpuDevices := rfl

@[simp] theorem add_ports : (a + b).ports = a.ports + b.ports := rfl

@[simp] theorem add_zero : a + 0 = a := rfl

theorem le_trans {a b c : NodeResources} (hab : a ≤ b) (hbc : b ≤ c) : a ≤ c :=
  ⟨hab.1.trans hbc.1, hab.2.1.trans hbc.2.1, hab.2.2.1.trans hbc.2.2.1, hab.2.2.2.trans hbc.2.2.2⟩

theorem le_refl : a ≤ a :=
  ⟨Nat.le_refl _, Nat.le_refl _, Nat.le_refl _, Nat.le_refl _⟩

theorem zero_le : 0 ≤ a :=
  ⟨Nat.zero_le _, Nat.zero_le _, Nat.zero_le _, Nat.zero_le _⟩

theorem le_add_right : a ≤ a + b :=
  ⟨Nat.le_add_right _ _, Nat.le_add_right _ _, Nat.le_add_right _ _, Nat.le_add_right _ _⟩

theorem add_assoc (c : NodeResources) : a + b + c = a + (b + c) := by
  ext <;> simp [Nat.add_assoc]

/-- What is free beside a used part within the whole holds a need exactly when
both fit together. -/
theorem le_saturatingSub_iff {need all used : NodeResources} (h : used ≤ all) :
    need ≤ all.saturatingSub used ↔ used + need ≤ all := by
  simp only [le_def, saturatingSub, add_millicores, add_memoryBytes, add_gpuDevices,
    add_ports] at h ⊢
  omega

/-- A saturating sum within the machine words is exact. -/
theorem saturatingAdd_eq_add {a b : NodeResources} (h : a + b ≤ wordMax) :
    a.saturatingAdd b = a + b := by
  simp only [le_def, add_millicores, add_memoryBytes, add_gpuDevices, add_ports, wordMax] at h
  ext
  · exact saturatingAdd32_eq h.1
  · exact Foundation.saturatingAdd_eq h.2.1
  · exact saturatingAdd32_eq h.2.2.1
  · exact saturatingAdd32_eq h.2.2.2

end NodeResources

/-! ## Reports and requirements -/

/-- How a protection is published. -/
inductive ProtectionLevel where
  | enforced
  | observed
  | unavailable
  deriving DecidableEq, Repr

def ProtectionLevel.asStr : ProtectionLevel → String
  | .enforced => "enforced"
  | .observed => "observed"
  | .unavailable => "unavailable"

/-- A placement that requires enforcement accepts only `enforced`. -/
def ProtectionLevel.satisfiesEnforcement : ProtectionLevel → Bool
  | .enforced => true
  | _ => false

/-- Revisioned capability report of one agent. -/
structure CapabilityReport where
  nodeId : NodeId
  /-- Reservations pin this revision. -/
  revision : Nat
  placementFence : Nat
  arch : String
  drivers : List String
  capabilities : OrdMap String ProtectionLevel
  allocatable : NodeResources
  drained : Bool
  deriving DecidableEq

namespace CapabilityReport

def driverSupported (r : CapabilityReport) (driver : String) : Bool := r.drivers.contains driver

def capabilityLevel (r : CapabilityReport) (name : String) : Option ProtectionLevel :=
  r.capabilities.get name

end CapabilityReport

/-- Declared hard requirements of one placement unit. -/
structure WorkloadRequirements where
  workloadId : WorkloadId
  unitId : UnitId
  arch : String
  driver : String
  /-- Capabilities that must be enforced. -/
  requiredEnforced : List String
  request : NodeResources
  /-- The node must have an allocatable port. -/
  requiresPort : Bool
  lifecycleFinite : Bool
  deriving DecidableEq, Repr

/-! ## Reasons -/

/-- Stable reason codes. -/
inductive ReasonCode where
  | archMismatch
  | driverMissing
  | capabilityMissing
  | capabilityNotEnforced
  | millicores
  | memory
  | gpu
  | portRequired
  | nodeDrained
  | ledgerFull
  | noCandidate
  | scoreHeadroom
  deriving DecidableEq, Repr

/-- One rejection or score component. -/
structure ExplainReason where
  code : ReasonCode
  evidence : Int
  detail : String
  deriving DecidableEq, Repr

/-! ## Headroom, filter and score -/

/-- A fifth of a counter rounded up, at least one for a positive counter. -/
def headroomOf (n : Nat) : Nat := max ((n + 4) / 5) (if n > 0 then 1 else 0)

/-- Conservative headroom on top of a declared request. -/
def withHeadroom (request : NodeResources) : NodeResources where
  millicores := saturatingAdd32 request.millicores (headroomOf request.millicores)
  memoryBytes := saturatingAdd request.memoryBytes (headroomOf request.memoryBytes)
  gpuDevices := request.gpuDevices
  ports := request.ports

/-- The reason why a required capability is not met, if it is not. -/
def capabilityReasons (report : CapabilityReport) (name : String) : List ExplainReason :=
  match report.capabilityLevel name with
  | none => [⟨.capabilityMissing, 0, s!"capability {name} absent"⟩]
  | some level =>
    if level.satisfiesEnforcement then []
    else [⟨.capabilityNotEnforced, 0,
      "capability " ++ name ++ " is " ++ level.asStr ++ " (need enforced)"⟩]

/-- A reason if the condition holds. -/
def reasonIf (condition : Bool) (reason : ExplainReason) : List ExplainReason :=
  if condition then [reason] else []

/-- Every hard requirement that fails on a node with the given free resources. -/
def failedRequirements (req : WorkloadRequirements) (report : CapabilityReport)
    (free : NodeResources) : List ExplainReason :=
  let need := withHeadroom req.request
  reasonIf report.drained ⟨.nodeDrained, 1, "node is drained"⟩ ++
  reasonIf (report.arch ≠ req.arch)
    ⟨.archMismatch, 0, s!"need arch {req.arch} have {report.arch}"⟩ ++
  reasonIf (!report.driverSupported req.driver)
    ⟨.driverMissing, 0, s!"driver {req.driver} not on node"⟩ ++
  req.requiredEnforced.flatMap (capabilityReasons report) ++
  reasonIf (free.millicores < need.millicores)
    ⟨.millicores, free.millicores, s!"need {need.millicores} millicores (with headroom)"⟩ ++
  reasonIf (free.memoryBytes < need.memoryBytes)
    ⟨.memory, asI64 free.memoryBytes, s!"need {need.memoryBytes} memory bytes (with headroom)"⟩ ++
  reasonIf (free.gpuDevices < need.gpuDevices)
    ⟨.gpu, free.gpuDevices, s!"need {need.gpuDevices} GPU devices"⟩ ++
  reasonIf (req.requiresPort && decide (free.ports < 1))
    ⟨.portRequired, free.ports, "workload requires a host port; node has none free"⟩

/-- Evaluate the hard requirements. -/
def hardFilter (req : WorkloadRequirements) (report : CapabilityReport)
    (free : NodeResources) : Except (List ExplainReason) Unit :=
  match failedRequirements req report free with
  | [] => .ok ()
  | reasons => .error reasons

/-- Residual headroom after the headroomed request; the higher score is
preferred. -/
def scoreResidualHeadroom (free request : NodeResources) : Int × ExplainReason :=
  let left := free.saturatingSub (withHeadroom request)
  let score := saturatingAddI64
    (saturatingAddI64 left.millicores (asI64 (left.memoryBytes / (1024 * 1024))))
    (left.gpuDevices * 1000)
  (score, ⟨.scoreHeadroom, score, "residual headroom after headroomed request"⟩)

/-! ## What the filter decides -/

/-- The requirements of a workload that do not depend on free resources. -/
structure Suits (req : WorkloadRequirements) (report : CapabilityReport) : Prop where
  undrained : report.drained = false
  arch : report.arch = req.arch
  driver : report.driverSupported req.driver = true
  enforced : ∀ name ∈ req.requiredEnforced, report.capabilityLevel name = some .enforced

theorem reasonIf_eq_nil {condition : Bool} {reason : ExplainReason} :
    reasonIf condition reason = [] ↔ condition = false := by
  cases condition <;> simp [reasonIf]

theorem capabilityReasons_eq_nil {report : CapabilityReport} {name : String} :
    capabilityReasons report name = [] ↔ report.capabilityLevel name = some .enforced := by
  unfold capabilityReasons
  cases report.capabilityLevel name with
  | none => simp
  | some level => cases level <;> simp [ProtectionLevel.satisfiesEnforcement]

/-- A node passes the filter exactly when it suits the workload and its free
resources hold the headroomed request, of ports only that one is left. -/
theorem hardFilter_eq_ok {req : WorkloadRequirements} {report : CapabilityReport}
    {free : NodeResources} :
    hardFilter req report free = .ok () ↔
      Suits req report ∧ (withHeadroom req.request).millicores ≤ free.millicores ∧
        (withHeadroom req.request).memoryBytes ≤ free.memoryBytes ∧
        (withHeadroom req.request).gpuDevices ≤ free.gpuDevices ∧
        (req.requiresPort = true → 1 ≤ free.ports) := by
  have hnil : hardFilter req report free = .ok () ↔ failedRequirements req report free = [] := by
    unfold hardFilter
    split <;> simp_all
  rw [hnil]
  simp only [failedRequirements, List.append_eq_nil_iff, reasonIf_eq_nil,
    List.flatMap_eq_nil_iff, capabilityReasons_eq_nil, Bool.and_eq_false_iff,
    decide_eq_false_iff_not, Bool.not_eq_false', ne_eq, not_not, not_lt]
  constructor
  · rintro ⟨⟨⟨⟨⟨⟨⟨hdrained, harch⟩, hdriver⟩, hcaps⟩, hcpu⟩, hmem⟩, hgpu⟩, hport⟩
    refine ⟨⟨hdrained, harch, hdriver, hcaps⟩, hcpu, hmem, hgpu, ?_⟩
    intro hreq
    rcases hport with hfalse | hle
    · rw [hreq] at hfalse
      cases hfalse
    · exact hle
  · rintro ⟨hsuits, hcpu, hmem, hgpu, hport⟩
    refine ⟨⟨⟨⟨⟨⟨⟨hsuits.undrained, hsuits.arch⟩, hsuits.driver⟩, hsuits.enforced⟩, hcpu⟩,
      hmem⟩, hgpu⟩, ?_⟩
    cases hreq : req.requiresPort with
    | false => exact Or.inl rfl
    | true => exact Or.inr (hport hreq)

end Gump.Scheduler
