/-
  Agent/Fence.lean --- fenced authority and isolation grace.

  An agent acts for a placement only while its own authority carries the same
  fence and it is not cut off from the controller.  Once isolated it may keep what
  runs, until the grace of its isolation policy has passed.
-/
import Mathlib.Algebra.GroupWithZero.Nat
import Gump.Foundation.Words

set_option autoImplicit false

namespace Gump.Agent

open Gump.Foundation

/-- Default isolation grace: 15 minutes. -/
def defaultIsolationGraceMs : Nat := 15 * 60 * 1000

/-- Confirmation window used when `stopOnIsolation` is set. -/
def stopOnIsolationConfirmMs : Nat := 1000

/-- Controller and placement authority as known to the agent. -/
structure AuthorityState where
  controllerEpoch : Nat
  placementFence : Nat
  /-- Set while the agent cannot validate its authority. -/
  isolatedSinceMs : Option Nat
  deriving DecidableEq, Repr

namespace AuthorityState

/-- Authority of an agent that reaches its controller. -/
def connected (controllerEpoch placementFence : Nat) : AuthorityState :=
  ⟨controllerEpoch, placementFence, none⟩

/-- Whether the agent is cut off. -/
def isIsolated (a : AuthorityState) : Bool := a.isolatedSinceMs.isSome

end AuthorityState

/-- Isolation policy declared for an agent. -/
structure IsolationPolicy where
  graceMs : Nat := defaultIsolationGraceMs
  stopOnIsolation : Bool := false
  confirmWindowMs : Nat := stopOnIsolationConfirmMs
  deriving DecidableEq, Repr

/-- The grace that applies: the short window when isolation stops work. -/
def IsolationPolicy.effectiveGraceMs (p : IsolationPolicy) : Nat :=
  if p.stopOnIsolation then p.confirmWindowMs else p.graceMs

/-- Effects gated by fence and isolation. -/
inductive EffectKind where
  | start
  | restart
  | stop
  | publish
  | refresh
  | report
  deriving DecidableEq, Repr

/-- Why an effect is refused. -/
inductive FenceError where
  | staleFence (live expected : Nat)
  | isolated (effect : EffectKind)
  | graceExpired
  deriving DecidableEq, Repr

/-- Require the live fence to be exactly `expectedFence`. -/
def requireFence (authority : AuthorityState) (expectedFence : Nat) : Except FenceError Unit :=
  if authority.placementFence ≠ expectedFence then
    .error (.staleFence authority.placementFence expectedFence)
  else .ok ()

/-- Gate of every start, restart, stop, publish, refresh and report: the fence
first, then isolation. -/
def allowEffect (authority : AuthorityState) (expectedFence : Nat) (effect : EffectKind) :
    Except FenceError Unit :=
  match requireFence authority expectedFence with
  | .error e => .error e
  | .ok () => if authority.isIsolated then .error (.isolated effect) else .ok ()

/-- Whether isolation has lasted for the whole grace. -/
def isolationGraceExpired (authority : AuthorityState) (policy : IsolationPolicy)
    (nowMs : Nat) : Bool :=
  match authority.isolatedSinceMs with
  | none => false
  | some since => decide (nowMs - since ≥ policy.effectiveGraceMs)

/-! ## What the gates decide -/

variable {authority : AuthorityState}

theorem requireFence_eq_ok {fence : Nat} :
    requireFence authority fence = .ok () ↔ authority.placementFence = fence := by
  unfold requireFence
  split <;> simp_all

/-- An effect is allowed exactly for the live fence of an agent that is not
isolated, whatever the effect. -/
theorem allowEffect_eq_ok {fence : Nat} {effect : EffectKind} :
    allowEffect authority fence effect = .ok () ↔
      authority.placementFence = fence ∧ authority.isIsolated = false := by
  unfold allowEffect
  cases h : requireFence authority fence with
  | error e =>
    have hne : authority.placementFence ≠ fence := by
      intro heq
      rw [requireFence_eq_ok.mpr heq] at h
      cases h
    simp [hne]
  | ok u =>
    have heq := requireFence_eq_ok.mp h
    cases hiso : authority.isIsolated <;> simp [heq]

theorem isIsolated_of_graceExpired {policy : IsolationPolicy} {nowMs : Nat}
    (h : isolationGraceExpired authority policy nowMs = true) : authority.isIsolated = true := by
  unfold isolationGraceExpired at h
  cases hsince : authority.isolatedSinceMs with
  | none => simp [hsince] at h
  | some since => simp [AuthorityState.isIsolated, hsince]

end Gump.Agent
