/-
  Memory/Authority/Controller.lean --- controller authority and its fences
  (`authority/fence.rs`, `authority/controller.rs`).

  The cluster holds at most one controller authority: the token issued last, bound
  to a lease in the record machine's lease table.  An effect is accepted under the
  token that is current and whose lease is live.
-/
import Gump.Memory.Records.Lease
import Gump.Memory.Records.Record

set_option autoImplicit false

namespace Gump.Memory

open Gump.Foundation

/-! ## Fences -/

/-- Controller fence: epoch, opaque fence bytes and binding lease. -/
structure FenceToken where
  epoch : Nat
  fence : Octets 16
  leaseId : Nat
  deriving DecidableEq, Repr

/-- Deterministic fence bytes: the first half of the hash of the three words. -/
def FenceToken.deriveFence [Blake3] (epoch holder nonce : Nat) : Octets 16 :=
  (Blake3.hash (toLeBytes epoch ++ toLeBytes holder ++ toLeBytes nonce)).truncate 16 (by decide)

/-- Why an effect under a presented fence was rejected. -/
inductive EffectReject where
  /-- The presented epoch is not the current one. -/
  | staleEpoch (current presented : Nat)
  /-- Same epoch but different fence bytes. -/
  | fenceMismatch (epoch : Nat)
  /-- The lease is expired or unknown. -/
  | expiredOrUnverifiable (leaseId : Nat)
  /-- No controller authority has been acquired yet. -/
  | noAuthority
  deriving DecidableEq, Repr

/-- Why the controller authority refused an effect. -/
inductive ControllerError where
  | reject (e : EffectReject)
  deriving DecidableEq, Repr

/-- External-effect command carrying the controller fence. -/
structure EffectCommand where
  token : FenceToken
  declarationGeneration : Nat
  objectRevision : Nat
  opId : Nat
  deriving DecidableEq, Repr

/-! ## The authority record -/

/-- Cluster-side controller authority record. -/
structure ControllerAuthority where
  current : Option FenceToken
  holder : Option Nat
  /-- Monotonic acquire counter used when deriving deterministic fences. -/
  acquireNonce : Nat
  deriving DecidableEq, Repr

namespace ControllerAuthority

/-- No authority acquired yet. -/
def new : ControllerAuthority := { current := none, holder := none, acquireNonce := 0 }

/-- The epoch of the current token. -/
def epoch (a : ControllerAuthority) : Nat := (a.current.map FenceToken.epoch).getD 0

/-- `AcquireController`: a token of the next epoch under a fresh lease with the
controller lifetime. -/
def acquire [Blake3] (a : ControllerAuthority) (holder nowMs : Nat) (leases : LeaseTable) :
    ControllerAuthority × LeaseTable × FenceToken :=
  let acquireNonce := saturatingAdd a.acquireNonce 1
  let epoch := saturatingAdd a.epoch 1
  let fence := FenceToken.deriveFence epoch holder acquireNonce
  let granted := leases.grant .controllerAuthority nowMs
  let token : FenceToken := { epoch := epoch, fence := fence, leaseId := granted.2.id }
  ({ current := some token, holder := some holder, acquireNonce := acquireNonce }, granted.1, token)

/-- Linearizable validation: the presented token must match the current live
authority. -/
def validateEffect (a : ControllerAuthority) (cmd : EffectCommand) (nowMs : Nat)
    (leases : LeaseTable) : Except ControllerError Unit :=
  match a.current with
  | none => .error (.reject .noAuthority)
  | some current =>
    if cmd.token.epoch < current.epoch then
      .error (.reject (.staleEpoch current.epoch cmd.token.epoch))
    else if cmd.token.epoch > current.epoch then
      -- an epoch not committed here is as unverifiable as a stale one
      .error (.reject (.staleEpoch current.epoch cmd.token.epoch))
    else if cmd.token.fence ≠ current.fence ∨ cmd.token.leaseId ≠ current.leaseId then
      .error (.reject (.fenceMismatch current.epoch))
    else
      match leases.get cmd.token.leaseId with
      | some lease =>
        if lease.expiresAtMs > nowMs then .ok ()
        else .error (.reject (.expiredOrUnverifiable cmd.token.leaseId))
      | none => .error (.reject (.expiredOrUnverifiable cmd.token.leaseId))

/-- Validation succeeds exactly for the current token while its lease is live. -/
theorem validateEffect_eq_ok_iff {a : ControllerAuthority} {cmd : EffectCommand} {nowMs : Nat}
    {leases : LeaseTable} :
    a.validateEffect cmd nowMs leases = .ok () ↔
      a.current = some cmd.token ∧
        ∃ lease, leases.get cmd.token.leaseId = some lease ∧ nowMs < lease.expiresAtMs := by
  unfold validateEffect
  cases hcur : a.current with
  | none => simp
  | some current =>
    by_cases htoken : current = cmd.token
    · subst htoken
      cases hget : leases.get cmd.token.leaseId with
      | none => simp
      | some lease =>
        by_cases hlive : nowMs < lease.expiresAtMs
        · simp [hlive]
        · simp [hlive]
    · have hne : ¬ (cmd.token.epoch = current.epoch ∧ cmd.token.fence = current.fence ∧
          cmd.token.leaseId = current.leaseId) := by
        rintro ⟨hepoch, hfence, hlease⟩
        apply htoken
        cases current
        cases htok : cmd.token
        simp_all
      simp only [Option.some.injEq, htoken, false_and, iff_false]
      intro hok
      split at hok
      · simp at hok
      · split at hok
        · simp at hok
        · split at hok
          · simp at hok
          · rename_i hlt hgt hsame
            push Not at hsame
            exact hne ⟨by omega, hsame.1, hsame.2⟩

end ControllerAuthority

end Gump.Memory
