/-
  Memory/Rejection.lean --- what a rejected command leaves behind.

  A rejected command leaves the cluster state as it was, with one exception.  A
  lease renewal commits its time stamp before it looks the lease up, and drops the
  lease if it is due; both stay when the renewal is then rejected.
-/
import Gump.Memory.ClusterStep

set_option autoImplicit false

namespace Gump.Memory

open Gump.Foundation

/-- The record machine after a rejected renewal: the clock has moved, the watch
history was retained at the new clock, and the lease is gone if there was one. -/
def TypedRecordMachine.afterFailedRenewal (m : TypedRecordMachine) (leaseId nowMs : Nat) :
    TypedRecordMachine :=
  { m.atTime nowMs with
    leases := { m.leases with leases := m.leases.leases.erase leaseId } }

/-- The command, bare or in an envelope, renews at an accepted time a lease that
does not exist or is due. -/
def FailsRenewal (m : TypedRecordMachine) (cmd : RaftCommand) (leaseId nowMs : Nat) : Prop :=
  cmd.body = .record (.leaseRenew leaseId nowMs) ∧ m.nowMs ≤ nowMs ∧
    ∀ lease, m.leases.get leaseId = some lease → lease.expiresAtMs ≤ nowMs

section Rejected

variable [Blake3]

/-- A record command that fails leaves the machine as it was, unless it is a
failed renewal. -/
theorem TypedRecordMachine.apply_error {m m' : TypedRecordMachine} {cmd : Command}
    {e : ApplyError} (h : m.apply cmd = (m', .error e)) :
    m' = m ∨ ∃ leaseId nowMs, FailsRenewal m (.record cmd) leaseId nowMs ∧
      m' = m.afterFailedRenewal leaseId nowMs := by
  have heff := m.apply_effect cmd
  rw [h] at heff
  generalize m.committed cmd = changes at heff
  cases heff with
  | refused _ => exact Or.inl rfl
  | @renewFailed leaseId nowMs _ hle herr =>
    obtain ⟨hdue, htable⟩ := LeaseTable.renew_error herr
    refine Or.inr ⟨leaseId, nowMs, ⟨rfl, hle, hdue⟩, ?_⟩
    unfold afterFailedRenewal
    rw [htable]

/-- A step of the core that answers with a rejection. -/
theorem CoreStep.rejected {c c' : ClusterCore} {cmd : RaftCommand} {message : String}
    (h : CoreStep c cmd c' (.rejected message)) :
    c' = c ∨ ∃ leaseId nowMs, FailsRenewal c.records cmd leaseId nowMs ∧
      c' = { c with records := c.records.afterFailedRenewal leaseId nowMs } := by
  cases h with
  | refused => exact Or.inl rfl
  | ran heff =>
    generalize hbody : cmd.body = body at heff
    cases heff with
    | declined _ => exact Or.inl rfl
    | recordRejected happly =>
      rcases TypedRecordMachine.apply_error happly with hsame | ⟨leaseId, nowMs, hfails, hm⟩
      · exact Or.inl (by rw [hsame])
      · refine Or.inr ⟨leaseId, nowMs, ⟨hbody.trans hfails.1, hfails.2⟩, by rw [hm]⟩

namespace ClusterState

/-- **A rejected command has no effect, but for failed renewals.**  Record map,
revision, usage, controller, declarations and completions are as before the call.
Clock, watch history and leases are as well, unless the command renews at an
accepted time stamp a lease that is missing or due: then the clock moves to the
stamp, the watch history is retained at it, and the lease is removed. -/
theorem rejected_without_effect_or_failed_renewal (s : ClusterState) (cmd : RaftCommand)
    (message : String) (h : (s.apply cmd).2 = .rejected message) :
    (s.apply cmd).1.controller = s.controller ∧
    (s.apply cmd).1.desired = s.desired ∧
    (s.apply cmd).1.finiteCompletions = s.finiteCompletions ∧
    (s.apply cmd).1.records.records = s.records.records ∧
    (s.apply cmd).1.records.revision = s.records.revision ∧
    (s.apply cmd).1.records.usage = s.records.usage ∧
    ((s.apply cmd).1.records = s.records ∨
      ∃ leaseId nowMs, FailsRenewal s.records cmd leaseId nowMs ∧
        (s.apply cmd).1.records = s.records.afterFailedRenewal leaseId nowMs) := by
  have hstep := s.apply_coreStep cmd
  rw [h] at hstep
  rcases hstep.rejected with hsame | ⟨leaseId, nowMs, hfails, hcore⟩
  · have hrecords : (s.apply cmd).1.records = s.records := congrArg ClusterCore.records hsame
    refine ⟨congrArg ClusterCore.controller hsame, congrArg ClusterCore.desired hsame,
      congrArg ClusterCore.finiteCompletions hsame, ?_⟩
    rw [hrecords]
    exact ⟨rfl, rfl, rfl, Or.inl rfl⟩
  · have hrecords : (s.apply cmd).1.records = s.records.afterFailedRenewal leaseId nowMs :=
      congrArg ClusterCore.records hcore
    refine ⟨congrArg ClusterCore.controller hcore, congrArg ClusterCore.desired hcore,
      congrArg ClusterCore.finiteCompletions hcore, ?_⟩
    rw [hrecords]
    exact ⟨rfl, rfl, rfl, Or.inr ⟨leaseId, nowMs, hfails, rfl⟩⟩

end ClusterState

end Rejected

namespace ClusterState

/-- A stale stamp is rejected and changes nothing. -/
theorem stale_stamp_without_effect :
    letI := Blake3.knownAnswers
    let s := runFrom apply new [.record (.advanceTime 5)]
    (s.apply (.record (.advanceTime 4))).2 =
        .rejected "committed time went backward: current=5 presented=4" ∧
      (s.apply (.record (.advanceTime 4))).1.records.revision = s.records.revision :=
  letI := Blake3.knownAnswers
  ⟨by decide, (rejected_without_effect_or_failed_renewal
    (runFrom apply new [.record (.advanceTime 5)]) (.record (.advanceTime 4))
    "committed time went backward: current=5 presented=4" (by decide)).2.2.2.2.1⟩

/-- The renewal of an expired lease is rejected, yet it moves the committed clock
and empties the lease table. -/
theorem rejected_renewal_moves_clock_and_drops_lease :
    letI := Blake3.knownAnswers
    let s := runFrom apply new [.record (.leaseGrant .memberLiveness 0)]
    let done := s.apply (.record (.leaseRenew 1 15000))
    done.2 = .rejected "lease 1 expired" ∧
      s.records.nowMs = 0 ∧ done.1.records.nowMs = 15000 ∧
      s.records.leases.get 1 ≠ none ∧ done.1.records.leases.get 1 = none := by
  decide

end ClusterState

end Gump.Memory
