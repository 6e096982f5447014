/-
  Memory/Snapshot.lean --- what a snapshot keeps, and what its reader rebuilds.

  A snapshot drops the pending queue of the record machine, the limits, and the
  cached time of the oldest receipt.  The reader starts with an empty queue and
  the production limits, and recomputes the cache.  Between commands nothing is
  lost by this: the queue is empty, the limits never change, and the cache is
  the true minimum.
-/
import Gump.Memory.Desired
import Gump.Memory.Receipts

set_option autoImplicit false

namespace Gump.Memory

open Gump.Foundation

/-- The serialized fields of the record machine. -/
structure TypedRecordMachineWire where
  revision : Nat
  records : OrdMap RecordKey RecordValue
  budgets : MemoryBudgets
  usage : BudgetUsage
  nowMs : Nat
  watch : WatchHistory
  leases : LeaseTable

namespace TypedRecordMachine

/-- The fields that are written. -/
def toWire (m : TypedRecordMachine) : TypedRecordMachineWire where
  revision := m.revision
  records := m.records
  budgets := m.budgets
  usage := m.usage
  nowMs := m.nowMs
  watch := m.watch
  leases := m.leases

/-- The machine that is read back; the skipped queue is empty. -/
def ofWire (wire : TypedRecordMachineWire) : TypedRecordMachine where
  revision := wire.revision
  records := wire.records
  budgets := wire.budgets
  usage := wire.usage
  nowMs := wire.nowMs
  watch := wire.watch
  leases := wire.leases
  pending := []

theorem ofWire_toWire {m : TypedRecordMachine} (h : m.pending = []) : ofWire m.toWire = m := by
  unfold ofWire toWire
  rw [← h]

end TypedRecordMachine

/-- The serialized fields of the cluster state. -/
structure ClusterStateWire where
  records : TypedRecordMachineWire
  controller : ControllerAuthority
  desired : OrdMap AppKey DesiredEntry
  finiteCompletions : OrdSet CompletionKey
  idempotency : OrdMap Id16 IdempotencyEntry

namespace ClusterState

/-- The fields that are written. -/
def toWire (s : ClusterState) : ClusterStateWire where
  records := s.records.toWire
  controller := s.controller
  desired := s.desired
  finiteCompletions := s.finiteCompletions
  idempotency := s.idempotency

/-- The state that is read back: production limits, and a recomputed cache. -/
def ofWire (wire : ClusterStateWire) : ClusterState :=
  recomputeIdempotencyOldest
    { records := TypedRecordMachine.ofWire wire.records
      controller := wire.controller
      desired := wire.desired
      finiteCompletions := wire.finiteCompletions
      idempotency := wire.idempotency
      idempotencyMaxEntries := idempotencyMaxEntriesDefault
      idempotencyTtlMs := idempotencyTtlMsDefault
      idempotencyOldestMs := none
      desiredMaxEntries := desiredMaxEntriesDefault
      desiredMaxTotalBytes := desiredMaxTotalBytesDefault }

/-- What the reader cannot see and has to guess right. -/
structure Restorable (s : ClusterState) : Prop where
  pending : s.records.pending = []
  cache : s.CacheRight
  maxEntries : s.idempotencyMaxEntries = idempotencyMaxEntriesDefault
  ttlMs : s.idempotencyTtlMs = idempotencyTtlMsDefault
  desiredEntries : s.desiredMaxEntries = desiredMaxEntriesDefault
  desiredBytes : s.desiredMaxTotalBytes = desiredMaxTotalBytesDefault

theorem Restorable.ofWire_toWire {s : ClusterState} (h : Restorable s) : ofWire s.toWire = s := by
  have hcache : (s.idempotency.values.map IdempotencyEntry.recordedAtMs).min? =
      s.idempotencyOldestMs := h.cache.symm
  unfold ofWire toWire recomputeIdempotencyOldest
  simp only [TypedRecordMachine.ofWire_toWire h.pending, hcache]
  rw [← h.maxEntries, ← h.ttlMs, ← h.desiredEntries, ← h.desiredBytes]

section Apply

variable [Blake3]

/-- Every state that commands reach from the initial one is restorable. -/
theorem restorable_run (cmds : List RaftCommand) : Restorable (runFrom apply new cmds) := by
  obtain ⟨ops, hops⟩ := records_reached new cmds
  have hreceipts := receiptInv_run
    (receiptInv_withIdempotencyLimits idempotencyMaxEntriesDefault idempotencyTtlMsDefault) cmds
  have hbounded : DesiredBounded new.core := ⟨Nat.zero_le _, Nat.zero_le _⟩
  obtain ⟨_, hentries, hbytes⟩ := desiredBounded_run hbounded cmds
  refine ⟨?_, hreceipts.inv.cache, hreceipts.maxEntries, hreceipts.ttlMs, hentries, hbytes⟩
  rw [hops]
  exact TypedRecordMachine.pending_run rfl ops

/-- **Installing a snapshot is invisible.**  A replica that reads the snapshot of
a reachable state answers every later command as a replica that replayed the
log, and is in the same state after it. -/
theorem snapshot_install_invisible (cmds later : List RaftCommand) :
    let s := runFrom apply new cmds
    let s' := ofWire s.toWire
    outputs apply s' later = outputs apply s later ∧
      runFrom apply s' later = runFrom apply s later := by
  intro s s'
  have hs : s' = s := (restorable_run cmds).ofWire_toWire
  rw [hs]
  exact ⟨rfl, rfl⟩

end Apply

end ClusterState

end Gump.Memory
