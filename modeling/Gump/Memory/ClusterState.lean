/-
  Memory/ClusterState.lean --- the replicated cluster state (`cluster_state.rs`).

  Every authoritative mutation is a `RaftCommand` applied through
  `ClusterState.apply`.  The state joins the typed record machine, the controller
  authority, the desired declarations with the completions of their finite units,
  and the receipts of idempotent commands.
-/
import Gump.Memory.Authority.Controller
import Gump.Memory.Records.Machine
import Gump.Types.Label
import Mathlib.Data.List.MinMax

set_option autoImplicit false

namespace Gump.Memory

open Gump.Foundation Gump.Types

/-! ## Ceilings -/

/-- Most operation receipts retained. -/
def idempotencyMaxEntriesDefault : Nat := 100000

/-- Receipt lifetime in committed milliseconds, 24 hours. -/
def idempotencyTtlMsDefault : Nat := 24 * 60 * 60 * 1000

/-- Largest desired payload. -/
def desiredMaxPayloadBytes : Nat := 256 * 1024

/-- Most distinct desired declarations. -/
def desiredMaxEntriesDefault : Nat := 8192

/-- Most retained desired bytes. -/
def desiredMaxTotalBytesDefault : Nat := 64 * 1024 * 1024

/-- Most recorded completions of finite units. -/
def finiteCompletionMaxEntries : Nat := 100000

/-! ## Commands and responses -/

/-- An identifier of 16 bytes. -/
abbrev Id16 : Type := Octets 16

/-- Application request of the replicated log. -/
inductive RaftCommand where
  /-- Typed record, lease or transaction mutation. -/
  | record (cmd : Command)
  /-- Acquire the controller fence. -/
  | acquireController (holder : Nat)
  /-- Desired workload declaration; `expectedGeneration` 0 creates. -/
  | putDesired (ns app : String) (expectedGeneration : Nat) (payload : List UInt8)
      (contentDigest : Digest)
  /-- Mark one unit of a finite execution converged. -/
  | completeFinite (ns app : String) (generation : Nat) (unitId : Id16)
  /-- Replay-safe envelope. -/
  | idempotent (operationId : Id16) (requestDigest : Digest) (inner : RaftCommand)
  deriving DecidableEq, Repr

namespace RaftCommand

/-- Whether the command is an idempotent envelope. -/
def isIdempotent : RaftCommand → Bool
  | idempotent _ _ _ => true
  | _ => false

/-- The command inside an envelope, or the command itself. -/
def body : RaftCommand → RaftCommand
  | idempotent _ _ inner => inner
  | cmd => cmd

theorem body_of_not_idempotent {cmd : RaftCommand} (h : cmd.isIdempotent = false) :
    cmd.body = cmd := by
  cases cmd with
  | idempotent _ _ _ => cases h
  | record | acquireController | putDesired | completeFinite => rfl

end RaftCommand

/-- What an applied command reports. -/
structure ApplyOutcome where
  revision : Nat
  txnSucceeded : Option Bool
  leaseId : Option Nat
  expiredLeaseIds : List Nat
  controller : Option FenceToken
  desiredGeneration : Option Nat
  deriving DecidableEq, Repr

/-- The outcome of a record command. -/
def ApplyOutcome.ofResult (r : ApplyResult) : ApplyOutcome :=
  { revision := r.revision
    txnSucceeded := r.txnSucceeded
    leaseId := r.lease.map Lease.id
    expiredLeaseIds := r.expiredLeaseIds
    controller := none
    desiredGeneration := none }

/-- The outcome of a command on a desired declaration. -/
def ApplyOutcome.ofGeneration (revision generation : Nat) : ApplyOutcome :=
  { revision := revision
    txnSucceeded := none
    leaseId := none
    expiredLeaseIds := []
    controller := none
    desiredGeneration := some generation }

/-- The outcome of a controller acquisition. -/
def ApplyOutcome.ofToken (revision : Nat) (token : FenceToken) : ApplyOutcome :=
  { revision := revision
    txnSucceeded := none
    leaseId := some token.leaseId
    expiredLeaseIds := []
    controller := some token
    desiredGeneration := none }

/-- Deterministic application response. -/
inductive RaftResponse where
  | applied (outcome : ApplyOutcome)
  /-- Idempotent replay of a prior applied response. -/
  | replay (prior : RaftResponse)
  | rejected (message : String)
  deriving DecidableEq, Repr

/-- Whether the command ran and was applied. -/
def RaftResponse.isApplied : RaftResponse → Bool
  | applied _ => true
  | _ => false

/-! ## State -/

/-- The key of a desired declaration. -/
structure AppKey where
  ns : String
  app : String
  deriving DecidableEq, Repr

/-- Declarations are ordered by namespace, then by app. -/
instance : LinearOrder AppKey :=
  LinearOrder.lift' (fun k => toLex (k.ns, k.app)) (by
    rintro ⟨a, b⟩ ⟨c, d⟩ h
    simp only [EmbeddingLike.apply_eq_iff_eq, Prod.mk.injEq] at h
    rw [h.1, h.2])

/-- The key of a finite completion. -/
structure CompletionKey where
  ns : String
  app : String
  generation : Nat
  unitId : Id16
  deriving DecidableEq, Repr

/-- The declaration a completion belongs to. -/
def CompletionKey.appKey (k : CompletionKey) : AppKey := ⟨k.ns, k.app⟩

/-- Completions are ordered by their components, from left to right. -/
instance : LinearOrder CompletionKey :=
  LinearOrder.lift' (fun k => toLex (k.ns, toLex (k.app, toLex (k.generation, k.unitId)))) (by
    rintro ⟨a, b, c, d⟩ ⟨a', b', c', d'⟩ h
    simp only [EmbeddingLike.apply_eq_iff_eq, Prod.mk.injEq] at h
    obtain ⟨ha, hb, hc, hd⟩ := h
    rw [ha, hb, hc, hd])

/-- An accepted desired declaration. -/
structure DesiredEntry where
  generation : Nat
  contentDigest : Digest
  payload : List UInt8
  deriving DecidableEq, Repr

/-- An operation receipt. -/
structure IdempotencyEntry where
  requestDigest : Digest
  response : RaftResponse
  /-- Committed clock when the applied response was recorded. -/
  recordedAtMs : Nat
  deriving DecidableEq, Repr

/-- One cluster's replicated application state. -/
structure ClusterState where
  records : TypedRecordMachine
  controller : ControllerAuthority
  desired : OrdMap AppKey DesiredEntry
  finiteCompletions : OrdSet CompletionKey
  idempotency : OrdMap Id16 IdempotencyEntry
  idempotencyMaxEntries : Nat
  idempotencyTtlMs : Nat
  /-- Least `recordedAtMs` among the receipts; skips full scans when nothing can
  expire. -/
  idempotencyOldestMs : Option Nat
  desiredMaxEntries : Nat
  desiredMaxTotalBytes : Nat
  deriving DecidableEq

/-- The text of a 16-byte identifier. -/
def hex16 (id : Id16) : String := String.join (id.bytes.map hexByte)

/-- Both parts of a declaration key are labels. -/
def validateDesiredIdentity (ns app : String) : Except String Unit :=
  match parseLabel ns with
  | .error e =>
    let why := e.display
    .error s!"invalid desired namespace: {why}"
  | .ok _ =>
    match parseLabel app with
    | .error e =>
      let why := e.display
      .error s!"invalid desired app: {why}"
    | .ok _ => .ok ()

/-- Bytes charged for a desired declaration. -/
def desiredEntryBytes (ns app : String) (payload : List UInt8) : Nat :=
  saturatingAdd (saturatingAdd ns.utf8ByteSize app.utf8ByteSize) payload.length

/-- Bytes charged for a map of desired declarations. -/
def totalBytes (desired : OrdMap AppKey DesiredEntry) : Nat :=
  (desired.entries.map (fun e => desiredEntryBytes e.1.ns e.1.app e.2.payload)).foldl
    saturatingAdd 0

namespace ClusterState

/-- `ClusterState::new`. -/
def new : ClusterState :=
  { records := TypedRecordMachine.withDefaults
    controller := ControllerAuthority.new
    desired := OrdMap.empty
    finiteCompletions := OrdMap.empty
    idempotency := OrdMap.empty
    idempotencyMaxEntries := idempotencyMaxEntriesDefault
    idempotencyTtlMs := idempotencyTtlMsDefault
    idempotencyOldestMs := none
    desiredMaxEntries := desiredMaxEntriesDefault
    desiredMaxTotalBytes := desiredMaxTotalBytesDefault }

/-- The empty state with custom receipt bounds. -/
def withIdempotencyLimits (maxEntries ttlMs : Nat) : ClusterState :=
  { new with idempotencyMaxEntries := max maxEntries 1, idempotencyTtlMs := ttlMs }

/-- The empty state with custom bounds on desired declarations. -/
def withDesiredLimits (maxEntries maxTotalBytes : Nat) : ClusterState :=
  { new with desiredMaxEntries := max maxEntries 1, desiredMaxTotalBytes := max maxTotalBytes 1 }

/-- The current generation of a declaration. -/
def desiredGeneration (s : ClusterState) (ns app : String) : Option Nat :=
  (s.desired.get ⟨ns, app⟩).map DesiredEntry.generation

/-- Whether a unit of a generation is recorded as complete. -/
def finiteCompleted (s : ClusterState) (ns app : String) (generation : Nat) (unitId : Id16) :
    Bool :=
  s.finiteCompletions.contains ⟨ns, app, generation, unitId⟩

/-- Bytes retained by all desired declarations. -/
def desiredTotalBytes (s : ClusterState) : Nat := totalBytes s.desired

/-! ## Receipts -/

/-- Recompute the cached least receipt time. -/
def recomputeIdempotencyOldest (s : ClusterState) : ClusterState :=
  { s with idempotencyOldestMs := (s.idempotency.values.map IdempotencyEntry.recordedAtMs).min? }

/-- Account for a receipt recorded at `recordedAtMs`. -/
def noteIdempotencyTime (s : ClusterState) (recordedAtMs : Nat) : ClusterState :=
  { s with
    idempotencyOldestMs :=
      some ((s.idempotencyOldestMs.map (fun o => min o recordedAtMs)).getD recordedAtMs) }

/-- Drop expired receipts by committed time. -/
def expireIdempotencyTtl (s : ClusterState) : ClusterState :=
  let nowMs := s.records.nowMs
  let s' := if s.idempotencyOldestMs.isNone && s.idempotency.size != 0 then
      s.recomputeIdempotencyOldest
    else s
  match s'.idempotencyOldestMs with
  | none => s'
  | some oldest =>
    if nowMs - oldest ≤ s'.idempotencyTtlMs then s'
    else
      { s' with
        idempotency := s'.idempotency.retain fun _ e =>
          decide (nowMs - e.recordedAtMs ≤ s'.idempotencyTtlMs) }.recomputeIdempotencyOldest

/-- How receipts sort for eviction: by time, then by operation id. -/
def receiptOrder (receipt : Id16 × IdempotencyEntry) : Lex (Nat × Id16) :=
  toLex (receipt.2.recordedAtMs, receipt.1)

/-- Ceiling eviction of the receipt that sorts first. -/
def evictOneIdempotencyByKey (s : ClusterState) : ClusterState :=
  match s.idempotency.entries.argmin receiptOrder with
  | none => s
  | some (oldestKey, removed) =>
    let s' := { s with idempotency := s.idempotency.erase oldestKey }
    if s.idempotencyOldestMs = some removed.recordedAtMs then s'.recomputeIdempotencyOldest
    else s'

/-- The eviction loop `while len >= max`.  Every turn on a non-empty map removes a
receipt, so as many turns as there are receipts are enough; the ceiling is at
least one in every state a constructor builds. -/
def evictToCeiling : Nat → ClusterState → ClusterState
  | 0, s => s
  | turns + 1, s =>
    if s.idempotency.size ≥ s.idempotencyMaxEntries then
      evictToCeiling turns s.evictOneIdempotencyByKey
    else s

/-- Make room for the receipt of an applied operation and insert it. -/
def recordReceipt (s : ClusterState) (operationId : Id16) (requestDigest : Digest)
    (response : RaftResponse) : ClusterState :=
  let s' := evictToCeiling s.idempotency.size s
  let recordedAtMs := s'.records.nowMs
  { s' with
    idempotency := s'.idempotency.insert operationId
      { requestDigest := requestDigest, response := response, recordedAtMs := recordedAtMs }
  }.noteIdempotencyTime recordedAtMs

/-! ## Applying commands -/

section Apply

variable [Blake3]

/-- `PutDesired`: compare-and-set of a desired declaration. -/
def putDesired (s : ClusterState) (ns app : String) (expectedGeneration : Nat)
    (payload : List UInt8) (contentDigest : Digest) : ClusterState × RaftResponse :=
  match validateDesiredIdentity ns app with
  | .error message => (s, .rejected message)
  | .ok () =>
    let payloadLen := payload.length
    if payloadLen > desiredMaxPayloadBytes then
      (s, .rejected s!"desired payload {payloadLen} exceeds max {desiredMaxPayloadBytes}")
    else
      let key : AppKey := ⟨ns, app⟩
      let current := ((s.desired.get key).map DesiredEntry.generation).getD 0
      if current ≠ expectedGeneration then
        (s, .rejected
          s!"generation conflict: current={current} expected={expectedGeneration}")
      else
        let nextGen := saturatingAdd expectedGeneration 1
        let sameGeneration := (s.desired.get key).filter (fun prev => prev.generation == nextGen)
        match sameGeneration with
        | some prev =>
          if prev.contentDigest ≠ contentDigest then
            (s, .rejected s!"divergent content at generation {nextGen}")
          else (s, .applied (.ofGeneration s.records.revision nextGen))
        | none =>
          let incoming := desiredEntryBytes ns app payload
          let previous := ((s.desired.get key).map
            (fun e => desiredEntryBytes ns app e.payload)).getD 0
          let isNewKey := !s.desired.contains key
          let entries := s.desired.size
          let maxEntries := s.desiredMaxEntries
          if isNewKey && entries ≥ maxEntries then
            (s, .rejected s!"desired map full: {entries} entries (max {maxEntries})")
          else
            let totalAfter := saturatingAdd (s.desiredTotalBytes - previous) incoming
            let maxTotalBytes := s.desiredMaxTotalBytes
            if totalAfter > maxTotalBytes then
              (s, .rejected s!"desired byte budget exceeded: {totalAfter} > {maxTotalBytes}")
            else
              let records := s.records.bumpRevision
              ({ s with
                  finiteCompletions := s.finiteCompletions.retain
                    (fun k _ => decide (k.ns ≠ ns) || decide (k.app ≠ app))
                  desired := s.desired.insert key
                    { generation := nextGen, contentDigest := contentDigest,
                      payload := payload }
                  records := records },
                .applied (.ofGeneration records.revision nextGen))

/-- `CompleteFinite`: record a unit of the current generation as complete. -/
def completeFinite (s : ClusterState) (ns app : String) (generation : Nat) (unitId : Id16) :
    ClusterState × RaftResponse :=
  match validateDesiredIdentity ns app with
  | .error message => (s, .rejected message)
  | .ok () =>
    match s.desired.get ⟨ns, app⟩ with
    | none => (s, .rejected "finite completion has no desired execution")
    | some desired =>
      let current := desired.generation
      if current ≠ generation then
        (s, .rejected
          s!"finite completion generation conflict: current={current} observed={generation}")
      else
        let key : CompletionKey := ⟨ns, app, generation, unitId⟩
        let entries := s.finiteCompletions.size
        if s.finiteCompletions.contains key then
          (s, .applied (.ofGeneration s.records.revision generation))
        else if entries ≥ finiteCompletionMaxEntries then
          (s, .rejected
            s!"finite completion map full: {entries} entries (max {finiteCompletionMaxEntries})")
        else
          let records := s.records.bumpRevision
          ({ s with
              finiteCompletions := s.finiteCompletions.insert key ()
              records := records },
            .applied (.ofGeneration records.revision generation))

/-- `AcquireController`: issue the next controller token. -/
def acquireController (s : ClusterState) (holder : Nat) : ClusterState × RaftResponse :=
  let acquired := s.controller.acquire holder s.records.nowMs s.records.leases
  let records := { s.records with leases := acquired.2.1 }.bumpRevision
  ({ s with controller := acquired.1, records := records },
    .applied (.ofToken records.revision acquired.2.2))

/-- Apply a command outside of an idempotent envelope. -/
def applyInner (s : ClusterState) : RaftCommand → ClusterState × RaftResponse
  | .record cmd =>
    match s.records.apply cmd with
    | (records, .ok r) => ({ s with records := records }, .applied (.ofResult r))
    | (records, .error e) => ({ s with records := records }, .rejected e.display)
  | .acquireController holder => s.acquireController holder
  | .putDesired ns app expectedGeneration payload contentDigest =>
    s.putDesired ns app expectedGeneration payload contentDigest
  | .completeFinite ns app generation unitId => s.completeFinite ns app generation unitId
  | .idempotent _ _ _ => (s, .rejected "nested Idempotent must use apply() entrypoint")

/-- Apply an idempotent envelope. -/
def applyIdempotent (s : ClusterState) (operationId : Id16) (requestDigest : Digest)
    (inner : RaftCommand) : ClusterState × RaftResponse :=
  match s.idempotency.get operationId with
  | some prev =>
    if prev.requestDigest = requestDigest then (s, .replay prev.response)
    else
      let hex := hex16 operationId
      (s, .rejected s!"idempotency conflict for operation {hex}")
  | none =>
    if inner.isIdempotent then (s, .rejected "nested Idempotent commands are not allowed")
    else
      let done := s.applyInner inner
      if done.2.isApplied then
        (done.1.recordReceipt operationId requestDigest done.2, done.2)
      else done

/-- Apply a committed command.  Receipts expire against the committed clock before
the command and against the clock it leaves behind. -/
def apply (s : ClusterState) (cmd : RaftCommand) : ClusterState × RaftResponse :=
  let s₀ := s.expireIdempotencyTtl
  let done := match cmd with
    | .idempotent operationId requestDigest inner =>
      s₀.applyIdempotent operationId requestDigest inner
    | other => s₀.applyInner other
  (done.1.expireIdempotencyTtl, done.2)

end Apply

end ClusterState

end Gump.Memory
