/-
  Memory/ClusterStep.lean --- what one replicated command does.

  The cluster state splits into a core (records, controller, declarations and
  completions) and the receipts.  `CoreStep` lists every way a command can change
  the core and the response that goes with it; `apply_coreStep` proves the list
  complete.  The record part of the core moves by moves of the record machine
  only (`records_reached`), so what is known of its runs holds in the cluster.
-/
import Gump.Memory.ClusterState
import Gump.Memory.Records.ChangeFeed

set_option autoImplicit false

namespace Gump.Memory

open Gump.Foundation Gump.Types

/-- The transitions of the cluster state. -/
abbrev ClusterTransition : Type := Transition ClusterState RaftCommand RaftResponse

/-- The cluster state without receipts. -/
structure ClusterCore where
  records : TypedRecordMachine
  controller : ControllerAuthority
  desired : OrdMap AppKey DesiredEntry
  finiteCompletions : OrdSet CompletionKey
  desiredMaxEntries : Nat
  desiredMaxTotalBytes : Nat

/-- The core of a cluster state. -/
def ClusterState.core (s : ClusterState) : ClusterCore :=
  { records := s.records
    controller := s.controller
    desired := s.desired
    finiteCompletions := s.finiteCompletions
    desiredMaxEntries := s.desiredMaxEntries
    desiredMaxTotalBytes := s.desiredMaxTotalBytes }

/-- The part of the state that receipts are kept in. -/
structure ReceiptPart where
  idempotency : OrdMap Id16 IdempotencyEntry
  idempotencyMaxEntries : Nat
  idempotencyTtlMs : Nat
  idempotencyOldestMs : Option Nat

/-- The receipts of a cluster state. -/
def ClusterState.receipts (s : ClusterState) : ReceiptPart :=
  { idempotency := s.idempotency
    idempotencyMaxEntries := s.idempotencyMaxEntries
    idempotencyTtlMs := s.idempotencyTtlMs
    idempotencyOldestMs := s.idempotencyOldestMs }

/-- The core after a controller acquisition. -/
def ClusterCore.acquire [Blake3] (c : ClusterCore) (holder : Nat) : ClusterCore :=
  let acquired := c.controller.acquire holder c.records.nowMs c.records.leases
  { c with
    controller := acquired.1
    records := { c.records with leases := acquired.2.1 }.bumpRevision }

/-- The token a controller acquisition issues. -/
def ClusterCore.issue [Blake3] (c : ClusterCore) (holder : Nat) : FenceToken :=
  (c.controller.acquire holder c.records.nowMs c.records.leases).2.2

/-- The core after an accepted declaration: the new entry is stored, and the
completions of the app go with the old one. -/
def ClusterCore.declare (c : ClusterCore) (key : AppKey) (entry : DesiredEntry) : ClusterCore :=
  { c with
    finiteCompletions := c.finiteCompletions.retain
      (fun k _ => decide (k.ns ≠ key.ns) || decide (k.app ≠ key.app))
    desired := c.desired.insert key entry
    records := c.records.bumpRevision }

/-- The core after a recorded completion. -/
def ClusterCore.complete (c : ClusterCore) (key : CompletionKey) : ClusterCore :=
  { c with
    finiteCompletions := c.finiteCompletions.insert key ()
    records := c.records.bumpRevision }

/-- The generation a declaration stands at, 0 if there is none. -/
def ClusterCore.generationAt (c : ClusterCore) (key : AppKey) : Nat :=
  ((c.desired.get key).map DesiredEntry.generation).getD 0

section Steps

variable [Blake3]

/-- Every outcome of a command outside of an envelope. -/
inductive InnerEffect (c : ClusterCore) : RaftCommand → ClusterCore → RaftResponse → Prop where
  | recordApplied {cmd : Command} {m' : TypedRecordMachine} {r : ApplyResult} :
      c.records.apply cmd = (m', .ok r) →
      InnerEffect c (.record cmd) { c with records := m' } (.applied (.ofResult r))
  | recordRejected {cmd : Command} {m' : TypedRecordMachine} {e : ApplyError} :
      c.records.apply cmd = (m', .error e) →
      InnerEffect c (.record cmd) { c with records := m' } (.rejected e.display)
  | acquired {holder : Nat} :
      InnerEffect c (.acquireController holder) (c.acquire holder)
        (.applied (.ofToken (c.acquire holder).records.revision (c.issue holder)))
  /-- A declaration, completion or nested envelope was refused. -/
  | declined {cmd : RaftCommand} {message : String} : (∀ rc, cmd ≠ .record rc) →
      InnerEffect c cmd c (.rejected message)
  /-- The declared generation is already stored with this content.  Generations
  step by one, so this needs a saturated generation counter. -/
  | redeclared {ns app : String} {expected : Nat} {payload : List UInt8} {digest : Digest}
      {prev : DesiredEntry} :
      c.desired.get ⟨ns, app⟩ = some prev → prev.generation = expected →
      prev.generation = saturatingAdd expected 1 → prev.contentDigest = digest →
      InnerEffect c (.putDesired ns app expected payload digest) c
        (.applied (.ofGeneration c.records.revision (saturatingAdd expected 1)))
  | declared {ns app : String} {expected : Nat} {payload : List UInt8} {digest : Digest} :
      validateDesiredIdentity ns app = .ok () →
      payload.length ≤ desiredMaxPayloadBytes →
      c.generationAt ⟨ns, app⟩ = expected →
      (∀ prev, c.desired.get ⟨ns, app⟩ = some prev → prev.generation ≠ saturatingAdd expected 1) →
      (c.desired.get ⟨ns, app⟩ = none → c.desired.size < c.desiredMaxEntries) →
      saturatingAdd (totalBytes c.desired - ((c.desired.get ⟨ns, app⟩).map
          (fun e => desiredEntryBytes ns app e.payload)).getD 0)
        (desiredEntryBytes ns app payload) ≤ c.desiredMaxTotalBytes →
      InnerEffect c (.putDesired ns app expected payload digest)
        (c.declare ⟨ns, app⟩ ⟨saturatingAdd expected 1, digest, payload⟩)
        (.applied (.ofGeneration c.records.bumpRevision.revision (saturatingAdd expected 1)))
  | alreadyCompleted {ns app : String} {generation : Nat} {unitId : Id16}
      {entry : DesiredEntry} :
      c.desired.get ⟨ns, app⟩ = some entry → entry.generation = generation →
      c.finiteCompletions.get ⟨ns, app, generation, unitId⟩ = some () →
      InnerEffect c (.completeFinite ns app generation unitId) c
        (.applied (.ofGeneration c.records.revision generation))
  | completed {ns app : String} {generation : Nat} {unitId : Id16} {entry : DesiredEntry} :
      c.desired.get ⟨ns, app⟩ = some entry → entry.generation = generation →
      c.finiteCompletions.get ⟨ns, app, generation, unitId⟩ = none →
      c.finiteCompletions.size < finiteCompletionMaxEntries →
      InnerEffect c (.completeFinite ns app generation unitId)
        (c.complete ⟨ns, app, generation, unitId⟩)
        (.applied (.ofGeneration c.records.bumpRevision.revision generation))

/-- Every outcome of a command, as far as the core is concerned. -/
inductive CoreStep (c : ClusterCore) : RaftCommand → ClusterCore → RaftResponse → Prop where
  /-- The command, or the command inside the envelope, ran. -/
  | ran {cmd : RaftCommand} {c' : ClusterCore} {response : RaftResponse} :
      InnerEffect c cmd.body c' response → CoreStep c cmd c' response
  /-- A receipt answered the envelope. -/
  | replayed {cmd : RaftCommand} {prior : RaftResponse} : CoreStep c cmd c (.replay prior)
  /-- The envelope conflicts with a receipt, or holds another envelope. -/
  | refused {cmd : RaftCommand} {message : String} : CoreStep c cmd c (.rejected message)

/-- The moves a command makes on the record machine. -/
theorem InnerEffect.recordMoves {c c' : ClusterCore} {cmd : RaftCommand}
    {response : RaftResponse} (h : InnerEffect c cmd c' response) :
    ∃ ops, c'.records = runFrom TypedRecordMachine.step c.records ops := by
  cases h with
  | @recordApplied cmd m' r happly =>
    refine ⟨[.command cmd], ?_⟩
    simp [TypedRecordMachine.step, happly]
  | @recordRejected cmd m' e happly =>
    refine ⟨[.command cmd], ?_⟩
    simp [TypedRecordMachine.step, happly]
  | acquired => exact ⟨[.grantLease .controllerAuthority, .bumpRevision], rfl⟩
  | declared => exact ⟨[.bumpRevision], rfl⟩
  | completed => exact ⟨[.bumpRevision], rfl⟩
  | declined | redeclared | alreadyCompleted => exact ⟨[], rfl⟩

theorem CoreStep.recordMoves {c c' : ClusterCore} {cmd : RaftCommand}
    {response : RaftResponse} (h : CoreStep c cmd c' response) :
    ∃ ops, c'.records = runFrom TypedRecordMachine.step c.records ops := by
  cases h with
  | ran heff => exact heff.recordMoves
  | replayed => exact ⟨[], rfl⟩
  | refused => exact ⟨[], rfl⟩

end Steps

namespace ClusterState

/-! ## Receipts and the core do not interfere -/

variable (s : ClusterState)

theorem core_expireIdempotencyTtl : s.expireIdempotencyTtl.core = s.core := by
  unfold expireIdempotencyTtl
  simp only
  split <;> split <;> try split
  all_goals rfl

theorem core_evictOneIdempotencyByKey : s.evictOneIdempotencyByKey.core = s.core := by
  unfold evictOneIdempotencyByKey
  split
  · rfl
  · simp only
    split <;> rfl

theorem core_evictToCeiling (turns : Nat) (s : ClusterState) :
    (evictToCeiling turns s).core = s.core := by
  induction turns generalizing s with
  | zero => rfl
  | succ turns ih =>
    unfold evictToCeiling
    split
    · rw [ih, core_evictOneIdempotencyByKey]
    · rfl

theorem core_recordReceipt (operationId : Id16) (requestDigest : Digest) (response : RaftResponse) :
    (s.recordReceipt operationId requestDigest response).core = s.core :=
  core_evictToCeiling s.idempotency.size s

/-! ## Declarations and completions -/

section Inner

variable [Blake3]

variable (s : ClusterState)

theorem putDesired_effect (ns app : String) (expected : Nat) (payload : List UInt8)
    (digest : Digest) : InnerEffect s.core (.putDesired ns app expected payload digest)
        (s.putDesired ns app expected payload digest).1.core
        (s.putDesired ns app expected payload digest).2 ∧
      (s.putDesired ns app expected payload digest).1.receipts = s.receipts := by
  have hdeclined : ∀ message, InnerEffect s.core (.putDesired ns app expected payload digest)
      s.core (.rejected message) := fun message => .declined (by simp)
  unfold putDesired
  cases hid : validateDesiredIdentity ns app with
  | error message => exact ⟨hdeclined _, rfl⟩
  | ok =>
    simp only
    split
    · exact ⟨hdeclined _, rfl⟩
    · rename_i hlen
      split
      · exact ⟨hdeclined _, rfl⟩
      · rename_i hgen
        rw [not_not] at hgen
        split
        · rename_i prev hprev
          obtain ⟨hget, hsame⟩ := Option.filter_eq_some_iff.mp hprev
          split
          · exact ⟨hdeclined _, rfl⟩
          · rename_i hdigest
            rw [not_not] at hdigest
            rw [hget] at hgen
            exact ⟨.redeclared hget hgen (eq_of_beq hsame) hdigest, rfl⟩
        · rename_i hfresh
          split
          · exact ⟨hdeclined _, rfl⟩
          · rename_i hroom
            split
            · exact ⟨hdeclined _, rfl⟩
            · rename_i hbytes
              refine ⟨.declared hid (not_lt.mp hlen) hgen ?_ ?_ (not_lt.mp hbytes), rfl⟩
              · intro prev hget hsame
                rw [Option.filter_eq_none_iff] at hfresh
                exact hfresh prev hget (beq_iff_eq.mpr hsame)
              · intro hnone
                have hnew : s.desired.contains ⟨ns, app⟩ = false :=
                  OrdMap.contains_eq_false_iff.mpr hnone
                simp only [hnew, Bool.not_false, Bool.true_and, decide_eq_true_eq, ge_iff_le,
                  not_le] at hroom
                exact hroom

theorem completeFinite_effect (ns app : String) (generation : Nat) (unitId : Id16) :
    InnerEffect s.core (.completeFinite ns app generation unitId)
        (s.completeFinite ns app generation unitId).1.core
        (s.completeFinite ns app generation unitId).2 ∧
      (s.completeFinite ns app generation unitId).1.receipts = s.receipts := by
  have hdeclined : ∀ message, InnerEffect s.core (.completeFinite ns app generation unitId)
      s.core (.rejected message) := fun message => .declined (by simp)
  unfold completeFinite
  cases hid : validateDesiredIdentity ns app with
  | error message => exact ⟨hdeclined _, rfl⟩
  | ok =>
    cases hget : s.desired.get ⟨ns, app⟩ with
    | none => exact ⟨hdeclined _, rfl⟩
    | some entry =>
      simp only
      split
      · exact ⟨hdeclined _, rfl⟩
      · rename_i hgen
        rw [not_not] at hgen
        split
        · rename_i hdone
          obtain ⟨_, hdone⟩ := OrdMap.contains_eq_true_iff.mp hdone
          exact ⟨.alreadyCompleted hget hgen hdone, rfl⟩
        · rename_i hnew
          split
          · exact ⟨hdeclined _, rfl⟩
          · rename_i hroom
            have hnone := OrdMap.contains_eq_false_iff.mp (Bool.eq_false_of_not_eq_true hnew)
            exact ⟨.completed hget hgen hnone (not_le.mp hroom), rfl⟩

/-- A command outside of an envelope has one of the listed effects on the core,
and leaves the receipts alone. -/
theorem applyInner_effect (cmd : RaftCommand) :
    InnerEffect s.core cmd (s.applyInner cmd).1.core (s.applyInner cmd).2 ∧
      (s.applyInner cmd).1.receipts = s.receipts := by
  cases cmd with
  | record cmd =>
    unfold applyInner
    simp only
    split
    · rename_i m' r happly
      exact ⟨.recordApplied happly, rfl⟩
    · rename_i m' e happly
      exact ⟨.recordRejected happly, rfl⟩
  | acquireController holder => exact ⟨.acquired, rfl⟩
  | putDesired ns app expected payload digest =>
    exact s.putDesired_effect ns app expected payload digest
  | completeFinite ns app generation unitId =>
    exact s.completeFinite_effect ns app generation unitId
  | idempotent operationId requestDigest inner => exact ⟨.declined (by simp), rfl⟩

/-! ## Envelopes -/

/-- What an envelope does to state and response. -/
inductive Enveloped (s : ClusterState) (operationId : Id16) (requestDigest : Digest)
    (inner : RaftCommand) : ClusterState → RaftResponse → Prop where
  | replayed {prev : IdempotencyEntry} : s.idempotency.get operationId = some prev →
      prev.requestDigest = requestDigest →
      Enveloped s operationId requestDigest inner s (.replay prev.response)
  | conflict {prev : IdempotencyEntry} {message : String} :
      s.idempotency.get operationId = some prev → prev.requestDigest ≠ requestDigest →
      Enveloped s operationId requestDigest inner s (.rejected message)
  | nested {message : String} : s.idempotency.get operationId = none →
      inner.isIdempotent = true →
      Enveloped s operationId requestDigest inner s (.rejected message)
  | recorded : s.idempotency.get operationId = none →
      (s.applyInner inner).2.isApplied = true →
      Enveloped s operationId requestDigest inner
        ((s.applyInner inner).1.recordReceipt operationId requestDigest (s.applyInner inner).2)
        (s.applyInner inner).2
  | failed : s.idempotency.get operationId = none →
      (s.applyInner inner).2.isApplied = false →
      Enveloped s operationId requestDigest inner (s.applyInner inner).1 (s.applyInner inner).2

theorem applyIdempotent_enveloped (operationId : Id16) (requestDigest : Digest)
    (inner : RaftCommand) : Enveloped s operationId requestDigest inner
      (s.applyIdempotent operationId requestDigest inner).1
      (s.applyIdempotent operationId requestDigest inner).2 := by
  unfold applyIdempotent
  cases hget : s.idempotency.get operationId with
  | some prev =>
    simp only
    split
    · rename_i hsame
      exact .replayed hget hsame
    · rename_i hdiffers
      exact .conflict hget hdiffers
  | none =>
    simp only
    split
    · rename_i hnested
      exact .nested hget hnested
    · cases happlied : (s.applyInner inner).2.isApplied with
      | true => exact .recorded hget happlied
      | false => exact .failed hget happlied

theorem Enveloped.coreStep {s s' : ClusterState} {operationId : Id16} {requestDigest : Digest}
    {inner : RaftCommand} {response : RaftResponse}
    (h : Enveloped s operationId requestDigest inner s' response) :
    CoreStep s.core (.idempotent operationId requestDigest inner) s'.core response := by
  have heff := (s.applyInner_effect inner).1
  cases h with
  | replayed _ _ => exact .replayed
  | conflict _ _ => exact .refused
  | nested _ _ => exact .refused
  | recorded _ _ =>
    rw [core_recordReceipt]
    exact .ran heff
  | failed _ _ => exact .ran heff

theorem apply_of_not_idempotent {cmd : RaftCommand} (h : cmd.isIdempotent = false) :
    s.apply cmd = ((s.expireIdempotencyTtl.applyInner cmd).1.expireIdempotencyTtl,
      (s.expireIdempotencyTtl.applyInner cmd).2) := by
  cases cmd with
  | idempotent _ _ _ => cases h
  | record | acquireController | putDesired | completeFinite => rfl

/-- Every command is a step of the core. -/
theorem apply_coreStep (cmd : RaftCommand) :
    CoreStep s.core cmd (s.apply cmd).1.core (s.apply cmd).2 := by
  have hcore : s.expireIdempotencyTtl.core = s.core := s.core_expireIdempotencyTtl
  cases hcmd : cmd.isIdempotent with
  | false =>
    have heff := (s.expireIdempotencyTtl.applyInner_effect cmd).1
    rw [hcore] at heff
    rw [apply_of_not_idempotent s hcmd, core_expireIdempotencyTtl]
    exact .ran ((RaftCommand.body_of_not_idempotent hcmd).symm ▸ heff)
  | true =>
    cases cmd with
    | idempotent operationId requestDigest inner =>
      have hstep := (s.expireIdempotencyTtl.applyIdempotent_enveloped operationId
        requestDigest inner).coreStep
      rw [hcore] at hstep
      simp only [apply, core_expireIdempotencyTtl]
      exact hstep
    | record | acquireController | putDesired | completeFinite => cases hcmd

/-! ## The record machine inside the cluster -/

/-- The record machine of every reachable cluster state is a reachable record
machine. -/
theorem records_reached (cmds : List RaftCommand) :
    ∃ ops, (runFrom apply s cmds).records = runFrom TypedRecordMachine.step s.records ops := by
  induction cmds generalizing s with
  | nil => exact ⟨[], rfl⟩
  | cons cmd rest ih =>
    obtain ⟨ops₁, h₁⟩ := (s.apply_coreStep cmd).recordMoves
    obtain ⟨ops₂, h₂⟩ := ih (s.apply cmd).1
    refine ⟨ops₁ ++ ops₂, ?_⟩
    rw [runFrom_append, runFrom_cons, h₂]
    exact congrArg (fun m => runFrom TypedRecordMachine.step m ops₂) h₁

end Inner

end ClusterState

end Gump.Memory
