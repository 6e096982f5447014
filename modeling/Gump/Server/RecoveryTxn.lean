/-
  Server/RecoveryTxn.lean --- explicit recovery after a full loss (`recovery_txn.rs`).

  A Capsule in the object store stays inert until an operator selects it.  Then it
  is verified where it lies, its signer is checked, and fresh intent for it is
  committed as one replicated write.
-/
import Mathlib.Algebra.GroupWithZero.Nat
import Gump.Server.DeployTxn

set_option autoImplicit false

namespace Gump.Server

open Gump.Foundation Gump.Types Gump.Memory Gump.Crypto Gump.Connectors
open Gump.Capsule (Crc32 CapsuleDialectError verify signerOf verifyReleaseSignature)

/-! ## Finite work -/

/-- A trimmed text, unless nothing is left of it. -/
def nonBlank (s : Option String) : Option String := (s.map trimText).filter fun t => t ≠ ""

inductive FiniteModeError where
  /-- `reintroduce requires --new-execution or --resume-from <checkpoint> …` -/
  | required
  /-- `--resume-from is incompatible with --new-execution` -/
  | incompatible
  /-- `--resume-from is required when finite_mode=resume` -/
  | resumeFromRequired
  /-- `resume-from reference too long` -/
  | tooLong
  /-- `unknown finite_mode {other:?}; use new_execution or resume` -/
  | unknown (other : String)
  deriving DecidableEq, Repr

/-- `normalize_finite_mode`. -/
def normalizeFiniteMode (plan : Bool) (finiteMode resumeFrom : Option String) :
    Except FiniteModeError (Option String) :=
  match nonBlank finiteMode with
  | none => if plan then .ok none else .error .required
  | some mode =>
    if mode = "new_execution" ∨ mode = "new-execution" then
      if (nonBlank resumeFrom).isSome then .error .incompatible
      else .ok (some "new_execution")
    else if mode = "resume" then
      match nonBlank resumeFrom with
      | none => .error .resumeFromRequired
      | some r =>
        if r.utf8ByteSize > 512 then .error .tooLong else .ok (some ("resume:" ++ r))
    else .error (.unknown mode)

/-! ## Verifying a stored Capsule -/

structure VerifiedCapsule where
  capsuleId : CapsuleId
  contentDigest : Digest
  sizeBytes : Nat
  objectKey : String
  signerPublicKey : VerifyingKeyBytes
  deriving DecidableEq, Repr

/-- Why a stored Capsule was not accepted. -/
inductive StoredError where
  /-- `invalid capsule_id {capsule_id:?}` -/
  | invalidCapsuleId (text : String)
  /-- `Capsule {capsule_id} not found in object store (remains inert)` -/
  | notFound (text : String)
  /-- `object store head failed: {e}` -/
  | head (e : ObjectStoreError)
  /-- `object store read failed: {e}` -/
  | read (e : ObjectStoreError)
  /-- `stored Capsule verification failed: {e}` -/
  | framing (e : CapsuleDialectError)
  /-- `stored Capsule body does not match object-store evidence` -/
  | evidence
  /-- `stored Capsule framing identity does not match its immutable key` -/
  | identity
  /-- `stored Capsule release signature segment is invalid` -/
  | signatureSegment
  /-- The error of the header encoding. -/
  | header (e : CapsuleDialectError)
  /-- `stored Capsule release signature verification failed` -/
  | signature
  deriving DecidableEq, Repr

section Verify

variable [Blake3] [Crc32] [Ed25519]

/-- The checks of the bytes under a key.  A verification that succeeds has read the
whole stream, so the running hash covers all of it. -/
def verifyStoredBytes (cluster : ClusterId) (capsule : CapsuleId) (ev : ObjectEvidence)
    (stream : ByteStream) : Checked StoredError VerifiedCapsule :=
  match verify stream with
  | .error halt => .error (halt.mapError .framing)
  | .ok capsuleMeta =>
    if stream.bytes.length ≠ ev.length ∨ Blake3.hash stream.bytes ≠ ev.digest then
      .error (.error .evidence)
    else if capsuleMeta.header.clusterId ≠ cluster ∨ capsuleMeta.header.capsuleId ≠ capsule then
      .error (.error .identity)
    else
      match signerOf capsuleMeta.signatureSegment with
      | none => .error (.error .signatureSegment)
      | some (key, signature) =>
        match capsuleMeta.header.encodeCbor with
        | .error e => .error (.error (.header e))
        | .ok headerCbor =>
          match verifyReleaseSignature headerCbor capsuleMeta.table key signature with
          | .error _ => .error (.error .signature)
          | .ok () => .ok ⟨capsule, ev.digest, ev.length, ev.key.text, key⟩

variable [UuidParser]

/-- `verify_stored_capsule`. -/
def verifyStoredCapsule {m : Type → Type} [Monad m] (store : ObjectStore m)
    (clusterId capsuleId : String) : m (Checked StoredError VerifiedCapsule) :=
  match parseId capsuleId with
  | .error _ => pure (.error (.error (.invalidCapsuleId capsuleId)))
  | .ok capsule => do
    let cluster := parseClusterId clusterId
    match ← store.head (finalCapsuleKey cluster capsule) with
    | .error e =>
      if e.kind = .notFound then pure (.error (.error (.notFound capsuleId)))
      else pure (.error (.error (.head e)))
    | .ok ev => do
      match ← store.getReader (finalCapsuleKey cluster capsule) none with
      | .error e => pure (.error (.error (.read e)))
      | .ok stream => pure (verifyStoredBytes cluster capsule ev stream)

end Verify

/-! ## Reintroduction -/

structure ReintroduceRequest where
  clusterId : String
  capsuleId : String
  plan : Bool
  finiteMode : Option String
  resumeFrom : Option String
  operationId : Option String
  ns : String
  app : String
  deriving DecidableEq, Repr

inductive ReintroduceReason where
  | finiteMode (e : FiniteModeError)
  | stored (e : StoredError)
  /-- `Capsule signer is not authorized for reintroduction: {e}` -/
  | signer (e : TrustError)
  | operationId (e : String)
  /-- `unexpected replay payload {other:?}` -/
  | unexpectedReplay (response : RaftResponse)
  /-- `same operation_id with a different reintroduce request` -/
  | differentRequest
  /-- The message of a rejected write, or the error of one without an answer. -/
  | write (message : String)
  deriving DecidableEq, Repr

/-- The code of a failed reintroduction. -/
inductive ReintroduceCode where
  | invalidArgument
  | notFound
  | permissionDenied
  | internal
  | conflict
  | failedPrecondition
  | unavailable
  deriving DecidableEq, Repr

inductive ReintroduceOutcome where
  | plan (capsule : VerifiedCapsule) (finiteMode : String)
  | applied (capsule : VerifiedCapsule) (finiteMode : String) (desiredGeneration : Nat)
      (replayed : Bool)
  | failed (reason : ReintroduceReason) (code : ReintroduceCode)
  deriving DecidableEq, Repr

/-- What the reply to the write makes of a reintroduction. -/
def settleReintroduce (capsule : VerifiedCapsule) (finiteMode : String) :
    Except String RaftResponse → ReintroduceOutcome
  | .ok (.applied o) => .applied capsule finiteMode (o.desiredGeneration.getD 1) false
  | .ok (.replay (.applied o)) => .applied capsule finiteMode (o.desiredGeneration.getD 1) true
  | .ok (.replay other) => .failed (.unexpectedReplay other) .internal
  | .ok (.rejected message) =>
    if containsText message "idempotency conflict" then .failed .differentRequest .conflict
    else .failed (.write message) .failedPrecondition
  | .error e => .failed (.write e) .unavailable

/-- The payload of a reintroduction. -/
def reintroducePayload (finiteMode operation : String) : List UInt8 :=
  utf8 ("reintroduce:" ++ finiteMode ++ ":" ++ operation)

/-- It starts with the letter `r`. -/
theorem reintroducePayload_eq (finiteMode operation : String) :
    ∃ rest, reintroducePayload finiteMode operation = 114 :: rest := by
  unfold reintroducePayload
  rw [utf8_append, utf8_append, utf8_append, List.append_assoc, List.append_assoc]
  exact ⟨_, rfl⟩

section Reintroduce

variable [Blake3] [Crc32] [Ed25519] [UuidParser]

def reintroduceRequestDigest (operationId : Id16) (contentDigest : Digest)
    (ns app finiteMode : String) : Digest :=
  Blake3.hash (operationId.bytes ++ contentDigest.bytes ++ utf8 ns ++ [0] ++ utf8 app ++ [0] ++
    utf8 "reintroduce" ++ [0] ++ utf8 finiteMode)

/-- The name of the operation: the one of the request, or one that names the
Capsule. -/
def ReintroduceRequest.operation (req : ReintroduceRequest) (capsule : VerifiedCapsule) : String :=
  (nonBlank req.operationId).getD ("reintroduce-" ++ toHyphenated capsule.capsuleId)

/-- The write of a reintroduction. -/
def ReintroduceRequest.command (req : ReintroduceRequest) (capsule : VerifiedCapsule)
    (finiteMode : String) (operationId : Id16) : RaftCommand :=
  .idempotent operationId
    (reintroduceRequestDigest operationId capsule.contentDigest req.ns req.app finiteMode)
    (.putDesired req.ns req.app 0 (reintroducePayload finiteMode (req.operation capsule))
      capsule.contentDigest)

variable {σ : Type} (store : ObjectStore (StateM σ)) (fate : WriteFate)

/-- Commit fresh intent for a verified Capsule. -/
def reintroduceVerified (req : ReintroduceRequest) (capsule : VerifiedCapsule)
    (finiteMode : String) : StateM (DeployWorld σ) ReintroduceOutcome :=
  match parseOperationId (req.operation capsule) with
  | .error e => pure (.failed (.operationId e) .invalidArgument)
  | .ok operationId => do
    let reply ← onCluster (clientWrite fate (req.command capsule finiteMode operationId))
    pure (settleReintroduce capsule finiteMode reply)

/-- `run_reintroduce`, unless it panics. -/
def runReintroduce (trust : SignerTrustPolicy) (nowMs : Nat) (req : ReintroduceRequest) :
    StateM (DeployWorld σ) (Except String ReintroduceOutcome) :=
  match normalizeFiniteMode req.plan req.finiteMode req.resumeFrom with
  | .error e => pure (.ok (.failed (.finiteMode e) .invalidArgument))
  | .ok finite => do
    match ← onStore (verifyStoredCapsule store req.clusterId req.capsuleId) with
    | .error (.panic message) => pure (.error message)
    | .error (.error e) => pure (.ok (.failed (.stored e) .notFound))
    | .ok capsule =>
      match trust.check capsule.signerPublicKey req.ns nowMs .declaration none with
      | .error e => pure (.ok (.failed (.signer e) .permissionDenied))
      | .ok _ =>
        if req.plan then pure (.ok (.plan capsule (finite.getD "unspecified_plan")))
        else
          match finite with
          | none => pure (.error "non-plan requires finite_mode")
          | some finiteMode => do
            let outcome ← reintroduceVerified fate req capsule finiteMode
            pure (.ok outcome)

end Reintroduce

/-! ## A reintroduction of the sample Capsule -/

namespace Sample

/-- The parser on the texts of the sample cluster, Capsule and operation. -/
@[reducible] def uuidParser : UuidParser where
  parseStr text :=
    if text = "01900000-0000-7000-8000-000000000009" then some (id 9)
    else if text = "01900000-0000-7000-8000-000000000001" then some (id 1)
    else if text = "01900000-0000-7000-8000-000000000003" then some (id 3)
    else none

/-- The request to reintroduce the sample Capsule as the app `c` of the namespace
`a`. -/
def reintroduceRequest : ReintroduceRequest where
  clusterId := "01900000-0000-7000-8000-000000000009"
  capsuleId := "01900000-0000-7000-8000-000000000001"
  plan := false
  finiteMode := some "new_execution"
  resumeFrom := none
  operationId := some "01900000-0000-7000-8000-000000000003"
  ns := "a"
  app := "c"

/-- BLAKE3 on the sample Capsule and on that request. -/
@[reducible] def recoveryBlake3 : Blake3 where
  hash input :=
    if input = operation.bytes ++ Sample.fileDigest.bytes ++
        utf8 "a\x00c\x00reintroduce\x00new_execution" then
      ⟨[138, 120, 231, 94, 83, 65, 191, 49, 71, 144, 36, 49, 175, 228, 61, 171, 231, 122, 53,
        167, 245, 157, 5, 235, 176, 238, 22, 245, 237, 55, 219, 133], rfl⟩
    else Sample.digest input

/-- A store that holds the sample Capsule at its final key. -/
def storeWithCapsule : @FakeObjectStore recoveryBlake3 :=
  letI := recoveryBlake3
  { FakeObjectStore.new with
    objects := OrdMap.empty.insert
      (finalCapsuleKey Sample.cluster Sample.capsule)
      (.of Sample.file) }

end Sample

end Gump.Server
