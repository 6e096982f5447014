/-
  Server/DeployTxn.lean --- the deploy transaction (`deploy_txn.rs`).

  A Capsule is quarantined, verified and published, its application identity is
  compared with the request, and then the intent is committed as one replicated
  write.  A Capsule that was published without an accepted intent is an orphan.
-/
import Mathlib.Algebra.GroupWithZero.Nat
import Gump.Connectors.Accept
import Gump.Foundation.Serde
import Gump.Memory.ClusterNode
import Gump.Server.Host

set_option autoImplicit false

namespace Gump.Server

open Gump.Foundation Gump.Types Gump.Memory Gump.Crypto Gump.Connectors
open Gump.Capsule (SegmentType Crc32 CapsuleDialectError verify)

/-! ## Identifiers -/

section Ids

variable [Blake3]

/-- An identifier of version 7 from a hash. -/
def v7FromHash (bytes : List UInt8) : Octets 16 :=
  ⟨stampVersion7 ((Blake3.hash bytes).bytes.take 16), by
    simp [stampVersion7, (Blake3.hash bytes).length_eq]⟩

variable [UuidParser]

def parseOperationId (s : String) : Except String Id16 :=
  match parseId s with
  | .ok id => .ok id
  | .error _ =>
    if s = "" then .error "operation_id must be non-empty" else .ok (v7FromHash (utf8 s))

def parseClusterId (s : String) : ClusterId :=
  match parseId s with
  | .ok id => id
  | .error _ => v7FromHash (utf8 s)

end Ids

/-! ## Requests and outcomes -/

structure DeployTxnRequest where
  operationId : Id16
  operationIdDisplay : String
  ns : String
  app : String
  expectedGeneration : Nat
  contentDigest : Digest
  capsuleBytes : Option (List UInt8)
  clusterId : ClusterId
  capsuleId : CapsuleId
  /-- Typed identifiers have the version 7. -/
  capsuleV7 : version capsuleId = 7
  deriving DecidableEq, Repr

inductive DeployPhase where
  | localValidation
  | authz
  | capsulePersist
  | immutablePublish
  | intentAccept
  deriving DecidableEq, Repr

/-- Where a published Capsule lives. -/
structure ObjectLocator where
  key : ObjectKey
  uri : String
  deriving DecidableEq, Repr

structure OrphanCapsule where
  capsuleId : CapsuleId
  capsuleDigest : Digest
  object : ObjectLocator
  operationId : Id16
  deriving DecidableEq, Repr

/-- Why the application identity of a published Capsule was not accepted. -/
inductive ApplicationError where
  /-- `open verified Capsule metadata: {e}` -/
  | openMetadata (e : ObjectStoreError)
  /-- `verify published Capsule metadata: {e}` -/
  | verifyMetadata (e : CapsuleDialectError)
  /-- `Capsule lacks public release metadata` -/
  | lacksMetadata
  /-- `read verified Capsule metadata: {e}` -/
  | readMetadata (e : ObjectStoreError)
  /-- `decode verified release metadata: {e}` -/
  | decodeMetadata (e : String)
  /-- `Capsule lacks signed application identity` -/
  | lacksIdentity
  /-- `deployment target {ns}/{app} does not match signed Capsule application …` -/
  | mismatch (ns app signedNs signedApp : String)
  deriving DecidableEq, Repr

/-- The reason of a failed deployment. -/
inductive DeployReason where
  | ingress (e : IngressError)
  /-- `verified Capsule digest differs from declared content digest` -/
  | digestDiffers
  | application (e : ApplicationError)
  /-- `final Capsule key exists with divergent digest` -/
  | divergentDigest
  /-- `capsule bytes required when object is not already published …` -/
  | bytesRequired
  | object (e : ObjectStoreError)
  /-- `encode desired Capsule binding: {e}` -/
  | encodeBinding (e : String)
  /-- `unexpected replay payload {other:?}` -/
  | unexpectedReplay (response : RaftResponse)
  /-- The message of a rejected write, or the error of one without an answer. -/
  | write (message : String)
  deriving DecidableEq, Repr

inductive DeployTxnOutcome where
  | success (desiredGeneration clusterRevision : Nat) (object : ObjectLocator) (replayed : Bool)
  | conflict (operationId : Id16)
  | failed (phase : DeployPhase) (reason : DeployReason) (orphan : Option OrphanCapsule)
  deriving DecidableEq, Repr

/-- The digest that the replicated receipt keeps of a request. -/
def deployRequestDigest [Blake3] (req : DeployTxnRequest) : Digest :=
  Blake3.hash (req.operationId.bytes ++ req.contentDigest.bytes ++ utf8 req.ns ++ [0] ++
    utf8 req.app ++ toBeBytes 8 req.expectedGeneration)

/-- The final key of a request. -/
def DeployTxnRequest.key (req : DeployTxnRequest) : ObjectKey :=
  finalCapsuleKey req.clusterId req.capsuleId

/-! ## Publication -/

/-- The locator of a key. -/
def locatorOf (key : ObjectKey) : ObjectLocator := ⟨key, "fake-object://" ++ key.text⟩

section Publish

variable {m : Type → Type} [Monad m] (store : ObjectStore m)

/-- `publish_capsule`: the locator, or the failed outcome. -/
def publishCapsule (req : DeployTxnRequest) : m (Except DeployTxnOutcome ObjectLocator) := do
  match ← store.head req.key with
  | .ok ev =>
    if ev.digest = req.contentDigest then pure (.ok (locatorOf req.key))
    else pure (.error (.failed .immutablePublish .divergentDigest none))
  | .error _ =>
    match req.capsuleBytes with
    | none => pure (.error (.failed .localValidation .bytesRequired none))
    | some bytes => do
      match ← store.beginQuarantine req.clusterId req.capsuleId bytes.length with
      | .error e => pure (.error (.failed .capsulePersist (.object e) none))
      | .ok upload => do
        match ← store.write upload bytes with
        | .error e => do
          let _ ← store.abort upload
          pure (.error (.failed .capsulePersist (.object e) none))
        | .ok _ => do
          match ← store.finishQuarantine upload req.contentDigest with
          | .error e => pure (.error (.failed .capsulePersist (.object e) none))
          | .ok quarantine => do
            match ← store.publishIfAbsent quarantine.key req.key req.contentDigest bytes.length with
            | .ok _ => pure (.ok (locatorOf req.key))
            | .error e =>
              if e.kind = .conflict then do
                match ← store.head req.key with
                | .ok ev =>
                  if ev.digest = req.contentDigest then pure (.ok (locatorOf req.key))
                  else
                    pure (.error (.failed .immutablePublish (.object e) none))
                | .error _ =>
                  pure (.error (.failed .immutablePublish (.object e) none))
              else pure (.error (.failed .immutablePublish (.object e) none))

end Publish

/-! ## The application identity -/

structure AppIdentity where
  ns : String
  appId : String
  deriving DecidableEq, Repr

/-- Release metadata, as far as it names the application: itself, and in its
normalized manifest. -/
structure ReleaseMetadata where
  app : Option AppIdentity
  normalizedManifest : Option (Option AppIdentity)
  deriving DecidableEq, Repr

/-- The application that the metadata names; the manifest comes first. -/
def ReleaseMetadata.application (release : ReleaseMetadata) : Option AppIdentity :=
  (release.normalizedManifest.bind id).or release.app

/-- The decoder of release metadata. -/
class ReleaseCodec where
  decode : List UInt8 → Except String ReleaseMetadata

/-- Whether a signed application is the requested one. -/
def matchApplication (ns app : String) : Option AppIdentity → Except ApplicationError Unit
  | none => .error .lacksIdentity
  | some signed =>
    if signed.ns ≠ ns ∨ signed.appId ≠ app then
      .error (.mismatch ns app signed.ns signed.appId)
    else .ok ()

theorem matchApplication_eq_ok_iff {ns app : String} {signed : Option AppIdentity} :
    matchApplication ns app signed = .ok () ↔ signed = some ⟨ns, app⟩ := by
  cases signed with
  | none => simp [matchApplication]
  | some signed =>
    obtain ⟨signedNs, signedApp⟩ := signed
    by_cases hsame : signedNs = ns ∧ signedApp = app
    · simp [matchApplication, hsame]
    · simp [matchApplication, hsame, ← not_and_or]

section Application

variable [Blake3] [Crc32] [ReleaseCodec]

/-- `verify_requested_application`. -/
def verifyRequestedApplication {m : Type → Type} [Monad m] (store : ObjectStore m)
    (req : DeployTxnRequest) : m (Checked ApplicationError Unit) := do
  match ← store.getReader req.key none with
  | .error e => pure (.error (.error (.openMetadata e)))
  | .ok stream =>
    match verify stream with
    | .error halt => pure (.error (halt.mapError .verifyMetadata))
    | .ok capsuleMeta =>
      match capsuleMeta.table.descriptors.find? fun d => d.segmentType = .publicMetadata with
      | none => pure (.error (.error .lacksMetadata))
      | some d => do
        match ← store.get req.key (some (segmentRange capsuleMeta d)) with
        | .error e => pure (.error (.error (.readMetadata e)))
        | .ok bytes =>
          match ReleaseCodec.decode bytes with
          | .error e => pure (.error (.error (.decodeMetadata e)))
          | .ok release =>
            pure ((matchApplication req.ns req.app release.application).mapError .error)

end Application

/-! ## The transaction -/

/-- The binding of a Capsule for the desired state. -/
def DesiredCapsuleBinding.serialize (b : DesiredCapsuleBinding) : SerdeValue :=
  .struct [("schema", .str b.schema), ("operation_id", .str b.operationId),
    ("capsule_id", .str b.capsuleId)]

/-- The binding that a deployment commits. -/
def DeployTxnRequest.binding (req : DeployTxnRequest) : DesiredCapsuleBinding :=
  ⟨bindingSchema, req.operationIdDisplay, toHyphenated req.capsuleId⟩

/-- The orphan that a request leaves. -/
def DeployTxnRequest.orphan (req : DeployTxnRequest) (object : ObjectLocator) : OrphanCapsule :=
  ⟨req.capsuleId, req.contentDigest, object, req.operationId⟩

/-- What the reply to the write makes of a deployment: its outcome, and the orphans
it adds to the list. -/
def DeployTxnRequest.settle (req : DeployTxnRequest) (object : ObjectLocator) :
    Except String RaftResponse → DeployTxnOutcome × List OrphanCapsule
  | .ok (.applied o) =>
    (.success (o.desiredGeneration.getD 1) o.revision object false, [])
  | .ok (.replay (.applied o)) =>
    (.success (o.desiredGeneration.getD 1) o.revision object true, [])
  | .ok (.replay other) => (.failed .intentAccept (.unexpectedReplay other) none, [])
  | .ok (.rejected message) =>
    if containsText message "idempotency conflict" then (.conflict req.operationId, [])
    else
      (.failed .intentAccept (.write message) (some (req.orphan object)), [req.orphan object])
  | .error e => (.failed .intentAccept (.write e) (some (req.orphan object)), [req.orphan object])

/-- The object store and the replicated state that a deployment works on. -/
structure DeployWorld (σ : Type) where
  store : σ
  cluster : ClusterState

section Transaction

variable {σ : Type} {α : Type}

/-- An operation on the store. -/
def onStore (op : StateM σ α) : StateM (DeployWorld σ) α := fun w =>
  ((op.run w.store).1, { w with store := (op.run w.store).2 })

/-- An operation on the replicated state. -/
def onCluster (op : StateM ClusterState α) : StateM (DeployWorld σ) α := fun w =>
  ((op.run w.cluster).1, { w with cluster := (op.run w.cluster).2 })

/-- What a transaction returns: its outcome and the orphans it reports, unless it
panics. -/
abbrev DeployResult : Type := Except String (DeployTxnOutcome × List OrphanCapsule)

variable [Blake3]

/-- The write of a deployment. -/
def DeployTxnRequest.command (req : DeployTxnRequest) (payload : List UInt8) : RaftCommand :=
  .idempotent req.operationId (deployRequestDigest req)
    (.putDesired req.ns req.app req.expectedGeneration payload req.contentDigest)

variable [SerdeJson] (store : ObjectStore (StateM σ)) (fate : WriteFate)

/-- `run_deploy_txn`. -/
def runDeployTxn (req : DeployTxnRequest) :
    StateM (DeployWorld σ) (DeployTxnOutcome × List OrphanCapsule) := do
  match ← onStore (publishCapsule store req) with
  | .error outcome => pure (outcome, [])
  | .ok object =>
    match SerdeJson.toVec req.binding.serialize with
    | .error e => pure (.failed .localValidation (.encodeBinding e) none, [])
    | .ok payload => do
      let reply ← onCluster (clientWrite fate (req.command payload))
      pure (req.settle object reply)

variable [Crc32] [Ed25519] [ReleaseCodec]

/-- One call of the verified deployment. -/
structure DeployCall where
  trust : SignerTrustPolicy
  req : DeployTxnRequest
  nowMs : Nat
  contentLength : Nat

/-- The ingress call of a deployment, with the default limits. -/
def DeployCall.ingress (call : DeployCall) : IngressCall :=
  ⟨{}, call.trust, call.req.clusterId, call.req.capsuleId, call.req.ns, call.nowMs,
    call.contentLength⟩

/-- `run_verified_deploy_reader`. -/
def runVerifiedDeployReader (call : DeployCall) (reads : Reads) :
    StateM (DeployWorld σ) DeployResult := do
  match ← onStore (call.ingress.acceptKnownLength store reads) with
  | .error (.panic message) => pure (.error message)
  | .error (.error e) => pure (.ok (.failed .authz (.ingress e) none, []))
  | .ok receipt =>
    if receipt.stats.digest ≠ call.req.contentDigest then
      pure (.ok (.failed .localValidation .digestDiffers none, []))
    else do
      match ← onStore (verifyRequestedApplication store call.req) with
      | .error (.panic message) => pure (.error message)
      | .error (.error e) => pure (.ok (.failed .localValidation (.application e) none, []))
      | .ok () => do
        let ended ← runDeployTxn store fate call.req
        pure (.ok ended)

end Transaction

/-! ## A deployment of the sample Capsule -/

namespace Sample

/-- The operation `01900000-0000-7000-8000-000000000003`. -/
def operation : Id16 := id 3

/-- The request to deploy the sample Capsule as an app of the namespace `a`. -/
def request (app : String) (expectedGeneration : Nat) : DeployTxnRequest where
  operationId := operation
  operationIdDisplay := "01900000-0000-7000-8000-000000000003"
  ns := "a"
  app := app
  expectedGeneration := expectedGeneration
  contentDigest := Sample.fileDigest
  capsuleBytes := none
  clusterId := Sample.cluster
  capsuleId := Sample.capsule
  capsuleV7 := Sample.version_capsule

/-- The bytes hashed for a request of the app `b`. -/
def requestInput (expectedGeneration : Nat) : List UInt8 :=
  operation.bytes ++ Sample.fileDigest.bytes ++ [97, 0, 98] ++
    toBeBytes 8 expectedGeneration

/-- BLAKE3 on the sample Capsule and on the requests that expect the generations 0
and 1. -/
@[reducible] def deployBlake3 : Blake3 where
  hash input :=
    if input = requestInput 0 then
      ⟨[132, 231, 22, 80, 202, 225, 238, 239, 141, 88, 9, 133, 219, 68, 120, 227, 135, 85, 155,
        93, 42, 25, 9, 114, 13, 131, 96, 198, 14, 44, 137, 86], rfl⟩
    else if input = requestInput 1 then
      ⟨[11, 106, 88, 69, 139, 126, 245, 123, 111, 152, 41, 214, 211, 96, 177, 127, 124, 75, 87,
        174, 66, 231, 118, 100, 154, 15, 249, 89, 199, 234, 224, 254], rfl⟩
    else Sample.digest input

/-- The decoder on the metadata of the sample Capsule. -/
@[reducible] def releaseCodec : ReleaseCodec where
  decode bytes :=
    if bytes = Sample.metadata then .ok ⟨some ⟨"a", "b"⟩, none⟩
    else .error "failed to decode Protobuf message"

/-- The call that deploys the sample Capsule. -/
def deploy (app : String) (expectedGeneration : Nat) : DeployCall where
  trust := Sample.trust
  req := request app expectedGeneration
  nowMs := 0
  contentLength := 619

end Sample

end Gump.Server
