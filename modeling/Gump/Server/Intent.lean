/-
  Server/Intent.lean --- the writers of desired state.

  Deployment and reintroduction commit desired declarations; a node reads them back
  as bindings of Capsules.  What an operation itself adds to the desired state is
  one declaration.  A deployment adds it for a Capsule that is signed for the
  application, if the store reports true digests, with a binding that every node
  can decode; a reintroduction neither compares the application nor writes a
  binding.
-/
import Mathlib.Algebra.GroupWithZero.Nat
import Gump.Server.DeployExits
import Gump.Server.RecoveryTxn
import Gump.Server.Runtime

set_option autoImplicit false

namespace Gump.Server

open Gump.Foundation Gump.Types Gump.Memory Gump.Crypto Gump.Connectors
open Gump.Capsule (Crc32 verify signerOf verifyReleaseSignature)

/-! ## Operations -/

/-- An operation that commits desired state. -/
inductive IntentOperation where
  /-- `run_deploy_txn` -/
  | transact (req : DeployTxnRequest)
  /-- `run_verified_deploy_reader` -/
  | deploy (call : DeployCall) (reads : Reads)
  /-- `run_reintroduce` -/
  | reintroduce (trust : SignerTrustPolicy) (nowMs : Nat) (req : ReintroduceRequest)

section Operations

variable [Blake3] [SerdeJson] [Crc32] [Ed25519] [ReleaseCodec] [UuidParser] {σ : Type}

/-- The world that an operation leaves.  The cluster of the world is the state that
the write of the operation meets. -/
def IntentOperation.run (store : ObjectStore (StateM σ)) (answer : WriteAnswer)
    (w : DeployWorld σ) : IntentOperation → DeployWorld σ
  | transact req => ((runDeployTxn store { answer := answer } req).run w).2
  | deploy call reads => ((runVerifiedDeployReader store { answer := answer } call reads).run w).2
  | reintroduce trust nowMs req =>
    ((runReintroduce store { answer := answer } trust nowMs req).run w).2

/-- The declaration is in the second state and not in the first. -/
def Adds (before after : ClusterState) (key : AppKey) (entry : DesiredEntry) : Prop :=
  after.desired.get key = some entry ∧ before.desired.get key ≠ some entry

/-- The Capsule that an operation works on. -/
def IntentOperation.capsule : IntentOperation → Option CapsuleId
  | transact req => some req.capsuleId
  | deploy call _ => some call.req.capsuleId
  | reintroduce _ _ req => (parseId req.capsuleId).toOption

/-- The operation deploys. -/
def IntentOperation.deploys : IntentOperation → Bool
  | transact _ => true
  | deploy _ _ => true
  | reintroduce _ _ _ => false

end Operations

/-! ## What an operation adds -/

section Adds

variable [Blake3] [SerdeJson] {σ : Type} (store : ObjectStore (StateM σ))

/-- A transaction leaves the cluster or makes its write. -/
theorem runDeployTxn_cluster (fate : WriteFate) (req : DeployTxnRequest) (w : DeployWorld σ) :
    ((runDeployTxn store fate req).run w).2.cluster = w.cluster ∨
      ∃ payload, SerdeJson.toVec req.binding.serialize = .ok payload ∧
        ((runDeployTxn store fate req).run w).2.cluster =
          fate.left (req.command payload) w.cluster := by
  obtain ⟨⟨published, t⟩, hrun⟩ :
      ∃ ended, (publishCapsule store req).run w.store = ended := ⟨_, rfl⟩
  rw [runDeployTxn, stateM_run_bind (onStore_run hrun)]
  cases published with
  | error outcome => exact Or.inl rfl
  | ok object =>
    cases hpayload : SerdeJson.toVec req.binding.serialize with
    | error e => exact Or.inl rfl
    | ok payload => exact Or.inr ⟨payload, rfl, rfl⟩

variable [Crc32] [Ed25519] [ReleaseCodec]

/-- A verified deployment leaves the cluster or makes the write of its request. -/
theorem runVerifiedDeployReader_cluster (fate : WriteFate) (call : DeployCall) (reads : Reads)
    (w : DeployWorld σ) :
    ((runVerifiedDeployReader store fate call reads).run w).2.cluster = w.cluster ∨
      ∃ payload, SerdeJson.toVec call.req.binding.serialize = .ok payload ∧
        ((runVerifiedDeployReader store fate call reads).run w).2.cluster =
          fate.left (call.req.command payload) w.cluster := by
  have hends := runVerifiedDeployReader_concludes store fate call reads w
  generalize ((runVerifiedDeployReader store fate call reads).run w).1 = r at hends
  generalize ((runVerifiedDeployReader store fate call reads).run w).2 = w' at hends ⊢
  cases hends with
  | stopped => exact Or.inl rfl
  | written payload t _ hpayload => exact Or.inr ⟨payload, hpayload, rfl⟩

variable [UuidParser]

omit [SerdeJson] [ReleaseCodec] in
/-- A reintroduction leaves the cluster, or makes its write for a Capsule that it
verified and whose signer it checked. -/
theorem runReintroduce_cluster (fate : WriteFate) (trust : SignerTrustPolicy) (nowMs : Nat)
    (req : ReintroduceRequest) (w : DeployWorld σ) :
    ((runReintroduce store fate trust nowMs req).run w).2.cluster = w.cluster ∨
      ∃ capsule decision finiteMode operationId,
        ((verifyStoredCapsule store req.clusterId req.capsuleId).run w.store).1 = .ok capsule ∧
        trust.check capsule.signerPublicKey req.ns nowMs .declaration none = .ok decision ∧
        ((runReintroduce store fate trust nowMs req).run w).2 =
          ⟨((verifyStoredCapsule store req.clusterId req.capsuleId).run w.store).2,
            fate.left (req.command capsule finiteMode operationId) w.cluster⟩ := by
  unfold runReintroduce
  cases normalizeFiniteMode req.plan req.finiteMode req.resumeFrom with
  | error e => exact Or.inl rfl
  | ok finite =>
    obtain ⟨⟨verified, t⟩, hverify⟩ : ∃ ended,
        (verifyStoredCapsule store req.clusterId req.capsuleId).run w.store = ended := ⟨_, rfl⟩
    simp only
    rw [stateM_run_bind (onStore_run hverify), hverify]
    cases verified with
    | error halt => cases halt <;> exact Or.inl rfl
    | ok capsule =>
      simp only
      cases htrust : trust.check capsule.signerPublicKey req.ns nowMs .declaration none with
      | error e => exact Or.inl rfl
      | ok decision =>
        simp only
        split
        · exact Or.inl rfl
        · cases finite with
          | none => exact Or.inl rfl
          | some finiteMode =>
            unfold reintroduceVerified
            cases parseOperationId (req.operation capsule) with
            | error e => exact Or.inl rfl
            | ok operationId =>
              exact Or.inr ⟨capsule, decision, finiteMode, operationId, rfl, htrust, rfl⟩

/-- The request of a deployment. -/
def IntentOperation.request : IntentOperation → Option DeployTxnRequest
  | transact req => some req
  | deploy call _ => some call.req
  | reintroduce _ _ _ => none

omit [SerdeJson] [Crc32] [Ed25519] [ReleaseCodec] [UuidParser] in
/-- What a write of a request adds. -/
theorem adds_of_write {answer : WriteAnswer} {s t : ClusterState} {key : AppKey}
    {entry : DesiredEntry} {operationId : Id16} {requestDigest : Digest} {ns app : String}
    {expected : Nat} {payload : List UInt8} {digest : Digest}
    (ht : t = ({ answer := answer } : WriteFate).left (.idempotent operationId requestDigest
      (.putDesired ns app expected payload digest)) s) (h : Adds s t key entry) :
    key = ⟨ns, app⟩ ∧ entry = ⟨saturatingAdd expected 1, digest, payload⟩ := by
  obtain ⟨hget, hnew⟩ := h
  rw [ht] at hget
  rcases WriteFate.left_alone answer (.idempotent operationId requestDigest
    (.putDesired ns app expected payload digest)) s with hleft | hleft
  · rw [hleft] at hget
    exact (s.declares _ _ _ _ _ _ _ hget).resolve_left hnew
  · rw [hleft] at hget
    exact absurd hget hnew

/-- The declaration that an operation adds. -/
inductive Declared : IntentOperation → AppKey → DesiredEntry → Prop
  | deployed {op : IntentOperation} (req : DeployTxnRequest) (hreq : op.request = some req)
      (payload : List UInt8) (hpayload : SerdeJson.toVec req.binding.serialize = .ok payload) :
      Declared op ⟨req.ns, req.app⟩
        ⟨saturatingAdd req.expectedGeneration 1, req.contentDigest, payload⟩
  | reintroduced (trust : SignerTrustPolicy) (nowMs : Nat) (req : ReintroduceRequest)
      (capsule : VerifiedCapsule) (finiteMode : String) :
      Declared (.reintroduce trust nowMs req) ⟨req.ns, req.app⟩
        ⟨saturatingAdd 0 1, capsule.contentDigest,
          reintroducePayload finiteMode (req.operation capsule)⟩

theorem declared_of_adds {answer : WriteAnswer} {w : DeployWorld σ} {op : IntentOperation}
    {key : AppKey} {entry : DesiredEntry}
    (h : Adds w.cluster (op.run store answer w).cluster key entry) : Declared op key entry := by
  cases op with
  | transact req =>
    rcases runDeployTxn_cluster store { answer := answer } req w with hsame | ⟨payload, hp, hleft⟩
    · exact absurd (hsame ▸ h.1) h.2
    · obtain ⟨rfl, rfl⟩ := adds_of_write hleft h
      exact .deployed req rfl payload hp
  | deploy call reads =>
    rcases runVerifiedDeployReader_cluster store { answer := answer } call reads w with
      hsame | ⟨payload, hp, hleft⟩
    · exact absurd (hsame ▸ h.1) h.2
    · obtain ⟨rfl, rfl⟩ := adds_of_write hleft h
      exact .deployed call.req rfl payload hp
  | reintroduce trust nowMs req =>
    rcases runReintroduce_cluster store { answer := answer } trust nowMs req w with
      hsame | ⟨capsule, _, finiteMode, operationId, _, _, hleft⟩
    · exact absurd (hsame ▸ h.1) h.2
    · obtain ⟨rfl, rfl⟩ := adds_of_write (congrArg DeployWorld.cluster hleft) h
      exact .reintroduced trust nowMs req capsule finiteMode

end Adds

/-! ## Bindings -/

section Bindings

variable [Blake3] [SerdeJson] [Crc32] [Ed25519] [ReleaseCodec] [UuidParser] {σ W : Type}

/-- What is assumed of the JSON and UUID libraries that a node reads bindings with:
it reads back what the operation wrote, and no binding starts with a letter. -/
structure ReadsBindings (R : RuntimeHost W) (op : IntentOperation) : Prop where
  roundTrip : ∀ req, op.request = some req → ∀ payload,
    SerdeJson.toVec req.binding.serialize = .ok payload → R.decodeBinding payload = .ok req.binding
  parses : ∀ req, op.request = some req → version req.capsuleId = 7 →
    R.parseCapsuleId (toHyphenated req.capsuleId) = some req.capsuleId
  rejects : ∀ rest binding, R.decodeBinding (114 :: rest) ≠ .ok binding

/-- What a node makes of a declaration. -/
def releaseIn (R : RuntimeHost W) (key : AppKey) (entry : DesiredEntry) :
    Except NodeError ReleaseIdentity :=
  releaseOf R ⟨key.ns, key.app, entry.generation, entry.contentDigest, entry.payload⟩

/-- A declaration that an operation commits names its Capsule to the nodes exactly
when the operation is a deployment. -/
theorem committed_binding_read_iff_deployed (R : RuntimeHost W) (store : ObjectStore (StateM σ))
    (answer : WriteAnswer) (w : DeployWorld σ) (op : IntentOperation) (hreads : ReadsBindings R op)
    {key : AppKey} {entry : DesiredEntry}
    (hadds : Adds w.cluster (op.run store answer w).cluster key entry) :
    (∃ capsule, op.capsule = some capsule ∧
        releaseIn R key entry = .ok ⟨capsule, entry.contentDigest⟩) ↔ op.deploys = true := by
  cases declared_of_adds store hadds with
  | deployed req hreq payload hpayload =>
    have hdecode := hreads.roundTrip req hreq payload hpayload
    have hparse := hreads.parses req hreq req.capsuleV7
    have hread : releaseIn R ⟨req.ns, req.app⟩
        ⟨saturatingAdd req.expectedGeneration 1, req.contentDigest, payload⟩ =
          .ok ⟨req.capsuleId, req.contentDigest⟩ := by
      simp [releaseIn, releaseOf, hdecode, DeployTxnRequest.binding, hparse]
    cases op with
    | transact _ =>
      obtain rfl := Option.some.inj hreq
      exact iff_of_true ⟨_, rfl, hread⟩ rfl
    | deploy _ _ =>
      obtain rfl := Option.some.inj hreq
      exact iff_of_true ⟨_, rfl, hread⟩ rfl
    | reintroduce _ _ _ => cases hreq
  | reintroduced trust nowMs req capsule finiteMode =>
    refine iff_of_false ?_ (by simp [IntentOperation.deploys])
    rintro ⟨capsule', _, hread⟩
    obtain ⟨rest, hpayload⟩ := reintroducePayload_eq finiteMode (req.operation capsule)
    cases hdecode : R.decodeBinding (reintroducePayload finiteMode (req.operation capsule)) with
    | error e => simp [releaseIn, releaseOf, hdecode] at hread
    | ok binding =>
      rw [hpayload] at hdecode
      exact hreads.rejects rest binding hdecode

end Bindings

namespace Sample

/-- A node that decodes the binding of Capsule 1. -/
def bindingHost : RuntimeHost Agent.Script :=
  { host (release 10 100 false) (release 10 100 false) true with
    decodeBinding := fun bytes =>
      if bytes = payload 1 then
        .ok ⟨bindingSchema, "01900000-0000-7000-8000-000000000003", capsuleText 1⟩
      else .error "expected value at line 1 column 1" }

theorem bindingHost_reads :
    letI := SerdeJson.compact
    ReadsBindings bindingHost (.deploy (deploy "b" 0) (.whole Sample.file)) := by
  refine @ReadsBindings.mk SerdeJson.compact _ _ _ ?_ ?_ ?_
  · rintro _ ⟨⟩ bytes hbytes
    have hencoded :
        SerdeJson.compact.toVec (request "b" 0).binding.serialize = .ok (payload 1) := by
      decide +kernel
    obtain rfl := Except.ok.inj (hencoded.symm.trans hbytes)
    decide +kernel
  · rintro _ ⟨⟩ _
    decide +kernel
  · intro rest binding h
    simp [bindingHost, payload, bindingHead] at h

/-- What the sample deployment adds to an empty cluster. -/
theorem deploy_adds :
    letI := deployBlake3
    letI := Sample.crc32
    letI := Sample.ed25519
    letI := releaseCodec
    letI := uuidParser
    letI := SerdeJson.compact
    Adds ClusterState.new ((IntentOperation.deploy (deploy "b" 0)
        (.whole Sample.file)).run FakeObjectStore.store .response ⟨.new, .new⟩).cluster
      ⟨"a", "b"⟩ ⟨1, Sample.fileDigest, payload 1⟩ := by
  unfold Adds
  decide +kernel

end Sample

/-- The declaration of a reintroduction is read by no node. -/
theorem reintroduced_payload_is_no_binding :
    letI := Sample.recoveryBlake3
    letI := Sample.crc32
    letI := Sample.ed25519
    letI := Sample.uuidParser
    let run := (runReintroduce FakeObjectStore.store {} Sample.trust 0
      Sample.reintroduceRequest).run ⟨Sample.storeWithCapsule, .new⟩
    run.1.toOption.map (fun o => o matches .applied _ _ 1 false) = some true ∧
      (run.2.cluster.desired.get ⟨"a", "c"⟩).map (releaseIn Sample.bindingHost ⟨"a", "c"⟩) =
        some (.error (.decodeBinding "a" "c" "expected value at line 1 column 1")) := by
  decide +kernel

/-- The declaration of the sample deployment is read as its Capsule. -/
theorem deployed_payload_is_binding :
    letI := Sample.deployBlake3
    letI := Sample.crc32
    letI := Sample.ed25519
    letI := Sample.releaseCodec
    letI := Sample.uuidParser
    letI := SerdeJson.compact
    ∃ capsule, (IntentOperation.deploy (Sample.deploy "b" 0)
        (.whole Sample.file)).capsule = some capsule ∧
      releaseIn Sample.bindingHost ⟨"a", "b"⟩ ⟨1, Sample.fileDigest, Sample.payload 1⟩ =
        .ok ⟨capsule, Sample.fileDigest⟩ :=
  (@committed_binding_read_iff_deployed Sample.deployBlake3 SerdeJson.compact
    Sample.crc32 Sample.ed25519 Sample.releaseCodec Sample.uuidParser _ _
    Sample.bindingHost _ .response ⟨_, .new⟩
    (.deploy (Sample.deploy "b" 0) (.whole Sample.file)) Sample.bindingHost_reads _ _
    Sample.deploy_adds).mpr rfl

/-! ## Signatures -/

section Signatures

variable [Blake3] [Crc32] [Ed25519] [ReleaseCodec]

/-- A Capsule has a release signature that verifies, by a signer with the key. -/
def SignedBy (key : VerifyingKeyBytes) (bytes : List UInt8) : Prop :=
  ∃ capsuleMeta signature headerCbor, verify ⟨bytes, none⟩ = .ok capsuleMeta ∧
    signerOf capsuleMeta.signatureSegment = some (key, signature) ∧
    capsuleMeta.header.encodeCbor = .ok headerCbor ∧
    verifyReleaseSignature headerCbor capsuleMeta.table key signature = .ok ()

/-- A Capsule with a release signature that verifies, a signer that the policy
accepts for the namespace at the time, and signed metadata that name the
application. -/
structure SignedFor (trust : SignerTrustPolicy) (nowMs : Nat) (app : AppKey)
    (bytes : List UInt8) : Prop where
  signature : ∃ key decision, SignedBy key bytes ∧
    trust.check key app.ns nowMs .publication none = .ok decision
  application : NamesApplication bytes app.ns app.app

omit [ReleaseCodec] in
/-- Bytes that pass the checks of a reintroduction. -/
theorem signed_of_verifyStoredBytes {cluster : ClusterId} {capsule : CapsuleId}
    {ev : ObjectEvidence} {stream : ByteStream} {v : VerifiedCapsule}
    (h : verifyStoredBytes cluster capsule ev stream = .ok v) :
    stream.fault = none ∧ v.contentDigest = ev.digest ∧ Blake3.hash stream.bytes = ev.digest ∧
      SignedBy v.signerPublicKey stream.bytes := by
  unfold verifyStoredBytes at h
  split at h
  · cases h
  · rename_i capsuleMeta hverify
    have hfault := Capsule.fault_of_verify hverify
    have hstream : stream = ⟨stream.bytes, none⟩ := by rw [← hfault]
    split at h
    · cases h
    · rename_i hevidence
      split at h
      · cases h
      · split at h
        · cases h
        · rename_i key signature hsigner
          split at h
          · cases h
          · rename_i headerCbor hheader
            split at h
            · cases h
            · rename_i hsignature
              obtain rfl := Except.ok.inj h
              exact ⟨hfault, rfl, not_not.mp (not_or.mp hevidence).2, capsuleMeta, signature,
                headerCbor, hstream ▸ hverify, hsigner, hheader, hsignature⟩

section Store

variable {σ : Type} {store : ObjectStore (StateM σ)} (C : store.Contract)
variable [UuidParser]

omit [ReleaseCodec] in
/-- A verification leaves the objects; what it accepts is the one at the final
key. -/
theorem verifyStoredCapsule_ensures (clusterId capsuleId : String) (s : σ) :
    Ensures (verifyStoredCapsule store clusterId capsuleId) s fun r t => C.object t = C.object s ∧
      ∀ v, r = .ok v → ∃ capsule o, parseId capsuleId = .ok capsule ∧
        C.object s (finalCapsuleKey (parseClusterId clusterId) capsule) = some o ∧
        Blake3.hash o.bytes = v.contentDigest ∧ SignedBy v.signerPublicKey o.bytes := by
  unfold verifyStoredCapsule
  cases parseId capsuleId with
  | error e => exact .pure ⟨rfl, fun _ h => by cases h⟩
  | ok capsule =>
    refine .seq (C.heads s _) fun head t ⟨hobjects, _⟩ => ?_
    cases head with
    | error e =>
      simp only
      split <;> exact .pure ⟨hobjects, fun _ h => by cases h⟩
    | ok ev =>
      refine .seq (C.reads t _ none) fun r u ⟨hsame, hread⟩ => ?_
      have hu : C.object u = C.object s := hsame.trans hobjects
      cases r with
      | error e => exact .pure ⟨hu, fun _ h => by cases h⟩
      | ok stream =>
        refine .pure ⟨hu, fun v hv => ?_⟩
        obtain ⟨hfault, hcontent, hhash, hsigned⟩ := signed_of_verifyStoredBytes hv
        obtain ⟨o, ho, hbytes⟩ := Option.map_eq_some_iff.mp (hread stream rfl hfault)
        obtain hbytes : o.bytes = stream.bytes := hbytes
        rw [hobjects] at ho
        exact ⟨capsule, o, rfl, ho, by rw [hbytes, hhash, hcontent], hbytes ▸ hsigned⟩

/-- The policy and the time that an operation checks signers with. -/
def IntentOperation.checks : IntentOperation → Option (SignerTrustPolicy × Nat)
  | transact _ => none
  | deploy call _ => some (call.trust, call.nowMs)
  | reintroduce trust nowMs _ => some (trust, nowMs)

/-- The final key that an operation works on. -/
def IntentOperation.key : IntentOperation → Option ObjectKey
  | transact req => some req.key
  | deploy call _ => some call.req.key
  | reintroduce _ _ req =>
    (parseId req.capsuleId).toOption.map (finalCapsuleKey (parseClusterId req.clusterId))

/-- BLAKE3 tells the body of a deployment from an object that is already at the
final key. -/
def IntentOperation.Distinguishes (s : σ) : IntentOperation → Prop
  | transact _ => True
  | deploy call reads => ∀ o, C.object s call.req.key = some o →
      Blake3.hash o.bytes = Blake3.hash reads.body → o.bytes = reads.body
  | reintroduce _ _ _ => True

/-- What an operation that checks signers relies on: an object that is already at
the final key of a deployment has the digest that the store reports for it, and
the stored Capsule of a reintroduction names the application of the request. -/
def IntentOperation.Vouched (s : σ) : IntentOperation → Prop
  | transact _ => True
  | deploy call _ => ∀ o, C.object s call.req.key = some o → Blake3.hash o.bytes = o.digest
  | reintroduce trust nowMs req => ∀ key o,
      (IntentOperation.reintroduce trust nowMs req).key = some key → C.object s key = some o →
        NamesApplication o.bytes req.ns req.app

/-- The Capsule with a digest at the final key of an operation is signed for an
application. -/
def IntentOperation.SignedRelease (op : IntentOperation) (s : σ) (app : AppKey)
    (digest : Digest) : Prop :=
  ∃ key o trust nowMs, op.key = some key ∧ op.checks = some (trust, nowMs) ∧
    C.object s key = some o ∧ Blake3.hash o.bytes = digest ∧ SignedFor trust nowMs app o.bytes

variable [SerdeJson] {C}
variable {answer : WriteAnswer} {w : DeployWorld σ} {key : AppKey} {entry : DesiredEntry}

/-- A deployment adds declarations for Capsules that are signed for them, exactly
when an object that was there has the digest reported for it. -/
theorem signedRelease_iff_of_deploy {call : DeployCall} {reads : Reads}
    (hdistinct : (IntentOperation.deploy call reads).Distinguishes C w.store)
    (hadds : Adds w.cluster ((IntentOperation.deploy call reads).run store answer w).cluster key
      entry) :
    (IntentOperation.deploy call reads).SignedRelease C
        ((IntentOperation.deploy call reads).run store answer w).store key entry.contentDigest ↔
      (IntentOperation.deploy call reads).Vouched C w.store := by
  have hends := runVerifiedDeployReader_concludes store { answer := answer } call reads w
  have hleaves := prepare_ensures C call reads w.store
  change Adds w.cluster
    ((runVerifiedDeployReader store { answer := answer } call reads).run w).2.cluster key entry
      at hadds
  change (IntentOperation.deploy call reads).SignedRelease C
    ((runVerifiedDeployReader store { answer := answer } call reads).run w).2.store key
      entry.contentDigest ↔ _
  generalize ((runVerifiedDeployReader store { answer := answer } call reads).run w).1 = r at hends
  generalize ((runVerifiedDeployReader store { answer := answer } call reads).run w).2 = w'
    at hends hadds ⊢
  cases hends with
  | stopped r t hprepared hfails => exact absurd hadds.1 hadds.2
  | written payload t hprepared hpayload =>
    obtain ⟨rfl, rfl⟩ := adds_of_write rfl hadds
    rw [Ensures, hprepared] at hleaves
    obtain ⟨haccepts, hdigest, hnames⟩ := hleaves.written rfl
    obtain ⟨⟨inspected, hverdict⟩, o, ho, hrecorded, hcopy, hold⟩ := hleaves.accepted haccepts
    constructor
    · rintro ⟨_, o', _, _, ⟨⟩, _, ho', hhash, _⟩ old hget
      obtain rfl := hold old hget
      obtain rfl := Option.some.inj (ho.symm.trans ho')
      exact hhash.trans (hdigest.symm.trans hrecorded.symm)
    · intro hvouched
      have hbytes : o.bytes = reads.body := by
        cases hget : C.object w.store call.req.key with
        | none => exact hcopy hget
        | some old =>
          obtain rfl := hold old hget
          exact hdistinct o hget ((hvouched o hget).trans hrecorded)
      have hpasses := IngressCall.passes_of_inspect hverdict
      obtain ⟨signature, headerCbor, hsigner, hheader, hsignature⟩ := hpasses.signed
      refine ⟨_, o, _, _, rfl, rfl, ho, by rw [hbytes, hdigest], ⟨inspected.signer,
        inspected.decision, ⟨inspected.capsuleMeta, signature, headerCbor, ?_, hsigner, hheader,
          hsignature⟩, hpasses.trusted⟩, hnames o ho⟩
      rw [hbytes]
      exact hpasses.framed

/-- A reintroduction adds declarations for Capsules that are signed, and signed for
the application exactly when they name it. -/
theorem signedRelease_iff_of_reintroduce {trust : SignerTrustPolicy} {nowMs : Nat}
    {req : ReintroduceRequest}
    (hadds : Adds w.cluster
      ((IntentOperation.reintroduce trust nowMs req).run store answer w).cluster key entry) :
    (IntentOperation.reintroduce trust nowMs req).SignedRelease C
        ((IntentOperation.reintroduce trust nowMs req).run store answer w).store
        key entry.contentDigest ↔
      (IntentOperation.reintroduce trust nowMs req).Vouched C w.store := by
  rcases runReintroduce_cluster store { answer := answer } trust nowMs req w with
    hsame | ⟨v, decision, finiteMode, operationId, hverified, htrust, hleft⟩
  · exact absurd (hsame ▸ hadds.1) hadds.2
  · obtain ⟨hstore, haccepted⟩ := verifyStoredCapsule_ensures C req.clusterId req.capsuleId w.store
    obtain ⟨capsule, o, hcapsule, ho, hdigest, hsigned⟩ := haccepted v hverified
    obtain ⟨rfl, rfl⟩ := adds_of_write (congrArg DeployWorld.cluster hleft) hadds
    have hkey : (IntentOperation.reintroduce trust nowMs req).key =
        some (finalCapsuleKey (parseClusterId req.clusterId) capsule) := by
      simp [IntentOperation.key, hcapsule, Except.toOption]
    have hafter :
        C.object ((IntentOperation.reintroduce trust nowMs req).run store answer w).store =
        C.object w.store := (congrArg (C.object ∘ DeployWorld.store) hleft).trans hstore
    unfold IntentOperation.SignedRelease
    rw [hafter]
    constructor
    · rintro ⟨key, o', _, _, hkey', _, ho', _, hfor⟩ key'' o'' hkey'' ho''
      obtain rfl := Option.some.inj (hkey'.symm.trans hkey'')
      obtain rfl := Option.some.inj (ho'.symm.trans ho'')
      exact hfor.application
    · intro hnames
      exact ⟨_, o, trust, nowMs, hkey, rfl, ho, hdigest,
        ⟨v.signerPublicKey, _, hsigned, SignerTrustPolicy.check_purpose .publication htrust⟩,
        hnames _ o hkey ho⟩

/-- A declaration that an operation with checks commits is for a Capsule that is
signed for its application, exactly when the store and the stored Capsule are as
the operation relies on. -/
theorem committed_release_signed_iff (C : store.Contract) (op : IntentOperation)
    (hchecks : op.checks.isSome = true) (answer : WriteAnswer) (w : DeployWorld σ)
    (hdistinct : op.Distinguishes C w.store) {key : AppKey} {entry : DesiredEntry}
    (hadds : Adds w.cluster (op.run store answer w).cluster key entry) :
    op.SignedRelease C (op.run store answer w).store key entry.contentDigest ↔
      op.Vouched C w.store := by
  cases op with
  | transact req => cases hchecks
  | deploy call reads => exact signedRelease_iff_of_deploy hdistinct hadds
  | reintroduce trust nowMs req => exact signedRelease_iff_of_reintroduce hadds

/-- One operation of a run, with the answer to its write. -/
def intentStep (store : ObjectStore (StateM σ)) (w : DeployWorld σ)
    (i : IntentOperation × WriteAnswer) : DeployWorld σ × Unit :=
  (i.1.run store i.2 w, ())

/-- Every declaration in the desired state was there before the run or is that of one
of its operations, which, if it checks signers, left a Capsule with a signature for
the application in the store. -/
theorem desired_state_traced (C : store.Contract) (ops : List (IntentOperation × WriteAnswer))
    (w : DeployWorld σ) (key : AppKey) (entry : DesiredEntry)
    (h : (runFrom (intentStep store) w ops).cluster.desired.get key = some entry) :
    w.cluster.desired.get key = some entry ∨
      ∃ t ∈ transitions (intentStep store) w ops, Declared t.input.1 key entry ∧
        (t.input.1.checks.isSome = true → t.input.1.Distinguishes C t.before.store →
          t.input.1.Vouched C t.before.store →
          t.input.1.SignedRelease C t.after.store key entry.contentDigest) := by
  by_contra hnone
  rw [not_or, not_exists] at hnone
  -- otherwise no operation of the run adds the declaration
  refine runFrom_of_transitions (P := fun w => w.cluster.desired.get key ≠ some entry)
    (fun t ht hbefore hafter => hnone.2 t ⟨ht, ?_⟩) hnone.1 h
  obtain ⟨-, -, -, -, -, hstep⟩ := exists_split_of_mem_transitions ht
  change t.after = t.input.1.run store t.input.2 t.before at hstep
  rw [hstep] at hafter ⊢
  have hadds := And.intro hafter hbefore
  refine ⟨declared_of_adds _ hadds, fun hchecks hdistinct hvouched => ?_⟩
  cases hop : t.input.1 with
  | transact req => simp [hop, IntentOperation.checks] at hchecks
  | deploy call reads =>
    rw [hop] at hdistinct hadds hvouched
    exact (signedRelease_iff_of_deploy hdistinct hadds).mpr hvouched
  | reintroduce trust nowMs req =>
    rw [hop] at hvouched hadds
    exact (signedRelease_iff_of_reintroduce hadds).mpr hvouched

end Store

end Signatures

/-- A Capsule that is signed for the application `b` is reintroduced as `c`. -/
theorem reintroduced_under_other_application :
    letI := Sample.recoveryBlake3
    letI := Sample.crc32
    letI := Sample.ed25519
    letI := Sample.releaseCodec
    letI := Sample.uuidParser
    let run := (runReintroduce FakeObjectStore.store {} Sample.trust 0
      Sample.reintroduceRequest).run ⟨Sample.storeWithCapsule, .new⟩
    run.1.toOption.map (fun o => o matches .applied _ _ 1 false) = some true ∧
      (run.2.cluster.desired.get ⟨"a", "c"⟩).map DesiredEntry.contentDigest =
        some Sample.fileDigest ∧
      (run.2.store.objects.get
          (finalCapsuleKey Sample.cluster Sample.capsule)).map
          (fun o => metadataOf o.bytes) = some (some ⟨some ⟨"a", "b"⟩, none⟩) := by
  decide +kernel

/-- The sample deployment commits a Capsule that is signed for its application. -/
theorem deployed_release_signed :
    letI := Sample.deployBlake3
    letI := Sample.crc32
    letI := Sample.ed25519
    letI := Sample.releaseCodec
    letI := Sample.uuidParser
    letI := SerdeJson.compact
    let op := IntentOperation.deploy (Sample.deploy "b" 0) (.whole Sample.file)
    op.SignedRelease FakeObjectStore.contract
      (op.run FakeObjectStore.store .response ⟨.new, .new⟩).store ⟨"a", "b"⟩
      Sample.fileDigest :=
  (@committed_release_signed_iff Sample.deployBlake3 Sample.crc32
    Sample.ed25519 Sample.releaseCodec _ _ Sample.uuidParser SerdeJson.compact _
    (.deploy (Sample.deploy "b" 0) (.whole Sample.file)) rfl .response ⟨_, .new⟩
    (fun _ h => by cases h) _ _ Sample.deploy_adds).mpr fun _ h => by cases h

/-- The declaration of the sample deployment is traced to it. -/
theorem deployed_state_traced :
    letI := Sample.deployBlake3
    letI := Sample.crc32
    letI := Sample.ed25519
    letI := Sample.releaseCodec
    letI := Sample.uuidParser
    letI := SerdeJson.compact
    ∃ t ∈ transitions (intentStep FakeObjectStore.store) ⟨.new, .new⟩
        [(.deploy (Sample.deploy "b" 0) (.whole Sample.file), .response)],
      Declared t.input.1 ⟨"a", "b"⟩ ⟨1, Sample.fileDigest, Sample.payload 1⟩ :=
  ((@desired_state_traced Sample.deployBlake3 Sample.crc32 Sample.ed25519
    Sample.releaseCodec _ _ Sample.uuidParser SerdeJson.compact
    (@FakeObjectStore.contract Sample.deployBlake3)
    [(.deploy (Sample.deploy "b" 0) (.whole Sample.file), .response)] ⟨_, .new⟩ _ _
    (by simp only [runFrom_cons, runFrom_nil, intentStep]; exact Sample.deploy_adds.1)).resolve_left
      Sample.deploy_adds.2).imp fun _ h => ⟨h.1, h.2.1⟩

end Gump.Server
