/-
  Server/HandleDeploy.lean --- the deploy handler (`serve.rs`) and its retries.

  The handler reads its arguments, reads the current generation of the application
  and runs the deployment with that generation as the expected one.  The receipt of
  the write keeps a digest of the request, and the generation is part of it.  So a
  repeated call, which reads the generation that the first one left, is another
  request; it is answered from the receipt only when the generation did not move.
-/
import Mathlib.Algebra.GroupWithZero.Nat
import Gump.Server.DeployExits
import Gump.Server.RecoveryTxn

set_option autoImplicit false

namespace Gump.Server

open Gump.Foundation Gump.Types Gump.Memory Gump.Crypto Gump.Connectors
open Gump.Capsule (Crc32 CapsuleDialectError verify)

/-! ## Hexadecimal arguments -/

/-- The value of a hexadecimal digit of either case. -/
def hexDigitValue (b : UInt8) : Option Nat :=
  if 48 ≤ b ∧ b ≤ 57 then some (b.toNat - 48)
  else if 65 ≤ b ∧ b ≤ 70 then some (b.toNat - 55)
  else if 97 ≤ b ∧ b ≤ 102 then some (b.toNat - 87)
  else none

/-- `u8::from_str_radix` with radix 16 on a text of at most two bytes; a plus sign
may come first. -/
def u8FromHex : List UInt8 → Option UInt8
  | [a] => (hexDigitValue a).map UInt8.ofNat
  | [a, b] =>
    match hexDigitValue b with
    | none => none
    | some low =>
      if a = 43 then some (UInt8.ofNat low)
      else (hexDigitValue a).map fun high => UInt8.ofNat (16 * high + low)
  | _ => none

/-- The bytes that chunks of two characters spell; the texts of the two errors are
parameters. -/
def parseHexChunks (badText : String) (badHex : Nat → String) :
    Nat → List UInt8 → Except String (List UInt8)
  | _, [] => .ok []
  | i, [a] => (parseHexChunk i [a]).map fun byte => [byte]
  | i, a :: b :: rest =>
    match parseHexChunk i [a, b] with
    | .error e => .error e
    | .ok byte => (parseHexChunks badText badHex (i + 1) rest).map fun bytes => byte :: bytes
where
  parseHexChunk (i : Nat) (chunk : List UInt8) : Except String UInt8 :=
    match String.fromUTF8? ⟨chunk.toArray⟩ with
    | none => .error badText
    | some _ =>
      match u8FromHex chunk with
      | none => .error (badHex i)
      | some byte => .ok byte

theorem length_parseHexChunks {badText : String} {badHex : Nat → String} {n i : Nat}
    {hex out : List UInt8} (hlength : hex.length = 2 * n)
    (h : parseHexChunks badText badHex i hex = .ok out) : out.length = n := by
  induction n generalizing i hex out with
  | zero =>
    rw [List.length_eq_zero_iff.mp hlength] at h
    obtain rfl := Except.ok.inj h
    rfl
  | succ n ih =>
    match hex, hlength with
    | a :: b :: rest, hlength =>
      unfold parseHexChunks at h
      split at h
      · cases h
      · cases hrest : parseHexChunks badText badHex (i + 1) rest with
        | error e =>
          rw [hrest] at h
          cases h
        | ok bytes =>
          rw [hrest] at h
          obtain rfl := Except.ok.inj h
          rw [List.length_cons, ih (by simpa [Nat.mul_succ] using hlength) hrest]

/-- `parse_hex_bytes`. -/
def parseHexBytes (hex : String) : Except String (List UInt8) :=
  if (utf8 hex).length % 2 ≠ 0 then .error "capsule hex length must be even"
  else
    parseHexChunks "invalid capsule hex utf8" (fun i => s!"bad capsule hex at byte {i}") 0
      (utf8 hex)

/-- `parse_blake3_hex`. -/
def parseBlake3Hex (hex : String) : Except String Digest :=
  if hlength : (utf8 hex).length = 64 then
    match hparse : parseHexChunks "invalid digest utf8" (fun i => s!"bad hex at byte {i}") 0
        (utf8 hex) with
    | .error e => .error e
    | .ok bytes => .ok ⟨bytes, length_parseHexChunks hlength hparse⟩
  else .error "content digest must be 64 lowercase hex chars"

/-- `decode_capsule_hex`. -/
def decodeCapsuleHex [Blake3] (hex : Option String) (contentDigest : Digest) :
    Except String (Option (List UInt8)) :=
  match hex.filter fun s => s ≠ "" with
  | none => .ok none
  | some hex =>
    match parseHexBytes hex with
    | .error e => .error e
    | .ok bytes =>
      if Blake3.hash bytes ≠ contentDigest then
        .error "capsule bytes digest mismatch vs --digest / content_digest_hex"
      else .ok (some bytes)

/-! ## Arguments -/

/-- A Capsule source as the handler meets it: its length, what the first reading
gives, the error of the rewind, and what the second reading gives. -/
structure CapsuleSource where
  length : Except String Nat
  framing : ByteStream
  rewindFault : Option String
  body : Reads

/-- A source in memory. -/
def CapsuleSource.ofBytes (bytes : List UInt8) : CapsuleSource :=
  ⟨.ok bytes.length, ⟨bytes, none⟩, none, .whole bytes⟩

structure DeployArgs where
  operationId : String
  ns : String
  app : String
  contentDigestHex : String
  capsuleHex : Option String
  /-- The file at the path, or the error of opening it. -/
  capsulePath : Option (Except String CapsuleSource)

/-- The message of an error. -/
inductive DeployMessage where
  | text (s : String)
  /-- `invalid Capsule framing: {e}` -/
  | framing (e : CapsuleDialectError)
  /-- `{reason}`, or `{reason}; inert orphan Capsule reported` -/
  | outcome (reason : DeployReason) (orphan : Bool)
  deriving DecidableEq, Repr

structure ErrorBody where
  code : String
  reason : String
  safeMessage : DeployMessage
  deriving DecidableEq, Repr

/-- The answer of the handler. -/
inductive LocalResponse where
  | deploy (operationId phase reasonCode safeMessage : String) (desiredGeneration : Nat)
      (contentDigestHex : String)
  | error (body : ErrorBody)
  deriving DecidableEq, Repr

/-- An argument that is refused. -/
def invalidArgument (reason : String) (message : DeployMessage) : ErrorBody :=
  ⟨"INVALID_ARGUMENT", reason, message⟩

/-- The arguments once they are read. -/
structure PreparedDeploy where
  digest : Digest
  operationId : Id16
  contentLength : Nat
  cluster : ClusterId
  capsule : CapsuleId
  capsuleV7 : version capsule = 7
  body : Reads

instance : DecidableEq PreparedDeploy := fun p q =>
  decidable_of_iff (p.digest = q.digest ∧ p.operationId = q.operationId ∧
    p.contentLength = q.contentLength ∧ p.cluster = q.cluster ∧ p.capsule = q.capsule ∧
    p.body = q.body) (by cases p; cases q; simp)

section Arguments

variable [Blake3] [Crc32]

/-- The source that the arguments name. -/
def DeployArgs.source (args : DeployArgs) (digest : Digest) : Except ErrorBody CapsuleSource :=
  match decodeCapsuleHex args.capsuleHex digest with
  | .error message => .error (invalidArgument "deploy.bad_capsule" (.text message))
  | .ok bytes =>
    match bytes, args.capsulePath with
    | some bytes, none => .ok (.ofBytes bytes)
    | none, some (.ok file) => .ok file
    | none, some (.error message) =>
      .error (invalidArgument "deploy.capsule_open" (.text message))
    | some _, some _ | none, none =>
      .error (invalidArgument "deploy.capsule_required"
        (.text "deploy requires exactly one sealed Capsule source"))

/-- `capsule_identity_reader`: the cluster and the Capsule that the framing names. -/
def capsuleIdentityReader (stream : ByteStream) :
    Checked DeployMessage (ClusterId × { capsule : CapsuleId // version capsule = 7 }) :=
  match verify stream with
  | .error halt => .error (halt.mapError .framing)
  | .ok capsuleMeta =>
    if version capsuleMeta.header.clusterId ≠ 7 then
      .error (.error (.text "Capsule cluster_id is not UUIDv7"))
    else if hcapsule : version capsuleMeta.header.capsuleId = 7 then
      .ok (capsuleMeta.header.clusterId, ⟨capsuleMeta.header.capsuleId, hcapsule⟩)
    else .error (.error (.text "Capsule capsule_id is not UUIDv7"))

variable [UuidParser]

/-- What the handler reads of its arguments before it looks at the cluster. -/
def DeployArgs.read (args : DeployArgs) : Checked ErrorBody PreparedDeploy :=
  match parseBlake3Hex args.contentDigestHex with
  | .error message => .error (.error (invalidArgument "deploy.bad_digest" (.text message)))
  | .ok digest =>
    match parseOperationId args.operationId with
    | .error message => .error (.error (invalidArgument "deploy.bad_operation_id" (.text message)))
    | .ok operationId =>
      match args.source digest with
      | .error e => .error (.error e)
      | .ok source =>
        match source.length with
        | .error e =>
          .error (.error (invalidArgument "deploy.capsule_seek"
            (.text s!"cannot inspect Capsule length: {e}")))
        | .ok 0 =>
          .error (.error (invalidArgument "deploy.empty_capsule"
            (.text "Capsule file is empty")))
        | .ok (n + 1) =>
          match capsuleIdentityReader source.framing with
          | .error halt =>
            .error (halt.mapError (invalidArgument "deploy.bad_capsule"))
          | .ok (cluster, capsule) =>
            match source.rewindFault with
            | some e =>
              .error (.error (invalidArgument "deploy.capsule_seek"
                (.text s!"cannot rewind verified Capsule: {e}")))
            | none =>
              .ok ⟨digest, operationId, n + 1, cluster, capsule.1, capsule.2, source.body⟩

end Arguments

/-! ## The handler -/

/-- What the handler uses of the daemon. -/
structure LocalDaemon where
  /-- Whether the custody is sealed, if there is one. -/
  custodySealed : Option Bool
  memoryCluster : Bool
  objectStore : Bool
  clusterId : String
  signerTrust : SignerTrustPolicy

/-- The daemon takes new work. -/
def LocalDaemon.check (daemon : LocalDaemon) : Except ErrorBody Unit :=
  if daemon.custodySealed = some true then
    .error ⟨"FAILED_PRECONDITION", "deploy.custody_sealed",
      .text "cluster sealed; unseal authority required for new work"⟩
  else if daemon.memoryCluster = false then
    .error ⟨"UNAVAILABLE", "deploy.no_memory_cluster",
      .text "deploy requires a live memory cluster"⟩
  else if daemon.objectStore = false then
    .error ⟨"UNAVAILABLE", "deploy.no_object_store",
      .text "deploy requires an object-store connector"⟩
  else .ok ()

/-- What a call of the handler meets. -/
structure Occasion where
  nowMs : Nat
  /-- The error of the linearizable read of the generation. -/
  readFault : Option String := none
  /-- Commands of others between that read and the write. -/
  before : List RaftCommand := []
  answer : WriteAnswer := .response

/-- How the write of the call meets the cluster. -/
def Occasion.fate (occasion : Occasion) : WriteFate :=
  { before := occasion.before, answer := occasion.answer }

section Answered

variable [Blake3] {occasion : Occasion} (hanswer : occasion.answer = .response)
  (cmd : RaftCommand) (s : ClusterState)

include hanswer

/-- An answered write returns what the state machine responds. -/
theorem Occasion.reply_of_answered :
    occasion.fate.reply cmd s = .ok ((occasion.fate.met s).apply cmd).2 := by
  simp [WriteFate.reply, fate, hanswer]

/-- An answered write leaves what the state machine leaves. -/
theorem Occasion.left_of_answered :
    occasion.fate.left cmd s = ((occasion.fate.met s).apply cmd).1 := by
  simp [WriteFate.left, WriteFate.written, WriteFate.committed, fate, hanswer]

end Answered

/-- The name of a phase. -/
def DeployPhase.asStr : DeployPhase → String
  | localValidation => "local_validation"
  | authz => "authorization"
  | capsulePersist => "capsule_persist"
  | immutablePublish => "immutable_publish"
  | intentAccept => "intent_accept"

/-- The answer for an accepted deployment. -/
def DeployArgs.accepted (args : DeployArgs) (replayed : Bool) (generation : Nat) : LocalResponse :=
  if replayed then
    .deploy args.operationId "intent_accepted_replay" "deploy.intent_accepted_replay"
      ("replayed committed deploy receipt from cluster memory (Raft Idempotent); " ++
        "later stages remain observed separately")
      generation args.contentDigestHex
  else
    .deploy args.operationId "intent_accepted" "deploy.intent_accepted"
      ("upload→publish→intent committed; " ++
        "scheduling/start/readiness/publication/completion remain observed separately")
      generation args.contentDigestHex

/-- The answer for an outcome. -/
def DeployArgs.respond (args : DeployArgs) : DeployTxnOutcome → LocalResponse
  | .success generation _ _ replayed => args.accepted replayed generation
  | .conflict _ =>
    .error ⟨"CONFLICT", "deploy.idempotency_conflict",
      .text "same operation_id with a different request digest"⟩
  | .failed phase reason orphan =>
    .error ⟨if orphan.isSome then "FAILED_PRECONDITION" else "INVALID_ARGUMENT",
      "deploy." ++ phase.asStr, .outcome reason orphan.isSome⟩

section Handler

variable [Blake3] [UuidParser]

/-- The deployment that the handler runs. -/
def LocalDaemon.call (daemon : LocalDaemon) (occasion : Occasion) (args : DeployArgs)
    (p : PreparedDeploy) (generation : Nat) : DeployCall where
  trust := daemon.signerTrust
  req :=
    { operationId := p.operationId
      operationIdDisplay := args.operationId
      ns := args.ns
      app := args.app
      expectedGeneration := generation
      contentDigest := p.digest
      capsuleBytes := none
      clusterId := parseClusterId daemon.clusterId
      capsuleId := p.capsule
      capsuleV7 := p.capsuleV7 }
  nowMs := occasion.nowMs
  contentLength := p.contentLength

variable [Crc32] [Ed25519] [ReleaseCodec] [SerdeJson] {σ : Type}

/-- `handle_deploy`: the answer, and the orphans it reports, unless it panics. -/
def handleDeploy (store : ObjectStore (StateM σ)) (daemon : LocalDaemon) (occasion : Occasion)
    (args : DeployArgs) :
    StateM (DeployWorld σ) (Except String (LocalResponse × List OrphanCapsule)) :=
  match daemon.check with
  | .error e => pure (.ok (.error e, []))
  | .ok () =>
    match args.read with
    | .error (.panic message) => pure (.error message)
    | .error (.error e) => pure (.ok (.error e, []))
    | .ok p =>
      if p.cluster ≠ parseClusterId daemon.clusterId then
        pure (.ok (.error ⟨"FAILED_PRECONDITION", "deploy.cluster_mismatch",
          .text "Capsule was sealed for a different cluster"⟩, []))
      else
        match occasion.readFault with
        | some message =>
          pure (.ok (.error ⟨"UNAVAILABLE", "deploy.desired_generation", .text message⟩, []))
        | none => do
          let w ← get
          let ended ← runVerifiedDeployReader store occasion.fate
            (daemon.call occasion args p (w.cluster.generation args.ns args.app)) p.body
          pure (ended.map fun e => (args.respond e.1, e.2))

/-! ## Exits -/

/-- A call of the handler comes to its write. -/
structure ComesToWrite (store : ObjectStore (StateM σ)) (daemon : LocalDaemon)
    (occasion : Occasion) (args : DeployArgs) (p : PreparedDeploy) (w : DeployWorld σ) : Prop where
  ready : daemon.check = .ok ()
  cluster : p.cluster = parseClusterId daemon.clusterId
  readable : occasion.readFault = none
  publishes : (daemon.call occasion args p (w.cluster.generation args.ns args.app)).publishes
    store p.body w.store = true

/-- How a call of the handler ends. -/
inductive Handled (store : ObjectStore (StateM σ)) (daemon : LocalDaemon) (occasion : Occasion)
    (args : DeployArgs) (w : DeployWorld σ) :
    Except String (LocalResponse × List OrphanCapsule) → DeployWorld σ → Prop
  | stopped (r : Except String (LocalResponse × List OrphanCapsule)) (t : σ)
      (hnone : ∀ p, args.read = .ok p → ¬ComesToWrite store daemon occasion args p w)
      (hrefused : ∀ ended, r = .ok ended → ∃ body, ended.1 = .error body) :
      Handled store daemon occasion args w r { w with store := t }
  | written (p : PreparedDeploy) (call : DeployCall) (object : ObjectLocator)
      (payload : List UInt8) (t : σ) (hread : args.read = .ok p)
      (hcomes : ComesToWrite store daemon occasion args p w)
      (hcall : call = daemon.call occasion args p (w.cluster.generation args.ns args.app)) :
      Handled store daemon occasion args w
        (.ok (args.respond (call.req.settle object
            (occasion.fate.reply (call.req.command payload) w.cluster)).1,
          (call.req.settle object (occasion.fate.reply (call.req.command payload) w.cluster)).2))
        ⟨t, occasion.fate.left (call.req.command payload) w.cluster⟩

variable {store : ObjectStore (StateM σ)} {daemon : LocalDaemon} {occasion : Occasion}
  {args : DeployArgs} {p : PreparedDeploy} {w w' : DeployWorld σ}

theorem handled_of_concluded {r : DeployResult} (hread : args.read = .ok p)
    (hready : daemon.check = .ok ()) (hcluster : p.cluster = parseClusterId daemon.clusterId)
    (hreadable : occasion.readFault = none)
    (h : Concluded store occasion.fate
      (daemon.call occasion args p (w.cluster.generation args.ns args.app)) p.body w r w') :
    Handled store daemon occasion args w (r.map fun e => (args.respond e.1, e.2)) w' := by
  cases h with
  | stopped r t hprepared hfails =>
    refine .stopped _ t (fun p' hp' hcomes => ?_) fun ended h => ?_
    · obtain rfl := Except.ok.inj (hp'.symm.trans hread)
      cases (congrArg Prod.fst hprepared).symm.trans hcomes.publishes
    · cases r with
      | error message => cases h
      | ok e =>
        obtain ⟨⟨phase, reason, hfailed⟩, _⟩ := hfails e rfl
        obtain rfl := Except.ok.inj h
        exact ⟨_, congrArg args.respond hfailed⟩
  | written payload t hprepared _ =>
    exact .written p _ _ payload t hread
      ⟨hready, hcluster, hreadable, congrArg Prod.fst hprepared⟩ rfl

theorem handleDeploy_ends (store : ObjectStore (StateM σ)) (daemon : LocalDaemon)
    (occasion : Occasion) (args : DeployArgs) (w : DeployWorld σ) :
    Handled store daemon occasion args w ((handleDeploy store daemon occasion args).run w).1
      ((handleDeploy store daemon occasion args).run w).2 := by
  unfold handleDeploy
  cases hcheck : daemon.check with
  | error e =>
    refine .stopped _ w.store (fun p _ h => ?_) fun _ h => ⟨e, by cases h; rfl⟩
    cases hcheck.symm.trans h.ready
  | ok _ =>
    cases hread : args.read with
    | error halt =>
      have hnone : ∀ p, args.read = .ok p → ¬ComesToWrite store daemon occasion args p w :=
        fun p hp => by cases hread.symm.trans hp
      cases halt with
      | panic message => exact .stopped _ w.store hnone fun _ h => by cases h
      | error e => exact .stopped _ w.store hnone fun _ h => ⟨e, by cases h; rfl⟩
    | ok p =>
      simp only
      by_cases hcluster : p.cluster = parseClusterId daemon.clusterId
      · rw [if_neg (not_not.mpr hcluster)]
        cases hfault : occasion.readFault with
        | some message =>
          refine .stopped _ w.store (fun p _ h => ?_) fun _ h => ⟨_, by cases h; rfl⟩
          cases hfault.symm.trans h.readable
        | none =>
          have hends := runVerifiedDeployReader_concludes store occasion.fate
            (daemon.call occasion args p (w.cluster.generation args.ns args.app)) p.body w
          obtain ⟨⟨r, w'⟩, hrun⟩ : ∃ ended, (runVerifiedDeployReader store occasion.fate
            (daemon.call occasion args p (w.cluster.generation args.ns args.app))
              p.body).run w = ended := ⟨_, rfl⟩
          have hget : (get : StateM (DeployWorld σ) (DeployWorld σ)).run w = (w, w) := rfl
          rw [hrun] at hends
          simp only
          rw [stateM_run_bind hget, stateM_run_bind hrun]
          exact handled_of_concluded hread hcheck hcluster hfault hends
      · rw [if_pos hcluster]
        refine .stopped _ w.store (fun p' hp' h => ?_) fun _ h => ⟨_, by cases h; rfl⟩
        obtain rfl := Except.ok.inj (hp'.symm.trans hread)
        exact hcluster h.cluster

/-! ## Retries -/

/-- The bytes whose digest the receipt of a call keeps. -/
def PreparedDeploy.digested (p : PreparedDeploy) (args : DeployArgs) (generation : Nat) :
    List UInt8 :=
  p.operationId.bytes ++ p.digest.bytes ++ utf8 args.ns ++ [0] ++ utf8 args.app ++
    toBeBytes 8 generation

variable {generation : Nat}

omit [Blake3] [UuidParser] [Crc32] [Ed25519] [ReleaseCodec] [SerdeJson] in
theorem PreparedDeploy.digested_injective {generation' : Nat} (hword : generation ≤ u64Max)
    (hword' : generation' ≤ u64Max) (h : p.digested args generation = p.digested args generation') :
    generation = generation' := by
  have hbytes := List.append_cancel_left h
  have hbound : ∀ n, n ≤ u64Max → n < 256 ^ 8 := by
    intro n hn
    unfold u64Max at hn
    omega
  exact toBeBytes_injective (hbound _ hword) (hbound _ hword') hbytes

variable {replayed : Bool}

omit [Blake3] [UuidParser] [Crc32] [Ed25519] [ReleaseCodec] [SerdeJson] in
theorem DeployArgs.respond_eq_accepted {outcome : DeployTxnOutcome}
    (h : args.respond outcome = args.accepted replayed generation) :
    ∃ revision object, outcome = .success generation revision object replayed := by
  cases outcome with
  | success g revision object r =>
    have hg : g = generation ∧ r = replayed := by
      cases r <;> cases replayed <;> simp_all [respond, accepted]
    obtain ⟨rfl, rfl⟩ := hg
    exact ⟨revision, object, rfl⟩
  | conflict _ => cases replayed <;> cases h
  | failed _ _ _ => cases replayed <;> cases h

/-- The reply that makes a deployment succeed. -/
def successReply (replayed : Bool) (outcome : ApplyOutcome) : RaftResponse :=
  if replayed then .replay (.applied outcome) else .applied outcome

omit [Blake3] [UuidParser] [Crc32] [Ed25519] [ReleaseCodec] [SerdeJson] in
theorem settle_eq_success {req : DeployTxnRequest} {object object' : ObjectLocator}
    {reply : Except String RaftResponse} {revision : Nat}
    (h : (req.settle object reply).1 = .success generation revision object' replayed) :
    ∃ outcome, reply = .ok (successReply replayed outcome) ∧
      outcome.desiredGeneration.getD 1 = generation := by
  cases reply with
  | error e => cases h
  | ok response =>
    cases response with
    | applied outcome =>
      cases h
      exact ⟨outcome, rfl, rfl⟩
    | replay prior =>
      cases prior with
      | applied outcome =>
        cases h
        exact ⟨outcome, rfl, rfl⟩
      | replay _ => cases h
      | rejected _ => cases h
    | rejected message =>
      simp only [DeployTxnRequest.settle] at h
      split at h <;> cases h

/-- The write that a call makes. -/
def PreparedDeploy.command (p : PreparedDeploy) (args : DeployArgs) (generation : Nat)
    (payload : List UInt8) : RaftCommand :=
  .idempotent p.operationId (Blake3.hash (p.digested args generation))
    (.putDesired args.ns args.app generation payload p.digest)

omit [SerdeJson] in
/-- An accepted call made its write, and the reply says whether it was replayed. -/
theorem written_of_accepted {orphans : List OrphanCapsule} (hread : args.read = .ok p)
    (h : Handled store daemon occasion args w
      (.ok (args.accepted replayed generation, orphans)) w') :
    ComesToWrite store daemon occasion args p w ∧ occasion.answer = .response ∧
      ∃ payload outcome,
        let done := (occasion.fate.met w.cluster).apply
          (p.command args (w.cluster.generation args.ns args.app) payload)
        done.2 = successReply replayed outcome ∧
          outcome.desiredGeneration.getD 1 = generation ∧ w'.cluster = done.1 := by
  generalize hr : (Except.ok (args.accepted replayed generation, orphans) :
    Except String (LocalResponse × List OrphanCapsule)) = r at h
  cases h with
  | stopped r t _ hrefused =>
    obtain ⟨body, hbody⟩ := hrefused _ hr.symm
    cases replayed <;> cases hbody
  | written p' call object payload t hread' hcomes hcall =>
    obtain rfl := Except.ok.inj (hread'.symm.trans hread)
    obtain ⟨hresponse, _⟩ := Prod.mk.inj (Except.ok.inj hr)
    obtain ⟨revision, object', houtcome⟩ := DeployArgs.respond_eq_accepted hresponse.symm
    obtain ⟨outcome, hreply, hgeneration⟩ := settle_eq_success houtcome
    have hcmd : call.req.command payload =
        p'.command args (w.cluster.generation args.ns args.app) payload := by
      rw [hcall]
      rfl
    rw [hcmd] at hreply ⊢
    cases hanswer : occasion.answer with
    | error committed text => simp [WriteFate.reply, Occasion.fate, hanswer] at hreply
    | response =>
      rw [Occasion.reply_of_answered hanswer] at hreply
      exact ⟨hcomes, rfl, payload, outcome, Except.ok.inj hreply, hgeneration,
        Occasion.left_of_answered hanswer _ _⟩

/-- Where a call was accepted, it comes to its write again if it reads the same
generation. -/
theorem ComesToWrite.again {orphans : List OrphanCapsule} (hread : args.read = .ok p)
    (h : (handleDeploy store daemon occasion args).run w =
      (.ok (args.accepted replayed generation, orphans), w')) {cluster : ClusterState}
    (hsame : cluster.generation args.ns args.app = w.cluster.generation args.ns args.app) :
    ComesToWrite store daemon occasion args p ⟨w.store, cluster⟩ := by
  have hends := handleDeploy_ends store daemon occasion args w
  rw [h] at hends
  obtain ⟨hready, hcluster, hreadable, hpublishes⟩ := (written_of_accepted hread hends).1
  exact ⟨hready, hcluster, hreadable, hsame.symm ▸ hpublishes⟩

omit [SerdeJson] in
/-- The same request is replayed while its receipt is retained, and changes no
declaration. -/
theorem handled_of_retained {r : Except String (LocalResponse × List OrphanCapsule)}
    {receipt : IdempotencyEntry} {outcome : ApplyOutcome} (hread : args.read = .ok p)
    (hretained : (occasion.fate.met w.cluster).expireIdempotencyTtl.idempotency.get p.operationId =
      some receipt)
    (hsame : receipt.requestDigest =
      Blake3.hash (p.digested args (w.cluster.generation args.ns args.app)))
    (hresponse : receipt.response = .applied outcome)
    (hcomes : ComesToWrite store daemon occasion args p w) (hanswer : occasion.answer = .response)
    (h : Handled store daemon occasion args w r w') :
    r = .ok (args.accepted true (outcome.desiredGeneration.getD 1), []) ∧
      w'.cluster.desired = (occasion.fate.met w.cluster).desired := by
  cases h with
  | stopped r t hnone _ => exact absurd hcomes (hnone p hread)
  | written p' call object payload t hread' _ hcall =>
    obtain rfl := Except.ok.inj (hread'.symm.trans hread)
    have hcmd : call.req.command payload =
        p'.command args (w.cluster.generation args.ns args.app) payload := by
      rw [hcall]
      rfl
    obtain ⟨hreply, hdesired⟩ := ClusterState.apply_retained hretained
      (Blake3.hash (p'.digested args (w.cluster.generation args.ns args.app)))
      (.putDesired args.ns args.app (w.cluster.generation args.ns args.app) payload p'.digest)
    rw [if_pos hsame, hresponse] at hreply
    have hanswered : occasion.fate.reply (call.req.command payload) w.cluster =
        .ok (.replay (.applied outcome)) := by
      rw [hcmd, Occasion.reply_of_answered hanswer]
      exact congrArg Except.ok hreply
    refine ⟨by rw [hanswered]; rfl, ?_⟩
    rw [hcmd, Occasion.left_of_answered hanswer]
    exact hdesired

/-- A repeated call is answered with the first answer, and changes no desired entry,
if and only if it comes to its write, the write is answered, and the generation was
saturated before the first call. -/
theorem retry_replays_iff_generation_saturated (store : ObjectStore (StateM σ))
    (first again : LocalDaemon) (once later : Occasion) (args : DeployArgs) {p : PreparedDeploy}
    (w w' before : DeployWorld σ) (others : List RaftCommand) {generation : Nat}
    {orphans : List OrphanCapsule} {receipt : IdempotencyEntry} (hread : args.read = .ok p)
    (hword : w.cluster.generation args.ns args.app ≤ u64Max)
    (hfirst : (handleDeploy store first once args).run w =
      (.ok (args.accepted false generation, orphans), w'))
    (hothers : before.cluster = runFrom ClusterState.apply w'.cluster others)
    (hreceipt : w'.cluster.idempotency.get p.operationId = some receipt)
    (hretained : (later.fate.met before.cluster).expireIdempotencyTtl.idempotency.get
      p.operationId = some receipt)
    (hdistinct : Blake3.hash (p.digested args (w.cluster.generation args.ns args.app)) =
        Blake3.hash (p.digested args (before.cluster.generation args.ns args.app)) →
      p.digested args (w.cluster.generation args.ns args.app) =
        p.digested args (before.cluster.generation args.ns args.app)) :
    let retry := (handleDeploy store again later args).run before
    ((∃ reported, retry.1 = .ok (args.accepted true generation, reported)) ∧
        retry.2.cluster.desired = (later.fate.met before.cluster).desired) ↔
      ComesToWrite store again later args p before ∧ later.answer = .response ∧
        w.cluster.generation args.ns args.app = u64Max := by
  intro retry
  have hends₁ := handleDeploy_ends store first once args w
  rw [hfirst] at hends₁
  obtain ⟨_, _, payload, outcome, happlied, hgeneration, hleft⟩ := written_of_accepted hread hends₁
  have hnext : w'.cluster.generation args.ns args.app =
      saturatingAdd (w.cluster.generation args.ns args.app) 1 := by
    rw [hleft]
    exact ClusterState.generation_of_applied happlied
  rw [hleft] at hreceipt
  obtain ⟨hdigest, hresponse⟩ := ClusterState.receipt_of_applied happlied hreceipt
  obtain ⟨hle, hmax⟩ := w'.cluster.generation_run args.ns args.app others
    (hnext ▸ saturatingAdd_le _ _)
  rw [hnext, ← hothers] at hle
  rw [← hothers] at hmax
  -- the retry is the same request exactly when the generation it reads is the same
  have hsame : receipt.requestDigest = Blake3.hash (p.digested args
      (before.cluster.generation args.ns args.app)) ↔
        w.cluster.generation args.ns args.app = u64Max := by
    rw [hdigest]
    constructor
    · intro h
      have heq := PreparedDeploy.digested_injective hword hmax (hdistinct h)
      rw [← heq] at hle
      unfold saturatingAdd at hle
      omega
    · intro h
      have heq : before.cluster.generation args.ns args.app = u64Max := by
        refine Nat.le_antisymm hmax (Nat.le_trans ?_ hle)
        rw [h]
        decide
      rw [h, heq]
  have hends₂ := handleDeploy_ends store again later args before
  constructor
  · rintro ⟨⟨reported, hretry⟩, _⟩
    rw [hretry] at hends₂
    obtain ⟨hcomes, hanswer, payload', outcome', hreplay, _, _⟩ := written_of_accepted hread hends₂
    refine ⟨hcomes, hanswer, hsame.mp ?_⟩
    by_contra hdiffers
    have hconflict := (ClusterState.apply_retained hretained
      (Blake3.hash (p.digested args (before.cluster.generation args.ns args.app)))
      (.putDesired args.ns args.app (before.cluster.generation args.ns args.app) payload'
        p.digest)).1
    rw [if_neg hdiffers] at hconflict
    cases hconflict.symm.trans hreplay
  · rintro ⟨hcomes, hanswer, hsaturated⟩
    obtain ⟨hanswered, hdesired⟩ := handled_of_retained hread hretained (hsame.mpr hsaturated)
      hresponse hcomes hanswer hends₂
    rw [hgeneration] at hanswered
    exact ⟨⟨[], hanswered⟩, hdesired⟩

end Handler

/-! ## The sample Capsule deployed twice -/

namespace Sample

/-- The arguments that deploy the sample Capsule. -/
def deployArgs : DeployArgs where
  operationId := "01900000-0000-7000-8000-000000000003"
  ns := "a"
  app := "b"
  contentDigestHex := "c5ae862c8f23cf2c81569c819e89be0a2859181ed9bf5a07a400b4b9a159c8e5"
  capsuleHex := none
  capsulePath := some (.ok (.ofBytes Sample.file))

/-- A daemon of the sample cluster. -/
def daemon : LocalDaemon where
  custodySealed := none
  memoryCluster := true
  objectStore := true
  clusterId := "01900000-0000-7000-8000-000000000009"
  signerTrust := Sample.trust

/-- What the handler reads of those arguments. -/
def prepared : PreparedDeploy where
  digest := Sample.fileDigest
  operationId := operation
  contentLength := 619
  cluster := Sample.cluster
  capsule := Sample.capsule
  capsuleV7 := Sample.version_capsule
  body := .whole Sample.file

/-- BLAKE3 also on the request that expects the last generation. -/
@[reducible] def retryBlake3 : Blake3 where
  hash input :=
    if input = requestInput u64Max then
      ⟨[90, 107, 26, 228, 219, 195, 62, 250, 25, 139, 52, 47, 43, 232, 198, 112, 209, 56, 49, 100,
        128, 153, 206, 33, 215, 99, 37, 245, 121, 233, 83, 184], rfl⟩
    else deployBlake3.hash input

@[reducible] def emptyStore : @FakeObjectStore retryBlake3 := @FakeObjectStore.new retryBlake3

/-- A cluster in which the app `b` has the last generation. -/
def lastGeneration : ClusterState :=
  let entry : DesiredEntry := ⟨u64Max, Sample.fileDigest, []⟩
  { ClusterState.new with desired := OrdMap.empty.insert ⟨"a", "b"⟩ entry }

theorem lastGeneration_generation : lastGeneration.generation "a" "b" = u64Max := by decide

/-- The receipt of the deployment to that cluster. -/
def lastReceipt : IdempotencyEntry :=
  ⟨retryBlake3.hash (requestInput u64Max), .applied (.ofGeneration 0 u64Max), 0⟩

end Sample

/-- The same deployment twice on an empty cluster: the receipt of the first call is
retained, and the second call is answered with a conflict. -/
theorem repeated_deploy_conflicts :
    letI := Sample.retryBlake3
    letI := Sample.crc32
    letI := Sample.ed25519
    letI := Sample.releaseCodec
    letI := Sample.uuidParser
    letI := SerdeJson.compact
    let first := (handleDeploy FakeObjectStore.store Sample.daemon ⟨0, none, [], .response⟩
      Sample.deployArgs).run ⟨.new, .new⟩
    let retry := (handleDeploy FakeObjectStore.store Sample.daemon ⟨0, none, [], .response⟩
      Sample.deployArgs).run first.2
    first.1 = .ok (Sample.deployArgs.accepted false 1, []) ∧
      (first.2.cluster.expireIdempotencyTtl.idempotency.get Sample.operation).isSome = true ∧
      retry.1 = .ok (.error ⟨"CONFLICT", "deploy.idempotency_conflict",
        .text "same operation_id with a different request digest"⟩, []) := by
  decide +kernel

namespace Sample

theorem deployArgs_read :
    letI := retryBlake3
    letI := Sample.crc32
    letI := uuidParser
    deployArgs.read = .ok prepared := by
  decide +kernel

/-- The end of the deployment to that cluster. -/
@[irreducible] def deployedLast :
    letI := retryBlake3
    Except String (LocalResponse × List OrphanCapsule) × DeployWorld FakeObjectStore :=
  letI := retryBlake3
  letI := Sample.crc32
  letI := Sample.ed25519
  letI := releaseCodec
  letI := uuidParser
  letI := SerdeJson.compact
  (handleDeploy FakeObjectStore.store daemon ⟨0, none, [], .response⟩ deployArgs).run
    ⟨emptyStore, lastGeneration⟩

theorem deployedLast_eq :
    letI := retryBlake3
    letI := Sample.crc32
    letI := Sample.ed25519
    letI := releaseCodec
    letI := uuidParser
    letI := SerdeJson.compact
    (handleDeploy FakeObjectStore.store daemon ⟨0, none, [], .response⟩ deployArgs).run
      ⟨emptyStore, lastGeneration⟩ = deployedLast := by
  unfold deployedLast
  rfl

/-- The cluster once another node became controller. -/
def movedOn : ClusterState :=
  letI := retryBlake3
  runFrom ClusterState.apply deployedLast.2.cluster [.acquireController 2]

/-- The deployment is accepted, its receipt is retained, and the generation stays. -/
theorem deployedLast_accepted :
    letI := retryBlake3
    deployedLast.1 = .ok (deployArgs.accepted false u64Max, []) ∧
      deployedLast.2.cluster.idempotency.get prepared.operationId = some lastReceipt ∧
      (({} : WriteFate).met movedOn).expireIdempotencyTtl.idempotency.get prepared.operationId =
        some lastReceipt ∧
      movedOn.generation "a" "b" = u64Max := by
  decide +kernel

end Sample

/-- A deployment at the last generation is replayed. -/
theorem saturated_deploy_replays :
    letI := Sample.retryBlake3
    letI := Sample.crc32
    letI := Sample.ed25519
    letI := Sample.releaseCodec
    letI := Sample.uuidParser
    letI := SerdeJson.compact
    let retry := (handleDeploy FakeObjectStore.store Sample.daemon ⟨0, none, [], .response⟩
      Sample.deployArgs).run ⟨Sample.emptyStore, Sample.movedOn⟩
    (∃ reported, retry.1 = .ok (Sample.deployArgs.accepted true u64Max, reported)) ∧
      retry.2.cluster.desired = (({} : WriteFate).met Sample.movedOn).desired :=
  (@retry_replays_iff_generation_saturated Sample.retryBlake3 Sample.uuidParser
    Sample.crc32 Sample.ed25519 Sample.releaseCodec SerdeJson.compact _
    (@FakeObjectStore.store Sample.retryBlake3) Sample.daemon Sample.daemon
    ⟨0, none, [], .response⟩ ⟨0, none, [], .response⟩ Sample.deployArgs Sample.prepared
    ⟨Sample.emptyStore, Sample.lastGeneration⟩ Sample.deployedLast.2
    ⟨Sample.emptyStore, Sample.movedOn⟩ [.acquireController 2] u64Max [] Sample.lastReceipt
    Sample.deployArgs_read (Nat.le_of_eq Sample.lastGeneration_generation)
    (Sample.deployedLast_eq.trans (Prod.fst_eq_iff.mp Sample.deployedLast_accepted.1)) rfl
    Sample.deployedLast_accepted.2.1 Sample.deployedLast_accepted.2.2.1 fun _ => congrArg _
      (Sample.lastGeneration_generation.trans Sample.deployedLast_accepted.2.2.2.symm)).mpr
    ⟨@ComesToWrite.again Sample.retryBlake3 Sample.uuidParser Sample.crc32
      Sample.ed25519 Sample.releaseCodec SerdeJson.compact _ _ _ _ _ _
      ⟨Sample.emptyStore, Sample.lastGeneration⟩ _ _ _ _ Sample.deployArgs_read
      (Sample.deployedLast_eq.trans (Prod.fst_eq_iff.mp Sample.deployedLast_accepted.1)) _
      (Sample.deployedLast_accepted.2.2.2.trans Sample.lastGeneration_generation.symm), rfl,
      Sample.lastGeneration_generation⟩

end Gump.Server
