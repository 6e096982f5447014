/-
  Connectors/Ingress.lean --- streamed Capsule ingress.

  A body of a known length is streamed into quarantine while it is hashed.  While
  it is quarantined its framing, identity, signature and signer are checked; then
  it is published under its final key unless that is occupied.
-/
import Mathlib.Algebra.GroupWithZero.Nat
import Gump.Capsule.Stream
import Gump.Connectors.Object
import Gump.Crypto.Trust

set_option autoImplicit false

namespace Gump.Connectors

open Gump.Foundation Gump.Memory Gump.Types Gump.Capsule Gump.Crypto

def defaultMaxChunkBytes : Nat := 64 * 1024

def defaultMaxCapsuleBytes : Nat := 5 * 1024 * 1024 * 1024

structure IngressLimits where
  maxCapsuleBytes : Nat := defaultMaxCapsuleBytes
  maxChunkBytes : Nat := defaultMaxChunkBytes
  deriving DecidableEq, Repr

structure IngestStats where
  bytesReceived : Nat
  peakBufferBytes : Nat
  digest : Digest
  deriving DecidableEq, Repr

structure IngressReceipt where
  evidence : ObjectEvidence
  stats : IngestStats
  signerFingerprint : String
  trustRevision : Nat
  deriving DecidableEq, Repr

inductive IngressError where
  | io (e : String)
  | oversize (received max : Nat)
  | emptyBody
  | object (e : ObjectStoreError)
  | capsule (e : CapsuleDialectError)
  | trust (e : TrustError)
  | signature
  | clusterMismatch
  | capsuleIdMismatch
  | truncated (got expected : Nat)
  deriving DecidableEq, Repr

/-- What the calls of `read` return one after the other; after the last chunk the
source ends or reports a fault. -/
structure Reads where
  chunks : List (List UInt8)
  fault : Option String := none
  deriving DecidableEq, Repr

/-- Bytes that arrive in one chunk. -/
def Reads.whole (bytes : List UInt8) : Reads := ⟨[bytes], none⟩

/-- One request to accept a Capsule. -/
structure IngressCall where
  limits : IngressLimits
  trust : SignerTrustPolicy
  cluster : ClusterId
  capsule : CapsuleId
  ns : String
  nowMs : Nat
  contentLength : Nat

/-- How the checks of a quarantined Capsule end when they refuse it, and whether
that exit deletes the quarantine object. -/
structure Refusal where
  deletes : Bool
  halt : Halt IngressError
  deriving DecidableEq, Repr

/-- A Capsule that passed the checks. -/
structure Inspected where
  capsuleMeta : GumpCapsuleMeta
  signer : VerifyingKeyBytes
  decision : TrustDecision
  deriving DecidableEq, Repr

section Checks

variable [Blake3] [Crc32] [Ed25519]

/-- The checks of a quarantined Capsule.  Those of its identity delete it when they
refuse it, the others leave it. -/
def IngressCall.inspect (c : IngressCall) (stream : ByteStream) : Except Refusal Inspected :=
  match verifyWithChunk c.limits.maxChunkBytes stream with
  | .error halt => .error ⟨false, halt.mapError .capsule⟩
  | .ok capsuleMeta =>
    if capsuleMeta.header.clusterId ≠ c.cluster then .error ⟨true, .error .clusterMismatch⟩
    else if capsuleMeta.header.capsuleId ≠ c.capsule then
      .error ⟨true, .error .capsuleIdMismatch⟩
    else
      match signerOf capsuleMeta.signatureSegment with
      | none => .error ⟨true, .error .signature⟩
      | some (key, signature) =>
        match capsuleMeta.header.encodeCbor with
        | .error e => .error ⟨false, .error (.capsule e)⟩
        | .ok headerCbor =>
          match verifyReleaseSignature headerCbor capsuleMeta.table key signature with
          | .error _ => .error ⟨false, .error .signature⟩
          | .ok () =>
            match c.trust.check key c.ns c.nowMs .publication none with
            | .error e => .error ⟨false, .error (.trust e)⟩
            | .ok decision => .ok ⟨capsuleMeta, key, decision⟩

/-- What it takes to pass the checks. -/
structure IngressCall.Passes (c : IngressCall) (stream : ByteStream) (i : Inspected) : Prop where
  framed : verifyWithChunk c.limits.maxChunkBytes stream = .ok i.capsuleMeta
  cluster : i.capsuleMeta.header.clusterId = c.cluster
  capsule : i.capsuleMeta.header.capsuleId = c.capsule
  signed : ∃ signature headerCbor,
    signerOf i.capsuleMeta.signatureSegment = some (i.signer, signature) ∧
    i.capsuleMeta.header.encodeCbor = .ok headerCbor ∧
      verifyReleaseSignature headerCbor i.capsuleMeta.table i.signer signature = .ok ()
  trusted : c.trust.check i.signer c.ns c.nowMs .publication none = .ok i.decision

theorem IngressCall.passes_of_inspect {c : IngressCall} {stream : ByteStream} {i : Inspected}
    (h : c.inspect stream = .ok i) : c.Passes stream i := by
  unfold inspect at h
  split at h
  · cases h
  · rename_i capsuleMeta hframed
    split at h
    · cases h
    · rename_i hcluster
      split at h
      · cases h
      · rename_i hcapsule
        split at h
        · cases h
        · rename_i key signature hsigner
          split at h
          · cases h
          · rename_i headerCbor hheader
            split at h
            · cases h
            · rename_i hsignature
              split at h
              · cases h
              · rename_i decision htrust
                obtain rfl := Except.ok.inj h
                exact ⟨hframed, not_not.mp hcluster, not_not.mp hcapsule,
                  ⟨signature, headerCbor, hsigner, hheader, hsignature⟩, htrust⟩

end Checks

section Accept

variable {m : Type → Type} [Monad m] (store : ObjectStore m)

/-- Abort the upload, whatever comes of it, and fail. -/
def abortWith {α : Type} (upload : Nat) (e : IngressError) : m (Except IngressError α) := do
  let _ ← store.abort upload
  pure (.error e)

/-- Stream the chunks into the upload: the bytes received and the largest chunk.
A fault of the source leaves the upload open. -/
def receive (upload contentLength : Nat) (fault : Option String) :
    List (List UInt8) → List UInt8 → Nat → m (Except IngressError (List UInt8 × Nat))
  | [], got, peak =>
    match fault with
    | none => pure (.ok (got, peak))
    | some e => pure (.error (.io e))
  | chunk :: rest, got, peak =>
    if chunk = [] then pure (.ok (got, peak))
    else
      let next := saturatingAdd got.length chunk.length
      if next > contentLength then abortWith store upload (.oversize next contentLength)
      else do
        match ← store.write upload chunk with
        | .error e => abortWith store upload (.object e)
        | .ok _ => receive upload contentLength fault rest (got ++ chunk) (max peak chunk.length)

variable [Blake3] [Crc32] [Ed25519]

/-- Check the quarantined Capsule and publish it. -/
def IngressCall.promote (c : IngressCall) (q : ObjectKey) (digest : Digest) (received peak : Nat) :
    m (Checked IngressError IngressReceipt) := do
  match ← store.getReader q none with
  | .error e => pure (.error (.error (.object e)))
  | .ok stream =>
    match c.inspect stream with
    | .error refusal => do
      if refusal.deletes then
        let _ ← store.delete q
        pure (.error refusal.halt)
      else pure (.error refusal.halt)
    | .ok inspected => do
      match ← store.publishIfAbsent q (finalCapsuleKey c.cluster c.capsule) digest received with
      | .error e => pure (.error (.error (.object e)))
      | .ok evidence => do
        let _ ← store.delete q
        pure (.ok
          { evidence := evidence
            stats := ⟨received, max peak inspected.capsuleMeta.peakBufferBytes, digest⟩
            signerFingerprint := inspected.decision.fingerprint
            trustRevision := inspected.decision.policyRevision })

/-- Finish the upload of a whole body, check it and publish it. -/
def IngressCall.conclude (c : IngressCall) (upload : Nat) (body : List UInt8) (peak : Nat) :
    m (Checked IngressError IngressReceipt) := do
  if body.length ≠ c.contentLength then do
    let ended ← abortWith store upload (.truncated body.length c.contentLength)
    pure (ended.mapError .error)
  else do
    match ← store.finishQuarantine upload (Blake3.hash body) with
    | .error e => pure (.error (.error (.object e)))
    | .ok q => c.promote store q.key (Blake3.hash body) body.length peak

/-- `StreamedIngress::accept_known_length`. -/
def IngressCall.acceptKnownLength (c : IngressCall) (reads : Reads) :
    m (Checked IngressError IngressReceipt) := do
  if c.contentLength = 0 then pure (.error (.error .emptyBody))
  else if c.contentLength > c.limits.maxCapsuleBytes then
    pure (.error (.error (.oversize c.contentLength c.limits.maxCapsuleBytes)))
  else do
    match ← store.beginQuarantine c.cluster c.capsule c.contentLength with
    | .error e => pure (.error (.error (.object e)))
    | .ok upload => do
      match ← receive store upload c.contentLength reads.fault reads.chunks [] 0 with
      | .error e => pure (.error (.error e))
      | .ok (body, peak) => c.conclude store upload body peak

end Accept

/-! ## A signed Capsule -/

namespace Sample

def cluster : Octets 16 := ⟨[1, 144, 0, 0, 0, 0, 112, 0, 128, 0, 0, 0, 0, 0, 0, 9], rfl⟩

def capsule : Octets 16 := ⟨[1, 144, 0, 0, 0, 0, 112, 0, 128, 0, 0, 0, 0, 0, 0, 1], rfl⟩

theorem version_capsule : version capsule = 7 := rfl

def header : GumpCapsuleHeader := ⟨capsule, cluster, "aa", 0⟩

/-- Release metadata of the application `b` in the namespace `a`. -/
def metadata : List UInt8 := [34, 6, 10, 1, 97, 18, 1, 98]

/-- The public key of the seed that repeats the byte 53. -/
def key : VerifyingKeyBytes :=
  ⟨[166, 210, 69, 94, 163, 165, 119, 26, 186, 159, 203, 3, 121, 36, 17, 76, 146, 249, 243, 37,
    4, 159, 107, 66, 105, 231, 57, 217, 4, 139, 184, 105], rfl⟩

/-- The signature of the release. -/
def signature : Octets 64 :=
  ⟨[134, 202, 153, 81, 57, 60, 5, 127, 218, 243, 168, 112, 136, 117, 155, 191, 164, 5, 181, 113,
    140, 25, 194, 88, 32, 145, 124, 201, 194, 57, 61, 18, 90, 192, 31, 140, 52, 80, 21, 12, 68,
    42, 214, 49, 253, 111, 162, 134, 86, 100, 112, 134, 158, 23, 211, 180, 123, 210, 212, 83,
    90, 254, 234, 2], rfl⟩

def segments : List (List UInt8) := [metadata, [1], [2], [3], key.bytes ++ signature.bytes]

/-- The digests of the segments. -/
def digests : List Digest :=
  [⟨[130, 187, 164, 217, 162, 4, 244, 25, 92, 68, 5, 114, 134, 41, 153, 209, 178, 48, 74, 101,
      150, 188, 94, 181, 81, 67, 171, 50, 224, 14, 63, 93], rfl⟩,
    Blake3.knownAnswers.hash [1],
    ⟨[171, 19, 190, 223, 66, 232, 75, 174, 15, 124, 98, 199, 221, 106, 138, 218, 87, 30, 136,
      41, 190, 214, 234, 85, 130, 23, 240, 54, 27, 94, 37, 208], rfl⟩,
    ⟨[225, 224, 232, 29, 110, 163, 155, 12, 248, 184, 111, 253, 68, 9, 33, 1, 31, 87, 64, 12,
      188, 63, 118, 168, 161, 113, 144, 106, 155, 141, 117, 5], rfl⟩,
    ⟨[199, 43, 95, 116, 130, 135, 74, 197, 132, 186, 228, 95, 227, 8, 178, 186, 142, 130, 169,
      39, 143, 251, 198, 16, 59, 116, 8, 180, 1, 248, 58, 136], rfl⟩]

def descriptor (segmentType : SegmentType) (offset length index : Nat) : SegmentDescriptor :=
  ⟨segmentType, 0, offset, length, length, digests.getD index (Octets.fill 32 0)⟩

def table : SegmentTable where
  descriptors :=
    [descriptor .publicMetadata 336 8 0, descriptor .applicationArchive 344 1 1,
      descriptor .protectedConfig 345 1 2, descriptor .keyEnvelope 346 1 3,
      descriptor .releaseSignature 347 96 4]
  five := rfl

def headerCbor : List UInt8 := header.encodeCbor.toOption.getD []

/-- What the CRC covers. -/
def framed : List UInt8 := headerCbor ++ encodeLen 2 443 ++ table.encode ++ segments.flatten

/-- The file: 149 bytes of header, and the CRC DE67D673 of the body. -/
def file : List UInt8 := utf8 "CAPSULE0001C0095DE67D673" ++ framed

def fileDigest : Digest :=
  ⟨[197, 174, 134, 44, 143, 35, 207, 44, 129, 86, 156, 129, 158, 137, 190, 10, 40, 89, 24, 30,
    217, 191, 90, 7, 164, 0, 180, 185, 161, 89, 200, 229], rfl⟩

/-- BLAKE3 on the segments, the file and the key under its domain. -/
def digest (input : List UInt8) : Digest :=
  match segments.idxOf? input with
  | some index => digests.getD index (Octets.fill 32 0)
  | none =>
    if input = ed25519FpDomain ++ key.bytes then
      ⟨[91, 105, 109, 151, 128, 7, 183, 125, 163, 227, 156, 6, 79, 86, 158, 244, 111, 164,
        138, 182, 71, 30, 189, 176, 194, 215, 146, 66, 132, 252, 161, 98], rfl⟩
    else if input = file then fileDigest
    else Octets.fill 32 0

@[reducible] def blake3 : Blake3 := ⟨digest⟩

/-- CRC-32 on the body of the file. -/
@[reducible] def crc32 : Crc32 where
  checksum input := if input = framed then 3731347059 else 0

/-- Ed25519 on the signature of the release. -/
@[reducible] def ed25519 : Ed25519 where
  fromBytes _ := .ok ()
  verifies k transcript s :=
    decide (k = key ∧ .ok transcript = releaseSigningTranscript headerCbor table ∧ s = signature)

/-- The signer is enrolled for the namespace `a`. -/
def trust : SignerTrustPolicy :=
  letI := blake3
  (SignerTrustPolicy.new.enroll ⟨key, OrdMap.empty.insert "a" (), none, .empty⟩).2

/-- A call for the sample Capsule. -/
def call (contentLength : Nat) : IngressCall :=
  ⟨{}, trust, cluster, capsule, "a", 0, contentLength⟩

end Sample

end Gump.Connectors
