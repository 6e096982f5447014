/-
  Crypto/Transcript.lean --- the transcript that a release signature covers.

  A release is signed over its header and the type, length and digest of each of
  its first four segments.  The signature scheme is a parameter.  No two inputs that
  the builder accepts have the same transcript.
-/
import Mathlib.Algebra.GroupWithZero.Nat
import Gump.Foundation.ByteStream
import Gump.Memory.Records.Record

set_option autoImplicit false

namespace Gump.Crypto

open Gump.Foundation Gump.Memory

inductive CryptoErrorKind where
  | signature
  | encoding
  | length
  deriving DecidableEq, Repr

structure CryptoError where
  kind : CryptoErrorKind
  message : String
  deriving DecidableEq, Repr

/-- An Ed25519 verifying key. -/
abbrev VerifyingKeyBytes : Type := Octets 32

/-- The signature scheme. -/
class Ed25519 where
  /-- Whether bytes are a public key, with the reason if they are not. -/
  fromBytes : VerifyingKeyBytes → Except String Unit
  verifies : VerifyingKeyBytes → List UInt8 → Octets 64 → Bool

/-- The bytes of `gump.release-signature/1` and a zero byte. -/
def releaseSigPrefix : List UInt8 := "gump.release-signature/1".toUTF8.toList ++ [0]

/-- One segment of the transcript. -/
structure SegmentDigestRef where
  segmentType : Nat
  storedLength : Nat
  digest : Digest
  deriving DecidableEq, Repr

/-- The four signed segments. -/
structure SignedSegments where
  refs : List SegmentDigestRef
  four : refs.length = 4
  deriving DecidableEq, Repr

/-- The first segment whose type is not the one of its position, counted from
`expected`. -/
def misplaced (expected : Nat) : List SegmentDigestRef → Option (Nat × Nat)
  | [] => none
  | seg :: rest =>
    if seg.segmentType ≠ expected then some (expected, seg.segmentType)
    else misplaced (expected + 1) rest

/-- The bytes of one segment in the transcript. -/
def segmentBytes (seg : SegmentDigestRef) : List UInt8 :=
  toBeBytes 2 seg.segmentType ++ toBeBytes 8 seg.storedLength ++ seg.digest.bytes

/-- The bytes that are signed. -/
def buildReleaseSigningTranscript (headerCbor : List UInt8) (tableVersion : Nat)
    (segments : SignedSegments) : Except CryptoError (List UInt8) :=
  match misplaced 1 segments.refs with
  | some (expected, got) =>
    .error ⟨.encoding, s!"signing transcript expects segment type {expected}, got {got}"⟩
  | none =>
    if headerCbor.length > u32Max then
      .error ⟨.length, "header too large for u32be length prefix"⟩
    else
      .ok (releaseSigPrefix ++ toBeBytes 4 headerCbor.length ++ headerCbor ++
        toBeBytes 2 tableVersion ++
        segments.refs.flatMap segmentBytes)

/-- Verify a signature over a transcript. -/
def verifyTranscript [Ed25519] (key : VerifyingKeyBytes) (transcript : List UInt8)
    (signature : Octets 64) : Except CryptoError Unit :=
  match Ed25519.fromBytes key with
  | .error e => .error ⟨.signature, s!"invalid public key: {e}"⟩
  | .ok () =>
    if Ed25519.verifies key transcript signature then .ok ()
    else .error ⟨.signature, "signature verification failed"⟩

/-! ## The transcript is unambiguous -/

theorem length_segmentBytes (seg : SegmentDigestRef) : (segmentBytes seg).length = 42 := by
  simp [segmentBytes, length_toBeBytes, seg.digest.length_eq]

/-- A segment of a known type is read back from its bytes. -/
theorem segmentBytes_inj {a b : SegmentDigestRef} (htype : a.segmentType = b.segmentType)
    (ha : a.storedLength ≤ u64Max) (hb : b.storedLength ≤ u64Max)
    (h : segmentBytes a = segmentBytes b) : a = b := by
  obtain ⟨hhead, hbytes⟩ := List.append_inj h (by simp [length_toBeBytes])
  obtain ⟨-, hlength⟩ := List.append_inj hhead (by simp [length_toBeBytes])
  have hstored : a.storedLength = b.storedLength :=
    toBeBytes_injective (Nat.lt_succ_of_le ha) (Nat.lt_succ_of_le hb) hlength
  have hdigest : a.digest = b.digest := Octets.eq_of_bytes hbytes
  cases a
  cases b
  simp_all

theorem misplaced_cons {expected : Nat} {seg : SegmentDigestRef} {rest : List SegmentDigestRef}
    (h : misplaced expected (seg :: rest) = none) :
    seg.segmentType = expected ∧ misplaced (expected + 1) rest = none := by
  rw [misplaced] at h
  split at h
  · cases h
  · next htype => exact ⟨not_not.mp htype, h⟩

/-- Segments in their places are read back from their bytes. -/
theorem segments_inj {xs ys : List SegmentDigestRef} {expected : Nat}
    (hx : misplaced expected xs = none) (hy : misplaced expected ys = none)
    (hxs : ∀ seg ∈ xs, seg.storedLength ≤ u64Max) (hys : ∀ seg ∈ ys, seg.storedLength ≤ u64Max)
    (hlen : xs.length = ys.length) (h : xs.flatMap segmentBytes = ys.flatMap segmentBytes) :
    xs = ys := by
  induction xs generalizing ys expected with
  | nil => exact (List.length_eq_zero_iff.mp hlen.symm).symm
  | cons a xs ih =>
    cases ys with
    | nil => cases hlen
    | cons b ys =>
      obtain ⟨hatype, hxrest⟩ := misplaced_cons hx
      obtain ⟨hbtype, hyrest⟩ := misplaced_cons hy
      rw [List.forall_mem_cons] at hxs hys
      rw [List.flatMap_cons, List.flatMap_cons] at h
      -- Every block has the same length, so the first ones agree.
      obtain ⟨hblock, hrest⟩ := List.append_inj h (by rw [length_segmentBytes, length_segmentBytes])
      rw [segmentBytes_inj (hatype.trans hbtype.symm) hxs.1 hys.1 hblock,
        ih hxrest hyrest hxs.2 hys.2 (Nat.succ.inj hlen) hrest]

/-- What an accepted input has, and the bytes that it gives. -/
theorem buildReleaseSigningTranscript_ok {header : List UInt8} {version : Nat}
    {segments : SignedSegments} {transcript : List UInt8}
    (h : buildReleaseSigningTranscript header version segments = .ok transcript) :
    misplaced 1 segments.refs = none ∧ header.length ≤ u32Max ∧
      transcript = releaseSigPrefix ++ (toBeBytes 4 header.length ++ (header ++
        (toBeBytes 2 version ++ segments.refs.flatMap segmentBytes))) := by
  unfold buildReleaseSigningTranscript at h
  split at h
  · cases h
  · next hplaces =>
    split at h
    · cases h
    · next hshort =>
      cases h
      exact ⟨hplaces, Nat.le_of_not_lt hshort, by simp only [List.append_assoc]⟩

/-- Two accepted inputs with one transcript are the same: every boundary in the
transcript is at a fixed place or given by the header's length word. -/
theorem transcript_injective {header header' : List UInt8} {version version' : Nat}
    {segments segments' : SignedSegments} {transcript : List UInt8} (hversion : version < 2 ^ 16)
    (hversion' : version' < 2 ^ 16) (hlengths : ∀ seg ∈ segments.refs, seg.storedLength ≤ u64Max)
    (hlengths' : ∀ seg ∈ segments'.refs, seg.storedLength ≤ u64Max)
    (h : buildReleaseSigningTranscript header version segments = .ok transcript)
    (h' : buildReleaseSigningTranscript header' version' segments' = .ok transcript) :
    header = header' ∧ version = version' ∧ segments = segments' := by
  obtain ⟨hplaces, hshort, rfl⟩ := buildReleaseSigningTranscript_ok h
  obtain ⟨hplaces', hshort', heq⟩ := buildReleaseSigningTranscript_ok h'
  obtain ⟨hword, heq⟩ :=
    List.append_inj (List.append_cancel_left heq) (by rw [length_toBeBytes, length_toBeBytes])
  have hsize : header.length = header'.length :=
    toBeBytes_injective (Nat.lt_succ_of_le hshort) (Nat.lt_succ_of_le hshort') hword
  obtain ⟨hheader, heq⟩ := List.append_inj heq hsize
  obtain ⟨hbytes, heq⟩ := List.append_inj heq (by rw [length_toBeBytes, length_toBeBytes])
  have hrefs : segments.refs = segments'.refs :=
    segments_inj hplaces hplaces' hlengths hlengths' (segments.four.trans segments'.four.symm) heq
  cases segments
  cases segments'
  exact ⟨hheader, toBeBytes_injective hversion hversion' hbytes, by simpa using hrefs⟩

/-- Four empty segments in their places. -/
def emptySegments : SignedSegments :=
  ⟨[⟨1, 0, Octets.fill 32 0⟩, ⟨2, 0, Octets.fill 32 0⟩, ⟨3, 0, Octets.fill 32 0⟩,
    ⟨4, 0, Octets.fill 32 0⟩], rfl⟩

/-- A one-byte header is the only one with its transcript. -/
theorem transcript_injective_one_byte :
    ∃ transcript, buildReleaseSigningTranscript [0xa0] 1 emptySegments = .ok transcript ∧
      ∀ header version, version < 2 ^ 16 →
        buildReleaseSigningTranscript header version emptySegments = .ok transcript →
          header = [0xa0] ∧ version = 1 := by
  refine ⟨_, rfl, fun header version hversion h => ?_⟩
  have hsame := transcript_injective hversion (by decide : 1 < 2 ^ 16) (by decide) (by decide) h
    (rfl : buildReleaseSigningTranscript [0xa0] 1 emptySegments = .ok _)
  exact ⟨hsame.1, hsame.2.1⟩

end Gump.Crypto
