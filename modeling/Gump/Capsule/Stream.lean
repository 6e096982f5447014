/-
  Capsule/Stream.lean --- verifying a Capsule as it streams by.

  The reader takes the framing apart, hashes every segment against its descriptor
  and the whole body against a CRC, and keeps the metadata with the signature
  segment.  It does not hash the stored object as a whole; the release signature is
  checked by its callers.
-/
import Mathlib.Algebra.GroupWithZero.Nat
import Gump.Capsule.Header
import Gump.Crypto.Transcript

set_option autoImplicit false

namespace Gump.Capsule

open Gump.Foundation Gump.Memory Gump.Types Gump.Crypto

/-- The CRC-32 of a byte string. -/
class Crc32 where
  checksum : List UInt8 → Nat

def defaultStreamChunkBytes : Nat := 64 * 1024

def maxSignatureSegmentBytes : Nat := 256 * 1024

/-- What the verification of a Capsule keeps of it. -/
structure GumpCapsuleMeta where
  header : GumpCapsuleHeader
  table : SegmentTable
  signatureSegment : List UInt8
  peakBufferBytes : Nat
  /-- Where the segment table starts in the file. -/
  innerFileOffset : Nat
  deriving DecidableEq, Repr

/-- The value of an upper-case hexadecimal digit. -/
def hexValue (b : UInt8) : Option Nat :=
  if 48 ≤ b ∧ b ≤ 57 then some (b.toNat - 48)
  else if 65 ≤ b ∧ b ≤ 70 then some (b.toNat - 55)
  else none

/-- The word that upper-case hexadecimal digits spell. -/
def parseHex (bytes : List UInt8) : Option Nat :=
  bytes.foldlM (fun n b => (hexValue b).map (16 * n + ·)) 0

/-- Upper-case hexadecimal text of eight digits. -/
def hexUpper8 (n : Nat) : String :=
  String.ofList ((List.range 8).map fun i => (hexDigit (n / 16 ^ (7 - i) % 16)).toUpper)

/-- A step of the reader: the stream that is left, and the errors of the dialect. -/
abbrev ReaderM (α : Type) : Type := StateT ByteStream (Except (Halt CapsuleDialectError)) α

namespace ReaderM

/-- Read exactly `n` bytes; a fault of the source is an error of kind `io`. -/
def readExact (n : Nat) : ReaderM (List UInt8) := do
  match (← get).readExact n with
  | .ok (bytes, rest) => do
    set rest
    pure bytes
  | .error e => fail .io e

/-- A step that does not read. -/
def lift {α : Type} (r : Except CapsuleDialectError α) : ReaderM α :=
  match r with
  | .ok a => pure a
  | .error e => throw (.error e)

end ReaderM

open ReaderM

/-- What the first 24 bytes declare. -/
structure Prelude where
  headerLen : Nat
  bodyCrc : Nat

/-- The first 24 bytes: magic, version, encoding, header length and CRC. -/
def readPrelude : ReaderM Prelude := do
  let bytes ← readExact 24
  if slice bytes 0 7 ≠ utf8 "CAPSULE" then fail .framing "invalid Capsule magic"
  else
    match parseHex (slice bytes 7 4) with
    | none => fail .framing "bad version field"
    | some version =>
      if version ≠ 1 then fail .framing s!"unsupported Capsule version {version}"
      else if slice bytes 11 1 ≠ utf8 "C" then
        fail .framing "gump/deployment/1 requires Encoding C"
      else
        match parseHex (slice bytes 12 4), parseHex (slice bytes 16 8) with
        | none, _ => fail .framing "bad header length"
        | some _, none => fail .framing "bad body CRC field"
        | some headerLen, some bodyCrc => pure ⟨headerLen, bodyCrc⟩

/-- The head of a byte string of definite length: its bytes and the length. -/
def readCborBstrPrefix : ReaderM (List UInt8 × Nat) := do
  let first ← readExact 1
  let major := ofBeBytes first / 32
  let ai := ofBeBytes first % 32
  if major ≠ 2 then fail .framing "payload CBOR must be a byte string"
  else if ai < 24 then pure (first, ai)
  else if ai < 28 then do
    let rest ← readExact (2 ^ (ai - 24))
    pure (first ++ rest, ofBeBytes rest)
  else fail .framing "non-deterministic or indefinite CBOR bstr length"

section Verify

variable [Blake3]

/-- Read one segment and compare it with its descriptor; the signature segment is
kept, and bounded. -/
def readSegmentBody (d : SegmentDescriptor) : ReaderM (List UInt8) := do
  if d.segmentType = .releaseSignature ∧ d.storedLength > maxSignatureSegmentBytes then
    fail .segment "release signature segment exceeds memory bound"
  else do
    let bytes ← readExact d.storedLength
    if Blake3.hash bytes ≠ d.digest then
      let ty := d.segmentType.debug
      fail .segment s!"segment {ty} digest mismatch"
    else pure bytes

/-- The bytes of the segments in the order of the table. -/
def readSegments (table : SegmentTable) : ReaderM (List (List UInt8)) :=
  table.descriptors.mapM readSegmentBody

/-- No byte follows the payload. -/
def expectEnd : ReaderM Unit := do
  let s ← get
  match s.bytes, s.fault with
  | _ :: _, _ => fail .framing "trailing bytes after Capsule payload"
  | [], some e => fail .io e
  | [], none => pure ()

/-- The segment that is kept: the last one. -/
def signatureOf (segments : List (List UInt8)) : List UInt8 := segments.getLastD []

variable [Crc32]

/-- `StreamingCapsuleReader::verify` with a chunk size. -/
def verifyStream (chunk : Nat) : ReaderM GumpCapsuleMeta := do
  let framing ← readPrelude
  let headerEncoded ← readExact framing.headerLen
  let (bstrPrefix, innerLen) ← readCborBstrPrefix
  if innerLen < tableByteLen then fail .table "inner payload shorter than segment table"
  else do
    let tableBytes ← readExact tableByteLen
    let table ← lift (SegmentTable.parseTableBytes tableBytes)
    let innerEnd := (table.descriptors.getLast?.map fun d =>
      saturatingAdd d.offset d.storedLength).getD tableByteLen
    if innerEnd ≠ innerLen then
      fail .table s!"inner length {innerLen} != contiguous end {innerEnd}"
    else do
      let segments ← readSegments table
      expectEnd
      let computed := Crc32.checksum (headerEncoded ++ bstrPrefix ++ tableBytes ++ segments.flatten)
      if computed ≠ framing.bodyCrc then
        let declared := hexUpper8 framing.bodyCrc
        let found := hexUpper8 computed
        fail .framing s!"CRC mismatch: declared {declared} computed {found}"
      else
        match GumpCapsuleHeader.decodeCbor headerEncoded with
        | .error e => throw e
        | .ok header =>
          pure
            { header := header
              table := table
              signatureSegment := signatureOf segments
              peakBufferBytes := max (max (max 24 framing.headerLen)
                (max bstrPrefix.length tableByteLen)) chunk
              innerFileOffset := saturatingAdd (saturatingAdd 24 framing.headerLen)
                bstrPrefix.length }

/-- Verify a stream that is read in chunks of at least one byte. -/
def verifyWithChunk (chunkBytes : Nat) (s : ByteStream) :
    Checked CapsuleDialectError GumpCapsuleMeta :=
  ((verifyStream (max chunkBytes 1)).run s).map Prod.fst

/-- Verify a stream with the default chunk size. -/
def verify (s : ByteStream) : Checked CapsuleDialectError GumpCapsuleMeta :=
  verifyWithChunk defaultStreamChunkBytes s

end Verify

/-! ## Faults of the source -/

/-- A step that returns leaves the fault that the stream ends with. -/
def ReaderM.KeepsFault {α : Type} (m : ReaderM α) : Prop :=
  ∀ s r, m.run s = .ok r → r.2.fault = s.fault

namespace ReaderM.KeepsFault

variable {α β : Type}

theorem pure (a : α) : KeepsFault (pure a) := by
  rintro s _ ⟨⟩
  rfl

theorem throw (e : Halt CapsuleDialectError) : KeepsFault (throw e : ReaderM α) := by
  rintro s _ ⟨⟩

theorem bind {m : ReaderM α} {k : α → ReaderM β} (hm : KeepsFault m)
    (hk : ∀ a, KeepsFault (k a)) : KeepsFault (m >>= k) := by
  intro s r h
  rw [StateT.run_bind] at h
  cases hrun : m.run s with
  | error e =>
    rw [hrun] at h
    cases h
  | ok p =>
    rw [hrun] at h
    exact (hk p.1 p.2 r h).trans (hm s p hrun)

/-- Steps that keep the fault, before one that returns only without a fault. -/
theorem then_clean {m : ReaderM α} {k : α → ReaderM β} (hm : KeepsFault m)
    (hk : ∀ a s r, (k a).run s = .ok r → s.fault = none) :
    ∀ s r, (m >>= k).run s = .ok r → s.fault = none := by
  intro s r h
  rw [StateT.run_bind] at h
  cases hrun : m.run s with
  | error e =>
    rw [hrun] at h
    cases h
  | ok p =>
    rw [hrun] at h
    exact (hm s p hrun).symm.trans (hk p.1 p.2 r h)

theorem readExact (n : Nat) : KeepsFault (readExact n) := by
  intro s r h
  unfold ReaderM.readExact ByteStream.readExact at h
  simp only [StateT.run_bind, StateT.run_get, pure_bind] at h
  by_cases hn : n ≤ s.bytes.length
  · rw [if_pos hn] at h
    obtain rfl := Except.ok.inj h
    rfl
  · rw [if_neg hn] at h
    cases h

theorem mapM {f : α → ReaderM β} (hf : ∀ a, KeepsFault (f a)) (xs : List α) :
    KeepsFault (xs.mapM f) := by
  induction xs with
  | nil => exact .pure []
  | cons x xs ih =>
    rw [List.mapM_cons]
    exact (hf x).bind fun _ => ih.bind fun _ => .pure _

end ReaderM.KeepsFault

theorem keepsFault_lift {α : Type} (r : Except CapsuleDialectError α) : KeepsFault (lift r) := by
  cases r with
  | ok a => exact .pure a
  | error e => exact .throw _

theorem keepsFault_readPrelude : KeepsFault readPrelude := by
  refine .bind (.readExact 24) fun bytes => ?_
  repeat' split
  all_goals first | exact .throw _ | exact .pure _

theorem keepsFault_readCborBstrPrefix : KeepsFault readCborBstrPrefix := by
  refine .bind (.readExact 1) fun first => ?_
  simp only
  repeat' split
  all_goals first | exact .throw _ | exact .pure _ | exact .bind (.readExact _) fun _ => .pure _

section FaultFree

variable [Blake3]

theorem keepsFault_readSegments (table : SegmentTable) : KeepsFault (readSegments table) := by
  refine .mapM (fun d => ?_) _
  unfold readSegmentBody
  split
  · exact .throw _
  · refine .bind (.readExact _) fun bytes => ?_
    simp only
    split
    · exact .throw _
    · exact .pure _

variable [Crc32]

/-- A stream that is verified is read to its end, where no fault is reported. -/
theorem fault_of_verify {chunk : Nat} {s : ByteStream} {m : GumpCapsuleMeta}
    (h : verifyWithChunk chunk s = .ok m) : s.fault = none := by
  have hclean : ∀ s r, (verifyStream (max chunk 1)).run s = .ok r → s.fault = none := by
    refine keepsFault_readPrelude.then_clean fun framing => ?_
    refine (KeepsFault.readExact _).then_clean fun headerEncoded => ?_
    refine keepsFault_readCborBstrPrefix.then_clean fun (bstrPrefix, innerLen) => ?_
    simp only
    split
    · rintro _ _ ⟨⟩
    refine (KeepsFault.readExact _).then_clean fun tableBytes => ?_
    refine (keepsFault_lift _).then_clean fun table => ?_
    split
    · rintro _ _ ⟨⟩
    refine (keepsFault_readSegments table).then_clean fun segments => ?_
    -- what follows the segments is the end of the stream
    intro s r h
    obtain ⟨bytes, fault⟩ := s
    cases bytes with
    | cons b bytes => cases h
    | nil =>
      cases fault with
      | none => rfl
      | some e => cases h
  cases hrun : (verifyStream (max chunk 1)).run s with
  | error e =>
    rw [verifyWithChunk, hrun] at h
    cases h
  | ok r => exact hclean s r hrun

end FaultFree

/-! ## The release signature -/

/-- The signed part of a segment table: its first four segments. -/
def SegmentTable.signed (table : SegmentTable) : SignedSegments where
  refs := (table.descriptors.take 4).map fun d => ⟨d.segmentType.asU16, d.storedLength, d.digest⟩
  four := by simp [table.five, segmentCount]

/-- The transcript of a Capsule. -/
def releaseSigningTranscript (headerCbor : List UInt8) (table : SegmentTable) :
    Except CryptoError (List UInt8) :=
  buildReleaseSigningTranscript headerCbor tableVersion table.signed

/-- Verify the release signature of a Capsule. -/
def verifyReleaseSignature [Ed25519] (headerCbor : List UInt8) (table : SegmentTable)
    (key : VerifyingKeyBytes) (signature : Octets 64) : Except CryptoError Unit := do
  let transcript ← releaseSigningTranscript headerCbor table
  verifyTranscript key transcript signature

/-- The key and the signature at the start of a signature segment. -/
def signerOf (segment : List UInt8) : Option (VerifyingKeyBytes × Octets 64) :=
  if h : 96 ≤ segment.length then
    some (⟨segment.take 32, by simp; omega⟩, ⟨slice segment 32 64, by simp [slice]; omega⟩)
  else none

end Gump.Capsule
