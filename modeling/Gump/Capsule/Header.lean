/-
  Capsule/Header.lean --- the CBOR header of a Capsule.

  The header is a CBOR map of six entries whose encoded keys increase.  The
  decoder reads it through a cursor; lengths are 64-bit words, and a position that
  leaves that range panics.
-/
import Mathlib.Algebra.GroupWithZero.Nat
import Gump.Capsule.Segment
import Gump.Types.Label

set_option autoImplicit false

namespace Gump.Capsule

open Gump.Foundation Gump.Memory Gump.Types

def dialect : String := "gump/deployment/1"

def payloadLayout : String := "gump-segments/1"

/-- The decoded header of a Capsule. -/
structure GumpCapsuleHeader where
  capsuleId : Octets 16
  clusterId : Octets 16
  releaseSigner : String
  createdUnixMs : Int
  deriving DecidableEq, Repr

/-! ## Encoding -/

/-- A major type with a length in its shortest form. -/
def encodeLen (major len : Nat) : List UInt8 :=
  let mt := 32 * major
  if len < 24 then [UInt8.ofNat (mt + len)]
  else if len < 2 ^ 8 then UInt8.ofNat (mt + 24) :: toBeBytes 1 len
  else if len < 2 ^ 16 then UInt8.ofNat (mt + 25) :: toBeBytes 2 len
  else if len < 2 ^ 32 then UInt8.ofNat (mt + 26) :: toBeBytes 4 len
  else UInt8.ofNat (mt + 27) :: toBeBytes 8 len

def encodeText (s : String) : List UInt8 := encodeLen 3 (utf8 s).length ++ utf8 s

def encodeBstr16 (bytes : Octets 16) : List UInt8 := encodeLen 2 16 ++ bytes.bytes

/-- A signed word: the negative ones count from minus one. -/
def encodeInt (v : Int) : List UInt8 :=
  if 0 ≤ v then encodeLen 0 v.toNat else encodeLen 1 (-1 - v).toNat

/-- A digit of a lower-case hexadecimal fingerprint. -/
def isFingerprintByte (b : UInt8) : Bool := (48 ≤ b && b ≤ 57) || (97 ≤ b && b ≤ 102)

/-- The header as a CBOR map with its keys in the order of their encoding. -/
def GumpCapsuleHeader.encodeCbor (h : GumpCapsuleHeader) :
    Except CapsuleDialectError (List UInt8) :=
  let signer := utf8 h.releaseSigner
  if signer = [] ∨ signer.length > 256 then
    .error (.new .header "release_signer length out of range")
  else if !signer.all isFingerprintByte then
    .error (.new .header "release_signer must be lowercase hex fingerprint")
  else
    .ok (0xa6 :: encodeText "dialect" ++ encodeText dialect ++
      encodeText "capsule_id" ++ encodeBstr16 h.capsuleId ++
      encodeText "cluster_id" ++ encodeBstr16 h.clusterId ++
      encodeText "payload_layout" ++ encodeText payloadLayout ++
      encodeText "release_signer" ++ encodeText h.releaseSigner ++
      encodeText "created_unix_ms" ++ encodeInt h.createdUnixMs)

/-! ## Decoding -/

/-- A position in the bytes of a header. -/
structure Cursor where
  bytes : List UInt8
  pos : Nat

/-- A step of the decoder. -/
abbrev CursorM (α : Type) : Type := StateT Cursor (Except (Halt CapsuleDialectError)) α

/-- An error of the dialect. -/
def fail {σ α : Type} (kind : CapsuleDialectErrorKind) (text : String) :
    StateT σ (Except (Halt CapsuleDialectError)) α :=
  throw (.error (.new kind text))

namespace Cursor

/-- The next `n` bytes.  The sum of position and length overflows for a length
close to the largest word. -/
def take (n : Nat) : CursorM (List UInt8) := do
  let c ← get
  if c.pos + n > u64Max then throw (.panic "attempt to add with overflow")
  else if c.pos + n > c.bytes.length then fail .header "truncated CBOR"
  else do
    set { c with pos := c.pos + n }
    pure (slice c.bytes c.pos n)

/-- The major type of an item and its argument. -/
def readInitial : CursorM (Nat × Nat) := do
  let first := (ofBeBytes (← take 1))
  let major := first / 32
  let ai := first % 32
  if ai < 24 then pure (major, ai)
  else if ai = 24 then pure (major, ofBeBytes (← take 1))
  else if ai = 25 then pure (major, ofBeBytes (← take 2))
  else if ai = 26 then pure (major, ofBeBytes (← take 4))
  else if ai = 27 then pure (major, ofBeBytes (← take 8))
  else fail .header "non-deterministic or indefinite CBOR length"

def readMapLen : CursorM Nat := do
  let (major, val) ← readInitial
  if major ≠ 5 then fail .header "expected CBOR map" else pure val

def readText : CursorM String := do
  let (major, val) ← readInitial
  if major ≠ 3 then fail .header "expected CBOR text"
  else
    match String.fromUTF8? ⟨(← take val).toArray⟩ with
    | some s => pure s
    | none => fail .header "header text not UTF-8"

def readBstr : CursorM (List UInt8) := do
  let (major, val) ← readInitial
  if major ≠ 2 then fail .framing "expected CBOR byte string" else take val

/-- A byte string of 16 bytes. -/
def readBstrExact : CursorM (Octets 16) := do
  let bytes ← readBstr
  if h : bytes.length = 16 then pure ⟨bytes, h⟩
  else
    let got := bytes.length
    fail .header s!"expected bstr length 16, got {got}"

/-- A signed word. -/
def readInt : CursorM Int := do
  let (major, val) ← readInitial
  if major = 0 ∨ major = 1 then
    if val ≥ 2 ^ 63 then fail .header "integer overflow"
    else if major = 0 then pure (val : Int)
    else pure (-1 - (val : Int))
  else fail .header "expected CBOR integer"

end Cursor

/-- The entries of a header read so far. -/
structure HeaderFields where
  dialect : Option String := none
  capsuleId : Option (Octets 16) := none
  clusterId : Option (Octets 16) := none
  payloadLayout : Option String := none
  releaseSigner : Option String := none
  createdUnixMs : Option Int := none
  deriving DecidableEq

/-- Read the value of a key. -/
def readField (f : HeaderFields) (key : String) : CursorM HeaderFields := do
  if key = "dialect" then pure { f with dialect := some (← Cursor.readText) }
  else if key = "capsule_id" then pure { f with capsuleId := some (← Cursor.readBstrExact) }
  else if key = "cluster_id" then pure { f with clusterId := some (← Cursor.readBstrExact) }
  else if key = "payload_layout" then pure { f with payloadLayout := some (← Cursor.readText) }
  else if key = "release_signer" then pure { f with releaseSigner := some (← Cursor.readText) }
  else if key = "created_unix_ms" then pure { f with createdUnixMs := some (← Cursor.readInt) }
  else throw (.error ⟨.header, .unknownHeaderKey key⟩)

/-- Read a number of entries; their encoded keys increase. -/
def readFields : Nat → List UInt8 → HeaderFields → CursorM HeaderFields
  | 0, _, f => pure f
  | n + 1, lastKeyEnc, f => do
    let start := (← get).pos
    let key ← Cursor.readText
    let c ← get
    let keyEnc := slice c.bytes start (c.pos - start)
    if lastKeyEnc ≠ [] ∧ keyEnc ≤ lastKeyEnc then
      fail .header "header map keys not in deterministic order"
    else do
      let f ← readField f key
      readFields n keyEnc f

/-- A field that has to be there. -/
def required {α : Type} (field : String) : Option α → Except (Halt CapsuleDialectError) α
  | some a => .ok a
  | none => .error (.error (.new .header s!"missing header field {field}"))

/-- The header from its entries. -/
def finishHeader (f : HeaderFields) :
    Except (Halt CapsuleDialectError) GumpCapsuleHeader := do
  let d ← required "dialect" f.dialect
  if d ≠ dialect then throw (.error ⟨.header, .unsupportedDialect d⟩)
  let layout ← required "payload_layout" f.payloadLayout
  if layout ≠ payloadLayout then throw (.error ⟨.header, .unsupportedLayout layout⟩)
  let capsuleId ← required "capsule_id" f.capsuleId
  let clusterId ← required "cluster_id" f.clusterId
  let releaseSigner ← required "release_signer" f.releaseSigner
  let createdUnixMs ← required "created_unix_ms" f.createdUnixMs
  pure ⟨capsuleId, clusterId, releaseSigner, createdUnixMs⟩

/-- Read the map of a header up to the end of the bytes. -/
def readHeader : CursorM HeaderFields := do
  let len ← Cursor.readMapLen
  if len ≠ 6 then fail .header s!"header map must have 6 entries, got {len}"
  else do
    let fields ← readFields 6 [] {}
    let c ← get
    if c.pos ≠ c.bytes.length then fail .header "trailing bytes after header map"
    else pure fields

/-- Decode a header. -/
def GumpCapsuleHeader.decodeCbor (bytes : List UInt8) :
    Except (Halt CapsuleDialectError) GumpCapsuleHeader := do
  let (fields, _) ← readHeader.run ⟨bytes, 0⟩
  finishHeader fields

end Gump.Capsule
