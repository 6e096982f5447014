/-
  Capsule/Segment.lean --- the segment table of a Capsule.

  The payload of a Capsule is a table of five descriptors and the five segments
  they describe, back to back and in the order of their types.  Each descriptor
  carries the BLAKE3 digest of its segment.
-/
import Mathlib.Algebra.GroupWithZero.Nat
import Gump.Foundation.ByteStream
import Gump.Memory.Records.Record

set_option autoImplicit false

namespace Gump.Capsule

open Gump.Foundation Gump.Memory

/-! ## Errors -/

inductive CapsuleDialectErrorKind where
  | framing
  | header
  | table
  | segment
  | io
  deriving DecidableEq, Repr

/-- What went wrong; the texts with the `Debug` form of a string keep the string. -/
inductive CapsuleMessage where
  | text (s : String)
  /-- `unknown header key {key:?}` -/
  | unknownHeaderKey (key : String)
  /-- `unsupported dialect {dialect:?}` -/
  | unsupportedDialect (dialect : String)
  /-- `unsupported payload_layout {layout:?}` -/
  | unsupportedLayout (layout : String)
  deriving DecidableEq, Repr

structure CapsuleDialectError where
  kind : CapsuleDialectErrorKind
  message : CapsuleMessage
  deriving DecidableEq, Repr

/-- An error with a plain text. -/
def CapsuleDialectError.new (kind : CapsuleDialectErrorKind) (text : String) :
    CapsuleDialectError := ⟨kind, .text text⟩

/-! ## Segment types -/

inductive SegmentType where
  | publicMetadata
  | applicationArchive
  | protectedConfig
  | keyEnvelope
  | releaseSignature
  deriving DecidableEq, Repr

namespace SegmentType

/-- The derived `Debug` text of a segment type. -/
def debug : SegmentType → String
  | publicMetadata => "PublicMetadata"
  | applicationArchive => "ApplicationArchive"
  | protectedConfig => "ProtectedConfig"
  | keyEnvelope => "KeyEnvelope"
  | releaseSignature => "ReleaseSignature"

def asU16 : SegmentType → Nat
  | publicMetadata => 1
  | applicationArchive => 2
  | protectedConfig => 3
  | keyEnvelope => 4
  | releaseSignature => 5

def fromU16 : Nat → Except CapsuleDialectError SegmentType
  | 1 => .ok publicMetadata
  | 2 => .ok applicationArchive
  | 3 => .ok protectedConfig
  | 4 => .ok keyEnvelope
  | 5 => .ok releaseSignature
  | other => .error (.new .table s!"unknown segment type {other}")

/-- The types in the order of the table. -/
def all : List SegmentType :=
  [publicMetadata, applicationArchive, protectedConfig, keyEnvelope, releaseSignature]

end SegmentType

/-! ## The table -/

/-- The bytes of `GUMPDEP1`. -/
def magic : List UInt8 := [71, 85, 77, 80, 68, 69, 80, 49]

def tableVersion : Nat := 1

def segmentCount : Nat := 5

def tablePrefixLen : Nat := 16

def segmentDescLen : Nat := 64

def tableByteLen : Nat := tablePrefixLen + segmentCount * segmentDescLen

structure SegmentDescriptor where
  segmentType : SegmentType
  flags : Nat
  offset : Nat
  storedLength : Nat
  logicalLength : Nat
  digest : Digest
  deriving DecidableEq, Repr

/-- The five descriptors of a Capsule. -/
structure SegmentTable where
  descriptors : List SegmentDescriptor
  five : descriptors.length = segmentCount
  deriving DecidableEq, Repr

/-- The bytes of a descriptor. -/
def SegmentDescriptor.encode (d : SegmentDescriptor) : List UInt8 :=
  toBeBytes 2 d.segmentType.asU16 ++ toBeBytes 2 d.flags ++ toBeBytes 4 0 ++ toBeBytes 8 d.offset ++
    toBeBytes 8 d.storedLength ++ toBeBytes 8 d.logicalLength ++ d.digest.bytes

/-- The bytes of a table. -/
def SegmentTable.encode (t : SegmentTable) : List UInt8 :=
  magic ++ toBeBytes 2 tableVersion ++ toBeBytes 2 segmentCount ++ toBeBytes 4 tableByteLen ++
    t.descriptors.flatMap SegmentDescriptor.encode

/-- The digest that ends a descriptor of 64 bytes. -/
def descriptorDigest (desc : List UInt8) : Digest :=
  if h : (slice desc 32 32).length = 32 then ⟨slice desc 32 32, h⟩ else Octets.fill 32 0

/-- One descriptor of 64 bytes. -/
def parseDescriptor (desc : List UInt8) : Except CapsuleDialectError SegmentDescriptor := do
  let segmentType ← SegmentType.fromU16 (ofBeBytes (slice desc 0 2))
  let flags := ofBeBytes (slice desc 2 2)
  let reserved := ofBeBytes (slice desc 4 4)
  if flags ≠ 0 ∨ reserved ≠ 0 then
    throw (.new .table "v1 segment flags/reserved must be zero")
  pure
    { segmentType := segmentType
      flags := flags
      offset := ofBeBytes (slice desc 8 8)
      storedLength := ofBeBytes (slice desc 16 8)
      logicalLength := ofBeBytes (slice desc 24 8)
      digest := descriptorDigest desc }

/-- The segments lie back to back from `cursor` on. -/
def checkContiguous (cursor : Nat) : List SegmentDescriptor → Except CapsuleDialectError Unit
  | [] => .ok ()
  | d :: rest =>
    if d.offset ≠ cursor then
      let ty := d.segmentType.debug
      let offset := d.offset
      .error (.new .table s!"segment {ty} offset {offset} != expected contiguous {cursor}")
    else if d.offset + d.storedLength > u64Max then
      .error (.new .table "segment end overflow")
    else checkContiguous (d.offset + d.storedLength) rest

/-- The fixed part of a table, without the digests of the segments. -/
def SegmentTable.parseTableBytes (table : List UInt8) :
    Except CapsuleDialectError SegmentTable := do
  let got := table.length
  if got ≠ tableByteLen then
    throw (.new .table s!"segment table must be exactly {tableByteLen} bytes, got {got}")
  if slice table 0 8 ≠ magic then
    throw (.new .table "bad GUMPDEP1 magic")
  let version := ofBeBytes (slice table 8 2)
  if version ≠ tableVersion then
    throw (.new .table s!"unsupported table version {version}")
  let count := ofBeBytes (slice table 10 2)
  if count ≠ segmentCount then
    throw (.new .table s!"segment count must be {segmentCount}, got {count}")
  let tableLen := ofBeBytes (slice table 12 4)
  if tableLen ≠ tableByteLen then
    throw (.new .table s!"table byte length must be {tableByteLen}, got {tableLen}")
  let descriptors ← (List.range segmentCount).mapM fun i =>
    parseDescriptor (slice table (tablePrefixLen + i * segmentDescLen) segmentDescLen)
  if h : descriptors.map SegmentDescriptor.segmentType = SegmentType.all then do
    checkContiguous tableByteLen descriptors
    pure ⟨descriptors, by simpa [SegmentType.all, segmentCount] using congrArg List.length h⟩
  else throw (.new .table "descriptors must be sorted as types 1..=5")

end Gump.Capsule
