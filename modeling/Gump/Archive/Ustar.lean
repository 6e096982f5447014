/-
  Archive/Ustar.lean --- the header blocks of ustar archives.

  Models the header parser of `gump-capsule/src/archive/ustar.rs`.  A header block is a
  record of sixteen fields.  `Reads` lists what the parser checks of one, and
  `parseHeader_iff` says that it checks nothing else.
-/
import Gump.Archive.Path
import Gump.Foundation.ByteStream
import Mathlib.Data.FinEnum
import Mathlib.Data.Nat.Digits.Defs

set_option autoImplicit false

namespace Gump.Archive

open Gump.Foundation Gump.Types

def block : Nat := 512

/-- `ustar` and a NUL. -/
def ustarMagic : List UInt8 := [0x75, 0x73, 0x74, 0x61, 0x72, 0]

/-- `00`. -/
def ustarVersion : List UInt8 := [0x30, 0x30]

/-- The bytes that fill up the last block of `n` bytes. -/
def padLen (n : Nat) : Nat := (block - n % block) % block

/-- A check that refuses. -/
def reject (bad : Prop) [Decidable bad] (kind : ArchiveErrorKind) (message : String) :
    Except ArchiveError PUnit :=
  if bad then .error ⟨kind, message⟩ else .ok ⟨⟩

theorem reject_eq_ok_iff {bad : Prop} [Decidable bad] {kind : ArchiveErrorKind} {message : String} :
    reject bad kind message = .ok ⟨⟩ ↔ ¬ bad := by
  unfold reject
  split_ifs with h
  · exact iff_of_false nofun (not_not.mpr h)
  · exact iff_of_true rfl h

/-- The checksum field while the checksum is computed. -/
def spaces : List UInt8 := List.replicate 8 0x20

def byteSum (bytes : List UInt8) : Nat := (bytes.map UInt8.toNat).sum

/-! ## Reading fields -/

def octalDigit? (c : Char) : Option Nat :=
  if '0' ≤ c ∧ c ≤ '7' then some (c.toNat - '0'.toNat) else none

/-- One digit more, unless the number leaves the words. -/
def addOctal (n : Nat) (c : Char) : Option Nat := do
  let d ← octalDigit? c
  if n * 8 + d ≤ u64Max then some (n * 8 + d) else none

/-- `u64::from_str_radix` with radix 8. -/
def fromStrRadix8 (text : List Char) : Option Nat :=
  let digits := match text with
    | '+' :: rest => rest
    | _ => text
  if digits = [] then none else digits.foldlM addOctal 0

def parseOctal (field : List UInt8) : Except ArchiveError Nat :=
  match String.fromUTF8? ⟨(field.takeWhile fun b => !(b == 0 || b == 0x20)).toArray⟩ with
  | none => .error ⟨.format, "octal field not utf8"⟩
  | some s =>
    if s.toList = [] then .ok 0
    else
      match fromStrRadix8 ((s.toList.dropWhile isTrimmed).rdropWhile isTrimmed) with
      | some n => .ok n
      | none =>
        let text := s.quote
        .error ⟨.format, s!"invalid octal {text}"⟩

def cstrField (field : List UInt8) : Except ArchiveError String :=
  match String.fromUTF8? ⟨(field.takeWhile fun b => !(b == 0)).toArray⟩ with
  | none => .error ⟨.format, "path field not utf8"⟩
  | some s => .ok s

def kindOf (typeflag : List UInt8) : Except ArchiveError EntryKind :=
  match typeflag with
  | [0x30] => .ok .file
  | [0] => .ok .file
  | [0x35] => .ok .directory
  | _ =>
    let text := String.ofList (typeflag.map fun b => Char.ofNat b.toNat)
    .error ⟨.format, s!"unsupported tar typeflag {text}"⟩

/-- The octal digits of a number, without leading zeros. -/
def octalDigits (n : Nat) : List Nat := (Nat.digits 8 n).reverse

/-- The octal digits of a number, filled up with zeros to a width. -/
def octalText (width n : Nat) : List Nat :=
  List.replicate (width - (octalDigits n).length) 0 ++ octalDigits n

def executableOf (kind : EntryKind) (mode : Nat) : Except ArchiveError Bool :=
  match kind with
  | .directory =>
    if mode ≠ 0o755 then .error ⟨.format, "directory mode must be 0755"⟩ else .ok false
  | .file =>
    if mode = 0o644 then .ok false
    else if mode = 0o755 then .ok true
    else
      let text := String.ofList ((octalText 1 mode).map fun d => Char.ofNat (48 + d))
      .error ⟨.format, s!"unsupported mode {text}"⟩

/-- The path that the name and prefix fields spell. -/
def rawPath (front name : String) : String := if front = "" then name else front ++ "/" ++ name

/-- The sum of a header block with spaces for its checksum. -/
def headerSum (header : List UInt8) : Nat := byteSum (header.take 148 ++ spaces ++ header.drop 156)

/-- What a header block tells of an entry. -/
structure HeaderInfo where
  path : String
  kind : EntryKind
  executable : Bool
  size : Nat
  deriving DecidableEq, Repr

section Parser

variable [Nfc]

def parseHeader (header : List UInt8) : Except ArchiveError HeaderInfo := do
  reject (slice header 257 6 ≠ ustarMagic) .format "non-ustar or extended tar header rejected"
  reject (slice header 263 2 ≠ ustarVersion) .format "ustar version must be \"00\""
  let kind ← kindOf (slice header 156 1)
  let uid ← parseOctal (slice header 108 8)
  reject (uid ≠ 0) .format "non-zero uid/gid/mtime rejected"
  let gid ← parseOctal (slice header 116 8)
  reject (gid ≠ 0) .format "non-zero uid/gid/mtime rejected"
  let mtime ← parseOctal (slice header 136 12)
  reject (mtime ≠ 0) .format "non-zero uid/gid/mtime rejected"
  reject (¬ ((∀ b ∈ slice header 265 32, b = 0) ∧ ∀ b ∈ slice header 297 32, b = 0)) .format
    "owner/group names must be empty"
  let name ← cstrField (slice header 0 100)
  let front ← cstrField (slice header 345 155)
  let path ← validateArchivePath (trimEndSlashes (rawPath front name)) kind.isDirectory
  let mode ← parseOctal (slice header 100 8)
  let executable ← executableOf kind mode
  let size ← parseOctal (slice header 124 12)
  let claimed ← parseOctal (slice header 148 8)
  reject (claimed ≠ headerSum header) .format "ustar checksum mismatch"
  pure ⟨path, kind, executable, size⟩

/-! ## What the parser checks -/

/-- What is checked of a header block. -/
structure Reads (header : List UInt8) (info : HeaderInfo) : Prop where
  magic : slice header 257 6 = ustarMagic
  version : slice header 263 2 = ustarVersion
  kind : kindOf (slice header 156 1) = .ok info.kind
  uid : parseOctal (slice header 108 8) = .ok 0
  gid : parseOctal (slice header 116 8) = .ok 0
  mtime : parseOctal (slice header 136 12) = .ok 0
  owner : ∀ b ∈ slice header 265 32, b = 0
  group : ∀ b ∈ slice header 297 32, b = 0
  path : ∃ name front, cstrField (slice header 0 100) = .ok name ∧
    cstrField (slice header 345 155) = .ok front ∧
    validateArchivePath (trimEndSlashes (rawPath front name)) info.kind.isDirectory = .ok info.path
  mode : ∃ mode, parseOctal (slice header 100 8) = .ok mode ∧
    executableOf info.kind mode = .ok info.executable
  size : parseOctal (slice header 124 12) = .ok info.size
  checksum : parseOctal (slice header 148 8) = .ok (headerSum header)

theorem parseHeader_iff {header : List UInt8} {info : HeaderInfo} :
    parseHeader header = .ok info ↔ Reads header info := by
  unfold parseHeader
  constructor
  · intro h
    obtain ⟨hmagic, h⟩ := except_check_eq_ok.mp h
    obtain ⟨hversion, h⟩ := except_check_eq_ok.mp h
    obtain ⟨kind, hkind, h⟩ := except_bind_eq_ok.mp h
    obtain ⟨uid, huid, h⟩ := except_bind_eq_ok.mp h
    obtain ⟨huid₀, h⟩ := except_check_eq_ok.mp h
    obtain ⟨gid, hgid, h⟩ := except_bind_eq_ok.mp h
    obtain ⟨hgid₀, h⟩ := except_check_eq_ok.mp h
    obtain ⟨mtime, hmtime, h⟩ := except_bind_eq_ok.mp h
    obtain ⟨hmtime₀, h⟩ := except_check_eq_ok.mp h
    obtain ⟨hnames, h⟩ := except_check_eq_ok.mp h
    obtain ⟨name, hname, h⟩ := except_bind_eq_ok.mp h
    obtain ⟨front, hfront, h⟩ := except_bind_eq_ok.mp h
    obtain ⟨path, hpath, h⟩ := except_bind_eq_ok.mp h
    obtain ⟨mode, hmode, h⟩ := except_bind_eq_ok.mp h
    obtain ⟨executable, hexecutable, h⟩ := except_bind_eq_ok.mp h
    obtain ⟨size, hsize, h⟩ := except_bind_eq_ok.mp h
    obtain ⟨claimed, hclaimed, h⟩ := except_bind_eq_ok.mp h
    obtain ⟨hsum, h⟩ := except_check_eq_ok.mp h
    cases h
    rw [reject_eq_ok_iff, not_not] at hmagic hversion huid₀ hgid₀ hmtime₀ hnames hsum
    subst huid₀ hgid₀ hmtime₀ hsum
    exact ⟨hmagic, hversion, hkind, huid, hgid, hmtime, hnames.1, hnames.2,
      ⟨name, front, hname, hfront, hpath⟩, ⟨mode, hmode, hexecutable⟩, hsize, hclaimed⟩
  · intro h
    obtain ⟨name, front, hname, hfront, hpath⟩ := h.path
    obtain ⟨mode, hmode, hexecutable⟩ := h.mode
    refine except_check_eq_ok.mpr ⟨reject_eq_ok_iff.mpr (not_not.mpr h.magic), ?_⟩
    refine except_check_eq_ok.mpr ⟨reject_eq_ok_iff.mpr (not_not.mpr h.version), ?_⟩
    refine except_bind_eq_ok.mpr ⟨_, h.kind, ?_⟩
    refine except_bind_eq_ok.mpr ⟨_, h.uid, ?_⟩
    refine except_check_eq_ok.mpr ⟨reject_eq_ok_iff.mpr (not_not.mpr rfl), ?_⟩
    refine except_bind_eq_ok.mpr ⟨_, h.gid, ?_⟩
    refine except_check_eq_ok.mpr ⟨reject_eq_ok_iff.mpr (not_not.mpr rfl), ?_⟩
    refine except_bind_eq_ok.mpr ⟨_, h.mtime, ?_⟩
    refine except_check_eq_ok.mpr ⟨reject_eq_ok_iff.mpr (not_not.mpr rfl), ?_⟩
    refine except_check_eq_ok.mpr ⟨reject_eq_ok_iff.mpr (not_not.mpr ⟨h.owner, h.group⟩), ?_⟩
    refine except_bind_eq_ok.mpr ⟨_, hname, ?_⟩
    refine except_bind_eq_ok.mpr ⟨_, hfront, ?_⟩
    refine except_bind_eq_ok.mpr ⟨_, hpath, ?_⟩
    refine except_bind_eq_ok.mpr ⟨_, hmode, ?_⟩
    refine except_bind_eq_ok.mpr ⟨_, hexecutable, ?_⟩
    refine except_bind_eq_ok.mpr ⟨_, h.size, ?_⟩
    refine except_bind_eq_ok.mpr ⟨_, h.checksum, ?_⟩
    exact except_check_eq_ok.mpr ⟨reject_eq_ok_iff.mpr (not_not.mpr rfl), rfl⟩

end Parser

end Gump.Archive
