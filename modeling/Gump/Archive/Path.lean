/-
  Archive/Path.lean --- archive paths and entries.

  Models `gump-capsule/src/archive/path.rs`, the errors of `error.rs` and the entries
  of `pack.rs`.  A path that is accepted is its own normal form without trailing
  slashes, and a directory has one slash more (`validateArchivePath_iff`).
-/
import Gump.Types.Label
import Mathlib.Data.List.DropRight
import Mathlib.Data.String.Basic

set_option autoImplicit false

namespace Gump.Archive

open Gump.Foundation Gump.Types

inductive ArchiveErrorKind where
  | path
  | escape
  | format
  | limit
  | io
  | compress
  deriving DecidableEq, Repr

structure ArchiveError where
  kind : ArchiveErrorKind
  message : String
  deriving DecidableEq, Repr

/-- The normalization library: whether a text is in normal form C, and its normal form. -/
class Nfc where
  isNfc : String → Bool
  nfc : String → String

/-! ## Paths -/

/-- A text without its trailing slashes. -/
def trimEndSlashes (text : String) : String := String.ofList (text.toList.rdropWhile (· == '/'))

/-- Directories end with a slash. -/
def spelled (body : String) (directory : Bool) : String :=
  if directory then body.push '/' else body

def checkSegment (seg : List Char) : Except ArchiveError (List Char) :=
  if seg = [] then .error ⟨.path, "empty path segment rejected"⟩
  else if seg = ['.'] ∨ seg = ['.', '.'] then
    let text := String.ofList seg
    .error ⟨.escape, s!"path segment \"{text}\" rejected"⟩
  else .ok seg

section Validation

variable [Nfc]

/-- The normal form of a path. -/
def normalized (path : String) : String := if Nfc.isNfc path then path else Nfc.nfc path

/-- Validate and normalize a relative archive path. -/
def validateArchivePath (path : String) (directory : Bool) : Except ArchiveError String :=
  if path.toList = [] then .error ⟨.path, "empty path"⟩
  else if path.toList.head? = some '/' then .error ⟨.escape, "absolute path rejected"⟩
  else if '\\' ∈ path.toList ∨ '\x00' ∈ path.toList then .error ⟨.path, "invalid path character"⟩
  else if directory = false ∧ path.toList.getLast? = some '/' then
    .error ⟨.path, "regular file path must not end with '/'"⟩
  else
    let body := trimEndSlashes (normalized path)
    if body.toList = [] then .error ⟨.path, "empty path"⟩
    else do
      let segments ← (body.toList.splitOn '/').mapM checkSegment
      pure (spelled (String.ofList (['/'].intercalate segments)) directory)

end Validation

/-- A text that may be validated. -/
structure Relative (path : String) : Prop where
  nonempty : path.toList ≠ []
  relative : path.toList.head? ≠ some '/'
  chars : ¬ ('\\' ∈ path.toList ∨ '\x00' ∈ path.toList)

/-- Segments between slashes, none of them empty, `.` or `..`. -/
def Segmented (body : String) : Prop :=
  ∀ seg ∈ body.toList.splitOn '/', seg ≠ [] ∧ seg ≠ ['.'] ∧ seg ≠ ['.', '.']

theorem checkSegment_iff {seg seg' : List Char} :
    checkSegment seg = .ok seg' ↔ (seg ≠ [] ∧ seg ≠ ['.'] ∧ seg ≠ ['.', '.']) ∧ seg' = seg := by
  unfold checkSegment
  split_ifs with hempty hdots
  · simp [hempty]
  · rcases hdots with rfl | rfl
    · simp
    · simp
  · rw [not_or] at hdots
    simp only [Except.ok.injEq, ne_eq, hempty, hdots, not_false_eq_true, and_self, true_and]
    exact eq_comm

theorem mapM_checkSegment_iff {segs segs' : List (List Char)} :
    segs.mapM checkSegment = .ok segs' ↔
      (∀ seg ∈ segs, seg ≠ [] ∧ seg ≠ ['.'] ∧ seg ≠ ['.', '.']) ∧ segs' = segs := by
  induction segs generalizing segs' with
  | nil => simp [pure, Except.pure, eq_comm]
  | cons seg rest ih =>
    rw [List.mapM_cons, except_bind_eq_ok]
    constructor
    · rintro ⟨seg', hseg, h⟩
      obtain ⟨rest', hrest, hcons⟩ := except_bind_eq_ok.mp h
      obtain ⟨hok, rfl⟩ := checkSegment_iff.mp hseg
      obtain ⟨hall, rfl⟩ := ih.mp hrest
      exact ⟨List.forall_mem_cons.mpr ⟨hok, hall⟩, (Except.ok.inj hcons).symm⟩
    · rintro ⟨hall, rfl⟩
      obtain ⟨hok, hall⟩ := List.forall_mem_cons.mp hall
      exact ⟨seg, checkSegment_iff.mpr ⟨hok, rfl⟩,
        except_bind_eq_ok.mpr ⟨rest, ih.mpr ⟨hall, rfl⟩, rfl⟩⟩

theorem trimEndSlashes_idem (text : String) :
    trimEndSlashes (trimEndSlashes text) = trimEndSlashes text := by
  rw [trimEndSlashes, trimEndSlashes, String.toList_ofList, List.rdropWhile_idempotent]

theorem trimEndSlashes_push (text : String) :
    trimEndSlashes (text.push '/') = trimEndSlashes text := by
  rw [trimEndSlashes, trimEndSlashes, String.toList_push, List.rdropWhile_concat_pos _ _ _ rfl]

theorem getLast_trimEndSlashes (text : String) :
    (trimEndSlashes text).toList.getLast? ≠ some '/' := by
  intro h
  rw [trimEndSlashes, String.toList_ofList] at h
  have hne : text.toList.rdropWhile (· == '/') ≠ [] := by
    intro hnil
    rw [hnil] at h
    cases h
  rw [List.getLast?_eq_some_getLast hne] at h
  exact List.rdropWhile_last_not _ _ hne (by rw [Option.some.inj h]; rfl)

theorem mem_of_mem_trimEndSlashes {text : String} {c : Char}
    (h : c ∈ (trimEndSlashes text).toList) : c ∈ text.toList := by
  rw [trimEndSlashes, String.toList_ofList] at h
  exact (List.rdropWhile_prefix _ _).subset h

/-- Segments that are not empty do not start with a slash. -/
theorem Segmented.head {body : String} (h : Segmented body) : body.toList.head? ≠ some '/' := by
  intro hhead
  cases hchars : body.toList with
  | nil =>
    rw [hchars] at hhead
    cases hhead
  | cons c rest =>
    rw [hchars] at hhead
    cases hhead
    refine (h [] ?_).1 rfl
    rw [hchars, List.splitOn, List.splitOnP_cons_eq_if_modifyHead, if_pos (beq_self_eq_true '/')]
    exact List.mem_cons_self

variable [Nfc]

/-- A validated path is its normal form without trailing slashes, and a directory has one. -/
theorem validateArchivePath_iff {path out : String} {directory : Bool} :
    validateArchivePath path directory = .ok out ↔
      Relative path ∧ (directory = false → path.toList.getLast? ≠ some '/') ∧
      (trimEndSlashes (normalized path)).toList ≠ [] ∧
      Segmented (trimEndSlashes (normalized path)) ∧
      out = spelled (trimEndSlashes (normalized path)) directory := by
  have hjoin : ∀ body : String,
      String.ofList (['/'].intercalate (body.toList.splitOn '/')) = body :=
    fun body => by rw [List.intercalate_splitOn, String.ofList_toList]
  unfold validateArchivePath
  dsimp only
  split_ifs with hempty habsolute hchars hslash hbody
  · exact iff_of_false nofun fun h => h.1.nonempty hempty
  · exact iff_of_false nofun fun h => h.1.relative habsolute
  · exact iff_of_false nofun fun h => h.1.chars hchars
  · exact iff_of_false nofun fun h => h.2.1 hslash.1 hslash.2
  · exact iff_of_false nofun fun h => h.2.2.1 hbody
  · rw [except_bind_eq_ok]
    constructor
    · rintro ⟨segments, hsegments, hout⟩
      obtain ⟨hsegmented, rfl⟩ := mapM_checkSegment_iff.mp hsegments
      rw [hjoin] at hout
      exact ⟨⟨hempty, habsolute, hchars⟩, fun hfile hlast => hslash ⟨hfile, hlast⟩, hbody,
        hsegmented, (Except.ok.inj hout).symm⟩
    · rintro ⟨-, -, -, hsegmented, rfl⟩
      refine ⟨_, mapM_checkSegment_iff.mpr ⟨hsegmented, rfl⟩, ?_⟩
      rw [hjoin]
      rfl

/-! ## Entries -/

inductive EntryKind where
  | file
  | directory
  deriving DecidableEq, Repr

def EntryKind.isDirectory (kind : EntryKind) : Bool := kind == .directory

/-- One normalized archive entry before it is encoded. -/
structure ArchiveEntry where
  path : String
  kind : EntryKind
  executable : Bool
  data : List UInt8
  deriving DecidableEq, Repr

end Gump.Archive
