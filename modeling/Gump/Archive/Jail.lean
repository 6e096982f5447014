/-
  Archive/Jail.lean --- extraction under a staging root
  (`gump-capsule/src/archive/extract.rs`).

  An extraction runs on a site: a reader, a disk and the paths that were created or
  written so far.  It keeps what it did when it fails, so a path that an interrupted
  extraction has touched counts as well.  Destinations are joined from checked segments
  (`Jailed`), the ancestors of the root are there already, and so no operation touches
  anything that is not below the root (`Confined`).
-/
import Gump.Archive.Ustar
import Gump.Foundation.Effects
import Gump.Foundation.Segments

set_option autoImplicit false

namespace Gump.Archive

open Gump.Foundation Gump.Types

/-! ## Disks -/

structure IoError where
  notFound : Bool
  message : String
  deriving DecidableEq, Repr

/-- The file operations, on a state `σ` of the disk.  A path is the list of its
components from the root of the file system on.  What changes the disk may have changed
it also when it fails. -/
class Disk (σ : Type) where
  canonicalize : List String → σ → Except IoError (List String)
  pathExists : List String → σ → Bool
  isSymlink : List String → σ → Except IoError Bool
  /-- Whether a path that is there is a directory. -/
  asDirectory : List String → σ → Except IoError PUnit
  createDir : List String → σ → Option IoError × σ
  createFile : List String → σ → Option IoError × σ
  writeAll : List String → List UInt8 → σ → Option IoError × σ
  syncAll : List String → σ → Option IoError × σ
  setPermissions : List String → Nat → σ → Option IoError × σ

/-- A path that an operation finds it leaves in place. -/
def Disk.Leaves {σ : Type} [Disk σ] (op : σ → Option IoError × σ) : Prop :=
  ∀ path s, pathExists path s = true → pathExists path (op s).2 = true

/-- What is assumed of a disk: a canonical path is there with all its ancestors, and
nothing is removed. -/
structure Disk.Lawful (σ : Type) [Disk σ] : Prop where
  canonical : ∀ {path root : List String} {s : σ}, canonicalize path s = .ok root →
    ∀ k, pathExists (root.take k) s = true
  createDir : ∀ path, Leaves (createDir path : σ → _)
  createFile : ∀ path, Leaves (createFile path : σ → _)
  writeAll : ∀ path bytes, Leaves (writeAll path bytes : σ → _)
  syncAll : ∀ path, Leaves (syncAll path : σ → _)
  setPermissions : ∀ path mode, Leaves (setPermissions path mode : σ → _)

/-- What an extraction works on. -/
structure Site (σ : Type) where
  reader : ByteStream
  disk : σ
  /-- The paths that were created or written, in order. -/
  touched : List (List String)
  /-- Whether the reader's fault, if it has one, is of kind `UnexpectedEof`. -/
  faultIsEof : Bool := false

abbrev ExtractM (σ : Type) : Type → Type := EStateM ArchiveError (Site σ)

def ioError (e : IoError) : ArchiveError := ⟨.io, e.message⟩

section Operations

variable {σ : Type} [Disk σ]

/-- A result within an extraction. -/
def lift {α : Type} : Except ArchiveError α → ExtractM σ α
  | .ok a => pure a
  | .error e => throw e

/-- An operation that only looks at the disk. -/
def look {α : Type} (op : σ → Except ArchiveError α) : ExtractM σ α := do
  lift (op (← get).disk)

/-- An operation that changes the disk at a path. -/
def touch (path : List String) (op : σ → Option IoError × σ) : ExtractM σ PUnit := do
  let site ← get
  set { site with disk := (op site.disk).2, touched := site.touched ++ [path] }
  match (op site.disk).1 with
  | none => pure ⟨⟩
  | some e => throw (ioError e)

/-- The paths on the way to a path, and the path. -/
def ancestors (path : List String) : List (List String) :=
  (List.range path.length).map fun k => path.take (k + 1)

/-- Create the directories on a path that are missing (`fs::create_dir_all`). -/
def createDirAll (path : List String) : ExtractM σ PUnit :=
  forM (ancestors path) fun p => do
    if Disk.pathExists p (← get).disk then
      look fun s => (Disk.asDirectory p s).mapError ioError
    else touch p (Disk.createDir p)

def canonicalRoot (stagingRoot : List String) : ExtractM σ (List String) :=
  look fun s => (Disk.canonicalize stagingRoot s).mapError ioError

/-- The destination of a path under the root, which must not leave it. -/
def joinJail (root : List String) (rel : String) : ExtractM σ (List String) :=
  look fun s =>
    let segs := (rel.toList.splitOn '/').map String.ofList
    if segs.any (fun seg => seg == "" || seg == "." || seg == "..") then
      .error ⟨.escape, "path escape during extract"⟩
    else
      let out := root ++ segs
      let parent := out.dropLast
      if Disk.pathExists parent s then
        match Disk.canonicalize parent s with
        | .error e => .error (ioError e)
        | .ok canon =>
          if root.isPrefixOf canon then .ok out
          else .error ⟨.escape, "extract path escapes staging root"⟩
      else .ok out

def denySymlink (dest : List String) : ExtractM σ PUnit :=
  look fun s =>
    match Disk.isSymlink dest s with
    | .error e => if e.notFound then .ok ⟨⟩ else .error (ioError e)
    | .ok true =>
      let text := "/".intercalate dest
      .error ⟨.escape, s!"symlink rejected at {text}"⟩
    | .ok false => .ok ⟨⟩

/-- Refuse to follow a symlink at the destination. -/
def refuseSymlink (dest : List String) : ExtractM σ PUnit :=
  look fun s =>
    match Disk.isSymlink dest s with
    | .ok true =>
      let text := "/".intercalate dest
      .error ⟨.escape, s!"refusing to write through symlink {text}"⟩
    | _ => .ok ⟨⟩

def placeDirectory (dest : List String) : ExtractM σ PUnit := do
  createDirAll dest
  denySymlink dest

def openFile (dest : List String) : ExtractM σ PUnit := do
  createDirAll dest.dropLast
  denySymlink dest.dropLast
  refuseSymlink dest
  touch dest (Disk.createFile dest)

def closeFile (dest : List String) (executable : Bool) : ExtractM σ PUnit := do
  touch dest (Disk.syncAll dest)
  touch dest (Disk.setPermissions dest (if executable then 0o755 else 0o644))
  denySymlink dest

end Operations

structure ExtractLimits where
  maxFiles : Nat
  maxUncompressedBytes : Nat
  maxPathBytes : Nat
  deriving DecidableEq, Repr

/-! ## Extraction -/

section Extraction

variable {σ : Type} [Disk σ]

/-- Place one entry at its destination. -/
def placeEntry (dest : List String) (entry : ArchiveEntry) : ExtractM σ PUnit :=
  match entry.kind with
  | .directory => placeDirectory dest
  | .file => do
    openFile dest
    touch dest (Disk.writeAll dest entry.data)
    closeFile dest entry.executable

variable [Nfc]

/-- The loop of `extract_entries`. -/
def extractFrom (root : List String) (limits : ExtractLimits) :
    List ArchiveEntry → Nat → ExtractM σ PUnit
  | [], _ => pure ⟨⟩
  | entry :: rest, total => do
    lift (reject ((utf8 entry.path).length > limits.maxPathBytes) .limit
      "path length ceiling exceeded")
    let path ← lift (validateArchivePath (trimEndSlashes entry.path) entry.kind.isDirectory)
    lift (reject (path ≠ entry.path) .path "entry path not normalized")
    let total := saturatingAdd total entry.data.length
    lift (reject (total > limits.maxUncompressedBytes) .limit "expanded size ceiling exceeded")
    let dest ← joinJail root (trimEndSlashes path)
    placeEntry dest entry
    extractFrom root limits rest total

/-- `extract_entries`. -/
def extractEntries (stagingRoot : List String) (entries : List ArchiveEntry)
    (limits : ExtractLimits) : ExtractM σ PUnit := do
  let root ← canonicalRoot stagingRoot
  lift (reject (entries.length > limits.maxFiles) .limit "file count ceiling exceeded")
  extractFrom root limits entries 0

def readExact (n : Nat) : ExtractM σ (List UInt8) := do
  let site ← get
  match site.reader.readExact n with
  | .ok (bytes, reader) =>
    set { site with reader }
    pure bytes
  | .error e => throw ⟨.format, e⟩

/-- Copy bytes to the open file in pieces of 64 KiB. -/
def copyExact (dest : List String) : Nat → Nat → ExtractM σ PUnit
  | 0, _ => pure ⟨⟩
  | fuel + 1, remaining =>
    if remaining = 0 then pure ⟨⟩
    else do
      let chunk ← readExact (min remaining (64 * 1024))
      touch dest (Disk.writeAll dest chunk)
      copyExact dest fuel (remaining - min remaining (64 * 1024))

/-- Skip zero bytes. -/
def discardExact : Nat → Nat → ExtractM σ PUnit
  | 0, _ => pure ⟨⟩
  | fuel + 1, remaining =>
    if remaining = 0 then pure ⟨⟩
    else do
      let chunk ← readExact (min remaining block)
      lift (reject (¬ ∀ b ∈ chunk, b = 0) .format "non-zero ustar padding")
      discardExact fuel (remaining - min remaining block)

/-- Write one entry as it is read. -/
def extractMember (root : List String) (info : HeaderInfo) : ExtractM σ PUnit := do
  let dest ← joinJail root (trimEndSlashes info.path)
  match info.kind with
  | .directory => do
    lift (reject (info.size ≠ 0) .format "directory entry has payload")
    placeDirectory dest
  | .file => do
    openFile dest
    copyExact dest info.size info.size
    closeFile dest info.executable
    discardExact (padLen info.size) (padLen info.size)

/-- The loop of `extract_ustar_from_reader`. -/
def extractMembers (root : List String) (limits : ExtractLimits) :
    Nat → Nat → Nat → ExtractM σ Nat
  | 0, fileCount, _ => pure fileCount
  | fuel + 1, fileCount, expanded => do
    let header ← readExact block
    if header.all (· == 0) then do
      let second ← readExact block
      lift (reject (¬ second.all (· == 0)) .format "ustar end marker missing second zero block")
      pure fileCount
    else do
      let info ← lift (parseHeader header)
      lift (reject (fileCount ≥ limits.maxFiles) .limit "file count ceiling exceeded")
      lift (reject ((utf8 info.path).length > limits.maxPathBytes) .limit
        "path length ceiling exceeded")
      let expanded := saturatingAdd expanded info.size
      lift (reject (expanded > limits.maxUncompressedBytes) .limit
        "expanded size ceiling exceeded")
      extractMember root info
      extractMembers root limits fuel (saturatingAdd fileCount 1) expanded

/-- Nothing follows the end markers. -/
def expectEnd : ExtractM σ PUnit := do
  let site ← get
  lift (reject (site.reader.bytes ≠ []) .format "trailing data after ustar end markers")
  match site.reader.fault with
  | none => pure ⟨⟩
  | some e => if site.faultIsEof then pure ⟨⟩ else throw ⟨.io, e⟩

/-- `extract_ustar_from_reader`.  Every round takes a block, so one round more than the
reader has bytes is enough. -/
def extractUstarFromReader (stagingRoot : List String) (limits : ExtractLimits) :
    ExtractM σ Nat := do
  let root ← canonicalRoot stagingRoot
  let fileCount ← extractMembers root limits ((← get).reader.bytes.length + 1) 0 0
  expectEnd
  pure fileCount

end Extraction

/-! ## The jail -/

/-- A segment that names something in its directory: not empty, `.` or `..`, and without
a separator or NUL. -/
structure Segment (seg : String) : Prop where
  nonempty : seg ≠ ""
  notDot : seg ≠ "."
  notDotDot : seg ≠ ".."
  chars : ∀ c ∈ seg.toList, c ≠ '/' ∧ c ≠ '\\' ∧ c ≠ '\x00'

/-- A path below the root. -/
def Jailed (root path : List String) : Prop :=
  ∃ segs, segs ≠ [] ∧ path = root ++ segs ∧ ∀ seg ∈ segs, Segment seg

/-- Everything that was touched is below the root, and the root is there. -/
structure Confined {σ : Type} [Disk σ] (root : List String) (site : Site σ) : Prop where
  jailed : ∀ path ∈ site.touched, Jailed root path
  rooted : ∀ k, Disk.pathExists (root.take k) site.disk = true

section Confinement

variable {σ : Type} [Disk σ] {root : List String}

omit [Disk σ] in
theorem keeps_lift {I : Site σ → Prop} {α : Type} (r : Except ArchiveError α) :
    Keeps I (lift r) := by
  cases r with
  | ok a => exact Keeps.pure a
  | error e => exact Keeps.throw e

omit [Disk σ] in
theorem look_run {α : Type} (op : σ → Except ArchiveError α) (s : Site σ) :
    (look op).run s = (lift (op s.disk)).run s := rfl

omit [Disk σ] in
theorem keeps_look {I : Site σ → Prop} {α : Type} (op : σ → Except ArchiveError α) :
    Keeps I (look op) := Keeps.get_bind fun _ _ => keeps_lift _

omit [Disk σ] in
theorem lift_run_ok {α : Type} {r : Except ArchiveError α} {s t : Site σ} {a : α}
    (h : (lift r).run s = .ok a t) : r = .ok a ∧ t = s := by
  cases r with
  | ok b =>
    cases h
    exact ⟨rfl, rfl⟩
  | error e => cases h

theorem keeps_touch {path : List String} (hpath : Jailed root path) {op : σ → Option IoError × σ}
    (hop : Disk.Leaves op) : Keeps (Confined root) (touch path op) := by
  refine Keeps.get_bind fun site hsite => Keeps.bind (Keeps.set ⟨?_, ?_⟩) fun _ => ?_
  · intro p hp
    rcases List.mem_append.mp hp with hold | hnew
    · exact hsite.jailed p hold
    · rw [List.mem_singleton.mp hnew]
      exact hpath
  · exact fun k => hop _ _ (hsite.rooted k)
  · cases (op site.disk).1 with
    | none => exact Keeps.pure _
    | some e => exact Keeps.throw _

/-- The way to a path that is the root or below it consists of the way to the root and
of paths below it. -/
theorem mem_ancestors {segs p : List String} (hsegs : ∀ seg ∈ segs, Segment seg)
    (hp : p ∈ ancestors (root ++ segs)) : (∃ k, p = root.take k) ∨ Jailed root p := by
  obtain ⟨k, hk, rfl⟩ := List.mem_map.mp hp
  rw [List.mem_range, List.length_append] at hk
  rw [List.take_append]
  rcases Nat.lt_or_ge root.length (k + 1) with hbelow | habove
  · refine .inr ⟨segs.take (k + 1 - root.length), ?_, ?_, fun seg hseg => ?_⟩
    · intro hnil
      rcases List.take_eq_nil_iff.mp hnil with hzero | hempty
      · omega
      · rw [hempty, List.length_nil] at hk
        omega
    · rw [List.take_of_length_le (Nat.le_of_lt hbelow)]
    · exact hsegs seg (List.mem_of_mem_take hseg)
  · refine .inl ⟨k + 1, ?_⟩
    rw [Nat.sub_eq_zero_of_le habove, List.take_zero, List.append_nil]

theorem keeps_createDirAll (hdisk : Disk.Lawful σ) {segs : List String}
    (hsegs : ∀ seg ∈ segs, Segment seg) :
    Keeps (Confined root) (createDirAll (root ++ segs) : ExtractM σ PUnit) := by
  refine Keeps.forM_of_mem fun p hp => Keeps.get_bind fun site hsite => ?_
  rcases mem_ancestors hsegs hp with ⟨k, rfl⟩ | hjailed
  · -- The way to the root is there already.
    rw [if_pos (hsite.rooted k)]
    exact keeps_look _
  · split_ifs
    · exact keeps_look _
    · exact keeps_touch hjailed (hdisk.createDir p)

variable {dest : List String}

theorem keeps_placeDirectory (hdisk : Disk.Lawful σ) (h : Jailed root dest) :
    Keeps (Confined root) (placeDirectory dest : ExtractM σ PUnit) := by
  obtain ⟨segs, -, rfl, hsegs⟩ := h
  exact (keeps_createDirAll hdisk hsegs).bind fun _ => keeps_look _

theorem keeps_openFile (hdisk : Disk.Lawful σ) (h : Jailed root dest) :
    Keeps (Confined root) (openFile dest : ExtractM σ PUnit) := by
  have hcreate := keeps_touch h (hdisk.createFile dest)
  obtain ⟨segs, hne, rfl, hsegs⟩ := h
  have hparent : (root ++ segs).dropLast = root ++ segs.dropLast :=
    List.dropLast_append_of_ne_nil hne
  unfold openFile
  rw [hparent]
  refine (keeps_createDirAll hdisk fun seg hseg => hsegs seg (List.dropLast_subset _ hseg)).bind
    fun _ => (keeps_look _).bind fun _ => (keeps_look _).bind fun _ => hcreate

theorem keeps_closeFile (hdisk : Disk.Lawful σ) (h : Jailed root dest) (executable : Bool) :
    Keeps (Confined root) (closeFile dest executable : ExtractM σ PUnit) :=
  (keeps_touch h (hdisk.syncAll dest)).bind fun _ =>
    (keeps_touch h (hdisk.setPermissions dest _)).bind fun _ => keeps_look _

/-- A destination is below the root. -/
theorem jailed_of_joinJail {rel : String} (hrel : ∀ c ∈ rel.toList, c ≠ '\\' ∧ c ≠ '\x00')
    {s t : Site σ} (h : (joinJail root rel).run s = .ok dest t) : Jailed root dest := by
  rw [joinJail, look_run] at h
  have hjoin := (lift_run_ok h).1
  dsimp only at hjoin
  obtain ⟨hescape, hdest⟩ : ((rel.toList.splitOn '/').map String.ofList).any
        (fun seg => seg == "" || seg == "." || seg == "..") = false ∧
      dest = root ++ (rel.toList.splitOn '/').map String.ofList := by
    split_ifs at hjoin with hescape hexists
    · split at hjoin
      · cases hjoin
      · split_ifs at hjoin
        exact ⟨Bool.eq_false_iff.mpr hescape, (Except.ok.inj hjoin).symm⟩
    · exact ⟨Bool.eq_false_iff.mpr hescape, (Except.ok.inj hjoin).symm⟩
  rw [List.any_eq_false] at hescape
  refine ⟨_, ?_, hdest, fun seg hseg => ?_⟩
  · intro hnil
    exact List.splitOn_ne_nil '/' rel.toList (List.map_eq_nil_iff.mp hnil)
  · have hchecked := hescape seg hseg
    simp only [Bool.or_eq_true, beq_iff_eq, not_or] at hchecked
    refine ⟨hchecked.1.1, hchecked.1.2, hchecked.2, fun c hc => ?_⟩
    obtain ⟨chars, hchars, rfl⟩ := List.mem_map.mp hseg
    rw [String.toList_ofList] at hc
    obtain ⟨hmem, hsep⟩ := mem_of_mem_splitOn hchars hc
    exact ⟨hsep, hrel c hmem⟩

theorem keeps_placeEntry (hdisk : Disk.Lawful σ) (h : Jailed root dest) (entry : ArchiveEntry) :
    Keeps (Confined root) (placeEntry dest entry : ExtractM σ PUnit) := by
  unfold placeEntry
  cases entry.kind with
  | directory => exact keeps_placeDirectory hdisk h
  | file =>
    exact (keeps_openFile hdisk h).bind fun _ =>
      (keeps_touch h (hdisk.writeAll dest _)).bind fun _ => keeps_closeFile hdisk h _

theorem keeps_readExact (n : Nat) :
    Keeps (Confined root) (readExact n : ExtractM σ (List UInt8)) := by
  refine Keeps.get_bind fun site hsite => ?_
  cases site.reader.readExact n with
  | ok read => exact (Keeps.set ⟨hsite.jailed, hsite.rooted⟩).bind fun _ => Keeps.pure _
  | error e => exact Keeps.throw _

theorem keeps_copyExact (hdisk : Disk.Lawful σ) (h : Jailed root dest) (fuel : Nat) : ∀ remaining,
      Keeps (Confined root) (copyExact dest fuel remaining : ExtractM σ PUnit) := by
  induction fuel with
  | zero => exact fun _ => Keeps.pure _
  | succ fuel ih =>
    intro remaining
    rw [copyExact]
    split_ifs
    · exact Keeps.pure _
    · exact (keeps_readExact _).bind fun chunk =>
        (keeps_touch h (hdisk.writeAll dest chunk)).bind fun _ => ih _

theorem keeps_discardExact (fuel : Nat) : ∀ remaining,
    Keeps (Confined root) (discardExact fuel remaining : ExtractM σ PUnit) := by
  induction fuel with
  | zero => exact fun _ => Keeps.pure _
  | succ fuel ih =>
    intro remaining
    rw [discardExact]
    split_ifs
    · exact Keeps.pure _
    · exact (keeps_readExact _).bind fun chunk => (keeps_lift _).bind fun _ => ih _

end Confinement

/-! ## Validated paths -/

/-- What is assumed of normal form C: normalizing twice changes nothing more, a text in
normal form stays in it when slashes at its end are taken off or put on, and
normalizing makes no backslash and no NUL. -/
structure Nfc.Lawful [Nfc] : Prop where
  idem : ∀ text, isNfc (nfc text) = true
  trim : ∀ text, isNfc text = true → isNfc (trimEndSlashes text) = true
  push : ∀ text : String, isNfc text = true → isNfc (text.push '/') = true
  chars : ∀ text c, c = '\\' ∨ c = '\x00' → c ∈ (nfc text).toList → c ∈ text.toList

section Validated

variable [Nfc]

theorem Nfc.Lawful.isNfc_normalized (h : Nfc.Lawful) (path : String) :
    Nfc.isNfc (normalized path) = true := by
  unfold normalized
  split_ifs with hnfc
  · exact hnfc
  · exact h.idem path

/-- No backslash and no NUL comes through. -/
theorem chars_of_validated (hnfc : Nfc.Lawful) {raw path : String} {directory : Bool}
    (h : validateArchivePath raw directory = .ok path) :
    ∀ c ∈ path.toList, c ≠ '\\' ∧ c ≠ '\x00' := by
  obtain ⟨hraw, -, -, -, rfl⟩ := validateArchivePath_iff.mp h
  intro c hc
  have hslash : '/' ≠ '\\' ∧ '/' ≠ '\x00' := by decide
  have hbad : c ∈ (normalized raw).toList → ¬ (c = '\\' ∨ c = '\x00') := by
    intro hmem hc'
    have hin : c ∈ raw.toList := by
      unfold normalized at hmem
      split_ifs at hmem
      · exact hmem
      · exact hnfc.chars raw c hc' hmem
    rcases hc' with rfl | rfl
    · exact hraw.chars (.inl hin)
    · exact hraw.chars (.inr hin)
  unfold spelled at hc
  split_ifs at hc
  · rw [String.toList_push, List.mem_append, List.mem_singleton] at hc
    rcases hc with hbody | rfl
    · exact not_or.mp (hbad (mem_of_mem_trimEndSlashes hbody))
    · exact hslash
  · exact not_or.mp (hbad (mem_of_mem_trimEndSlashes hc))

/-- A path that was validated is returned as it is when it is validated again. -/
theorem validateArchivePath_idem (hnfc : Nfc.Lawful) {path out : String} {directory : Bool}
    (h : validateArchivePath path directory = .ok out) :
    validateArchivePath out directory = .ok out := by
  have hchars := chars_of_validated hnfc h
  obtain ⟨-, -, hbody, hsegmented, rfl⟩ := validateArchivePath_iff.mp h
  have hstable := hnfc.trim _ (hnfc.isNfc_normalized path)
  have hlast := getLast_trimEndSlashes (normalized path)
  generalize hb : trimEndSlashes (normalized path) = body at *
  have htrim : trimEndSlashes body = body := by rw [← hb, trimEndSlashes_idem]
  have hnormal : normalized (spelled body directory) = spelled body directory := by
    refine if_pos ?_
    unfold spelled
    split_ifs
    · exact hnfc.push body hstable
    · exact hstable
  have hagain : trimEndSlashes (spelled body directory) = body := by
    unfold spelled
    split_ifs
    · rw [trimEndSlashes_push, htrim]
    · exact htrim
  have hhead : (spelled body directory).toList.head? = body.toList.head? := by
    unfold spelled
    split_ifs
    · rw [String.toList_push, List.head?_append_of_ne_nil _ hbody]
    · rfl
  rw [validateArchivePath_iff, hnormal, hagain]
  refine ⟨⟨fun hnil => ?_, ?_, ?_⟩, fun hfile => ?_, hbody, hsegmented, rfl⟩
  · rw [hnil, List.head?_nil, eq_comm, List.head?_eq_none_iff] at hhead
    exact hbody hhead
  · rw [hhead]
    exact hsegmented.head
  · rintro (hback | hnul)
    · exact (hchars _ hback).1 rfl
    · exact (hchars _ hnul).2 rfl
  · rw [hfile]
    exact hlast

end Validated

/-! ## Extractions stay below the root -/

section Runs

variable [Nfc] {σ : Type} [Disk σ] {root : List String}

/-- What follows the check of a path has a destination below the root. -/
theorem keeps_joinJail_bind (hnfc : Nfc.Lawful) {raw path : String} {directory : Bool}
    (h : validateArchivePath raw directory = .ok path) {β : Type} {k : List String → ExtractM σ β}
    (hk : ∀ dest, Jailed root dest → Keeps (Confined root) (k dest)) :
    Keeps (Confined root) (joinJail root (trimEndSlashes path) >>= k) := by
  refine (keeps_look _).bind_ok fun s dest t hjoin => hk dest ?_
  exact jailed_of_joinJail
    (fun c hc => chars_of_validated hnfc h c (mem_of_mem_trimEndSlashes hc)) hjoin

theorem keeps_extractFrom (hnfc : Nfc.Lawful) (hdisk : Disk.Lawful σ) (limits : ExtractLimits)
    (entries : List ArchiveEntry) : ∀ total,
      Keeps (Confined root) (extractFrom root limits entries total : ExtractM σ PUnit) := by
  induction entries with
  | nil => exact fun _ => Keeps.pure _
  | cons entry rest ih =>
    intro total
    refine (keeps_lift _).bind fun _ => (keeps_lift _).bind_ok fun s path t hpath => ?_
    refine (keeps_lift _).bind fun _ => (keeps_lift _).bind fun _ => ?_
    exact keeps_joinJail_bind hnfc (lift_run_ok hpath).1 fun dest hdest =>
      (keeps_placeEntry hdisk hdest entry).bind fun _ => ih _

theorem keeps_extractMember (hnfc : Nfc.Lawful) (hdisk : Disk.Lawful σ) {header : List UInt8}
    {info : HeaderInfo} (h : parseHeader header = .ok info) :
    Keeps (Confined root) (extractMember root info : ExtractM σ PUnit) := by
  obtain ⟨name, front, -, -, hpath⟩ := (parseHeader_iff.mp h).path
  refine keeps_joinJail_bind hnfc hpath fun dest hdest => ?_
  cases info.kind with
  | directory => exact (keeps_lift _).bind fun _ => keeps_placeDirectory hdisk hdest
  | file =>
    exact (keeps_openFile hdisk hdest).bind fun _ =>
      (keeps_copyExact hdisk hdest _ _).bind fun _ =>
        (keeps_closeFile hdisk hdest _).bind fun _ => keeps_discardExact _ _

/-- The loop keeps its site confined, in any number of rounds. -/
theorem keeps_extractMembers (hnfc : Nfc.Lawful) (hdisk : Disk.Lawful σ) (limits : ExtractLimits)
    (fuel : Nat) : ∀ fileCount expanded,
      Keeps (Confined root)
        (extractMembers root limits fuel fileCount expanded : ExtractM σ Nat) := by
  induction fuel with
  | zero => exact fun _ _ => Keeps.pure _
  | succ fuel ih =>
    intro fileCount expanded
    rw [extractMembers]
    refine (keeps_readExact _).bind fun header => ?_
    split_ifs
    · exact (keeps_readExact _).bind fun _ => (keeps_lift _).bind fun _ => Keeps.pure _
    · refine (keeps_lift _).bind_ok fun s info t hparsed => ?_
      refine (keeps_lift _).bind fun _ => (keeps_lift _).bind fun _ =>
        (keeps_lift _).bind fun _ => ?_
      exact (keeps_extractMember hnfc hdisk (lift_run_ok hparsed).1).bind fun _ => ih _ _

omit [Nfc] in
/-- What runs below the canonical root touches nothing else. -/
theorem jailed_of_keeps (hdisk : Disk.Lawful σ) {stagingRoot : List String} {α : Type}
    {k : List String → ExtractM σ α} (hk : ∀ root, Keeps (Confined root) (k root)) {site : Site σ}
    (hnew : site.touched = []) :
    ∀ path ∈ (endState ((canonicalRoot stagingRoot >>= k).run site)).touched,
      ∃ root, Disk.canonicalize stagingRoot site.disk = .ok root ∧ Jailed root path := by
  intro path hpath
  cases hroot : Disk.canonicalize stagingRoot site.disk with
  | error e =>
    have hrun : (canonicalRoot stagingRoot >>= k).run site = .error (ioError e) site := by
      refine run_bind_error ?_
      rw [canonicalRoot, look_run, hroot]
      rfl
    rw [hrun, endState_error, hnew] at hpath
    cases hpath
  | ok root =>
    have hrun : (canonicalRoot stagingRoot).run site = .ok root site := by
      rw [canonicalRoot, look_run, hroot]
      rfl
    rw [run_bind_ok hrun] at hpath
    have hconfined : Confined root site := by
      refine ⟨fun p hp => ?_, hdisk.canonical hroot⟩
      rw [hnew] at hp
      cases hp
    exact ⟨root, rfl, (hk root site hconfined).jailed path hpath⟩

/-- Whatever the entries, the bytes and the outcome, an extraction creates and writes
paths below the staging root only; and validating twice is validating once. -/
theorem extraction_is_jailed (hnfc : Nfc.Lawful) (hdisk : Disk.Lawful σ) :
    (∀ (stagingRoot : List String) (entries : List ArchiveEntry) (limits : ExtractLimits)
        (site : Site σ), site.touched = [] →
      ∀ path ∈ (endState ((extractEntries stagingRoot entries limits).run site)).touched,
        ∃ root, Disk.canonicalize stagingRoot site.disk = .ok root ∧ Jailed root path) ∧
    (∀ (stagingRoot : List String) (limits : ExtractLimits) (site : Site σ), site.touched = [] →
      ∀ path ∈ (endState ((extractUstarFromReader stagingRoot limits).run site)).touched,
        ∃ root, Disk.canonicalize stagingRoot site.disk = .ok root ∧ Jailed root path) ∧
    ∀ path directory out, validateArchivePath path directory = .ok out →
      validateArchivePath out directory = .ok out := by
  refine ⟨fun stagingRoot entries limits site hnew => ?_, fun stagingRoot limits site hnew => ?_,
    fun path directory out h => validateArchivePath_idem hnfc h⟩
  · refine jailed_of_keeps hdisk (fun root => ?_) hnew
    exact (keeps_lift _).bind fun _ => keeps_extractFrom hnfc hdisk limits entries 0
  · refine jailed_of_keeps hdisk (fun root => ?_) hnew
    refine Keeps.get_bind fun s _ => (keeps_extractMembers hnfc hdisk limits _ _ _).bind fun n => ?_
    refine Keeps.bind (Keeps.get_bind fun t _ => (keeps_lift _).bind fun _ => ?_) fun _ =>
      Keeps.pure _
    cases t.reader.fault with
    | none => exact Keeps.pure _
    | some e =>
      dsimp only
      split_ifs
      · exact Keeps.pure _
      · exact Keeps.throw _

end Runs

/-! ### An archive of one file -/

namespace Sample

/-- Texts without characters to normalize. -/
@[reducible] def nfc : Nfc := ⟨fun _ => true, id⟩

/-- A disk without symlinks, as the list of its paths. -/
structure Tree where
  paths : List (List String)

instance : Disk Tree where
  canonicalize path t :=
    if (ancestors path).all (· ∈ t.paths) then .ok path
    else .error ⟨true, "no such file or directory"⟩
  pathExists path t := path.isEmpty || decide (path ∈ t.paths)
  isSymlink path t :=
    if path ∈ t.paths then .ok false else .error ⟨true, "no such file or directory"⟩
  asDirectory _ _ := .ok ⟨⟩
  createDir path t := (none, ⟨path :: t.paths⟩)
  createFile path t := (none, ⟨path :: t.paths⟩)
  writeAll _ _ t := (none, t)
  syncAll _ t := (none, t)
  setPermissions _ _ t := (none, t)

theorem nfc_lawful : @Nfc.Lawful nfc :=
  let _ := nfc
  ⟨fun _ => rfl, fun _ _ => rfl, fun _ _ => rfl, fun _ _ _ h => h⟩

theorem tree_lawful : Disk.Lawful Tree := by
  have hadd : ∀ path, Disk.Leaves fun t : Tree => ((none : Option IoError), ⟨path :: t.paths⟩) := by
    intro path p t hp
    simp only [Disk.pathExists, Bool.or_eq_true, decide_eq_true_eq, List.mem_cons] at hp ⊢
    exact hp.imp_right .inr
  have hsame : Disk.Leaves fun t : Tree => ((none : Option IoError), t) := fun _ _ hp => hp
  refine ⟨fun {path root t} hroot k => ?_, hadd, hadd, fun _ _ => hsame, fun _ => hsame,
    fun _ _ => hsame⟩
  simp only [Disk.canonicalize] at hroot
  split_ifs at hroot with hall
  obtain rfl := Except.ok.inj hroot
  rw [List.all_eq_true] at hall
  have htake : path.take k = path.take (min k path.length) := by
    rw [← List.take_take, List.take_length]
  simp only [Disk.pathExists, Bool.or_eq_true, decide_eq_true_eq, List.isEmpty_iff]
  rw [htake]
  rcases Nat.eq_zero_or_pos (min k path.length) with hzero | hpos
  · exact .inl (by rw [hzero, List.take_zero])
  · refine .inr (of_decide_eq_true (hall _ (List.mem_map.mpr ⟨min k path.length - 1, ?_, ?_⟩)))
    · exact List.mem_range.mpr (by omega)
    · rw [Nat.sub_add_cancel hpos]

/-- The site before the extraction. -/
def site : Site Tree := ⟨⟨[], none⟩, ⟨[["srv"]]⟩, [], false⟩

def hello : ArchiveEntry := ⟨"bin/hello", .file, true, [104, 105]⟩

def limits : ExtractLimits := ⟨10, 1000, 100⟩

end Sample

/-- The file and its directory are created below the root; the root is not touched. -/
theorem extraction_is_jailed_hello :
    let after := endState ((@extractEntries Sample.Tree _ Sample.nfc ["srv"] [Sample.hello]
      Sample.limits).run Sample.site)
    after.touched.dedup = [["srv", "bin"], ["srv", "bin", "hello"]] ∧
      ∀ path ∈ after.touched, ∃ root,
        Disk.canonicalize ["srv"] Sample.site.disk = .ok root ∧ Jailed root path :=
  ⟨by decide +kernel, (@extraction_is_jailed Sample.nfc Sample.Tree _ Sample.nfc_lawful
    Sample.tree_lawful).1 ["srv"] [Sample.hello] Sample.limits Sample.site rfl⟩

end Gump.Archive
