/-
  Manifest/Capture.lean --- capturing a workspace (`gump-manifest/src/capture/tree.rs`,
  `open_beneath.rs`, `plan.rs`, `deny.rs`).

  A scan walks the directories with a stack and records every included file under its
  displayed path.  The path is displayed with slashes for backslashes and with
  replacements for bytes that are no text, and the file is opened again under the path
  so displayed.  What is recorded is therefore always some file under its own path
  (`scanOnce_sound`), but a file whose name has a backslash or is no text is recorded as
  another one or not at all.
-/
import Gump.Foundation.Json
import Gump.Foundation.Segments
import Gump.Memory.Records.Record

set_option autoImplicit false

namespace Gump.Manifest

open Gump.Foundation Gump.Memory

/-! ## Errors -/

inductive CaptureErrorKind where
  | glob
  | escape
  | sensitive
  | io
  | sourceChanged
  | policy
  | prepare
  deriving DecidableEq, Repr

structure CaptureError where
  kind : CaptureErrorKind
  message : String
  deriving DecidableEq, Repr

/-- Why a path is denied. -/
inductive SensitiveDeny where
  | dotGit
  | dotGump
  | localToml
  | dotEnv
  | privateKeyExt
  | credentialName
  | editorJunk
  | escape
  | absolute
  | empty
  deriving DecidableEq, Repr

def SensitiveDeny.asStr : SensitiveDeny → String
  | .dotGit => "dot_git"
  | .dotGump => "dot_gump"
  | .localToml => "gump_local_toml"
  | .dotEnv => "dot_env"
  | .privateKeyExt => "private_key_ext"
  | .credentialName => "credential_name"
  | .editorJunk => "editor_junk"
  | .escape => "path_escape"
  | .absolute => "absolute_path"
  | .empty => "empty_path"

def SensitiveDeny.toError (deny : SensitiveDeny) : CaptureError :=
  match deny with
  | .escape | .absolute | .empty => ⟨.escape, deny.asStr⟩
  | _ => ⟨.sensitive, deny.asStr⟩

/-! ## Relative paths -/

/-- A component of a path (`std::path::Component`). -/
inductive Component where
  | rootDir
  | curDir
  | parentDir
  | normal (name : String)
  deriving DecidableEq, Repr

/-- A segment as a component: empty ones and dots are skipped. -/
def segmentComponent (seg : List Char) : Option Component :=
  if seg = [] ∨ seg = ['.'] then none
  else if seg = ['.', '.'] then some .parentDir
  else some (.normal (String.ofList seg))

/-- The components of a path.  A dot counts at the front only. -/
def components (text : String) : List Component :=
  (if text.toList.head? = some '/' then [.rootDir]
    else if (text.toList.splitOn '/').head? = some ['.'] then [.curDir]
    else []) ++ (text.toList.splitOn '/').filterMap segmentComponent

/-- The names of a path that only goes down. -/
def walk : List Component → Except SensitiveDeny (List String)
  | [] => .ok []
  | .normal s :: rest => (walk rest).map (s :: ·)
  | .curDir :: rest => walk rest
  | .parentDir :: _ => .error .escape
  | .rootDir :: _ => .error .absolute

/-- What is sensitive about the names of a path. -/
def sensitiveReason (normalized : List String) : Option SensitiveDeny :=
  let file := (normalized.getLast?.getD "").toList
  let lower := file.map Char.toLower
  let ends := fun tail : String => tail.toList.isSuffixOf lower
  if ".git" ∈ normalized then some .dotGit
  else if ".gump" ∈ normalized then some .dotGump
  else if file = "gump.local.toml".toList then some .localToml
  else if ".env".toList.isPrefixOf file then some .dotEnv
  else if ends ".pem" || ends ".key" || ends ".p12" || ends ".pfx" || ends ".jks" then
    some .privateKeyExt
  else if lower = "credentials".toList || lower = "credentials.json".toList ||
      lower = "id_rsa".toList || lower = "id_ed25519".toList || ends "_rsa" then
    some .credentialName
  else if ends "~" || ends ".swp" || ends ".swo" ||
      (".".toList.isPrefixOf lower && ends ".swp") || ends ".bak" then
    some .editorJunk
  else none

/-- `is_sensitive_relative_path`. -/
def isSensitiveRelativePath (rel : String) : Except SensitiveDeny (Option SensitiveDeny) :=
  if rel = "" then .error .empty
  else if rel.toList.head? = some '/' then .error .absolute
  else
    match walk (components rel) with
    | .error deny => .error deny
    | .ok normalized =>
      if normalized = [] then .error .empty else .ok (sensitiveReason normalized)

/-- A text with slashes for backslashes. -/
def forwardSlashes (text : String) : String :=
  String.ofList (text.toList.map fun c => if c = '\\' then '/' else c)

/-- `normalize_rel`. -/
def normalizeRel (rel : String) : Except CaptureError String :=
  let rel := forwardSlashes rel
  match isSensitiveRelativePath rel, walk (components rel) with
  | .error deny, _ => .error deny.toError
  | .ok _, .error _ => .error ⟨.escape, s!"invalid relative path \"{rel}\""⟩
  | .ok _, .ok parts =>
    if parts = [] then .error ⟨.escape, "empty relative path"⟩ else .ok ("/".intercalate parts)

/-- `maybe_deny_sensitive`. -/
def maybeDenySensitive (rel : String) (allowSensitive : Bool) : Except CaptureError PUnit := do
  match ← (isSensitiveRelativePath rel).mapError SensitiveDeny.toError with
  | some reason =>
    let text := reason.asStr
    if allowSensitive then return ⟨⟩ else throw ⟨.sensitive, s!"{rel} denied ({text})"⟩
  | none => return ⟨⟩

/-! ## File systems -/

/-- A name in a directory: a text, or bytes that are no text. -/
inductive FileName where
  | text (s : String)
  | raw (bytes : List UInt8)
  deriving DecidableEq, Repr

structure FileData where
  bytes : List UInt8
  executable : Bool
  modified : Option Nat
  deriving DecidableEq, Repr

/-- What a directory entry is. -/
inductive Node where
  | file (data : FileData)
  | dir (entries : List (FileName × Node))
  | symlink
  /-- A socket, a device or the like. -/
  | special
  /-- What the process may not read. -/
  | denied (message : String)

abbrev Entries : Type := List (FileName × Node)

/-- The node at a path below a directory. -/
inductive At : Entries → List FileName → Node → Prop where
  | entry {entries : Entries} {name : FileName} {node : Node} (h : (name, node) ∈ entries) :
      At entries [name] node
  | inside {entries sub : Entries} {name : FileName} {path : List FileName} {node : Node}
      (h : (name, .dir sub) ∈ entries) (hsub : At sub path node) : At entries (name :: path) node

/-- The names a file system has. -/
def FileName.Legal : FileName → Prop
  | .text s => s ≠ "" ∧ s ≠ "." ∧ s ≠ ".." ∧ '/' ∉ s.toList ∧ '\x00' ∉ s.toList
  | .raw bytes => bytes ≠ [] ∧ 47 ∉ bytes ∧ 0 ∉ bytes ∧ ∀ s : String, s.toUTF8.data.toList ≠ bytes

/-- A directory has legal names, each once. -/
structure LegalDir (entries : Entries) : Prop where
  names : (entries.map Prod.fst).Nodup
  legal : ∀ e ∈ entries, e.1.Legal

/-- A file system tree, as the entries of its root in the order in which they are
listed. -/
structure FileTree where
  entries : Entries
  root : LegalDir entries
  dirs : ∀ {path sub}, At entries path (.dir sub) → LegalDir sub

/-! ## Opening files -/

def lookupName (name : FileName) : Entries → Option Node
  | [] => none
  | e :: rest => if e.1 = name then some e.2 else lookupName name rest

inductive OpenError where
  | notFound
  | loop
  | notDir
  | denied (message : String)

def OpenError.text : OpenError → String
  | .notFound => "No such file or directory (os error 2)"
  | .loop => "Too many levels of symbolic links (os error 40)"
  | .notDir => "Not a directory (os error 20)"
  | .denied message => message

/-- Open a path beneath a directory without following symlinks. -/
def openBeneath : Entries → List String → Except OpenError Node
  | _, [] => .error .notFound
  | entries, name :: rest =>
    match lookupName (.text name) entries with
    | none => .error .notFound
    | some .symlink => .error .loop
    | some (.denied message) => .error (.denied message)
    | some (.file data) => if rest = [] then .ok (.file data) else .error .notDir
    | some .special => if rest = [] then .ok .special else .error .notDir
    | some (.dir sub) => if rest = [] then .ok (.dir sub) else openBeneath sub rest

/-- `map_open_err`. -/
def mapOpenErr (e : OpenError) (rel : String) : CaptureError :=
  let text := e.text
  match e with
  | .loop | .notDir => ⟨.escape, s!"symlink or escape rejected at open: {rel} ({text})"⟩
  | _ => ⟨.io, s!"open {rel}: {text}"⟩

/-- `rel_components`. -/
def relComponents (rel : String) : Except CaptureError (List String) :=
  let parts := ((rel.toList.splitOn '/').map String.ofList).filter fun part =>
    part != "" && part != "."
  if parts.any fun part => part == ".." || decide ('\x00' ∈ part.toList) then
    .error ⟨.escape, s!"invalid relative path \"{rel}\""⟩
  else if parts = [] then .error ⟨.escape, "empty relative path"⟩
  else .ok parts

structure FileIdentity where
  len : Nat
  modified : Option Nat
  digest : Digest
  deriving DecidableEq

structure CapturedBlob where
  identity : FileIdentity
  bytes : List UInt8
  executable : Bool
  deriving DecidableEq

/-- What is captured of a file. -/
def captured [Blake3] (data : FileData) : CapturedBlob :=
  ⟨⟨data.bytes.length, data.modified, Blake3.hash data.bytes⟩, data.bytes, data.executable⟩

/-- `read_regular_beneath`. -/
def readRegularBeneath [Blake3] (root : Entries) (rel : String) :
    Except CaptureError CapturedBlob := do
  let parts ← relComponents rel
  match openBeneath root parts with
  | .error e => throw (mapOpenErr e rel)
  | .ok (.file data) => return captured data
  | .ok _ => throw ⟨.escape, s!"non-regular file rejected: {rel}"⟩

/-! ## Scanning -/

/-- The compiled plan of a package, with its two sets of patterns. -/
structure CapturePlan where
  allowSensitiveFiles : Bool
  included : String → Bool
  excluded : String → Bool

/-- `CapturePlan::matches`. -/
def CapturePlan.isMatch (plan : CapturePlan) (rel : String) : Bool :=
  plan.included rel && !plan.excluded rel

/-- The text that is shown for bytes that are no text (`String::from_utf8_lossy`). -/
class LossyText where
  lossy : List UInt8 → String

section Scan

variable [LossyText]

def FileName.shown : FileName → String
  | .text s => s
  | .raw bytes => LossyText.lossy bytes

/-- A path as it is shown. -/
def shown (path : List FileName) : String := "/".intercalate (path.map FileName.shown)

/-- `display_rel`. -/
def displayRel (path : List FileName) : String := forwardSlashes (shown path)

/-- The path under which a file is recorded. -/
def relOf (path : List FileName) : Except CaptureError String := normalizeRel (displayRel path)

/-- Directories still to be read, the next one first. -/
abbrev Stack : Type := List (List FileName × Entries)

variable [Blake3] (root : Entries) (plan : CapturePlan)

/-- The loop over the entries of a directory.  The directories and files that it meets
are reached without symlinks, so their canonical paths are their own and lie within the
root. -/
def scanEntries (dir : List FileName) : Entries → Stack → OrdMap String CapturedBlob →
    Except CaptureError (Stack × OrdMap String CapturedBlob)
  | [], stack, out => .ok (stack, out)
  | (name, node) :: rest, stack, out =>
    let path := dir ++ [name]
    let text := displayRel path
    match node with
    | .denied message => .error ⟨.io, message⟩
    | .symlink => .error ⟨.escape, s!"symlink rejected: {text}"⟩
    | .dir sub => scanEntries dir rest ((path, sub) :: stack) out
    | .special => .error ⟨.escape, s!"non-regular file rejected: {text}"⟩
    | .file _ => do
      let rel ← relOf path
      if plan.isMatch rel then do
        maybeDenySensitive rel plan.allowSensitiveFiles
        let blob ← readRegularBeneath root rel
        scanEntries dir rest stack (out.insert rel blob)
      else scanEntries dir rest stack out

/-- The loop over the stack. -/
def scanLoop : Nat → Stack → OrdMap String CapturedBlob →
    Except CaptureError (OrdMap String CapturedBlob)
  | 0, _, out => .ok out
  | _ + 1, [], out => .ok out
  | fuel + 1, (dir, entries) :: stack, out =>
    match scanEntries root plan dir entries stack out with
    | .error e => .error e
    | .ok (stack, out) => scanLoop fuel stack out

end Scan

mutual

/-- The number of directories in a node. -/
def Node.dirs : Node → Nat
  | .dir entries => dirsOf entries + 1
  | .file _ | .symlink | .special | .denied _ => 0

def dirsOf : List (FileName × Node) → Nat
  | [] => 0
  | (_, node) :: rest => node.dirs + dirsOf rest

end

section Capture

variable [LossyText] [Blake3]

/-- `scan_once`.  Every turn of the outer loop takes one directory off the stack. -/
def scanOnce (root : Entries) (plan : CapturePlan) :
    Except CaptureError (OrdMap String CapturedBlob) :=
  scanLoop root plan (dirsOf root + 1) [([], root)] .empty

/-- `pass_identities_match`. -/
def passIdentitiesMatch (a b : OrdMap String CapturedBlob) : Bool :=
  a.size == b.size && a.entries.all fun e =>
    match b.get e.1 with
    | some vb => e.2.identity = vb.identity && e.2.executable = vb.executable
    | none => false

structure VirtualEntry where
  relativePath : String
  identity : FileIdentity
  bytes : List UInt8
  executable : Bool
  sourcePath : String
  fromPrepare : Bool
  deriving DecidableEq

def virtualEntry (root : String) (e : String × CapturedBlob) : VirtualEntry :=
  ⟨e.1, e.2.identity, e.2.bytes, e.2.executable, root ++ "/" ++ e.1, false⟩

/-- `capture_workspace`, from the canonical root and the tree below it. -/
def captureWorkspace (root : Except String String) (tree : FileTree) (plan : CapturePlan) :
    Except CaptureError (OrdMap String VirtualEntry) := do
  let root ← root.mapError fun message => ⟨.io, message⟩
  let first ← scanOnce tree.entries plan
  let second ← scanOnce tree.entries plan
  if passIdentitiesMatch first second then
    return .ofList (second.entries.map fun e => (e.1, virtualEntry root e))
  else throw ⟨.sourceChanged, "SOURCE_CHANGED: workspace mutated during capture"⟩

end Capture

/-! ## Normal paths -/

/-- A name that a recorded path consists of. -/
structure Part (s : String) : Prop where
  nonempty : s ≠ ""
  notDot : s ≠ "."
  notDotDot : s ≠ ".."
  slash : '/' ∉ s.toList

variable {parts : List String}

/-- The names of a path that only goes down are segments of its text. -/
theorem walk_parts {text : String} (h : walk (components text) = .ok parts) :
    ∀ s ∈ parts, Part s ∧ ∀ c ∈ s.toList, c ∈ text.toList := by
  have hwalk : ∀ {comps : List Component} {parts : List String}, walk comps = .ok parts →
      ∀ s ∈ parts, .normal s ∈ comps := by
    intro comps
    induction comps with
    | nil =>
      intro parts h s hs
      rw [← Except.ok.inj h] at hs
      cases hs
    | cons comp rest ih =>
      intro parts h s hs
      cases comp with
      | rootDir => cases h
      | parentDir => cases h
      | curDir => exact List.mem_cons_of_mem _ (ih h s hs)
      | normal name =>
        rw [walk] at h
        cases hrest : walk rest with
        | error e => rw [hrest] at h; cases h
        | ok names =>
          rw [hrest] at h
          rw [← Except.ok.inj h] at hs
          rcases List.mem_cons.mp hs with rfl | htail
          · exact List.mem_cons_self
          · exact List.mem_cons_of_mem _ (ih hrest s htail)
  intro s hs
  have hmem : .normal s ∈ (text.toList.splitOn '/').filterMap segmentComponent := by
    rcases List.mem_append.mp (hwalk h s hs) with hfront | hseg
    · split_ifs at hfront <;> simp at hfront
    · exact hseg
  obtain ⟨seg, hseg, hcomp⟩ := List.mem_filterMap.mp hmem
  unfold segmentComponent at hcomp
  split_ifs at hcomp with hskip hparent
  · cases hcomp
  rw [not_or] at hskip
  obtain rfl : String.ofList seg = s := Component.normal.inj (Option.some.inj hcomp)
  have hof : ∀ cs : List Char, String.ofList seg = String.ofList cs → seg = cs :=
    fun cs => String.ofList_inj.mp
  rw [String.toList_ofList]
  refine ⟨⟨fun h => hskip.1 (hof [] h), fun h => hskip.2 (hof ['.'] h),
    fun h => hparent (hof ['.', '.'] h), ?_⟩, fun c hc => (mem_of_mem_splitOn hseg hc).1⟩
  rw [String.toList_ofList]
  exact fun hslash => (mem_of_mem_splitOn hseg hslash).2 rfl

/-- A recorded path consists of proper names without backslashes. -/
theorem normalizeRel_parts {text rel : String} (h : normalizeRel text = .ok rel) :
    ∃ parts, parts ≠ [] ∧ rel = "/".intercalate parts ∧
      ∀ s ∈ parts, Part s ∧ '\\' ∉ s.toList := by
  unfold normalizeRel at h
  dsimp only at h
  split at h
  · cases h
  · cases h
  · rename_i parts _ hwalk
    split_ifs at h with hempty
    refine ⟨parts, hempty, (Except.ok.inj h).symm, fun s hs => ?_⟩
    obtain ⟨hpart, hchars⟩ := walk_parts hwalk s hs
    refine ⟨hpart, fun hback => ?_⟩
    have hforward := hchars _ hback
    rw [forwardSlashes, String.toList_ofList, List.mem_map] at hforward
    obtain ⟨c, -, hc⟩ := hforward
    split_ifs at hc with hslash
    · exact absurd hc (by decide)
    · exact hslash hc

section Parts

variable {parts : List String}

theorem segmentComponent_part {s : String} (h : Part s) :
    segmentComponent s.toList = some (.normal s) := by
  have hne : ∀ {cs : List Char}, s ≠ String.ofList cs → s.toList ≠ cs := by
    rintro cs hcs rfl
    exact hcs String.ofList_toList.symm
  have hskip : ¬ (s.toList = [] ∨ s.toList = ['.']) := not_or.mpr ⟨hne h.nonempty, hne h.notDot⟩
  rw [segmentComponent, if_neg hskip, if_neg (hne h.notDotDot), String.ofList_toList]

/-- A joined path does not start with a slash. -/
theorem head_join (hne : parts ≠ []) (h : ∀ s ∈ parts, Part s) :
    ("/".intercalate parts).toList.head? ≠ some '/' := by
  intro hhead
  have hsplit := splitOn_join hne fun s hs => (h s hs).slash
  obtain ⟨rest, hrest⟩ := List.head?_eq_some_iff.mp hhead
  obtain ⟨first, others, rfl⟩ := List.exists_cons_of_ne_nil hne
  rw [hrest, List.splitOn_cons_eq_if_modifyHead, if_pos (beq_self_eq_true '/'), List.map_cons]
    at hsplit
  exact (h first List.mem_cons_self).nonempty (String.toList_inj.mp (List.cons.inj hsplit).1.symm)

theorem components_join (hne : parts ≠ []) (h : ∀ s ∈ parts, Part s) :
    components ("/".intercalate parts) = parts.map .normal := by
  have hsplit := splitOn_join hne fun s hs => (h s hs).slash
  have hdot : (parts.map String.toList).head? ≠ some ['.'] := by
    obtain ⟨first, rest, rfl⟩ := List.exists_cons_of_ne_nil hne
    intro hhead
    have hfirst : first.toList = ['.'] := Option.some.inj hhead
    exact (h first List.mem_cons_self).notDot (String.toList_inj.mp hfirst)
  unfold components
  rw [if_neg (head_join hne h), hsplit, if_neg hdot, List.nil_append, List.filterMap_map]
  have hcongr : parts.filterMap (segmentComponent ∘ String.toList) =
      parts.filterMap (some ∘ Component.normal) :=
    List.filterMap_congr fun s hs => segmentComponent_part (h s hs)
  rw [hcongr, List.filterMap_eq_map]

theorem walk_normal (parts : List String) : walk (parts.map .normal) = .ok parts := by
  induction parts with
  | nil => rfl
  | cons s rest ih =>
    rw [List.map_cons, walk, ih]
    rfl

theorem forwardSlashes_join (hback : ∀ s ∈ parts, '\\' ∉ s.toList) :
    forwardSlashes ("/".intercalate parts) = "/".intercalate parts := by
  have hid : (("/".intercalate parts).toList.map fun c => if c = '\\' then '/' else c) =
      ("/".intercalate parts).toList.map id := by
    refine List.map_congr_left fun c hc => if_neg ?_
    rintro rfl
    rcases mem_join hc with hslash | ⟨s, hs, hmem⟩
    · exact absurd hslash (by decide)
    · exact hback s hs hmem
  rw [forwardSlashes, hid, List.map_id, String.ofList_toList]

/-- A path of proper names without backslashes is recorded as it is. -/
theorem normalizeRel_join (hne : parts ≠ []) (h : ∀ s ∈ parts, Part s)
    (hback : ∀ s ∈ parts, '\\' ∉ s.toList) :
    normalizeRel ("/".intercalate parts) = .ok ("/".intercalate parts) := by
  have hempty : "/".intercalate parts ≠ "" := by
    intro hnil
    have hsplit := splitOn_join hne fun s hs => (h s hs).slash
    have hnone : "".toList.splitOn '/' = [[]] := by simp [List.splitOn]
    rw [hnil, hnone] at hsplit
    obtain ⟨first, rest, rfl⟩ := List.exists_cons_of_ne_nil hne
    exact (h first List.mem_cons_self).nonempty (String.toList_inj.mp (List.cons.inj hsplit).1.symm)
  have hsensitive : ∃ reason, isSensitiveRelativePath ("/".intercalate parts) = .ok reason := by
    unfold isSensitiveRelativePath
    rw [if_neg hempty, if_neg (head_join hne h), components_join hne h, walk_normal]
    exact ⟨_, if_neg hne⟩
  obtain ⟨reason, hreason⟩ := hsensitive
  unfold normalizeRel
  simp only [forwardSlashes_join hback, hreason, components_join hne h, walk_normal, hne, if_false]

/-- The components that are opened are the names of the path. -/
theorem relComponents_join (hne : parts ≠ []) (h : ∀ s ∈ parts, Part s) {names : List String}
    (hok : relComponents ("/".intercalate parts) = .ok names) : names = parts := by
  have hnames : (("/".intercalate parts).toList.splitOn '/').map String.ofList = parts := by
    rw [splitOn_join hne fun s hs => (h s hs).slash, List.map_map]
    exact (List.map_congr_left fun s _ => String.ofList_toList).trans (List.map_id parts)
  have hkept : parts.filter (fun part => part != "" && part != ".") = parts := by
    refine List.filter_eq_self.mpr fun s hs => ?_
    rw [Bool.and_eq_true, bne_iff_ne, bne_iff_ne]
    exact ⟨(h s hs).nonempty, (h s hs).notDot⟩
  unfold relComponents at hok
  simp only [hnames, hkept] at hok
  split_ifs at hok
  exact (Except.ok.inj hok).symm

end Parts

theorem FileName.Legal.part {s : String} (h : (FileName.text s).Legal) : Part s :=
  ⟨h.1, h.2.1, h.2.2.1, h.2.2.2.1⟩

/-! ## What is opened -/

variable {entries : Entries} {node : Node}

theorem mem_of_lookupName {name : FileName} (h : lookupName name entries = some node) :
    (name, node) ∈ entries := by
  induction entries with
  | nil => cases h
  | cons e rest ih =>
    rw [lookupName] at h
    split_ifs at h with hname
    · obtain rfl := Option.some.inj h
      rw [← hname]
      exact List.mem_cons_self
    · exact List.mem_cons_of_mem _ (ih h)

theorem lookupName_of_mem {name : FileName} (hnodup : (entries.map Prod.fst).Nodup)
    (h : (name, node) ∈ entries) : lookupName name entries = some node := by
  induction entries with
  | nil => cases h
  | cons e rest ih =>
    rw [List.map_cons, List.nodup_cons] at hnodup
    rcases List.mem_cons.mp h with rfl | hrest
    · rw [lookupName, if_pos rfl]
    · have hne : e.1 ≠ name := fun heq => hnodup.1 (heq ▸ List.mem_map_of_mem hrest)
      rw [lookupName, if_neg hne, ih hnodup.2 hrest]

/-- What is opened is at the path. -/
theorem at_of_openBeneath : ∀ {entries : Entries} {node : Node},
    openBeneath entries parts = .ok node → At entries (parts.map .text) node := by
  induction parts with
  | nil => exact fun h => by cases h
  | cons name rest ih =>
    intro entries node h
    rw [openBeneath] at h
    cases hlookup : lookupName (.text name) entries with
    | none =>
      rw [hlookup] at h
      cases h
    | some found =>
      have hmem := mem_of_lookupName hlookup
      rw [hlookup] at h
      cases found with
      | symlink => cases h
      | denied message => cases h
      | file data =>
        dsimp only at h
        split_ifs at h with hrest
        obtain rfl := Except.ok.inj h
        rw [hrest]
        exact .entry hmem
      | special =>
        dsimp only at h
        split_ifs at h with hrest
        obtain rfl := Except.ok.inj h
        rw [hrest]
        exact .entry hmem
      | dir sub =>
        dsimp only at h
        split_ifs at h with hrest
        · obtain rfl := Except.ok.inj h
          rw [hrest]
          exact .entry hmem
        · exact .inside hmem (ih h)

/-- A file is opened at its path. -/
theorem openBeneath_of_at {data : FileData} : ∀ {entries : Entries},
    LegalDir entries → (∀ {path sub}, At entries path (.dir sub) → LegalDir sub) →
      At entries (parts.map .text) (.file data) → openBeneath entries parts = .ok (.file data) := by
  induction parts with
  | nil => exact fun _ _ h => by cases h
  | cons name rest ih =>
    intro entries hlegal hdirs h
    rw [List.map_cons] at h
    generalize hpath : FileName.text name :: rest.map FileName.text = path at h
    cases h with
    | entry hmem =>
      obtain ⟨rfl, hrest⟩ := List.cons.inj hpath
      rw [openBeneath, lookupName_of_mem hlegal.names hmem]
      exact if_pos (List.map_eq_nil_iff.mp hrest)
    | inside hmem hsub =>
      obtain ⟨rfl, rfl⟩ := List.cons.inj hpath
      have hne : rest ≠ [] := by
        rintro rfl
        cases hsub
      rw [openBeneath, lookupName_of_mem hlegal.names hmem]
      refine (if_neg hne).trans ?_
      exact ih (hdirs (.entry hmem)) (fun hbelow => hdirs (.inside hmem hbelow)) hsub

theorem readRegularBeneath_join [Blake3] {root : Entries} (hne : parts ≠ [])
    (h : ∀ s ∈ parts, Part s) {blob : CapturedBlob}
    (hread : readRegularBeneath root ("/".intercalate parts) = .ok blob) :
    ∃ data, openBeneath root parts = .ok (.file data) ∧ blob = captured data := by
  obtain ⟨names, hnames, hopen⟩ := except_bind_eq_ok.mp hread
  obtain rfl := relComponents_join hne h hnames
  split at hopen
  · cases hopen
  · rename_i data hdata
    exact ⟨data, hdata, (Except.ok.inj hopen).symm⟩
  · cases hopen

/-! ## What a scan records -/

section Records

variable [LossyText] [Blake3] (root : Entries) (plan : CapturePlan)

/-- Everything that is recorded was read under the path of some included file. -/
def Sound (out : OrdMap String CapturedBlob) : Prop :=
  ∀ rel blob, out.get rel = some blob → readRegularBeneath root rel = .ok blob ∧
    plan.isMatch rel = true ∧ ∃ path data, At root path (.file data) ∧ relOf path = .ok rel

/-- A file has been seen. -/
def Recorded (out : OrdMap String CapturedBlob) (path : List FileName) : Prop :=
  ∃ rel, relOf path = .ok rel ∧ (plan.isMatch rel = true → ∃ blob, out.get rel = some blob)

/-- Nothing that is recorded gets lost. -/
def Grows (out out' : OrdMap String CapturedBlob) : Prop :=
  ∀ rel blob, out.get rel = some blob → ∃ blob', out'.get rel = some blob'

/-- How many directories there are on the stack and below it. -/
def stackDirs (stack : Stack) : Nat := (stack.map fun d => dirsOf d.2 + 1).sum

/-- What reading one directory does. -/
structure Scanned (dir : List FileName) (entries : Entries) (stack : Stack)
    (out : OrdMap String CapturedBlob) (stack' : Stack) (out' : OrdMap String CapturedBlob) :
    Prop where
  kept : ∀ d ∈ stack, d ∈ stack'
  pushed : ∀ name sub, (name, .dir sub) ∈ entries → (dir ++ [name], sub) ∈ stack'
  origin : ∀ d ∈ stack', d ∈ stack ∨ ∃ name, (name, .dir d.2) ∈ entries ∧ d.1 = dir ++ [name]
  dirs : stackDirs stack' = stackDirs stack + dirsOf entries
  grows : Grows out out'
  recorded : ∀ name data, (name, .file data) ∈ entries → Recorded plan out' (dir ++ [name])
  sound : Sound root plan out →
    (∀ name data, (name, .file data) ∈ entries → At root (dir ++ [name]) (.file data)) →
      Sound root plan out'

variable {root plan}

omit [LossyText] [Blake3] in
theorem Grows.trans {a b c : OrdMap String CapturedBlob} (hab : Grows a b) (hbc : Grows b c) :
    Grows a c := by
  intro rel blob h
  obtain ⟨blob', h'⟩ := hab rel blob h
  exact hbc rel blob' h'

omit [LossyText] [Blake3] in
theorem grows_insert (out : OrdMap String CapturedBlob) (rel : String) (blob : CapturedBlob) :
    Grows out (out.insert rel blob) := by
  intro rel' blob' h
  rw [OrdMap.get_insert]
  split_ifs
  · exact ⟨blob, rfl⟩
  · exact ⟨blob', h⟩

variable {out : OrdMap String CapturedBlob}

omit [Blake3] in
theorem Recorded.grows {out' : OrdMap String CapturedBlob} {path : List FileName}
    (h : Recorded plan out path) (hgrows : Grows out out') : Recorded plan out' path := by
  obtain ⟨rel, hrel, hrecorded⟩ := h
  refine ⟨rel, hrel, fun hmatch => ?_⟩
  obtain ⟨blob, hblob⟩ := hrecorded hmatch
  exact hgrows rel blob hblob

/-- Recording one file keeps everything else. -/
theorem Sound.insert (h : Sound root plan out) {rel : String} {blob : CapturedBlob}
    (hread : readRegularBeneath root rel = .ok blob) (hmatch : plan.isMatch rel = true)
    {path : List FileName} {data : FileData} (hfile : At root path (.file data))
    (hrel : relOf path = .ok rel) : Sound root plan (out.insert rel blob) := by
  intro rel' blob' hget
  rw [OrdMap.get_insert] at hget
  split_ifs at hget with heq
  · obtain rfl := Option.some.inj hget
    rw [heq]
    exact ⟨hread, hmatch, path, data, hfile, hrel⟩
  · exact h rel' blob' hget

theorem scanEntries_spec {dir : List FileName} {entries : Entries} :
    ∀ {stack stack' : Stack} {out out' : OrdMap String CapturedBlob},
      scanEntries root plan dir entries stack out = .ok (stack', out') →
      Scanned root plan dir entries stack out stack' out' := by
  induction entries with
  | nil =>
    intro stack stack' out out' h
    obtain ⟨rfl, rfl⟩ := Prod.mk.inj (Except.ok.inj h)
    exact ⟨fun _ h => h, fun _ _ h => absurd h List.not_mem_nil, fun _ h => .inl h, rfl,
      fun _ blob h => ⟨blob, h⟩, fun _ _ h => absurd h List.not_mem_nil, fun h _ => h⟩
  | cons e rest ih =>
    obtain ⟨name, node⟩ := e
    intro stack stack' out out' h
    cases node with
    | denied message => cases h
    | symlink => cases h
    | special => cases h
    | dir sub =>
      have hrest := @ih ((dir ++ [name], sub) :: stack) stack' out out' h
      refine ⟨fun d hd => hrest.kept d (List.mem_cons_of_mem _ hd), fun name' sub' hmem => ?_,
        fun d hd => ?_, ?_, hrest.grows, fun name' data hmem => ?_, fun hsound hat => ?_⟩
      · rcases List.mem_cons.mp hmem with heq | hmem
        · obtain ⟨rfl, hnode⟩ := Prod.mk.inj heq
          obtain rfl := Node.dir.inj hnode
          exact hrest.kept _ List.mem_cons_self
        · exact hrest.pushed name' sub' hmem
      · rcases hrest.origin d hd with hstack | ⟨name', hmem, hdir⟩
        · rcases List.mem_cons.mp hstack with rfl | hstack
          · exact .inr ⟨name, List.mem_cons_self, rfl⟩
          · exact .inl hstack
        · exact .inr ⟨name', List.mem_cons_of_mem _ hmem, hdir⟩
      · rw [hrest.dirs, stackDirs, stackDirs, List.map_cons, List.sum_cons, dirsOf, Node.dirs]
        dsimp only
        omega
      · rcases List.mem_cons.mp hmem with heq | hmem
        · cases (Prod.mk.inj heq).2
        · exact hrest.recorded name' data hmem
      · exact hrest.sound hsound fun name' data hmem =>
          hat name' data (List.mem_cons_of_mem _ hmem)
    | file data =>
      obtain ⟨rel, hrel, h⟩ := except_bind_eq_ok.mp h
      -- The file has been seen, and the rest of the directory follows.
      obtain ⟨out₁, hgrows, hseen, hkeeps, hrest⟩ : ∃ out₁, Grows out out₁ ∧
          Recorded plan out₁ (dir ++ [name]) ∧
          (Sound root plan out → At root (dir ++ [name]) (.file data) → Sound root plan out₁) ∧
          scanEntries root plan dir rest stack out₁ = .ok (stack', out') := by
        split_ifs at h with hmatch
        · obtain ⟨_, -, h⟩ := except_bind_eq_ok.mp h
          obtain ⟨blob, hblob, h⟩ := except_bind_eq_ok.mp h
          refine ⟨out.insert rel blob, grows_insert out rel blob,
            ⟨rel, hrel, fun _ => ⟨blob, OrdMap.get_insert_self _ _ _⟩⟩, fun hsound hat => ?_, h⟩
          exact hsound.insert hblob hmatch hat hrel
        · exact ⟨out, fun _ blob h => ⟨blob, h⟩, ⟨rel, hrel, fun h => absurd h hmatch⟩,
            fun hsound _ => hsound, h⟩
      have hspec := ih hrest
      refine ⟨hspec.kept, fun name' sub' hmem => ?_, fun d hd => ?_, ?_,
        hgrows.trans hspec.grows, fun name' data' hmem => ?_, fun hsound hat => ?_⟩
      · rcases List.mem_cons.mp hmem with heq | hmem
        · cases (Prod.mk.inj heq).2
        · exact hspec.pushed name' sub' hmem
      · exact (hspec.origin d hd).imp_right fun ⟨name', hmem, hdir⟩ =>
          ⟨name', List.mem_cons_of_mem _ hmem, hdir⟩
      · rw [hspec.dirs, dirsOf, Node.dirs, Nat.zero_add]
      · rcases List.mem_cons.mp hmem with heq | hmem
        · rw [(Prod.mk.inj heq).1]
          exact hseen.grows hspec.grows
        · exact hspec.recorded name' data' hmem
      · exact hspec.sound (hkeeps hsound (hat name data List.mem_cons_self))
          fun name' data' hmem => hat name' data' (List.mem_cons_of_mem _ hmem)

/-- The loop sees every file below the directories on its stack. -/
theorem scanLoop_spec (fuel : Nat) : ∀ {stack : Stack} {out out' : OrdMap String CapturedBlob},
    stackDirs stack ≤ fuel →
      (∀ d ∈ stack, ∀ path node, At d.2 path node → At root (d.1 ++ path) node) →
      Sound root plan out → scanLoop root plan fuel stack out = .ok out' →
      Sound root plan out' ∧ Grows out out' ∧
        ∀ d ∈ stack, ∀ path data, At d.2 path (.file data) → Recorded plan out' (d.1 ++ path) := by
  induction fuel with
  | zero =>
    intro stack out out' hfuel hstack hsound h
    obtain rfl := Except.ok.inj h
    refine ⟨hsound, fun _ blob h => ⟨blob, h⟩, fun d hd => ?_⟩
    -- There is nothing on the stack.
    obtain ⟨first, rest, rfl⟩ := List.exists_cons_of_ne_nil (List.ne_nil_of_mem hd)
    rw [stackDirs, List.map_cons, List.sum_cons] at hfuel
    omega
  | succ fuel ih =>
    intro stack out out' hfuel hstack hsound h
    cases stack with
    | nil =>
      obtain rfl := Except.ok.inj h
      exact ⟨hsound, fun _ blob h => ⟨blob, h⟩, fun d hd => by cases hd⟩
    | cons top rest =>
      obtain ⟨dir, entries⟩ := top
      rw [scanLoop] at h
      cases hscan : scanEntries root plan dir entries rest out with
      | error e =>
        rw [hscan] at h
        cases h
      | ok next =>
        obtain ⟨stack₁, out₁⟩ := next
        rw [hscan] at h
        have hspec := scanEntries_spec hscan
        have htop := hstack (dir, entries) List.mem_cons_self
        have hdirs : stackDirs stack₁ ≤ fuel := by
          rw [stackDirs, List.map_cons, List.sum_cons, ← stackDirs] at hfuel
          dsimp only at hfuel
          rw [hspec.dirs]
          omega
        have hstack₁ : ∀ d ∈ stack₁, ∀ path node, At d.2 path node →
            At root (d.1 ++ path) node := by
          intro d hd path node hat
          rcases hspec.origin d hd with hold | ⟨name, hmem, hdir⟩
          · exact hstack d (List.mem_cons_of_mem _ hold) path node hat
          · rw [hdir, List.append_assoc]
            exact htop _ node (.inside hmem hat)
        have hsound₁ := hspec.sound hsound fun name data hmem => htop _ _ (.entry hmem)
        obtain ⟨hsound', hgrows, hrecorded⟩ := ih hdirs hstack₁ hsound₁ h
        refine ⟨hsound', hspec.grows.trans hgrows, fun d hd path data hat => ?_⟩
        rcases List.mem_cons.mp hd with rfl | hold
        · cases hat with
          | entry hmem => exact (hspec.recorded _ data hmem).grows hgrows
          | inside hmem hsub =>
            have hbelow := hrecorded _ (hspec.pushed _ _ hmem) _ data hsub
            rwa [List.append_assoc] at hbelow
        · exact hrecorded d (hspec.kept d hold) path data hat

/-- A scan reads what it records, and sees every file. -/
theorem scanOnce_spec (h : scanOnce root plan = .ok out) :
    Sound root plan out ∧ ∀ path data, At root path (.file data) → Recorded plan out path := by
  obtain ⟨hsound, -, hrecorded⟩ := scanLoop_spec (dirsOf root + 1)
    (by simp [stackDirs]) (fun d hd path node hat => by
      rw [List.mem_singleton.mp hd]
      rw [List.mem_singleton.mp hd] at hat
      exact hat) (fun _ _ h => by cases h) h
  exact ⟨hsound, fun path data hat => hrecorded _ List.mem_cons_self path data hat⟩

end Records

/-! ## Exact captures -/

/-- The path of a file as a text, which a file has that all names on its way are texts. -/
def OwnPath (path : List FileName) (rel : String) : Prop :=
  ∃ parts : List String, path = parts.map .text ∧ rel = "/".intercalate parts

/-- A file whose names are texts without backslashes. -/
def PlainPath (path : List FileName) : Prop :=
  ∃ parts : List String, path = parts.map .text ∧ ∀ s ∈ parts, '\\' ∉ s.toList

/-- An entry has the content of a file. -/
structure Carries (e : VirtualEntry) (rel : String) (data : FileData) : Prop where
  path : e.relativePath = rel
  bytes : e.bytes = data.bytes
  executable : e.executable = data.executable

/-- The entries are the included files, each under its own path. -/
structure Exact [LossyText] (tree : FileTree) (plan : CapturePlan)
    (entries : OrdMap String VirtualEntry) : Prop where
  complete : ∀ path data, At tree.entries path (.file data) → plan.isMatch (shown path) = true →
    ∃ rel e, OwnPath path rel ∧ entries.get rel = some e ∧ Carries e rel data
  sound : ∀ rel e, entries.get rel = some e → ∃ path data, At tree.entries path (.file data) ∧
    plan.isMatch (shown path) = true ∧ OwnPath path rel ∧ Carries e rel data
  apart : ∀ path path' data data' rel, At tree.entries path (.file data) →
    At tree.entries path' (.file data') → OwnPath path rel → OwnPath path' rel → path = path'

theorem At.ne_nil {path : List FileName} (h : At entries path node) : path ≠ [] := by
  cases h <;> exact List.cons_ne_nil _ _

/-- The names on the way to a node are legal. -/
theorem At.legal {path : List FileName} : ∀ {entries : Entries},
    LegalDir entries → (∀ {path sub}, At entries path (.dir sub) → LegalDir sub) →
      At entries path node → ∀ name ∈ path, name.Legal := by
  induction path with
  | nil => exact fun _ _ h => absurd rfl h.ne_nil
  | cons first rest ih =>
    intro entries hlegal hdirs h name hname
    cases h with
    | entry hmem =>
      rw [List.mem_singleton.mp hname]
      exact hlegal.legal _ hmem
    | inside hmem hsub =>
      rcases List.mem_cons.mp hname with rfl | hrest
      · exact hlegal.legal _ hmem
      · exact ih (hdirs (.entry hmem)) (fun hbelow => hdirs (.inside hmem hbelow)) hsub name hrest

theorem shown_text [LossyText] (parts : List String) :
    shown (parts.map .text) = "/".intercalate parts := by
  rw [shown, List.map_map]
  congr 1
  exact List.map_id parts

section Exactness

variable [LossyText] [Blake3] {tree : FileTree} {plan : CapturePlan}

omit [LossyText] [Blake3] in
theorem FileTree.legal_parts {parts : List String} {node : Node}
    (h : At tree.entries (parts.map .text) node) :
    parts ≠ [] ∧ ∀ s ∈ parts, Part s := by
  refine ⟨fun hnil => h.ne_nil (by rw [hnil, List.map_nil]), fun s hs => ?_⟩
  exact (h.legal tree.root tree.dirs (.text s) (List.mem_map_of_mem hs)).part

/-- A capture records what two equal scans record. -/
theorem captureWorkspace_eq_ok {root : Except String String} {entries : OrdMap String VirtualEntry}
    (h : captureWorkspace root tree plan = .ok entries) :
    ∃ out rootText, scanOnce tree.entries plan = .ok out ∧
      ∀ rel e, entries.get rel = some e ↔
        ∃ blob, out.get rel = some blob ∧ e = virtualEntry rootText (rel, blob) := by
  obtain ⟨rootText, -, h⟩ := except_bind_eq_ok.mp h
  obtain ⟨first, -, h⟩ := except_bind_eq_ok.mp h
  obtain ⟨out, hscan, h⟩ := except_bind_eq_ok.mp h
  split_ifs at h
  obtain rfl := Except.ok.inj h
  refine ⟨out, rootText, hscan, fun rel e => ?_⟩
  have hkeys : ((out.entries.map fun e => (e.1, virtualEntry rootText e)).map Prod.fst).Nodup := by
    rw [List.map_map]
    exact out.keys_nodup
  rw [OrdMap.get_ofList hkeys]
  constructor
  · intro hget
    obtain ⟨⟨k, blob⟩, hmem, heq⟩ := List.mem_map.mp (OrdMap.mem_of_lookup hget)
    obtain ⟨rfl, rfl⟩ := Prod.mk.inj heq
    exact ⟨blob, OrdMap.mem_entries_iff.mp hmem, rfl⟩
  · rintro ⟨blob, hget, rfl⟩
    exact OrdMap.lookup_of_mem_of_nodup hkeys
      (List.mem_map.mpr ⟨(rel, blob), OrdMap.mem_entries_iff.mpr hget, rfl⟩)

/-- Whatever is recorded is an included file under its own path. -/
theorem exists_file_of_recorded {out : OrdMap String CapturedBlob}
    (hsound : Sound tree.entries plan out) {rel : String} {blob : CapturedBlob}
    (hget : out.get rel = some blob) :
    ∃ parts data, parts ≠ [] ∧ rel = "/".intercalate parts ∧ (∀ s ∈ parts, '\\' ∉ s.toList) ∧
      At tree.entries (parts.map .text) (.file data) ∧
      plan.isMatch (shown (parts.map .text)) = true ∧ blob = captured data := by
  obtain ⟨hread, hmatch, path, -, -, hrel⟩ := hsound rel blob hget
  obtain ⟨parts, hne, rfl, hparts⟩ := normalizeRel_parts hrel
  obtain ⟨data, hopen, rfl⟩ := readRegularBeneath_join hne (fun s hs => (hparts s hs).1) hread
  refine ⟨parts, data, hne, rfl, fun s hs => (hparts s hs).2, at_of_openBeneath hopen, ?_, rfl⟩
  rw [shown_text]
  exact hmatch

/-- A capture is exact when and only when no included file has a backslash or bytes that
are no text on its path. -/
theorem capture_exact_iff (root : Except String String) (tree : FileTree) (plan : CapturePlan)
    (entries : OrdMap String VirtualEntry) (h : captureWorkspace root tree plan = .ok entries) :
    Exact tree plan entries ↔
      ∀ path data, At tree.entries path (.file data) → plan.isMatch (shown path) = true →
        PlainPath path := by
  obtain ⟨out, rootText, hscan, hentries⟩ := captureWorkspace_eq_ok h
  obtain ⟨hsound, hrecorded⟩ := scanOnce_spec hscan
  constructor
  · intro hexact path data hfile hmatch
    obtain ⟨rel, e, ⟨parts, rfl, hrel⟩, hget, -⟩ := hexact.complete path data hfile hmatch
    obtain ⟨blob, hblob, -⟩ := (hentries rel e).mp hget
    obtain ⟨parts', data', hne', hrel', hback, hfile', -, -⟩ := exists_file_of_recorded hsound hblob
    obtain ⟨hne, hparts⟩ := FileTree.legal_parts hfile
    obtain ⟨-, hparts'⟩ := FileTree.legal_parts hfile'
    obtain rfl := join_injective hne hne' (fun s hs => (hparts s hs).slash)
      (fun s hs => (hparts' s hs).slash) (hrel.symm.trans hrel')
    exact ⟨parts, rfl, hback⟩
  · intro hplain
    refine ⟨fun path data hfile hmatch => ?_, fun rel e hget => ?_,
      fun path path' data data' rel hfile hfile' hown hown' => ?_⟩
    · obtain ⟨parts, rfl, hback⟩ := hplain path data hfile hmatch
      obtain ⟨hne, hparts⟩ := FileTree.legal_parts hfile
      rw [shown_text] at hmatch
      obtain ⟨rel, hrel, hblob⟩ := hrecorded _ data hfile
      rw [relOf, displayRel, shown_text, forwardSlashes_join hback,
        normalizeRel_join hne hparts hback] at hrel
      obtain rfl := Except.ok.inj hrel
      obtain ⟨blob, hget⟩ := hblob hmatch
      obtain ⟨data', hopen, rfl⟩ := readRegularBeneath_join hne hparts (hsound _ blob hget).1
      -- There is one node at a path.
      rw [openBeneath_of_at tree.root tree.dirs hfile] at hopen
      obtain rfl := Node.file.inj (Except.ok.inj hopen)
      exact ⟨_, _, ⟨parts, rfl, rfl⟩, (hentries _ _).mpr ⟨_, hget, rfl⟩, ⟨rfl, rfl, rfl⟩⟩
    · obtain ⟨blob, hblob, rfl⟩ := (hentries rel e).mp hget
      obtain ⟨parts, data, -, rfl, -, hfile, hmatch, rfl⟩ := exists_file_of_recorded hsound hblob
      exact ⟨parts.map .text, data, hfile, hmatch, ⟨parts, rfl, rfl⟩, ⟨rfl, rfl, rfl⟩⟩
    · obtain ⟨parts, rfl, rfl⟩ := hown
      obtain ⟨parts', rfl, heq⟩ := hown'
      obtain ⟨hne, hparts⟩ := FileTree.legal_parts hfile
      obtain ⟨hne', hparts'⟩ := FileTree.legal_parts hfile'
      rw [join_injective hne hne' (fun s hs => (hparts s hs).slash)
        (fun s hs => (hparts' s hs).slash) heq]

end Exactness

/-! ### A backslash in a name -/

namespace Sample

/-- Every shown replacement is the replacement character. -/
@[reducible] def lossyText : LossyText := ⟨fun _ => "\uFFFD"⟩

/-- Everything is included. -/
def everything : CapturePlan := ⟨false, fun _ => true, fun _ => false⟩

def fileOf (byte : UInt8) : Node := .file ⟨[byte], false, none⟩

variable {s : String}

theorem legal_text (h : s ≠ "" ∧ s ≠ "." ∧ s ≠ ".." ∧ '/' ∉ s.toList ∧ '\x00' ∉ s.toList) :
    (FileName.text s).Legal := h

/-- A directory of one file. -/
theorem legalDir_file (h : (FileName.text s).Legal) (byte : UInt8) :
    LegalDir [(.text s, fileOf byte)] := by
  refine ⟨List.nodup_singleton _, fun e he => ?_⟩
  rw [List.mem_singleton.mp he]
  exact h

/-- A directory of one file has no directory below it. -/
theorem no_dir_below {byte : UInt8} {path : List FileName} {sub : Entries}
    (h : At [(.text s, fileOf byte)] path (.dir sub)) : False := by
  cases h with
  | entry hmem => cases (Prod.mk.inj (List.mem_singleton.mp hmem)).2
  | inside hmem _ => cases (Prod.mk.inj (List.mem_singleton.mp hmem)).2

/-- A directory with a file, and a file beside the directory. -/
def besideDir (name : String) : Entries :=
  [(.text "a", .dir [(.text "b", fileOf 1)]), (.text name, fileOf 2)]

theorem mem_besideDir {name : FileName} {node : Node} (h : (name, node) ∈ besideDir s) :
    name = .text "a" ∧ node = .dir [(.text "b", fileOf 1)] ∨ name = .text s ∧ node = fileOf 2 := by
  simpa [besideDir] using h

def twoFiles (name : String) (hlegal : (FileName.text name).Legal) (hne : name ≠ "a") :
    FileTree where
  entries := besideDir name
  root := by
    refine ⟨by simpa [besideDir] using hne.symm, List.forall_mem_cons.mpr ⟨legal_text ?_, ?_⟩⟩
    · decide +kernel
    · exact (legalDir_file hlegal 2).legal
  dirs := by
    intro path sub h
    cases h with
    | entry hmem =>
      rcases mem_besideDir hmem with ⟨-, hdir⟩ | ⟨-, hfile⟩
      · rw [Node.dir.inj hdir]
        exact legalDir_file (legal_text (by decide +kernel)) 1
      · cases hfile
    | inside hmem hbelow =>
      rcases mem_besideDir hmem with ⟨-, hdir⟩ | ⟨-, hfile⟩
      · rw [Node.dir.inj hdir] at hbelow
        exact (no_dir_below hbelow).elim
      · cases hfile

/-- A program and a file in a directory. -/
def program : FileTree := twoFiles "run" (legal_text (by decide +kernel)) (by decide)

/-- A file whose one name reads like the path of the other. -/
def lookalikes : FileTree := twoFiles "a\\b" (legal_text (by decide +kernel)) (by decide)

end Sample

/-- What a capture records, from its evaluation. -/
theorem exists_of_evaluated {result : Except CaptureError (OrdMap String VirtualEntry)}
    {files : List (String × List UInt8)}
    (h : (result.toOption.map fun entries => entries.entries.map fun e => (e.1, e.2.bytes)) =
      some files) :
    ∃ entries, result = .ok entries ∧ (entries.entries.map fun e => (e.1, e.2.bytes)) = files := by
  cases result with
  | error e => cases h
  | ok entries => exact ⟨entries, rfl, Option.some.inj h⟩

theorem capture_exact_program :
    ∃ entries, @captureWorkspace Sample.lossyText Blake3.knownAnswers (.ok "/src") Sample.program
        Sample.everything = .ok entries ∧
      entries.entries.map (fun e => (e.1, e.2.bytes)) = [("a/b", [1]), ("run", [2])] ∧
      @Exact Sample.lossyText Sample.program Sample.everything entries := by
  let _ := Sample.lossyText
  let _ := Blake3.knownAnswers
  have hevaluated : ((captureWorkspace (.ok "/src") Sample.program Sample.everything).toOption.map
      fun entries => entries.entries.map fun e => (e.1, e.2.bytes)) =
        some [("a/b", [1]), ("run", [2])] := by
    decide +kernel
  obtain ⟨entries, hcapture, hfiles⟩ := exists_of_evaluated hevaluated
  refine ⟨entries, hcapture, hfiles,
    (capture_exact_iff (.ok "/src") Sample.program Sample.everything entries hcapture).mpr ?_⟩
  intro path data h _
  cases h with
  | entry hmem =>
    rcases Sample.mem_besideDir hmem with ⟨-, hdir⟩ | ⟨rfl, -⟩
    · cases hdir
    · exact ⟨["run"], rfl, by decide +kernel⟩
  | inside hmem hbelow =>
    rcases Sample.mem_besideDir hmem with ⟨rfl, hdir⟩ | ⟨-, hfile⟩
    · rw [Node.dir.inj hdir] at hbelow
      cases hbelow with
      | entry hmem =>
        rw [(Prod.mk.inj (List.mem_singleton.mp hmem)).1]
        exact ⟨["a", "b"], rfl, by decide +kernel⟩
      | inside hmem _ => cases (Prod.mk.inj (List.mem_singleton.mp hmem)).2
    · cases hfile

/-- Two files are captured as one: the file whose name is `a\b` is recorded as `a/b`, with
the bytes of that file. -/
theorem backslash_file_is_lost :
    ∃ entries, @captureWorkspace Sample.lossyText Blake3.knownAnswers (.ok "/src") Sample.lookalikes
        Sample.everything = .ok entries ∧
      entries.entries.map (fun e => (e.1, e.2.bytes)) = [("a/b", [1])] ∧
      ¬ @Exact Sample.lossyText Sample.lookalikes Sample.everything entries := by
  let _ := Sample.lossyText
  let _ := Blake3.knownAnswers
  have hevaluated : ((captureWorkspace (.ok "/src") Sample.lookalikes
      Sample.everything).toOption.map fun entries =>
        entries.entries.map fun e => (e.1, e.2.bytes)) = some [("a/b", [1])] := by
    decide +kernel
  obtain ⟨entries, hcapture, hfiles⟩ := exists_of_evaluated hevaluated
  refine ⟨entries, hcapture, hfiles, fun hexact => ?_⟩
  obtain ⟨rel, e, ⟨parts, hparts, hrel⟩, hget, -⟩ := hexact.complete [.text "a\\b"]
    ⟨[2], false, none⟩ (.entry (List.mem_cons_of_mem _ List.mem_cons_self)) rfl
  have hmem := List.mem_map_of_mem (f := fun e => (e.1, e.2.bytes))
    (OrdMap.mem_entries_iff.mpr hget)
  rw [hfiles, List.mem_singleton] at hmem
  obtain rfl : ["a\\b"] = parts :=
    (List.map_injective_iff.mpr fun _ _ => FileName.text.inj) hparts
  have hname : rel = "a/b" := (Prod.mk.inj hmem).1
  rw [hname] at hrel
  exact absurd hrel (by decide +kernel)

end Gump.Manifest
