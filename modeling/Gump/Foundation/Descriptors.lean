/-
  Foundation/Descriptors.lean --- descriptor tables and their duplication.

  A process has a table from descriptor numbers to open files, each with its
  close-on-exec flag.  Duplicating one descriptor after another reads the table that
  the duplications before it have left, so a file can be replaced before it is
  duplicated.  `inherited_iff` says exactly when a sequence of duplications gives each
  target its own file across `exec`.
-/
import Mathlib.Algebra.GroupWithZero.Nat
import Mathlib.Data.List.Induction
import Mathlib.Logic.Function.Basic
import Mathlib.Tactic.SplitIfs
import Mathlib.Tactic.Tauto

set_option autoImplicit false

namespace Gump.Foundation

variable {φ : Type}

/-- An open file under a descriptor number. -/
structure Slot (φ : Type) where
  file : φ
  closeOnExec : Bool

/-- The open files of a process. -/
abbrev FdTable (φ : Type) : Type := Nat → Option (Slot φ)

/-- One duplication: the file that is meant, where it is, and where it shall be. -/
structure Dup (φ : Type) where
  target : Nat
  src : Nat
  file : φ

namespace FdTable

/-- `dup2`: the target refers to the file of the source and is kept across `exec`; a
descriptor duplicated onto itself is left as it is.  The system may refuse. -/
def dup2 (refuses : Nat → Nat → Bool) (t : FdTable φ) (src target : Nat) : Option (FdTable φ) :=
  if refuses src target then none
  else (t src).map fun slot =>
    if src = target then t else Function.update t target (some ⟨slot.file, false⟩)

/-- Duplicate in the order of a list. -/
def dupAll (refuses : Nat → Nat → Bool) (dups : List (Dup φ)) (t : FdTable φ) :
    Option (FdTable φ) :=
  dups.foldlM (fun t d => t.dup2 refuses d.src d.target) t

/-- What a descriptor refers to after `exec`. -/
def afterExec (t : FdTable φ) (fd : Nat) : Option φ :=
  (t fd).bind fun slot => if slot.closeOnExec then none else some slot.file

variable {refuses : Nat → Nat → Bool} {t t' : FdTable φ} {dups : List (Dup φ)}

/-- What a duplication does. -/
theorem dup2_eq_some {src target : Nat} (h : t.dup2 refuses src target = some t') :
    (src = target ∧ t' = t) ∨ src ≠ target ∧
      ∃ slot, t src = some slot ∧ t' = Function.update t target (some ⟨slot.file, false⟩) := by
  unfold dup2 at h
  split_ifs at h with hrefused heq
  · obtain ⟨slot, hslot, rfl⟩ := Option.map_eq_some_iff.mp h
    exact .inl ⟨heq, rfl⟩
  · obtain ⟨slot, hslot, rfl⟩ := Option.map_eq_some_iff.mp h
    exact .inr ⟨heq, slot, hslot, rfl⟩

/-- A duplication changes its target only. -/
theorem dup2_of_ne {src target fd : Nat} (h : t.dup2 refuses src target = some t')
    (hne : fd ≠ target) : t' fd = t fd := by
  rcases dup2_eq_some h with ⟨-, rfl⟩ | ⟨-, slot, -, rfl⟩
  · rfl
  · exact Function.update_of_ne hne _ _

theorem dupAll_concat {d : Dup φ} (h : dupAll refuses (dups ++ [d]) t = some t') :
    ∃ s, dupAll refuses dups t = some s ∧ s.dup2 refuses d.src d.target = some t' := by
  rw [dupAll, List.foldlM_append] at h
  obtain ⟨s, hs, hd⟩ := Option.bind_eq_some_iff.mp h
  exact ⟨s, hs, by simpa [List.foldlM] using hd⟩

/-- A sequence of duplications changes its targets only. -/
theorem dupAll_of_not_target {fd : Nat} (h : dupAll refuses dups t = some t')
    (hfd : ∀ d ∈ dups, fd ≠ d.target) : t' fd = t fd := by
  induction dups using List.reverseRecOn generalizing t' with
  | nil =>
    cases h
    rfl
  | append_singleton rest d ih =>
    obtain ⟨s, hs, hd⟩ := dupAll_concat h
    rw [dup2_of_ne hd (hfd d (by simp)), ih hs fun e he => hfd e (by simp [he])]

/-- Every target refers to its own file after `exec`. -/
def Inherited (t : FdTable φ) (dups : List (Dup φ)) : Prop :=
  ∀ d ∈ dups, t.afterExec d.target = some d.file

/-- No file is duplicated onto itself, and no target is a later target or source. -/
def Apart (dups : List (Dup φ)) : Prop :=
  (∀ d ∈ dups, d.src ≠ d.target) ∧ dups.Pairwise fun d e => d.target ≠ e.target ∧ d.target ≠ e.src

theorem afterExec_eq_some_iff {fd : Nat} {file : φ} :
    t.afterExec fd = some file ↔ t fd = some ⟨file, false⟩ := by
  unfold afterExec
  cases t fd with
  | none => simp
  | some slot =>
    obtain ⟨f, flag⟩ := slot
    cases flag <;> simp

/-- Each file is open under its source, close-on-exec, and the files differ. -/
structure Open (t : FdTable φ) (dups : List (Dup φ)) : Prop where
  held : ∀ d ∈ dups, t d.src = some ⟨d.file, true⟩
  files : dups.Pairwise fun d e => d.file ≠ e.file

/-- Each target refers to its own file after `exec` exactly when no file is duplicated
onto itself and no target is a later target or source. -/
theorem inherited_iff (hopen : Open t dups) (h : dupAll refuses dups t = some t') :
    t'.Inherited dups ↔ Apart dups := by
  -- The last duplication sees what the ones before it have left.
  induction dups using List.reverseRecOn generalizing t' with
  | nil => exact ⟨fun _ => ⟨nofun, .nil⟩, fun _ => nofun⟩
  | append_singleton rest d ih =>
    obtain ⟨s, hs, hd⟩ := dupAll_concat h
    have hfiles := List.pairwise_append.mp hopen.files
    have hrest := ih ⟨fun e he => hopen.held e (by simp [he]), hfiles.1⟩ hs
    have hsrc := hopen.held d (by simp)
    have hsplit : Apart (rest ++ [d]) ↔ Apart rest ∧ d.src ≠ d.target ∧
        ∀ e ∈ rest, e.target ≠ d.target ∧ e.target ≠ d.src := by
      simp only [Apart, List.pairwise_append, List.forall_mem_append, List.forall_mem_singleton,
        List.pairwise_singleton, true_and]
      tauto
    have hkept : (∀ e ∈ rest, e.target ≠ d.target) → ∀ e ∈ rest,
        t'.afterExec e.target = s.afterExec e.target := by
      intro hne e he
      rw [afterExec, afterExec, dup2_of_ne hd (hne e he)]
    rw [hsplit, ← hrest]
    constructor
    · intro hall
      -- Two files cannot be under one number.
      have htargets : ∀ e ∈ rest, e.target ≠ d.target := by
        intro e he heq
        have hfile := hall e (by simp [he])
        rw [heq, hall d (by simp)] at hfile
        exact hfiles.2.2 e he d (by simp) (Option.some.inj hfile).symm
      have hbefore : s.Inherited rest := fun e he =>
        (hkept htargets e he).symm.trans (hall e (by simp [he]))
      have hfinal := afterExec_eq_some_iff.mp (hall d (by simp))
      have hsources : ∀ e ∈ rest, e.target ≠ d.src := by
        intro e he heq
        rcases dup2_eq_some hd with ⟨hself, -⟩ | ⟨-, slot, hslot, rfl⟩
        · exact htargets e he (heq.trans hself)
        · -- The source was replaced by the file of the earlier target.
          rw [← heq, afterExec_eq_some_iff.mp (hbefore e he)] at hslot
          cases hslot
          rw [Function.update_self, Option.some.injEq, Slot.mk.injEq] at hfinal
          exact hfiles.2.2 e he d (by simp) hfinal.1
      refine ⟨hbefore, fun hself => ?_, fun e he => ⟨htargets e he, hsources e he⟩⟩
      have hunchanged : s d.src = t d.src :=
        dupAll_of_not_target hs fun e he => (hsources e he).symm
      rcases dup2_eq_some hd with ⟨-, rfl⟩ | ⟨hne, -⟩
      · rw [← hself, hunchanged, hsrc] at hfinal
        cases hfinal
      · exact hne hself
    · rintro ⟨hbefore, hne, hlater⟩ e he
      have hunchanged : s d.src = t d.src :=
        dupAll_of_not_target hs fun e he => (hlater e he).2.symm
      rcases List.mem_append.mp he with he | he
      · exact (hkept (fun e he => (hlater e he).1) e he).trans (hbefore e he)
      · cases List.mem_singleton.mp he
        rcases dup2_eq_some hd with ⟨hself, -⟩ | ⟨-, slot, hslot, rfl⟩
        · exact absurd hself hne
        · rw [hunchanged, hsrc] at hslot
          cases hslot
          exact afterExec_eq_some_iff.mpr (Function.update_self ..)

end FdTable

end Gump.Foundation
