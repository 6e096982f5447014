/-
  Foundation/Segments.lean --- texts of segments between separators.

  A text is split at a separator into segments that do not contain it, and segments
  that do not contain it are found again in the text they are joined to.
-/
import Mathlib.Data.String.Basic

set_option autoImplicit false

namespace Gump.Foundation

/-- The characters of a segment are those of the text, and none is the separator. -/
theorem mem_of_mem_splitOn {α : Type} [BEq α] [LawfulBEq α] {text seg : List α} {sep c : α}
    (hseg : seg ∈ text.splitOn sep) (hc : c ∈ seg) : c ∈ text ∧ c ≠ sep := by
  induction text generalizing seg with
  | nil =>
    have hnil : ([] : List α).splitOn sep = [[]] := by simp [List.splitOn]
    rw [hnil, List.mem_singleton] at hseg
    rw [hseg] at hc
    cases hc
  | cons x rest ih =>
    rw [List.splitOn_cons_eq_if_modifyHead] at hseg
    split_ifs at hseg with hx
    · rcases List.mem_cons.mp hseg with rfl | hrest
      · cases hc
      · exact ⟨List.mem_cons_of_mem x (ih hrest hc).1, (ih hrest hc).2⟩
    · obtain ⟨first, others, hsplit⟩ := List.exists_cons_of_ne_nil (List.splitOn_ne_nil sep rest)
      rw [hsplit] at hseg ih
      rcases List.mem_cons.mp hseg with rfl | hother
      · rcases List.mem_cons.mp hc with rfl | hfirst
        · exact ⟨List.mem_cons_self, fun h => hx (beq_iff_eq.mpr h)⟩
        · exact ⟨List.mem_cons_of_mem x (ih List.mem_cons_self hfirst).1,
            (ih List.mem_cons_self hfirst).2⟩
      · exact ⟨List.mem_cons_of_mem x (ih (List.mem_cons_of_mem _ hother) hc).1,
          (ih (List.mem_cons_of_mem _ hother) hc).2⟩

/-- The segments of a joined text. -/
theorem splitOn_join {parts : List String} (hne : parts ≠ []) (h : ∀ s ∈ parts, '/' ∉ s.toList) :
    ("/".intercalate parts).toList.splitOn '/' = parts.map String.toList := by
  have hsep : "/".toList = ['/'] := rfl
  rw [String.toList_intercalate, hsep]
  refine List.splitOn_intercalate '/' (fun seg hseg => ?_) (by simpa using hne)
  obtain ⟨s, hs, rfl⟩ := List.mem_map.mp hseg
  exact h s hs

theorem mem_join {parts : List String} {c : Char} (hc : c ∈ ("/".intercalate parts).toList) :
    c = '/' ∨ ∃ s ∈ parts, c ∈ s.toList := by
  induction parts with
  | nil => simp at hc
  | cons s rest ih =>
    cases rest with
    | nil =>
      rw [String.intercalate_singleton] at hc
      exact .inr ⟨s, List.mem_cons_self, hc⟩
    | cons next rest =>
      rw [String.intercalate_cons_cons, String.toList_append, String.toList_append,
        List.mem_append, List.mem_append] at hc
      rcases hc with (hs | hsep) | hrest
      · exact .inr ⟨s, List.mem_cons_self, hs⟩
      · exact .inl (List.mem_singleton.mp hsep)
      · exact (ih hrest).imp_right fun ⟨t, ht, hct⟩ => ⟨t, List.mem_cons_of_mem s ht, hct⟩

/-- Different segments make different texts. -/
theorem join_injective {parts parts' : List String} (hne : parts ≠ []) (hne' : parts' ≠ [])
    (h : ∀ s ∈ parts, '/' ∉ s.toList) (h' : ∀ s ∈ parts', '/' ∉ s.toList)
    (heq : "/".intercalate parts = "/".intercalate parts') : parts = parts' := by
  have hsplit := splitOn_join hne h
  rw [heq, splitOn_join hne' h'] at hsplit
  exact (List.map_injective_iff.mpr fun _ _ => String.toList_inj.mp) hsplit.symm

end Gump.Foundation
