/-
  Foundation/Rotation.lean --- reading a list page by page, around its end.

  A page starts at an offset, holds as many consecutive items as some count allows
  there, and the next page starts where it ends.  With at least one item on every page
  an item that lies `t` places ahead is reached within `t + 1` pages, whatever the
  lengths of the pages are.
-/
import Mathlib.Data.List.Rotate
import Mathlib.Logic.Function.Iterate

set_option autoImplicit false

namespace Gump.Foundation

variable {α : Type} (items : List α) (count : Nat → Nat)

/-- The items of the page that starts at an offset. -/
def rotatedPage (start : Nat) : List α := (items.rotate start).take (count start)

/-- Where the next page starts. -/
def nextStart (start : Nat) : Nat := (start + count start) % items.length

variable {items count}

theorem nodup_rotatedPage (h : items.Nodup) (start : Nat) : (rotatedPage items count start).Nodup :=
  (List.nodup_rotate.mpr h).sublist (List.take_sublist _ _)

theorem rotatedPage_ne_nil (hcount : ∀ start, 0 < count start) (hitems : items ≠ []) (start : Nat) :
    rotatedPage items count start ≠ [] := by
  intro hnil
  rcases List.take_eq_nil_iff.mp hnil with hzero | hrotate
  · exact Nat.ne_of_gt (hcount start) hzero
  · exact hitems (List.rotate_eq_nil_iff.mp hrotate)

/-- An item a distance ahead is reached within that many further pages. -/
theorem exists_page_ahead (hcount : ∀ start, 0 < count start) {a : α} (t : Nat) :
    ∀ start, t < items.length → (items.rotate start)[t]? = some a →
      ∃ k ≤ t, a ∈ rotatedPage items count ((nextStart items count)^[k] start) := by
  induction t using Nat.strongRecOn with
  | ind t ih =>
    intro start ht ha
    by_cases hpage : t < count start
    · refine ⟨0, Nat.zero_le t, List.mem_of_getElem? (i := t) ?_⟩
      rw [Function.iterate_zero_apply, rotatedPage, List.getElem?_take_of_lt hpage]
      exact ha
    · -- The page ends before the item, which is nearer to the start of the next one.
      have hpos := hcount start
      have hnear : (items.rotate (nextStart items count start))[t - count start]? = some a := by
        rw [List.getElem?_rotate (by omega), nextStart, Nat.add_mod_mod, ← ha,
          List.getElem?_rotate ht]
        congr 2
        omega
      obtain ⟨k, hk, hmem⟩ := ih (t - count start) (by omega) _ (by omega) hnear
      refine ⟨k + 1, by omega, ?_⟩
      rw [Function.iterate_succ_apply]
      exact hmem

/-- Every item is on one of the first pages, as many as there are items. -/
theorem exists_page_of_mem (hcount : ∀ start, 0 < count start) (start : Nat) {a : α}
    (ha : a ∈ items) : ∃ k < items.length,
      a ∈ rotatedPage items count ((nextStart items count)^[k] start) := by
  obtain ⟨t, hget⟩ := List.mem_iff_getElem?.mp (List.mem_rotate.mpr ha : a ∈ items.rotate start)
  have ht : t < items.length := by
    obtain ⟨hlt, -⟩ := List.getElem?_eq_some_iff.mp hget
    rwa [List.length_rotate] at hlt
  obtain ⟨k, hk, hmem⟩ := exists_page_ahead hcount t start ht hget
  exact ⟨k, Nat.lt_of_le_of_lt hk ht, hmem⟩

end Gump.Foundation
