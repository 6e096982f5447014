/-
  Foundation/Feed.lean --- bounded windows over an append-only log.

  A log is a list of items whose stamps increase strictly.  A window keeps some
  of them together with a floor; it COVERS the log when it holds exactly the
  items above its floor.  Raising the floor, dropping from the front and
  appending all keep a window covering, so a reader who asks for the items after
  a stamp at or above the floor receives precisely the items of the log after
  that stamp, however the window was pruned in between.
-/
import Mathlib.Data.List.Basic
import Mathlib.Order.Lattice

set_option autoImplicit false

namespace Gump.Foundation

section Feed

variable {β : Type} (stamp : β → Nat)

/-- Stamps increase strictly along the list. -/
def Increasing (log : List β) : Prop := log.Pairwise (fun a b => stamp a < stamp b)

/-- The items of a list with a stamp above `after`. -/
def itemsAfter (after : Nat) (items : List β) : List β :=
  items.filter (fun b => decide (after < stamp b))

/-- The window with this floor and these items holds exactly the part of the log
above the floor. -/
def Covers (floor : Nat) (held log : List β) : Prop := held = itemsAfter stamp floor log

/-- Drop items from the front while a condition on the remaining list holds, and
raise the floor to every dropped stamp. -/
def dropFrontWhile (cond : List β → Bool) : Nat → List β → Nat × List β
  | floor, [] => (floor, [])
  | floor, b :: rest =>
    if cond (b :: rest) then dropFrontWhile cond (max floor (stamp b)) rest
    else (floor, b :: rest)

variable {stamp}

variable {after : Nat} {items : List β}

theorem mem_itemsAfter {b : β} :
    b ∈ itemsAfter stamp after items ↔ b ∈ items ∧ after < stamp b := by
  simp [itemsAfter]

theorem itemsAfter_append (after : Nat) (xs ys : List β) :
    itemsAfter stamp after (xs ++ ys) = itemsAfter stamp after xs ++ itemsAfter stamp after ys :=
  List.filter_append xs ys

theorem itemsAfter_itemsAfter {low high : Nat} (h : low ≤ high) (items : List β) :
    itemsAfter stamp high (itemsAfter stamp low items) = itemsAfter stamp high items := by
  unfold itemsAfter
  rw [List.filter_filter]
  apply List.filter_congr
  intro b _
  by_cases hb : high < stamp b
  · simp [hb, lt_of_le_of_lt h hb]
  · simp [hb]

theorem itemsAfter_eq_self (h : ∀ b ∈ items, after < stamp b) :
    itemsAfter stamp after items = items :=
  List.filter_eq_self.mpr (fun b hb => decide_eq_true (h b hb))

theorem itemsAfter_eq_nil (h : ∀ b ∈ items, stamp b ≤ after) :
    itemsAfter stamp after items = [] := by
  apply List.filter_eq_nil_iff.mpr
  intro b hb
  simpa using h b hb

variable {log : List β}

theorem Increasing.itemsAfter (h : Increasing stamp log) (after : Nat) :
    Increasing stamp (itemsAfter stamp after log) :=
  List.Pairwise.filter _ h

/-- Appending an item above every stamp keeps a log increasing. -/
theorem Increasing.concat {b : β} (h : Increasing stamp log) (hb : ∀ a ∈ log, stamp a < stamp b) :
    Increasing stamp (log ++ [b]) := by
  refine List.pairwise_append.mpr ⟨h, List.pairwise_singleton _ _, ?_⟩
  intro a ha b' hb'
  rw [List.mem_singleton.mp hb']
  exact hb a ha

/-! ## Operations keep a window covering -/

variable {floor : Nat} {held : List β}

/-- A reader at or above the floor sees the log. -/
theorem Covers.read (h : Covers stamp floor held log) (hafter : floor ≤ after) :
    itemsAfter stamp after held = itemsAfter stamp after log := by
  rw [h]
  exact itemsAfter_itemsAfter hafter log

/-- Raising the floor and discarding what falls below it. -/
theorem Covers.raise {floor' : Nat} (h : Covers stamp floor held log) (hle : floor ≤ floor') :
    Covers stamp floor' (itemsAfter stamp floor' held) log :=
  h.read hle

/-- Appending to window and log together and discarding what is not above the
floor. -/
theorem Covers.push (h : Covers stamp floor held log) (b : β) :
    Covers stamp floor (itemsAfter stamp floor (held ++ [b])) (log ++ [b]) := by
  unfold Covers
  rw [itemsAfter_append, itemsAfter_append, h.read (le_refl floor)]

/-- Dropping the oldest item of the window. -/
theorem Covers.dropHead {b : β} {rest : List β} (hlog : Increasing stamp log)
    (h : Covers stamp floor (b :: rest) log) : Covers stamp (max floor (stamp b)) rest log := by
  have hheld : Increasing stamp (b :: rest) := h ▸ hlog.itemsAfter floor
  have hrest : ∀ b' ∈ rest, stamp b < stamp b' := (List.pairwise_cons.mp hheld).1
  have hfloor : floor < stamp b := by
    have hmem : b ∈ itemsAfter stamp floor log := h ▸ List.mem_cons_self
    exact (mem_itemsAfter.mp hmem).2
  rw [max_eq_right hfloor.le]
  have hraise := h.raise hfloor.le
  have hdrop : itemsAfter stamp (stamp b) (b :: rest) = rest := by
    have hcons : b :: rest = [b] ++ rest := rfl
    rw [hcons, itemsAfter_append, itemsAfter_eq_self hrest]
    rw [itemsAfter_eq_nil (by simp)]
    rfl
  rwa [hdrop] at hraise

variable {cond : List β → Bool}

theorem Covers.dropFrontWhile (hlog : Increasing stamp log) (h : Covers stamp floor held log) :
    Covers stamp (dropFrontWhile stamp cond floor held).1
      (dropFrontWhile stamp cond floor held).2 log := by
  induction held generalizing floor with
  | nil => exact h
  | cons b rest ih =>
    unfold Foundation.dropFrontWhile
    split
    · exact ih (h.dropHead hlog)
    · exact h

/-! ## What a dropping loop does -/

theorem le_dropFrontWhile (cond : List β → Bool) (floor : Nat) (held : List β) :
    floor ≤ (dropFrontWhile stamp cond floor held).1 := by
  induction held generalizing floor with
  | nil => exact le_refl floor
  | cons b rest ih =>
    unfold dropFrontWhile
    split
    · exact (le_max_left _ _).trans (ih _)
    · exact le_refl floor

theorem dropFrontWhile_suffix (cond : List β → Bool) (floor : Nat) (held : List β) :
    (dropFrontWhile stamp cond floor held).2 <:+ held := by
  induction held generalizing floor with
  | nil => exact List.suffix_refl _
  | cons b rest ih =>
    unfold dropFrontWhile
    split
    · exact (ih _).trans (List.suffix_cons b rest)
    · exact List.suffix_refl _

/-- The loop never raises the floor past the stamps of the window. -/
theorem dropFrontWhile_le {bound : Nat} (hfloor : floor ≤ bound)
    (hheld : ∀ b ∈ held, stamp b ≤ bound) : (dropFrontWhile stamp cond floor held).1 ≤ bound := by
  induction held generalizing floor with
  | nil => exact hfloor
  | cons b rest ih =>
    unfold dropFrontWhile
    split
    · refine ih (max_le hfloor (hheld b List.mem_cons_self)) ?_
      exact fun b' hb' => hheld b' (List.mem_cons_of_mem b hb')
    · exact hfloor

/-- A floor raised past `bound` was raised by an item of the window above `bound`
on which the loop's condition held, and that is now below the floor. -/
theorem exists_dropped_of_lt_dropFrontWhile {bound : Nat} (hfloor : floor ≤ bound)
    (h : bound < (dropFrontWhile stamp cond floor held).1) :
    ∃ pre b post, held = pre ++ b :: post ∧ bound < stamp b ∧ cond (b :: post) = true ∧
      stamp b ≤ (dropFrontWhile stamp cond floor held).1 := by
  induction held generalizing floor with
  | nil => exact absurd h (not_lt.mpr hfloor)
  | cons b rest ih =>
    unfold dropFrontWhile at h ⊢
    split at h
    · rename_i hcond
      rw [if_pos hcond]
      by_cases hb : bound < stamp b
      · refine ⟨[], b, rest, rfl, hb, hcond, ?_⟩
        exact (le_max_right _ _).trans (le_dropFrontWhile cond _ rest)
      · obtain ⟨pre, b', post, hsplit, hlt, hc, hle⟩ := ih (max_le hfloor (not_lt.mp hb)) h
        exact ⟨b :: pre, b', post, by rw [hsplit]; rfl, hlt, hc, hle⟩
    · exact absurd h (not_lt.mpr hfloor)

end Feed

end Gump.Foundation
