/-
  Foundation/TopRanked.lean --- the first few of a set under a key.

  The rank of an element counts what comes before it.  The elements of small rank
  are those a sort puts in front, and they change little when the set does.
-/
import Mathlib.Data.Finset.Card

set_option autoImplicit false

namespace Gump.Foundation

section Ranks

variable {α β : Type} [LinearOrder β] (key : α → β)

/-- How many elements come before `a`. -/
def rank (s : Finset α) (a : α) : Nat := (s.filter fun b => key b < key a).card

/-- The elements before which fewer than `k` come. -/
def topRanked (k : Nat) (s : Finset α) : Finset α := s.filter fun a => rank key s a < k

variable {key} {s : Finset α} {a b x : α} {k : Nat}

theorem mem_topRanked : a ∈ topRanked key k s ↔ a ∈ s ∧ rank key s a < k := Finset.mem_filter

theorem rank_mono {t : Finset α} (h : s ⊆ t) : rank key s a ≤ rank key t a :=
  Finset.card_le_card (Finset.filter_subset_filter _ h)

variable [DecidableEq α]

/-- Of two elements of a set the earlier has the smaller rank. -/
theorem rank_lt (ha : a ∈ s) (hab : key a < key b) : rank key s a < rank key s b := by
  refine Finset.card_lt_card (Finset.ssubset_iff.mpr ⟨a, by simp, ?_⟩)
  intro y hy
  rcases Finset.mem_insert.mp hy with rfl | hy
  · exact Finset.mem_filter.mpr ⟨ha, hab⟩
  · obtain ⟨hys, hya⟩ := Finset.mem_filter.mp hy
    exact Finset.mem_filter.mpr ⟨hys, hya.trans hab⟩

theorem rank_erase_of_le (h : key a ≤ key x) : rank key (s.erase x) a = rank key s a := by
  unfold rank
  rw [Finset.filter_erase, Finset.erase_eq_of_notMem]
  simp [h]

theorem rank_insert_le (x : α) : rank key (insert x s) a ≤ rank key s a + 1 := by
  unfold rank
  rw [Finset.filter_insert]
  split
  · exact Finset.card_insert_le _ _
  · exact Nat.le_succ _

/-- Without an element that is not among the first, the first stay. -/
theorem topRanked_erase (hx : x ∈ s) (hout : x ∉ topRanked key k s) :
    topRanked key k (s.erase x) = topRanked key k s := by
  have hrank : k ≤ rank key s x := by
    by_contra hlt
    exact hout (mem_topRanked.mpr ⟨hx, by omega⟩)
  ext a
  simp only [mem_topRanked, Finset.mem_erase]
  rcases lt_or_ge (key x) (key a) with hxa | hax
  · -- What comes after `x` is not among the first, with or without it.
    have hlt := rank_lt hx hxa
    have hinsert : rank key (insert x (s.erase x)) a ≤ rank key (s.erase x) a + 1 :=
      rank_insert_le x
    have hle : rank key s a ≤ rank key (s.erase x) a + 1 := by
      simpa [Finset.insert_erase hx] using hinsert
    omega
  · rw [rank_erase_of_le hax]
    constructor
    · rintro ⟨⟨-, has⟩, hlt⟩
      exact ⟨has, hlt⟩
    · rintro ⟨has, hlt⟩
      refine ⟨⟨?_, has⟩, hlt⟩
      rintro rfl
      omega

/-- Any other of the first stays when one element goes. -/
theorem mem_topRanked_erase (ha : a ∈ topRanked key k s) (hne : a ≠ x) :
    a ∈ topRanked key k (s.erase x) := by
  obtain ⟨has, hlt⟩ := mem_topRanked.mp ha
  exact mem_topRanked.mpr ⟨Finset.mem_erase.mpr ⟨hne, has⟩,
    (rank_mono (Finset.erase_subset x s)).trans_lt hlt⟩

/-- The first of a larger set that were there before were among the first. -/
theorem mem_topRanked_of_insert (ha : a ∈ topRanked key k (insert x s)) (hne : a ≠ x) :
    a ∈ topRanked key k s := by
  obtain ⟨has, hlt⟩ := mem_topRanked.mp ha
  exact mem_topRanked.mpr ⟨(Finset.mem_insert.mp has).resolve_left hne,
    (rank_mono (Finset.subset_insert x s)).trans_lt hlt⟩

/-- An added element displaces at most one. -/
theorem displaced_unique (hkey : Function.Injective key)
    (ha : a ∈ topRanked key k s) (hb : b ∈ topRanked key k s)
    (ha' : a ∉ topRanked key k (insert x s)) (hb' : b ∉ topRanked key k (insert x s)) : a = b := by
  have hlast {y : α} (hy : y ∈ topRanked key k s) (hy' : y ∉ topRanked key k (insert x s)) :
      y ∈ s ∧ rank key s y < k ∧ k ≤ rank key s y + 1 := by
    obtain ⟨hys, hlt⟩ := mem_topRanked.mp hy
    refine ⟨hys, hlt, le_trans ?_ (rank_insert_le x)⟩
    by_contra hge
    exact hy' (mem_topRanked.mpr ⟨Finset.mem_insert_of_mem hys, by omega⟩)
  obtain ⟨has, ha₁, ha₂⟩ := hlast ha ha'
  obtain ⟨hbs, hb₁, hb₂⟩ := hlast hb hb'
  rcases lt_trichotomy (key a) (key b) with hab | hab | hba
  · have := rank_lt has hab
    omega
  · exact hkey hab
  · have := rank_lt hbs hba
    omega

/-- The first `k` of a list in the order of the key are its elements of small
rank. -/
theorem mem_take_iff {l : List α} (hsorted : l.Pairwise fun a b => key a < key b) :
    a ∈ l.take k ↔ a ∈ topRanked key k l.toFinset := by
  have hnodup : l.Nodup := hsorted.imp fun hlt heq => hlt.ne (congrArg key heq)
  have hcount : rank key l.toFinset a = l.countP fun b => key b < key a := by
    have hfilter : (l.toFinset.filter fun b => key b < key a) =
        (l.filter fun b => key b < key a).toFinset := by
      ext
      simp
    rw [rank, hfilter, List.toFinset_card_of_nodup (hnodup.filter _), List.countP_eq_length_filter]
  rw [mem_topRanked, hcount, List.mem_toFinset]
  clear hcount hnodup
  induction l generalizing k with
  | nil => simp
  | cons b rest ih =>
    obtain ⟨hb, hrest⟩ := List.pairwise_cons.mp hsorted
    cases k with
    | zero => simp
    | succ k =>
      have htail : a ∈ rest.take k ↔ a ∈ rest ∧ rest.countP (fun b => key b < key a) < k := ih hrest
      rw [List.take_succ_cons, List.mem_cons, List.mem_cons, List.countP_cons, htail]
      by_cases hab : a = b
      · subst hab
        have hnone : rest.countP (fun b => key b < key a) = 0 := by
          rw [List.countP_eq_zero]
          intro m hm
          simpa using (hb m hm).le
        simp [hnone]
      · simp only [hab, false_or]
        constructor
        · rintro ⟨ha, hlt⟩
          simp [ha, hb a ha, hlt]
        · rintro ⟨ha, hlt⟩
          simp only [hb a ha, decide_true, if_true] at hlt
          exact ⟨ha, by omega⟩

end Ranks

end Gump.Foundation
