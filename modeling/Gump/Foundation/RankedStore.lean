/-
  Foundation/RankedStore.lean --- a bounded store that evicts by rank.

  A store under a ceiling makes room by removing the entry of least rank.  Whether
  an entry survives depends on the entries above it only: as long as it is there,
  none of those has been removed.  The lemmas count them with `above` and give the
  exact survival condition of one trim.
-/
import Gump.Foundation.OrdMap
import Mathlib.Data.List.MinMax

set_option autoImplicit false

namespace Gump.Foundation

namespace OrdMap

section Sums

variable {K V : Type} [LinearOrder K]

theorem sumBy_insert_of_none {m : OrdMap K V} (f : K → V → Nat) {k : K} (v : V)
    (h : m.get k = none) : (m.insert k v).sumBy f = m.sumBy f + f k v := by
  have hsum := m.sumBy_insert f k v
  rw [h] at hsum
  simpa using hsum

/-- Dropping entries of weight zero does not change a sum. -/
theorem sumBy_retain {m : OrdMap K V} {f : K → V → Nat} {p : K → V → Bool}
    (h : ∀ k v, m.get k = some v → p k v = false → f k v = 0) :
    (m.retain p).sumBy f = m.sumBy f := by
  have hlist : ∀ es : List (K × V), (∀ e ∈ es, p e.1 e.2 = false → f e.1 e.2 = 0) →
      ((es.filter (fun e => p e.1 e.2)).map (fun e => f e.1 e.2)).sum =
        (es.map (fun e => f e.1 e.2)).sum := by
    intro es
    induction es with
    | nil => intro _; rfl
    | cons e rest ih =>
      intro hes
      have hrest := ih (fun e' he' => hes e' (List.mem_cons_of_mem _ he'))
      cases hp : p e.1 e.2 with
      | true => simp [hp, hrest]
      | false => simp [hp, hrest, hes e List.mem_cons_self hp]
  exact hlist m.entries (fun e he hp => h e.1 e.2 (mem_entries_iff.mp he) hp)

end Sums

section Ranked

variable {K V R : Type} [LinearOrder K] [LinearOrder R] (rank : K × V → R)

/-- How many entries rank above `a`. -/
def above (a : R) (m : OrdMap K V) : Nat :=
  m.sumBy (fun k v => if a < rank (k, v) then 1 else 0)

/-- Remove the entry of least rank. -/
def evictLeast (m : OrdMap K V) : OrdMap K V :=
  match m.entries.argmin rank with
  | none => m
  | some e => m.erase e.1

/-- Remove entries of least rank while there are `ceiling` or more, at most
`turns` times. -/
def evictWhile (ceiling : Nat) : Nat → OrdMap K V → OrdMap K V
  | 0, m => m
  | turns + 1, m =>
    if m.size ≥ ceiling then evictWhile ceiling turns (m.evictLeast rank) else m

/-- Trim a store below its ceiling. -/
def trim (ceiling : Nat) (m : OrdMap K V) : OrdMap K V := evictWhile rank ceiling m.size m

variable {rank}

/-! ## Counting above an entry -/

theorem above_le_size (a : R) (m : OrdMap K V) : above rank a m ≤ m.size := by
  rw [size_eq_sumBy]
  refine List.sum_le_sum (fun e _ => ?_)
  by_cases h : a < rank (e.1, e.2)
  · exact (if_pos h).le
  · exact (if_neg h).le.trans (Nat.zero_le _)

variable {a : R} {m : OrdMap K V}

theorem above_eq_size (h : ∀ k v, m.get k = some v → a < rank (k, v)) :
    above rank a m = m.size := by
  rw [size_eq_sumBy]
  refine congrArg List.sum (List.map_congr_left (fun e he => ?_))
  exact if_pos (h e.1 e.2 (mem_entries_iff.mp he))

variable {k : K} {v : V}

/-- Removing an entry that does not rank above `a` leaves the count. -/
theorem above_erase (h : m.get k = some v) (hle : rank (k, v) ≤ a) :
    above rank a (m.erase k) = above rank a m := by
  have hsum := sumBy_erase (fun k' v' => if a < rank (k', v') then 1 else 0) h
  simp only [not_lt.mpr hle, if_false, Nat.add_zero] at hsum
  exact hsum

theorem above_insert (v : V) (h : m.get k = none) :
    above rank a (m.insert k v) = above rank a m + if a < rank (k, v) then 1 else 0 :=
  sumBy_insert_of_none _ v h

/-- Dropping entries that do not rank above `a` leaves the count. -/
theorem above_retain {p : K → V → Bool}
    (h : ∀ k v, m.get k = some v → a < rank (k, v) → p k v = true) :
    above rank a (m.retain p) = above rank a m := by
  refine sumBy_retain (fun k v hget hp => if_neg (fun hlt => ?_))
  rw [h k v hget hlt] at hp
  cases hp

/-! ## Evicting one entry -/

theorem argmin_spec {e : K × V} (h : m.entries.argmin rank = some e) :
    m.get e.1 = some e.2 ∧ ∀ k v, m.get k = some v → rank e ≤ rank (k, v) := by
  refine ⟨mem_entries_iff.mp (List.argmin_mem h), ?_⟩
  intro k v hget
  exact List.le_of_mem_argmin (mem_entries_iff.mpr hget) h

theorem argmin_eq_none : m.entries.argmin rank = none ↔ m = empty := by
  rw [List.argmin_eq_none]
  exact ⟨fun h => eq_of_entries h, fun h => by rw [h]; rfl⟩

/-- An eviction from a store with entries removes one. -/
theorem size_evictLeast (h : m.size ≠ 0) : (m.evictLeast rank).size + 1 = m.size := by
  unfold evictLeast
  cases hmin : m.entries.argmin rank with
  | none => exact absurd (size_eq_zero_iff.mpr (argmin_eq_none.mp hmin)) h
  | some e => exact size_erase_of_some (argmin_spec hmin).1

theorem get_of_get_evictLeast (h : (m.evictLeast rank).get k = some v) : m.get k = some v := by
  unfold evictLeast at h
  split at h
  · exact h
  · rw [get_erase] at h
    split at h
    · simp at h
    · exact h

/-- While an entry is there, no entry above it has been removed. -/
theorem above_evictLeast (h : (m.evictLeast rank).get k = some v) :
    above rank (rank (k, v)) (m.evictLeast rank) = above rank (rank (k, v)) m := by
  have hold := get_of_get_evictLeast h
  unfold evictLeast
  cases hmin : m.entries.argmin rank with
  | none => rfl
  | some e =>
    obtain ⟨hget, hleast⟩ := argmin_spec hmin
    exact above_erase hget (hleast k v hold)

/-- An entry with something below it is not the one that is evicted. -/
theorem get_evictLeast_of_lt (hkey : ∀ e e', rank e = rank e' → e.1 = e'.1) (h : m.get k = some v)
    (hroom : above rank (rank (k, v)) m + 1 < m.size) : (m.evictLeast rank).get k = some v := by
  unfold evictLeast
  cases hmin : m.entries.argmin rank with
  | none => exact h
  | some e =>
    obtain ⟨hget, hleast⟩ := argmin_spec hmin
    have hne : k ≠ e.1 := by
      intro hk
      subst hk
      have hv : e.2 = v := Option.some.inj (hget.symm.trans h)
      subst hv
      -- everything else ranks above the least entry
      have hall : above rank (rank e) (m.erase e.1) = (m.erase e.1).size := by
        refine above_eq_size (fun k' v' hget' => ?_)
        rw [get_erase] at hget'
        split at hget'
        · simp at hget'
        · rename_i hother
          refine lt_of_le_of_ne (hleast k' v' hget') (fun hsame => hother ?_)
          exact (hkey e (k', v') hsame).symm
      have habove := above_erase hget (le_refl (rank e))
      have hsize := size_erase_of_some hget
      change above rank (rank e) m + 1 < m.size at hroom
      omega
    simp only [get_erase, hne, if_false, h]

/-! ## Trimming -/

variable {ceiling turns : Nat}

theorem get_of_get_evictWhile (h : (evictWhile rank ceiling turns m).get k = some v) :
    m.get k = some v := by
  induction turns generalizing m with
  | zero => exact h
  | succ turns ih =>
    unfold evictWhile at h
    split at h
    · exact get_of_get_evictLeast (ih h)
    · exact h

/-- As many turns as there are entries bring the store below its ceiling. -/
theorem size_evictWhile (hpos : 0 < ceiling) (hturns : m.size ≤ turns) :
    (evictWhile rank ceiling turns m).size < ceiling := by
  induction turns generalizing m with
  | zero =>
    unfold evictWhile
    omega
  | succ turns ih =>
    unfold evictWhile
    split
    · rename_i hfull
      have hsize : (evictLeast rank m).size + 1 = m.size := size_evictLeast (by omega)
      exact ih (by omega)
    · rename_i hroom
      exact not_le.mp hroom

theorem above_evictWhile (h : (evictWhile rank ceiling turns m).get k = some v) :
    above rank (rank (k, v)) (evictWhile rank ceiling turns m) = above rank (rank (k, v)) m := by
  induction turns generalizing m with
  | zero => rfl
  | succ turns ih =>
    unfold evictWhile at h ⊢
    split at h
    · rename_i hfull
      rw [if_pos hfull, ih h, above_evictLeast (get_of_get_evictWhile h)]
    · rename_i hroom
      rw [if_neg hroom]

theorem get_evictWhile_of_lt (hkey : ∀ e e', rank e = rank e' → e.1 = e'.1) (h : m.get k = some v)
    (hroom : above rank (rank (k, v)) m + 1 < ceiling) :
    (evictWhile rank ceiling turns m).get k = some v := by
  induction turns generalizing m with
  | zero => exact h
  | succ turns ih =>
    unfold evictWhile
    split
    · rename_i hfull
      have hkept := get_evictLeast_of_lt hkey h (lt_of_lt_of_le hroom hfull)
      exact ih hkept (by rw [above_evictLeast hkept]; exact hroom)
    · exact h

theorem get_of_get_trim (h : (m.trim rank ceiling).get k = some v) : m.get k = some v :=
  get_of_get_evictWhile h

theorem get_trim_eq_none (h : m.get k = none) (ceiling : Nat) :
    (m.trim rank ceiling).get k = none := by
  cases hget : (m.trim rank ceiling).get k with
  | none => rfl
  | some v =>
    have hsome := get_of_get_trim hget
    rw [h] at hsome
    cases hsome

variable (rank) in
theorem size_trim_lt (m : OrdMap K V) (hpos : 0 < ceiling) : (m.trim rank ceiling).size < ceiling :=
  size_evictWhile hpos (le_refl _)

theorem above_trim (h : (m.trim rank ceiling).get k = some v) :
    above rank (rank (k, v)) (m.trim rank ceiling) = above rank (rank (k, v)) m :=
  above_evictWhile h

/-- An entry survives a trim exactly if it and the entries above it leave room. -/
theorem get_trim_iff (hkey : ∀ e e', rank e = rank e' → e.1 = e'.1) (hpos : 0 < ceiling)
    (h : m.get k = some v) :
    (m.trim rank ceiling).get k = some v ↔ above rank (rank (k, v)) m + 1 < ceiling := by
  constructor
  · intro hkept
    have hsize := size_trim_lt rank m hpos
    have habove := above_trim hkept
    have hself := above_erase hkept (le_refl (rank (k, v)))
    have hle : above rank (rank (k, v)) ((m.trim rank ceiling).erase k) ≤
        ((m.trim rank ceiling).erase k).size := above_le_size _ _
    have hone := size_erase_of_some hkept
    omega
  · exact get_evictWhile_of_lt hkey h

/-! ## A new entry after a trim -/

variable {k' : K}

/-- What is under another key after a trim and an insertion was there before. -/
theorem get_of_get_insert_trim {w : V} (hne : k ≠ k')
    (h : ((m.trim rank ceiling).insert k' w).get k = some v) : m.get k = some v := by
  rw [get_insert_of_ne _ _ hne] at h
  exact get_of_get_trim h

/-- An entry survives exactly if it and the entries above it leave room. -/
theorem get_insert_trim_iff (hkey : ∀ e e', rank e = rank e' → e.1 = e'.1) (hpos : 0 < ceiling)
    (w : V) (hne : k ≠ k') (h : m.get k = some v) :
    ((m.trim rank ceiling).insert k' w).get k = some v ↔
      above rank (rank (k, v)) m + 1 < ceiling := by
  rw [get_insert_of_ne _ _ hne]
  exact get_trim_iff hkey hpos h

/-- The entries above a survivor are those from before and, if it ranks higher,
the new one. -/
theorem above_insert_trim {w : V} (hne : k ≠ k') (hnew : m.get k' = none)
    (h : ((m.trim rank ceiling).insert k' w).get k = some v) :
    above rank (rank (k, v)) ((m.trim rank ceiling).insert k' w) =
      above rank (rank (k, v)) m + if rank (k, v) < rank (k', w) then 1 else 0 := by
  rw [get_insert_of_ne _ _ hne] at h
  rw [above_insert _ (get_trim_eq_none hnew _), above_trim h]

end Ranked

end OrdMap

end Gump.Foundation
