/-
  Foundation/OrdMap.lean --- finite maps kept in key order.

  An ordered map is its list of entries together with the proof that the keys
  increase strictly.  Iteration order is therefore part of the value, two maps
  with the same lookups are equal (`OrdMap.ext_get`), and every operation runs in
  the kernel.  Nothing here refers to a particular program.
-/
import Mathlib.Algebra.GroupWithZero.Nat
import Mathlib.Order.Lattice
import Mathlib.Data.List.Sort
import Mathlib.Algebra.Order.BigOperators.Group.List
import Mathlib.Algebra.Order.Group.Nat

set_option autoImplicit false

namespace Gump.Foundation

/-- A finite map from `K` to `V`, stored as entries with strictly increasing
keys. -/
structure OrdMap (K V : Type) [LinearOrder K] where
  entries : List (K × V)
  sorted : entries.Pairwise (fun a b => a.1 < b.1)

namespace OrdMap

variable {K V : Type} [LinearOrder K]

variable {m : OrdMap K V}

theorem eq_of_entries {m' : OrdMap K V} (h : m.entries = m'.entries) : m = m' := by
  cases m
  cases m'
  simp only at h
  subst h
  rfl

instance [DecidableEq V] : DecidableEq (OrdMap K V) := fun m m' =>
  decidable_of_iff (m.entries = m'.entries) ⟨eq_of_entries, fun h => h ▸ rfl⟩

/-- The map without entries. -/
def empty : OrdMap K V := ⟨[], List.Pairwise.nil⟩

instance : Inhabited (OrdMap K V) := ⟨empty⟩

/-- Lookup in an entry list. -/
def lookup (k : K) : List (K × V) → Option V
  | [] => none
  | e :: rest => if e.1 = k then some e.2 else lookup k rest

/-- The value bound to `k`, if there is one. -/
def get (m : OrdMap K V) (k : K) : Option V := lookup k m.entries

/-- Whether `k` is bound. -/
@[grind =] def contains (m : OrdMap K V) (k : K) : Bool := (m.get k).isSome

/-- Number of entries. -/
def size (m : OrdMap K V) : Nat := m.entries.length

/-- The keys in increasing order. -/
def keys (m : OrdMap K V) : List K := m.entries.map Prod.fst

/-- The values in key order. -/
def values (m : OrdMap K V) : List V := m.entries.map Prod.snd

/-! ## Lookup and membership -/

variable {k : K} {es : List (K × V)}

theorem lookup_eq_none_of_forall_ne (h : ∀ e ∈ es, e.1 ≠ k) : lookup k es = none := by
  induction es with
  | nil => rfl
  | cons e rest ih =>
    have hne : e.1 ≠ k := h e (by simp)
    simp only [lookup, hne, if_false]
    exact ih (fun e' he' => h e' (by simp [he']))

variable {v : V}

theorem mem_of_lookup (h : lookup k es = some v) : (k, v) ∈ es := by
  induction es with
  | nil => simp [lookup] at h
  | cons e rest ih =>
    simp only [lookup] at h
    split at h
    · rename_i hk
      have hv : e.2 = v := Option.some.inj h
      rw [← hk, ← hv]
      exact List.mem_cons_self
    · exact List.mem_cons_of_mem _ (ih h)

theorem lookup_of_mem (hs : es.Pairwise (fun a b => a.1 < b.1)) (h : (k, v) ∈ es) :
    lookup k es = some v := by
  induction es with
  | nil => simp at h
  | cons e rest ih =>
    rw [List.pairwise_cons] at hs
    rcases List.mem_cons.mp h with heq | hmem
    · subst heq
      simp [lookup]
    · have hlt : e.1 < k := hs.1 (k, v) hmem
      simp only [lookup, hlt.ne, if_false]
      exact ih hs.2 hmem

@[grind =] theorem mem_entries_iff : (k, v) ∈ m.entries ↔ m.get k = some v :=
  ⟨lookup_of_mem m.sorted, mem_of_lookup⟩

theorem mem_values_iff : v ∈ m.values ↔ ∃ k, m.get k = some v := by
  simp only [values, List.mem_map, Prod.exists, exists_eq_right, mem_entries_iff]

theorem keys_nodup (m : OrdMap K V) : m.keys.Nodup := by
  rw [keys, List.Nodup, List.pairwise_map]
  exact m.sorted.imp (fun h => h.ne)

theorem contains_eq_false_iff : m.contains k = false ↔ m.get k = none := by
  simp [contains]

theorem contains_eq_true_iff : m.contains k = true ↔ ∃ v, m.get k = some v := by
  simp [contains, Option.isSome_iff_exists]

@[simp, grind =] theorem get_empty (k : K) : (empty : OrdMap K V).get k = none := rfl

@[simp, grind =] theorem size_empty : (empty : OrdMap K V).size = 0 := rfl

/-- Two maps with the same lookups are the same map. -/
theorem ext_get {m' : OrdMap K V} (h : ∀ k, m.get k = m'.get k) : m = m' := by
  apply eq_of_entries
  have hperm : m.entries.Perm m'.entries := by
    refine (List.perm_ext_iff_of_nodup ?_ ?_).mpr ?_
    · exact m.sorted.imp (fun hlt heq => hlt.ne (congrArg Prod.fst heq))
    · exact m'.sorted.imp (fun hlt heq => hlt.ne (congrArg Prod.fst heq))
    · rintro ⟨k, v⟩
      rw [mem_entries_iff, mem_entries_iff, h k]
  exact hperm.eq_of_pairwise (fun a b _ _ hab hba => absurd hab hba.asymm) m.sorted m'.sorted

/-! ## Insertion -/

/-- Ordered insertion into an entry list, replacing the value of an equal key. -/
def insertEntry (k : K) (v : V) : List (K × V) → List (K × V)
  | [] => [(k, v)]
  | e :: rest =>
    if k < e.1 then (k, v) :: e :: rest
    else if k = e.1 then (k, v) :: rest
    else e :: insertEntry k v rest

theorem mem_insertEntry {e : K × V} (h : e ∈ insertEntry k v es) : e = (k, v) ∨ e ∈ es := by
  induction es with
  | nil => simpa [insertEntry] using h
  | cons head rest ih =>
    simp only [insertEntry] at h
    split at h
    · simpa using h
    · split at h
      · rcases List.mem_cons.mp h with heq | hmem
        · exact Or.inl heq
        · exact Or.inr (List.mem_cons_of_mem _ hmem)
      · rcases List.mem_cons.mp h with heq | hmem
        · exact Or.inr (by simp [heq])
        · rcases ih hmem with heq | hrest
          · exact Or.inl heq
          · exact Or.inr (List.mem_cons_of_mem _ hrest)

theorem insertEntry_sorted (hs : es.Pairwise (fun a b => a.1 < b.1)) :
    (insertEntry k v es).Pairwise (fun a b => a.1 < b.1) := by
  induction es with
  | nil => simp [insertEntry]
  | cons e rest ih =>
    have hs' := List.pairwise_cons.mp hs
    simp only [insertEntry]
    split
    · rename_i hlt
      refine List.pairwise_cons.mpr ⟨?_, hs⟩
      intro e' he'
      rcases List.mem_cons.mp he' with heq | hmem
      · rw [heq]; exact hlt
      · exact hlt.trans (hs'.1 e' hmem)
    · rename_i hnlt
      split
      · rename_i heq
        refine List.pairwise_cons.mpr ⟨?_, hs'.2⟩
        intro e' he'
        have hlt := hs'.1 e' he'
        rw [← heq] at hlt
        exact hlt
      · rename_i hne
        have hgt : e.1 < k := lt_of_le_of_ne (not_lt.mp hnlt) (Ne.symm hne)
        refine List.pairwise_cons.mpr ⟨?_, ih hs'.2⟩
        intro e' he'
        rcases mem_insertEntry he' with heq | hmem
        · rw [heq]; exact hgt
        · exact hs'.1 e' hmem

/-- Bind `k` to `v`, replacing an earlier binding. -/
def insert (m : OrdMap K V) (k : K) (v : V) : OrdMap K V :=
  ⟨insertEntry k v m.entries, insertEntry_sorted m.sorted⟩

theorem lookup_insertEntry (k k' : K) (v : V) (es : List (K × V)) :
    lookup k' (insertEntry k v es) = if k' = k then some v else lookup k' es := by
  induction es with
  | nil =>
    by_cases h : k = k'
    · simp [insertEntry, lookup, h]
    · simp [insertEntry, lookup, h, Ne.symm h]
  | cons e rest ih =>
    simp only [insertEntry]
    split
    · by_cases h : k = k'
      · simp [lookup, h]
      · simp [lookup, h, Ne.symm h]
    · split
      · rename_i heq
        by_cases h : k = k'
        · simp [lookup, h]
        · have hne : e.1 ≠ k' := heq ▸ h
          simp [lookup, h, Ne.symm h, hne]
      · rename_i hne
        simp only [lookup, ih]
        by_cases h : e.1 = k'
        · have hkk : k' ≠ k := fun hk => hne (by rw [h, hk])
          simp [h, hkk]
        · simp [h]

@[grind =] theorem get_insert (m : OrdMap K V) (k k' : K) (v : V) :
    (m.insert k v).get k' = if k' = k then some v else m.get k' :=
  lookup_insertEntry k k' v m.entries

@[simp] theorem get_insert_self (m : OrdMap K V) (k : K) (v : V) :
    (m.insert k v).get k = some v := by
  rw [get_insert, if_pos rfl]

variable {k' : K}

theorem get_insert_of_ne (m : OrdMap K V) (v : V) (h : k' ≠ k) :
    (m.insert k v).get k' = m.get k' := by
  rw [get_insert, if_neg h]

/-! ## Removal -/

/-- Keep the entries that satisfy `p`. -/
def retain (m : OrdMap K V) (p : K → V → Bool) : OrdMap K V :=
  ⟨m.entries.filter (fun e => p e.1 e.2), m.sorted.filter _⟩

/-- Remove the binding of `k`. -/
def erase (m : OrdMap K V) (k : K) : OrdMap K V :=
  m.retain (fun k' _ => decide (k' ≠ k))

@[grind =] theorem get_retain (m : OrdMap K V) (p : K → V → Bool) (k : K) :
    (m.retain p).get k = (m.get k).filter (p k) := by
  apply Option.ext
  intro v
  rw [← mem_entries_iff]
  simp only [retain, List.mem_filter, mem_entries_iff, Option.filter_eq_some_iff]

@[grind =] theorem get_erase (m : OrdMap K V) (k k' : K) :
    (m.erase k).get k' = if k' = k then none else m.get k' := by
  rw [erase, get_retain]
  by_cases h : k' = k
  · cases m.get k' <;> simp [h]
  · cases m.get k' <;> simp [h]

@[simp] theorem get_erase_self (m : OrdMap K V) (k : K) : (m.erase k).get k = none := by
  rw [get_erase, if_pos rfl]

theorem get_erase_of_ne (m : OrdMap K V) (h : k' ≠ k) : (m.erase k).get k' = m.get k' := by
  rw [get_erase, if_neg h]

/-- What an erased map still binds, the map binds. -/
theorem get_of_get_erase (h : (m.erase k).get k' = some v) : m.get k' = some v := by
  rw [get_erase] at h
  split at h
  · cases h
  · exact h

/-- Bind a key unless it is bound. -/
def insertAbsent (m : OrdMap K V) (k : K) (v : V) : OrdMap K V :=
  match m.get k with
  | none => m.insert k v
  | some _ => m

@[grind =] theorem get_insertAbsent (m : OrdMap K V) (k k' : K) (v : V) :
    (m.insertAbsent k v).get k' = if k' = k then some ((m.get k).getD v) else m.get k' := by
  unfold insertAbsent
  cases hget : m.get k with
  | none => rw [get_insert]; rfl
  | some w =>
    by_cases h : k' = k
    · rw [h, hget, if_pos rfl]; rfl
    · rw [if_neg h]

theorem contains_insert (m : OrdMap K V) (k k' : K) (v : V) :
    (m.insert k v).contains k' = true ↔ k' = k ∨ m.contains k' = true := by
  simp only [contains, get_insert]
  by_cases h : k' = k <;> simp [h]

theorem contains_erase (m : OrdMap K V) (k k' : K) :
    (m.erase k).contains k' = true ↔ k' ≠ k ∧ m.contains k' = true := by
  simp only [contains, get_erase]
  by_cases h : k' = k <;> simp [h]

theorem erase_of_get_none (h : m.get k = none) : m.erase k = m := by
  apply ext_get
  intro k'
  rw [get_erase]
  split
  · rename_i heq
    rw [heq, h]
  · rfl

@[simp, grind =] theorem insert_insert_self (m : OrdMap K V) (k : K) (v v' : V) :
    (m.insert k v).insert k v' = m.insert k v' := by
  apply ext_get
  intro k'
  simp only [get_insert]
  split <;> rfl

theorem insert_of_get (h : m.get k = some v) : m.insert k v = m := by
  apply ext_get
  intro k'
  rw [get_insert]
  split
  · rename_i heq
    rw [heq, h]
  · rfl

@[simp, grind =] theorem erase_insert_self (m : OrdMap K V) (k : K) (v : V) :
    (m.insert k v).erase k = m.erase k := by
  apply ext_get
  intro k'
  simp only [get_erase, get_insert]
  split <;> rfl

@[simp, grind =] theorem insert_erase_same (m : OrdMap K V) (k : K) (v : V) :
    (m.erase k).insert k v = m.insert k v := by
  apply ext_get
  intro k'
  simp only [get_erase, get_insert]
  split <;> rfl

/-- Every binding of the first map is one of the second. -/
def Sub (m m' : OrdMap K V) : Prop := ∀ k v, m.get k = some v → m'.get k = some v

theorem Sub.refl (m : OrdMap K V) : m.Sub m := fun _ _ h => h

theorem erase_sub (m : OrdMap K V) (k : K) : (m.erase k).Sub m := fun _ _ => get_of_get_erase

@[grind =] theorem mem_keys_iff : k ∈ m.keys ↔ ∃ v, m.get k = some v := by
  simp only [keys, List.mem_map, Prod.exists, exists_and_right, exists_eq_right, mem_entries_iff]

theorem retain_of_forall {p : K → V → Bool} (h : ∀ k v, m.get k = some v → p k v = true) :
    m.retain p = m := by
  apply eq_of_entries
  apply List.filter_eq_self.mpr
  rintro ⟨k, v⟩ hmem
  exact h k v (mem_entries_iff.mp hmem)

/-! ## Sizes and sums -/

/-- The sum of a weight over all entries. -/
def sumBy (m : OrdMap K V) (f : K → V → Nat) : Nat :=
  (m.entries.map (fun e => f e.1 e.2)).sum

theorem sum_insertEntry (f : K → V → Nat) (k : K) (v : V)
    (hs : es.Pairwise (fun a b => a.1 < b.1)) : ((insertEntry k v es).map (fun e => f e.1 e.2)).sum
        + ((lookup k es).map (f k)).getD 0
      = (es.map (fun e => f e.1 e.2)).sum + f k v := by
  induction es with
  | nil => simp [insertEntry, lookup]
  | cons e rest ih =>
    have hs' := List.pairwise_cons.mp hs
    simp only [insertEntry]
    split
    · rename_i hlt
      have hnone : lookup k (e :: rest) = none := by
        apply lookup_eq_none_of_forall_ne
        intro e' he'
        rcases List.mem_cons.mp he' with heq | hmem
        · rw [heq]; exact hlt.ne'
        · exact (hlt.trans (hs'.1 e' hmem)).ne'
      simp only [hnone, List.map_cons, List.sum_cons, Option.map_none, Option.getD_none]
      omega
    · split
      · rename_i heq
        simp only [lookup, ← heq, if_true, List.map_cons, List.sum_cons, Option.map_some,
          Option.getD_some]
        omega
      · rename_i hne
        have hih := ih hs'.2
        simp only [lookup, Ne.symm hne, if_false, List.map_cons, List.sum_cons]
        omega

/-- Insertion changes a sum by the new weight less the replaced one. -/
theorem sumBy_insert (m : OrdMap K V) (f : K → V → Nat) (k : K) (v : V) :
    (m.insert k v).sumBy f + ((m.get k).map (f k)).getD 0 = m.sumBy f + f k v :=
  sum_insertEntry f k v m.sorted

theorem size_eq_sumBy (m : OrdMap K V) : m.size = m.sumBy (fun _ _ => 1) := by
  simp [size, sumBy]

@[grind =] theorem size_insert_of_none (v : V) (h : m.get k = none) :
    (m.insert k v).size = m.size + 1 := by
  have hsum := m.sumBy_insert (fun _ _ => 1) k v
  rw [h] at hsum
  simpa [size_eq_sumBy] using hsum

theorem size_insert_of_some (v : V) {old : V} (h : m.get k = some old) :
    (m.insert k v).size = m.size := by
  have hsum := m.sumBy_insert (fun _ _ => 1) k v
  rw [h] at hsum
  simpa [size_eq_sumBy] using hsum

theorem size_retain_le (m : OrdMap K V) (p : K → V → Bool) : (m.retain p).size ≤ m.size :=
  List.length_filter_le _ _

/-- Reinserting an erased binding restores the map. -/
theorem insert_erase_self (h : m.get k = some v) : (m.erase k).insert k v = m := by
  apply ext_get
  intro k'
  rw [get_insert, get_erase]
  split
  · rename_i heq
    rw [heq, h]
  · rfl

theorem size_erase_of_some (h : m.get k = some v) : (m.erase k).size + 1 = m.size := by
  have hsize := size_insert_of_none (m := m.erase k) v (get_erase_self m k)
  rw [insert_erase_self h] at hsize
  exact hsize.symm

/-- Erasure lowers a sum by the weight of the erased entry. -/
theorem sumBy_erase (f : K → V → Nat) (h : m.get k = some v) :
    (m.erase k).sumBy f + f k v = m.sumBy f := by
  have hsum := sumBy_insert (m.erase k) f k v
  rw [insert_erase_self h, get_erase_self] at hsum
  exact hsum.symm

theorem size_eq_zero_iff : m.size = 0 ↔ m = empty := by
  constructor
  · intro h
    exact eq_of_entries (List.length_eq_zero_iff.mp h)
  · intro h
    rw [h, size_empty]

end OrdMap

/-- A finite set kept in increasing order. -/
abbrev OrdSet (K : Type) [LinearOrder K] : Type := OrdMap K Unit

end Gump.Foundation
