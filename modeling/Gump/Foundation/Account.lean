/-
  Foundation/Account.lean --- what an observer of a numbered stream is told.

  An observer is told of items by their numbers and of gaps `[first, next)`.  An
  account reads the notices in order: every item is the next number, and every gap
  that is not empty starts at the next number and is followed by the item that it ends
  at.  What an account accepts tells of each number once (`explained_of_noteAll`).
-/
import Mathlib.Data.List.Induction
import Mathlib.Order.Basic

set_option autoImplicit false

namespace Gump.Foundation

inductive Notice where
  | item (n : Nat)
  | gap (first next : Nat)
  deriving DecidableEq, Repr

/-- The numbers of the items. -/
def items (notices : List Notice) : List Nat :=
  notices.filterMap fun
    | .item n => some n
    | .gap _ _ => none

/-- The gaps that a number lies in. -/
def gapsOver (n : Nat) (notices : List Notice) : List (Nat × Nat) :=
  notices.filterMap fun
    | .item _ => none
    | .gap first next => if first ≤ n ∧ n < next then some (first, next) else none

/-- A gap names all numbers between two items, or between the start and an item. -/
structure NamesHole (start : Nat) (told : List Nat) (gap : Nat × Nat) : Prop where
  from_item : gap.1 = start ∨ ∃ m ∈ told, gap.1 = m + 1
  to_item : gap.2 ∈ told
  no_item : ∀ m ∈ told, ¬ (gap.1 ≤ m ∧ m < gap.2)

/-- The items come in increasing order, and every number from the start on that is
missing below an item lies in exactly one gap, which names the missing numbers around
it. -/
structure Explained (start : Nat) (notices : List Notice) : Prop where
  increasing : (items notices).Pairwise (· < ·)
  missing : ∀ n, start ≤ n → n ∉ items notices → (∃ m ∈ items notices, n < m) →
    ∃ gap, gapsOver n notices = [gap] ∧ NamesHole start (items notices) gap

/-- How far an account has come: the next number, or the number of the item that the
last gap ends at. -/
inductive Account where
  | upTo (next : Nat)
  | announced (next : Nat)
  deriving DecidableEq, Repr

namespace Account

/-- The account after one more notice, unless the notice is out of order. -/
def note : Account → Notice → Option Account
  | .upTo k, .item n => if n = k then some (.upTo (n + 1)) else none
  | .upTo k, .gap first next =>
    if next ≤ first then some (.upTo k)
    else if first = k then some (.announced next) else none
  | .announced k, .item n => if n = k then some (.upTo (n + 1)) else none
  | .announced k, .gap first next => if next ≤ first then some (.announced k) else none

def noteAll (a : Account) (notices : List Notice) : Option Account :=
  notices.foldlM note a

theorem noteAll_concat {a a' : Account} {notices : List Notice} (x : Notice)
    (h : a.noteAll notices = some a') : a.noteAll (notices ++ [x]) = a'.note x := by
  simp only [noteAll, List.foldlM_append] at h ⊢
  rw [h]
  exact bind_pure (a'.note x)

theorem noteAll_concat_eq_some {a a' : Account} {notices : List Notice} {x : Notice}
    (h : a.noteAll (notices ++ [x]) = some a') :
    ∃ b, a.noteAll notices = some b ∧ b.note x = some a' := by
  cases hb : a.noteAll notices with
  | none =>
    simp only [noteAll, List.foldlM_append] at h hb
    rw [hb] at h
    cases h
  | some b => exact ⟨b, rfl, (noteAll_concat x hb).symm.trans h⟩

/-- An empty gap changes nothing. -/
theorem note_empty (a : Account) (n : Nat) : a.note (.gap n n) = some a := by
  cases a with
  | upTo k => exact if_pos (Nat.le_refl n)
  | announced k => exact if_pos (Nat.le_refl n)

end Account

/-! ## Notices up to a number -/

theorem items_concat_item (notices : List Notice) (n : Nat) :
    items (notices ++ [.item n]) = items notices ++ [n] :=
  List.filterMap_append

theorem items_concat_gap (notices : List Notice) (first next : Nat) :
    items (notices ++ [.gap first next]) = items notices :=
  List.filterMap_append.trans (List.append_nil _)

theorem gapsOver_concat_item (notices : List Notice) (n m : Nat) :
    gapsOver m (notices ++ [.item n]) = gapsOver m notices :=
  List.filterMap_append.trans (List.append_nil _)

variable {notices : List Notice}

theorem gapsOver_concat_of_not {first next m : Nat} (h : ¬ (first ≤ m ∧ m < next)) :
    gapsOver m (notices ++ [.gap first next]) = gapsOver m notices := by
  simp [gapsOver, h]

theorem gapsOver_concat {first next m : Nat} (h : first ≤ m ∧ m < next) :
    gapsOver m (notices ++ [.gap first next]) = gapsOver m notices ++ [(first, next)] := by
  simp [gapsOver, h]

/-- The notices tell of every number from the start up to `k`, and of no other. -/
structure ToldUpTo (start : Nat) (notices : List Notice) (k : Nat) : Prop where
  increasing : (items notices).Pairwise (· < ·)
  below : ∀ m ∈ items notices, m < k
  reached : k = start ∨ ∃ m ∈ items notices, k = m + 1
  missing : ∀ n, start ≤ n → n < k → n ∉ items notices →
    ∃ gap, gapsOver n notices = [gap] ∧ NamesHole start (items notices) gap
  beyond : ∀ n, k ≤ n → gapsOver n notices = []

namespace ToldUpTo

variable {start k : Nat} {notices : List Notice}

theorem nil (start : Nat) : ToldUpTo start [] start where
  increasing := List.Pairwise.nil
  below _ h := absurd h List.not_mem_nil
  reached := .inl rfl
  missing _ hstart hlt _ := absurd hstart (Nat.not_le.mpr hlt)
  beyond _ _ := rfl

theorem explained (h : ToldUpTo start notices k) : Explained start notices where
  increasing := h.increasing
  missing n hstart hmissing := fun ⟨m, hm, hlt⟩ =>
    h.missing n hstart (Nat.lt_trans hlt (h.below m hm)) hmissing

theorem empty (h : ToldUpTo start notices k) {first next : Nat} (hempty : next ≤ first) :
    ToldUpTo start (notices ++ [.gap first next]) k := by
  have hgaps : ∀ n, gapsOver n (notices ++ [.gap first next]) = gapsOver n notices :=
    fun n => gapsOver_concat_of_not fun ⟨hfirst, hnext⟩ => by omega
  refine ⟨?_, ?_, ?_, ?_, ?_⟩
  · rw [items_concat_gap]; exact h.increasing
  · rw [items_concat_gap]; exact h.below
  · rw [items_concat_gap]; exact h.reached
  · simp only [items_concat_gap, hgaps]; exact h.missing
  · simp only [hgaps]; exact h.beyond

variable {n : Nat}

/-- An item beyond the numbers told of so far ends no hole but its own. -/
theorem namesHole_concat (h : ToldUpTo start notices k) {gap : Nat × Nat}
    (hgap : NamesHole start (items notices) gap) (hn : k ≤ n) :
    NamesHole start (items notices ++ [n]) gap := by
  refine ⟨?_, List.mem_append_left _ hgap.to_item, ?_⟩
  · refine hgap.from_item.imp_right ?_
    rintro ⟨m, hm, heq⟩
    exact ⟨m, List.mem_append_left _ hm, heq⟩
  · intro m hm hin
    rcases List.mem_append.mp hm with hm | hm
    · exact hgap.no_item m hm hin
    · have hlast := h.below _ hgap.to_item
      have heq := List.mem_singleton.mp hm
      omega

theorem increasing_concat (h : ToldUpTo start notices k) (hn : k ≤ n) :
    (items notices ++ [n]).Pairwise (· < ·) := by
  refine List.pairwise_append.mpr ⟨h.increasing, List.pairwise_singleton _ _, ?_⟩
  intro m hm n' hn'
  rw [List.mem_singleton.mp hn']
  exact Nat.lt_of_lt_of_le (h.below m hm) hn

theorem below_concat (h : ToldUpTo start notices k) (hn : k ≤ n) :
    ∀ m ∈ items notices ++ [n], m < n + 1 := by
  intro m hm
  rcases List.mem_append.mp hm with hm | hm
  · exact Nat.lt_succ_of_le (Nat.le_of_lt (Nat.lt_of_lt_of_le (h.below m hm) hn))
  · rw [List.mem_singleton.mp hm]
    exact Nat.lt_succ_self n

/-- The next item. -/
theorem item (h : ToldUpTo start notices k) : ToldUpTo start (notices ++ [.item k]) (k + 1) := by
  refine ⟨?_, ?_, .inr ⟨k, ?_, rfl⟩, ?_, ?_⟩
  · rw [items_concat_item]
    exact h.increasing_concat (Nat.le_refl k)
  · rw [items_concat_item]
    exact h.below_concat (Nat.le_refl k)
  · rw [items_concat_item]
    exact List.mem_append_right _ List.mem_cons_self
  · simp only [items_concat_item, gapsOver_concat_item]
    intro n hstart hlt hmissing
    rw [List.mem_append, List.mem_singleton, not_or] at hmissing
    obtain ⟨gap, hgaps, hgap⟩ := h.missing n hstart (by omega) hmissing.1
    exact ⟨gap, hgaps, h.namesHole_concat hgap (Nat.le_refl k)⟩
  · intro n hn
    rw [gapsOver_concat_item]
    exact h.beyond n (Nat.le_of_succ_le hn)

end ToldUpTo

/-- The notices tell of every number from the start up to `k`; then a gap follows that
ends at `next`, and no item yet. -/
structure ToldWithGap (start : Nat) (notices : List Notice) (next : Nat) : Prop where
  gap : ∃ k told, k < next ∧ ToldUpTo start told k ∧ items notices = items told ∧
    ∀ n, gapsOver n notices = gapsOver n (told ++ [.gap k next])

namespace ToldWithGap

variable {start next : Nat} {notices : List Notice}

theorem explained (h : ToldWithGap start notices next) : Explained start notices := by
  obtain ⟨k, told, hlt, htold, hitems, hgaps⟩ := h.gap
  refine ⟨hitems ▸ htold.increasing, ?_⟩
  rw [hitems]
  rintro n hstart hmissing ⟨m, hm, hnm⟩
  have hnk : n < k := Nat.lt_trans hnm (htold.below m hm)
  rw [hgaps, gapsOver_concat_of_not fun hin => Nat.not_le.mpr hnk hin.1]
  exact htold.missing n hstart hnk hmissing

theorem empty (h : ToldWithGap start notices next) {first last : Nat} (hempty : last ≤ first) :
    ToldWithGap start (notices ++ [.gap first last]) next := by
  obtain ⟨k, told, hlt, htold, hitems, hgaps⟩ := h.gap
  refine ⟨k, told, hlt, htold, ?_, ?_⟩
  · rw [items_concat_gap]; exact hitems
  · intro n
    rw [gapsOver_concat_of_not fun ⟨hfirst, hnext⟩ => by omega]
    exact hgaps n

/-- The item that the gap ends at. -/
theorem item (h : ToldWithGap start notices next) :
    ToldUpTo start (notices ++ [.item next]) (next + 1) := by
  obtain ⟨k, told, hlt, htold, hitems, hgaps⟩ := h.gap
  have hle : k ≤ next := Nat.le_of_lt hlt
  have hown : NamesHole start (items told ++ [next]) (k, next) := by
    refine ⟨?_, List.mem_append_right _ List.mem_cons_self, ?_⟩
    · refine htold.reached.imp_right ?_
      rintro ⟨m, hm, heq⟩
      exact ⟨m, List.mem_append_left _ hm, heq⟩
    · intro m hm hin
      rcases List.mem_append.mp hm with hm | hm
      · exact Nat.not_lt.mpr hin.1 (htold.below m hm)
      · exact Nat.lt_irrefl next (List.mem_singleton.mp hm ▸ hin.2)
  have hgaps' : ∀ n, gapsOver n (notices ++ [.item next]) = gapsOver n (told ++ [.gap k next]) :=
    fun n => (gapsOver_concat_item _ _ _).trans (hgaps n)
  have hitems' : items (notices ++ [.item next]) = items told ++ [next] := by
    rw [items_concat_item, hitems]
  refine ⟨?_, ?_, .inr ⟨next, ?_, rfl⟩, ?_, ?_⟩
  · rw [hitems']
    exact htold.increasing_concat hle
  · rw [hitems']
    exact htold.below_concat hle
  · rw [hitems']
    exact List.mem_append_right _ List.mem_cons_self
  · rw [hitems']
    intro n hstart hn hmissing
    rw [List.mem_append, List.mem_singleton, not_or] at hmissing
    rw [hgaps']
    by_cases hnk : n < k
    · rw [gapsOver_concat_of_not fun hin => Nat.not_le.mpr hnk hin.1]
      obtain ⟨gap, hgap, hnames⟩ := htold.missing n hstart hnk hmissing.1
      exact ⟨gap, hgap, htold.namesHole_concat hnames hle⟩
    · rw [gapsOver_concat ⟨Nat.not_lt.mp hnk, by omega⟩, htold.beyond n (Nat.not_lt.mp hnk)]
      exact ⟨(k, next), rfl, hown⟩
  · intro n hn
    rw [hgaps', gapsOver_concat_of_not fun hin => by omega]
    exact htold.beyond n (by omega)

end ToldWithGap

/-! ## Accounts -/

/-- What an account has accepted. -/
def Account.Holds (start : Nat) (notices : List Notice) : Account → Prop
  | .upTo k => ToldUpTo start notices k
  | .announced next => ToldWithGap start notices next

variable {start : Nat} {a : Account}

theorem Account.Holds.note {a' : Account} {x : Notice} (h : a.Holds start notices)
    (hnote : a.note x = some a') : a'.Holds start (notices ++ [x]) := by
  cases a with
  | upTo k =>
    cases x with
    | item n =>
      simp only [Account.note] at hnote
      split_ifs at hnote with hn
      cases hnote
      subst hn
      exact ToldUpTo.item h
    | gap first next =>
      simp only [Account.note] at hnote
      split_ifs at hnote with hempty hfirst
      · cases hnote
        exact ToldUpTo.empty h hempty
      · cases hnote
        subst hfirst
        exact ⟨first, notices, Nat.not_le.mp hempty, h, items_concat_gap _ _ _, fun _ => rfl⟩
  | announced k =>
    cases x with
    | item n =>
      simp only [Account.note] at hnote
      split_ifs at hnote with hn
      cases hnote
      subst hn
      exact ToldWithGap.item h
    | gap first next =>
      simp only [Account.note] at hnote
      split_ifs at hnote with hempty
      cases hnote
      exact ToldWithGap.empty h hempty

theorem Account.holds_of_noteAll (h : (Account.upTo start).noteAll notices = some a) :
    a.Holds start notices := by
  induction notices using List.reverseRecOn generalizing a with
  | nil =>
    cases h
    exact ToldUpTo.nil start
  | append_singleton notices x ih =>
    obtain ⟨b, hb, hnote⟩ := Account.noteAll_concat_eq_some h
    exact (ih hb).note hnote

/-- An account from the start accepts only notices that tell of each number once. -/
theorem explained_of_noteAll (h : (Account.upTo start).noteAll notices = some a) :
    Explained start notices := by
  have hholds := Account.holds_of_noteAll h
  cases a with
  | upTo k => exact ToldUpTo.explained hholds
  | announced next => exact ToldWithGap.explained hholds

end Gump.Foundation
