/-
  Foundation/JsonSize.lean --- how many bytes a JSON text has.

  The size of a value is that of its parts plus brackets, colons and commas, so it
  changes by as much as one part of it changes.  A byte string is an array of
  decimal numbers: each byte takes its digits and a separator.
-/
import Gump.Foundation.Serde
import Mathlib.Algebra.BigOperators.Group.List.Basic

set_option autoImplicit false

namespace Gump.Foundation

/-- The size of a bracketed list from the sizes of its items. -/
def bracketed : List Nat → Nat
  | [] => 2
  | sizes => 1 + (sizes.map (· + 1)).sum

theorem bracketed_cons (n : Nat) (rest : List Nat) :
    bracketed (n :: rest) = 2 + n + (rest.map (· + 1)).sum := by
  simp [bracketed]
  omega

/-- Brackets, the items and the commas between them. -/
theorem bracketed_eq (sizes : List Nat) : bracketed sizes = 2 + sizes.sum + (sizes.length - 1) := by
  cases sizes with
  | nil => rfl
  | cons n rest =>
    have hcommas : (rest.map (· + 1)).sum = rest.sum + rest.length := by
      induction rest with
      | nil => rfl
      | cons m rest ih =>
        simp only [List.map_cons, List.sum_cons, List.length_cons, ih]
        omega
    rw [bracketed_cons, hcommas, List.sum_cons, List.length_cons]
    omega

/-- A bracketed list grows with its items. -/
theorem bracketed_map_add {α : Type} (items : List α) (f g : α → Nat) :
    bracketed (items.map fun a => f a + g a) = bracketed (items.map f) + (items.map g).sum := by
  cases items with
  | nil => rfl
  | cons a rest =>
    have hrest : ((rest.map fun a => f a + g a).map (· + 1)).sum =
        ((rest.map f).map (· + 1)).sum + (rest.map g).sum := by
      induction rest with
      | nil => rfl
      | cons b rest ih =>
        simp only [List.map_cons, List.sum_cons, ih]
        omega
    simp only [List.map_cons, bracketed_cons, List.sum_cons, hrest]
    omega

theorem utf8ByteSize_intercalate_comma (item : String) (rest : List String) :
    (",".intercalate (item :: rest)).utf8ByteSize =
      item.utf8ByteSize + (rest.map (·.utf8ByteSize + 1)).sum := by
  induction rest generalizing item with
  | nil => simp [String.intercalate_singleton]
  | cons next rest ih =>
    have hcomma : ",".utf8ByteSize = 1 := by decide
    rw [String.intercalate_cons_cons, String.utf8ByteSize_append, String.utf8ByteSize_append, ih,
      hcomma, List.map_cons, List.sum_cons]
    omega

namespace SerdeValue

/-- A character that JSON writes as it is, in one byte. -/
def IsPlain (c : Char) : Prop := escapeChar c = [c] ∧ c.utf8Size = 1

theorem utf8ByteSize_of_plain {s : String} (h : ∀ c ∈ s.toList, IsPlain c) :
    s.utf8ByteSize = s.toList.length := by
  have hlen : ∀ cs : List Char, (∀ c ∈ cs, IsPlain c) → String.utf8Len cs = cs.length := by
    intro cs
    induction cs with
    | nil => exact fun _ => rfl
    | cons c rest ih =>
      intro hplain
      rw [List.forall_mem_cons] at hplain
      rw [String.utf8Len_cons, ih hplain.2, hplain.1.2, List.length_cons]
  rw [← hlen _ h, ← String.utf8ByteSize_ofList, String.ofList_toList]

theorem utf8ByteSize_quote {s : String} (h : ∀ c ∈ s.toList, IsPlain c) :
    (quote s).utf8ByteSize = s.toList.length + 2 := by
  have hlen : ∀ cs : List Char, (∀ c ∈ cs, IsPlain c) →
      String.utf8Len (cs.flatMap escapeChar ++ ['"']) = cs.length + 1 := by
    intro cs
    induction cs with
    | nil => exact fun _ => rfl
    | cons c rest ih =>
      intro hplain
      rw [List.forall_mem_cons] at hplain
      rw [List.flatMap_cons, hplain.1.1, List.singleton_append, List.cons_append,
        String.utf8Len_cons, ih hplain.2, hplain.1.2, List.length_cons]
  rw [quote, String.utf8ByteSize_ofList, List.cons_append, String.utf8Len_cons, hlen _ h]
  rfl

theorem utf8Len_escapeChar_le (c : Char) : String.utf8Len (escapeChar c) ≤ 6 * c.utf8Size := by
  have hpos := c.utf8Size_pos
  have hdigit : ∀ d < 16, (hexDigit d).utf8Size = 1 := by decide
  have htwo : ∀ d, d.utf8Size = 1 → String.utf8Len ['\\', d] = 2 := by
    intro d hd
    rw [String.utf8Len_cons, String.utf8Len_cons, hd]
    rfl
  unfold escapeChar
  split_ifs
  all_goals try
    rw [htwo _ (by decide)]
    omega
  · simp only [String.utf8Len_cons, String.utf8Len_nil, hdigit (c.toNat / 16) (by omega),
      hdigit (c.toNat % 16) (by omega)]
    have hplain : '\\'.utf8Size = 1 ∧ 'u'.utf8Size = 1 ∧ '0'.utf8Size = 1 := by decide
    omega
  · rw [String.utf8Len_cons, String.utf8Len_nil]
    omega

/-- Escapes make a text at most six times as long. -/
theorem utf8ByteSize_quote_le (s : String) :
    (quote s).utf8ByteSize ≤ 6 * s.utf8ByteSize + 2 := by
  have hlen : ∀ cs : List Char,
      String.utf8Len (cs.flatMap escapeChar ++ ['"']) ≤ 6 * String.utf8Len cs + 1 := by
    intro cs
    induction cs with
    | nil => exact Nat.le_refl 1
    | cons c rest ih =>
      have hc := utf8Len_escapeChar_le c
      rw [List.flatMap_cons, List.append_assoc, String.utf8Len_append, String.utf8Len_cons]
      omega
  have hs : s.utf8ByteSize = String.utf8Len s.toList := by
    rw [← String.utf8ByteSize_ofList, String.ofList_toList]
  have hquote : '"'.utf8Size = 1 := by decide
  have hbody := hlen s.toList
  rw [quote, String.utf8ByteSize_ofList, List.cons_append, String.utf8Len_cons, hquote, hs]
  omega

/-- The number of bytes of the JSON text of a value. -/
def size (v : SerdeValue) : Nat := v.render.utf8ByteSize

/-- The size of a member of an object. -/
def memberSize (field : String × SerdeValue) : Nat :=
  (quote field.1).utf8ByteSize + 1 + field.2.size

theorem utf8ByteSize_array (items : List String) :
    (array items).utf8ByteSize = bracketed (items.map (·.utf8ByteSize)) := by
  have hopen : "[".utf8ByteSize = 1 := by decide
  have hclose : "]".utf8ByteSize = 1 := by decide
  unfold array
  rw [String.utf8ByteSize_append, String.utf8ByteSize_append, hopen, hclose]
  cases items with
  | nil => rfl
  | cons item rest =>
    rw [utf8ByteSize_intercalate_comma, List.map_cons, bracketed_cons, List.map_map]
    simp only [Function.comp_def]
    omega

theorem utf8ByteSize_object (members : List (String × String)) :
    (object members).utf8ByteSize =
      bracketed (members.map fun m => m.1.utf8ByteSize + 1 + m.2.utf8ByteSize) := by
  have hopen : "\x7b".utf8ByteSize = 1 := by decide
  have hclose : "\x7d".utf8ByteSize = 1 := by decide
  have hcolon : ":".utf8ByteSize = 1 := by decide
  unfold object
  rw [String.utf8ByteSize_append, String.utf8ByteSize_append, hopen, hclose]
  cases members with
  | nil => rfl
  | cons m rest =>
    rw [List.map_cons, utf8ByteSize_intercalate_comma, List.map_cons, bracketed_cons,
      List.map_map, List.map_map]
    simp only [Function.comp_def, String.utf8ByteSize_append, hcolon]
    omega

theorem renderItems_eq (items : List SerdeValue) : renderItems items = items.map render := by
  induction items with
  | nil => rfl
  | cons v rest ih => rw [renderItems, ih, List.map_cons]

theorem renderFields_eq (fields : List (String × SerdeValue)) :
    renderFields fields = fields.map fun f => (quote f.1, f.2.render) := by
  induction fields with
  | nil => rfl
  | cons f rest ih => rw [renderFields, ih, List.map_cons]

theorem size_seq (items : List SerdeValue) : (seq items).size = bracketed (items.map size) := by
  rw [size, render, utf8ByteSize_array, renderItems_eq, List.map_map]
  rfl

theorem size_struct (fields : List (String × SerdeValue)) :
    (struct fields).size = bracketed (fields.map memberSize) := by
  rw [size, render, utf8ByteSize_object, renderFields_eq, List.map_map]
  rfl

theorem size_newtypeVariant (name : String) (value : SerdeValue) :
    (newtypeVariant name value).size = (quote name).utf8ByteSize + value.size + 3 := by
  rw [size, render, utf8ByteSize_object, List.map_singleton, bracketed_cons, List.map_nil,
    List.sum_nil, size]
  dsimp only
  omega

theorem size_structVariant (name : String) (fields : List (String × SerdeValue)) :
    (structVariant name fields).size =
      (quote name).utf8ByteSize + bracketed (fields.map memberSize) + 3 := by
  have hvariant : (structVariant name fields).render =
      (newtypeVariant name (struct fields)).render := by
    rw [render, render, render]
  rw [size, hvariant, ← size, size_newtypeVariant, size_struct]

/-! ## Byte strings -/

/-- The number of decimal digits of a byte. -/
def decimalDigits (b : UInt8) : Nat := if b < 10 then 1 else if b < 100 then 2 else 3

theorem size_int_byte (b : UInt8) : (int b.toNat).size = decimalDigits b := by
  have hall : ∀ n : Fin 256, (toString n.val).utf8ByteSize =
      decimalDigits (UInt8.ofNat n.val) := by decide +kernel
  have hb := hall ⟨b.toNat, b.toNat_lt⟩
  rw [UInt8.ofNat_toNat] at hb
  exact hb

/-- What the bytes of a byte string add to an empty array: their digits, and a
separator between them. -/
def decimalCost (bytes : List UInt8) : Nat := (bytes.map (decimalDigits · + 1)).sum - 1

theorem size_ofBytes (bytes : List UInt8) :
    (ofBytes bytes).size = (ofBytes []).size + decimalCost bytes := by
  have hsize : ∀ bytes : List UInt8,
      (ofBytes bytes).size = bracketed (bytes.map decimalDigits) := by
    intro bytes
    rw [ofBytes, size_seq, List.map_map]
    exact congrArg bracketed (List.map_congr_left fun b _ => size_int_byte b)
  rw [hsize, hsize, decimalCost]
  cases bytes with
  | nil => rfl
  | cons b rest =>
    rw [List.map_cons, bracketed_cons, List.map_map, List.map_cons, List.sum_cons]
    simp only [Function.comp_def, List.map_nil, bracketed]
    omega

theorem decimalCost_replicate (n : Nat) (b : UInt8) :
    decimalCost (List.replicate n b) = n * (decimalDigits b + 1) - 1 := by
  rw [decimalCost, List.map_replicate, List.sum_replicate_nat]

end SerdeValue

end Gump.Foundation
