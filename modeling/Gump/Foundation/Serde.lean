/-
  Foundation/Serde.lean --- the serde data model and its JSON encoding.

  A serializer sees a value as one of a few shapes.  JSON has text keys only: a
  map is encodable if each of its keys has a scalar shape, which the encoder
  writes as text; a map with another key is an error unless it is empty.  The
  encoder itself is a parameter, `SerdeJson`, that is assumed to fail on exactly
  the values that are not encodable.  `SerdeJson.compact` is one.
-/
import Gump.Foundation.OrdMap
import Gump.Foundation.Words
import Mathlib.Data.String.Basic

set_option autoImplicit false

namespace Gump.Foundation

/-- A value as a serializer sees it. -/
inductive SerdeValue where
  /-- An absent option. -/
  | null
  | bool (b : Bool)
  | int (n : Nat)
  | str (s : String)
  | unitVariant (name : String)
  | newtypeVariant (name : String) (value : SerdeValue)
  | structVariant (name : String) (fields : List (String × SerdeValue))
  /-- Sequences, sets, tuples and arrays. -/
  | seq (items : List SerdeValue)
  | struct (fields : List (String × SerdeValue))
  | map (entries : List (SerdeValue × SerdeValue))

namespace SerdeValue

/-- The shapes that a JSON encoder writes as text when they are map keys. -/
def isKey : SerdeValue → Bool
  | bool _ | int _ | str _ | unitVariant _ => true
  | _ => false

mutual

/-- Whether JSON can hold the value: every map inside it has scalar keys. -/
def encodable : SerdeValue → Bool
  | null | bool _ | int _ | str _ | unitVariant _ => true
  | newtypeVariant _ value => value.encodable
  | structVariant _ fields => encodableFields fields
  | seq items => encodableItems items
  | struct fields => encodableFields fields
  | map entries => encodableEntries entries

def encodableItems : List SerdeValue → Bool
  | [] => true
  | v :: rest => v.encodable && encodableItems rest

def encodableFields : List (String × SerdeValue) → Bool
  | [] => true
  | (_, v) :: rest => v.encodable && encodableFields rest

def encodableEntries : List (SerdeValue × SerdeValue) → Bool
  | [] => true
  | (k, v) :: rest => k.isKey && v.encodable && encodableEntries rest

end

/-! ## JSON text -/

/-- A character inside a JSON string. -/
def escapeChar (c : Char) : List Char :=
  if c = '"' then ['\\', '"']
  else if c = '\\' then ['\\', '\\']
  else if c = '\n' then ['\\', 'n']
  else if c = '\r' then ['\\', 'r']
  else if c = '\t' then ['\\', 't']
  else if c.toNat = 8 then ['\\', 'b']
  else if c.toNat = 12 then ['\\', 'f']
  else if c.toNat < 32 then ['\\', 'u', '0', '0', hexDigit (c.toNat / 16), hexDigit (c.toNat % 16)]
  else [c]

/-- A JSON string. -/
def quote (s : String) : String :=
  String.ofList ('"' :: s.toList.flatMap escapeChar ++ ['"'])

/-- A JSON object from keys and values that are already text. -/
def object (members : List (String × String)) : String :=
  "\x7b" ++ ",".intercalate (members.map (fun m => m.1 ++ ":" ++ m.2)) ++ "\x7d"

/-- A JSON array from items that are already text. -/
def array (items : List String) : String := "[" ++ ",".intercalate items ++ "]"

/-- A map key as text. -/
def keyText : SerdeValue → String
  | bool b => quote (toString b)
  | int n => quote (toString n)
  | str s => quote s
  | unitVariant name => quote name
  | _ => quote ""

mutual

/-- The compact JSON text of a value; it stands in for what serde_json prints. -/
def render : SerdeValue → String
  | null => "null"
  | bool b => toString b
  | int n => toString n
  | str s => quote s
  | unitVariant name => quote name
  | newtypeVariant name value => object [(quote name, value.render)]
  | structVariant name fields => object [(quote name, object (renderFields fields))]
  | seq items => array (renderItems items)
  | struct fields => object (renderFields fields)
  | map entries => object (renderEntries entries)

def renderItems : List SerdeValue → List String
  | [] => []
  | v :: rest => v.render :: renderItems rest

def renderFields : List (String × SerdeValue) → List (String × String)
  | [] => []
  | (name, v) :: rest => (quote name, v.render) :: renderFields rest

def renderEntries : List (SerdeValue × SerdeValue) → List (String × String)
  | [] => []
  | (k, v) :: rest => (k.keyText, v.render) :: renderEntries rest

end

end SerdeValue

/-- What is assumed of the JSON encoder: it fails on exactly the values that JSON
cannot hold. -/
class SerdeJson where
  toVec : SerdeValue → Except String (List UInt8)
  ok_iff : ∀ v, (toVec v).isOk = true ↔ v.encodable = true

/-- The compact encoder. -/
@[reducible] def SerdeJson.compact : SerdeJson where
  toVec v :=
    if v.encodable then .ok v.render.toUTF8.data.toList
    else .error "key must be a string"
  ok_iff v := by
    cases h : v.encodable <;> simp [Except.isOk, Except.toBool]

namespace SerdeValue

/-! ## Encodable values -/

theorem encodableItems_iff {items : List SerdeValue} :
    encodableItems items = true ↔ ∀ v ∈ items, v.encodable = true := by
  induction items with
  | nil => simp [encodableItems]
  | cons v rest ih => simp [encodableItems, ih]

theorem encodableEntries_iff {entries : List (SerdeValue × SerdeValue)} :
    encodableEntries entries = true ↔ ∀ e ∈ entries, e.1.isKey = true ∧ e.2.encodable = true := by
  induction entries with
  | nil => simp [encodableEntries]
  | cons e rest ih =>
    obtain ⟨k, v⟩ := e
    simp [encodableEntries, ih]

/-! ## Values of the library types -/

/-- An option: the value itself, or null. -/
def ofOption {α : Type} (f : α → SerdeValue) : Option α → SerdeValue
  | none => null
  | some a => f a

/-- A byte string, as a sequence of numbers. -/
def ofBytes (bytes : List UInt8) : SerdeValue := seq (bytes.map (fun b => int b.toNat))

/-- An ordered map. -/
def ofMap {K V : Type} [LinearOrder K] (key : K → SerdeValue) (value : V → SerdeValue)
    (m : OrdMap K V) : SerdeValue :=
  map (m.entries.map (fun e => (key e.1, value e.2)))

/-- An ordered set. -/
def ofSet {K : Type} [LinearOrder K] (key : K → SerdeValue) (s : OrdSet K) : SerdeValue :=
  seq (s.keys.map key)

theorem encodable_ofOption {α : Type} {f : α → SerdeValue} (h : ∀ a, (f a).encodable = true)
    (o : Option α) : (ofOption f o).encodable = true := by
  cases o with
  | none => rfl
  | some a => exact h a

theorem encodable_ofBytes (bytes : List UInt8) : (ofBytes bytes).encodable = true := by
  refine encodableItems_iff.mpr (fun v hv => ?_)
  obtain ⟨b, _, rfl⟩ := List.mem_map.mp hv
  rfl

theorem encodable_ofSet {K : Type} [LinearOrder K] {key : K → SerdeValue}
    (h : ∀ k, (key k).encodable = true) (s : OrdSet K) : (ofSet key s).encodable = true := by
  refine encodableItems_iff.mpr (fun v hv => ?_)
  obtain ⟨k, _, rfl⟩ := List.mem_map.mp hv
  exact h k

theorem encodable_ofMap {K V : Type} [LinearOrder K] (key : K → SerdeValue) (value : V → SerdeValue)
    (hkey : ∀ k, (key k).isKey = true) (hvalue : ∀ v, (value v).encodable = true) (m : OrdMap K V) :
    (ofMap key value m).encodable = true := by
  refine encodableEntries_iff.mpr (fun e he => ?_)
  obtain ⟨entry, _, rfl⟩ := List.mem_map.mp he
  exact ⟨hkey entry.1, hvalue entry.2⟩

/-- A map whose keys have no scalar shape is encodable only if it is empty. -/
theorem encodable_ofMap_iff_empty {K V : Type} [LinearOrder K] (key : K → SerdeValue)
    (value : V → SerdeValue) (hkey : ∀ k, (key k).isKey = false) (m : OrdMap K V) :
    (ofMap key value m).encodable = true ↔ m = OrdMap.empty := by
  constructor
  · intro h
    refine OrdMap.eq_of_entries (List.eq_nil_iff_forall_not_mem.mpr (fun e he => ?_))
    have hscalar := (encodableEntries_iff.mp h _ (List.mem_map.mpr ⟨e, he, rfl⟩)).1
    rw [hkey e.1] at hscalar
    cases hscalar
  · intro h
    rw [h]
    rfl

end SerdeValue

end Gump.Foundation
