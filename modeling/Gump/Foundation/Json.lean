/-
  Foundation/Json.lean --- JSON texts as trees and as values.

  `Json` is the tree of a text: the members of an object stand in the order of the
  text and a key may be there twice.  `Value` is what a program holds: a tree whose
  objects have each key once, in key order.  A tree is read as a value by keeping the
  last member of each key (`Value.ofJson`), and the objects among the values are
  exactly the ordered maps (`Value.object`, `Value.asObject`).

  The reader of texts is a parameter.  What is assumed of it is local to one tree: it
  reads back the text of that tree, up to what it makes of floating point numbers,
  unless the tree nests beyond its recursion limit.
-/
import Gump.Foundation.JsonSize

set_option autoImplicit false

namespace Gump.Foundation

/-! ## Maps from lists of members -/

namespace OrdMap

variable {K V W : Type} [LinearOrder K]

/-- The map of a list of entries, of which the last one for a key counts. -/
def ofList (es : List (K × V)) : OrdMap K V := es.foldl (fun m e => m.insert e.1 e.2) empty

/-- The map with its values mapped. -/
def mapValues (f : V → W) (m : OrdMap K V) : OrdMap K W :=
  ⟨m.entries.map fun e => (e.1, f e.2), by
    rw [List.pairwise_map]
    exact m.sorted⟩

@[simp] theorem entries_mapValues (f : V → W) (m : OrdMap K V) :
    (m.mapValues f).entries = m.entries.map fun e => (e.1, f e.2) := rfl

private theorem get_foldl_insert {k : K} (es : List (K × V)) (hnodup : (es.map Prod.fst).Nodup) :
    ∀ m : OrdMap K V, (es.foldl (fun m e => m.insert e.1 e.2) m).get k =
      (lookup k es).or (m.get k) := by
  induction es with
  | nil => exact fun m => rfl
  | cons e rest ih =>
    intro m
    rw [List.map_cons, List.nodup_cons] at hnodup
    rw [List.foldl_cons, ih hnodup.2, get_insert, lookup]
    by_cases hk : e.1 = k
    · -- The key does not come again, so the entry that was just written stays.
      have hrest : lookup k rest = none := by
        refine lookup_eq_none_of_forall_ne fun e' he' heq => hnodup.1 ?_
        rw [hk, ← heq]
        exact List.mem_map_of_mem he'
      simp only [hk, hrest, if_true, Option.none_or, Option.some_or]
    · simp only [hk, Ne.symm hk, if_false]

variable {es : List (K × V)}

/-- With each key once, the map looks up what the list does. -/
theorem get_ofList (hnodup : (es.map Prod.fst).Nodup) (k : K) :
    (ofList es).get k = lookup k es := by
  rw [ofList, get_foldl_insert es hnodup, get_empty, Option.or_none]

theorem lookup_of_mem_of_nodup {k : K} {v : V} (hnodup : (es.map Prod.fst).Nodup)
    (h : (k, v) ∈ es) : lookup k es = some v := by
  induction es with
  | nil => cases h
  | cons e rest ih =>
    rw [List.map_cons, List.nodup_cons] at hnodup
    rcases List.mem_cons.mp h with rfl | hmem
    · rw [lookup, if_pos rfl]
    · have hne : e.1 ≠ k := by
        rintro rfl
        exact hnodup.1 (List.mem_map.mpr ⟨_, hmem, rfl⟩)
      rw [lookup, if_neg hne, ih hnodup.2 hmem]

theorem ofList_entries (m : OrdMap K V) : ofList m.entries = m :=
  ext_get fun k => get_ofList m.keys_nodup k

variable {e : K × V}

private theorem mem_foldl_insert (es : List (K × V)) :
    ∀ m : OrdMap K V, e ∈ (es.foldl (fun m e => m.insert e.1 e.2) m).entries →
      e ∈ es ∨ e ∈ m.entries := by
  induction es with
  | nil => exact fun m h => .inr h
  | cons e' rest ih =>
    intro m h
    rcases ih _ h with hrest | hmap
    · exact .inl (List.mem_cons_of_mem _ hrest)
    · rcases mem_insertEntry hmap with rfl | hold
      · exact .inl List.mem_cons_self
      · exact .inr hold

theorem mem_of_mem_ofList (h : e ∈ (ofList es).entries) : e ∈ es :=
  (mem_foldl_insert es empty h).elim id (by simp [empty])

/-- The fields that are there. -/
def present (fields : List (K × Option V)) : List (K × V) :=
  fields.filterMap fun f => f.2.map (f.1, ·)

variable {fields : List (K × Option V)}

omit [LinearOrder K] in
theorem mem_present : e ∈ present fields ↔ (e.1, some e.2) ∈ fields := by
  simp only [present, List.mem_filterMap, Option.map_eq_some_iff]
  constructor
  · rintro ⟨⟨k, o⟩, hf, v, rfl, rfl⟩
    exact hf
  · intro h
    exact ⟨_, h, e.2, rfl, rfl⟩

omit [LinearOrder K] in
theorem nodup_present (h : (fields.map Prod.fst).Nodup) :
    ((present fields).map Prod.fst).Nodup := by
  refine h.sublist ?_
  induction fields with
  | nil => exact List.Sublist.refl _
  | cons f rest ih =>
    have hrest := ih (List.nodup_cons.mp h).2
    obtain ⟨k, _ | v⟩ := f
    · exact hrest.cons _
    · exact hrest.cons_cons _

/-- The map of the fields that are there binds each of them, and nothing else. -/
theorem get_ofList_present (h : (fields.map Prod.fst).Nodup) {k : K} {v : V} :
    (ofList (present fields)).get k = some v ↔ (k, some v) ∈ fields := by
  rw [get_ofList (nodup_present h), ← mem_present (e := (k, v))]
  exact ⟨mem_of_lookup, lookup_of_mem_of_nodup (nodup_present h)⟩

/-- A map is that of its fields when it binds each field that is there, does not bind
one that is not, and binds nothing else. -/
theorem eq_ofList_present_iff (h : (fields.map Prod.fst).Nodup) {m : OrdMap K V} :
    m = ofList (present fields) ↔
      (∀ f ∈ fields, m.get f.1 = f.2) ∧ ∀ k ∈ m.keys, k ∈ fields.map Prod.fst := by
  have hfield : ∀ f ∈ fields, (ofList (present fields)).get f.1 = f.2 := by
    rintro ⟨k, o⟩ hf
    refine Option.ext fun v => ?_
    rw [get_ofList_present h]
    have hlookup := lookup_of_mem_of_nodup h hf
    constructor
    · intro hv
      exact Option.some.inj (hlookup.symm.trans (lookup_of_mem_of_nodup h hv))
    · rintro rfl
      exact hf
  constructor
  · rintro rfl
    refine ⟨hfield, fun k hk => ?_⟩
    obtain ⟨v, hv⟩ := mem_keys_iff.mp hk
    exact List.mem_map.mpr ⟨_, (get_ofList_present h).mp hv, rfl⟩
  · rintro ⟨hget, hkeys⟩
    refine ext_get fun k => ?_
    by_cases hk : k ∈ fields.map Prod.fst
    · obtain ⟨f, hf, rfl⟩ := List.mem_map.mp hk
      rw [hget f hf, hfield f hf]
    · have hnone : m.get k = none := Option.eq_none_iff_forall_ne_some.mpr fun v hv =>
        hk (hkeys k (mem_keys_iff.mpr ⟨v, hv⟩))
      rw [hnone, eq_comm]
      refine Option.eq_none_iff_forall_ne_some.mpr fun v hv => hk ?_
      exact List.mem_map.mpr ⟨_, (get_ofList_present h).mp hv, rfl⟩

end OrdMap

/-! ## Trees -/

inductive Json where
  | null
  | bool (b : Bool)
  | int (n : Int)
  /-- A floating point number, by the text it is written as. -/
  | float (text : String)
  | str (s : String)
  | arr (items : List Json)
  /-- The members in the order of the text. -/
  | obj (members : List (String × Json))

namespace Json

/-- Induction over trees: the items of an array and the members of an object are
smaller. -/
theorem induct {P : Json → Prop} (null : P null) (bool : ∀ b, P (bool b)) (int : ∀ n, P (int n))
    (float : ∀ text, P (float text)) (str : ∀ s, P (str s))
    (arr : ∀ items, (∀ v ∈ items, P v) → P (arr items))
    (obj : ∀ members, (∀ m ∈ members, P m.2) → P (obj members)) (v : Json) : P v :=
  @Json.rec P (fun items => ∀ v ∈ items, P v) (fun members => ∀ m ∈ members, P m.2) (fun m => P m.2)
    null bool int float str arr obj
    (fun _ h => absurd h List.not_mem_nil)
    (fun _ _ hhead htail => List.forall_mem_cons.mpr ⟨hhead, htail⟩)
    (fun _ h => absurd h List.not_mem_nil)
    (fun _ _ hhead htail => List.forall_mem_cons.mpr ⟨hhead, htail⟩)
    (fun _ _ h => h) v

mutual

/-- The compact text of a tree; it stands in for what serde_json prints. -/
def render : Json → String
  | null => "null"
  | bool b => toString b
  | int n => toString n
  | float text => text
  | str s => SerdeValue.quote s
  | arr items => SerdeValue.array (renderItems items)
  | obj members => SerdeValue.object (renderMembers members)

def renderItems : List Json → List String
  | [] => []
  | v :: rest => v.render :: renderItems rest

def renderMembers : List (String × Json) → List (String × String)
  | [] => []
  | (name, v) :: rest => (SerdeValue.quote name, v.render) :: renderMembers rest

end

/-- The bytes of the text. -/
def bytes (v : Json) : List UInt8 := v.render.toUTF8.data.toList

/-- The number of bytes of the text. -/
def size (v : Json) : Nat := v.render.utf8ByteSize

/-- The size of a member of an object. -/
def memberSize (m : String × Json) : Nat := (SerdeValue.quote m.1).utf8ByteSize + 1 + m.2.size

theorem length_bytes (v : Json) : v.bytes.length = v.size := by
  rw [bytes, Array.length_toList]
  rfl

theorem renderItems_eq (items : List Json) : renderItems items = items.map render := by
  induction items with
  | nil => rfl
  | cons v rest ih => rw [renderItems, ih, List.map_cons]

theorem renderMembers_eq (members : List (String × Json)) :
    renderMembers members = members.map fun m => (SerdeValue.quote m.1, m.2.render) := by
  induction members with
  | nil => rfl
  | cons m rest ih => rw [renderMembers, ih, List.map_cons]

theorem size_arr (items : List Json) : (arr items).size = bracketed (items.map size) := by
  rw [size, render, SerdeValue.utf8ByteSize_array, renderItems_eq, List.map_map]
  rfl

theorem size_obj (members : List (String × Json)) :
    (obj members).size = bracketed (members.map memberSize) := by
  rw [size, render, SerdeValue.utf8ByteSize_object, renderMembers_eq, List.map_map]
  rfl

/-! ## Depth -/

mutual

/-- The depth of the deepest part of a tree that is itself at a depth.  The depth of a
container counts only when the container is empty: a part of it is deeper. -/
def maxDepth : Json → Nat → Nat
  | arr items, depth => maxDepthItems items depth
  | obj members, depth => maxDepthMembers members depth
  | null, depth | bool _, depth | int _, depth | float _, depth | str _, depth => depth

def maxDepthItems : List Json → Nat → Nat
  | [], depth => depth
  | v :: rest, depth => max (v.maxDepth (depth + 1)) (maxDepthItems rest depth)

def maxDepthMembers : List (String × Json) → Nat → Nat
  | [], depth => depth
  | (_, v) :: rest, depth => max (v.maxDepth (depth + 1)) (maxDepthMembers rest depth)

/-- How many containers are inside one another. -/
def nesting : Json → Nat
  | arr items => nestingItems items + 1
  | obj members => nestingMembers members + 1
  | null | bool _ | int _ | float _ | str _ => 0

def nestingItems : List Json → Nat
  | [] => 0
  | v :: rest => max v.nesting (nestingItems rest)

def nestingMembers : List (String × Json) → Nat
  | [] => 0
  | (_, v) :: rest => max v.nesting (nestingMembers rest)

end

/-- How deep a tree is. -/
def depth (v : Json) : Nat := v.maxDepth 0

variable {items : List Json} {n : Nat}

theorem maxDepthItems_le_iff {d : Nat} :
    maxDepthItems items d ≤ n ↔ d ≤ n ∧ ∀ v ∈ items, v.maxDepth (d + 1) ≤ n := by
  induction items with
  | nil => simp [maxDepthItems]
  | cons v rest ih =>
    simp only [maxDepthItems, Nat.max_le, ih, List.forall_mem_cons]
    tauto

variable {members : List (String × Json)}

theorem maxDepthMembers_le_iff {d : Nat} :
    maxDepthMembers members d ≤ n ↔ d ≤ n ∧ ∀ m ∈ members, m.2.maxDepth (d + 1) ≤ n := by
  induction members with
  | nil => simp [maxDepthMembers]
  | cons m rest ih =>
    simp only [maxDepthMembers, Nat.max_le, ih, List.forall_mem_cons]
    tauto

/-- A tree at a depth reaches as much deeper. -/
theorem maxDepth_le_iff (v : Json) : ∀ {d n : Nat}, v.maxDepth d ≤ n ↔ v.depth + d ≤ n := by
  -- A container whose parts move along moves along as well.
  have hcontainer : ∀ (w : Json) (parts : List Json),
      (∀ {d n : Nat}, w.maxDepth d ≤ n ↔ d ≤ n ∧ ∀ v ∈ parts, v.maxDepth (d + 1) ≤ n) →
      (∀ v ∈ parts, ∀ {d n : Nat}, v.maxDepth d ≤ n ↔ v.depth + d ≤ n) →
      ∀ {d n : Nat}, w.maxDepth d ≤ n ↔ w.depth + d ≤ n := by
    intro w parts hparts hmove d n
    have hzero : ∀ k, w.depth ≤ k ↔ ∀ v ∈ parts, v.depth + 1 ≤ k := by
      intro k
      rw [depth, hparts]
      simp only [Nat.zero_le, true_and, Nat.zero_add]
      exact forall₂_congr fun v hv => hmove v hv
    rw [hparts]
    constructor
    · rintro ⟨hd, hall⟩
      have hbound := (hzero (n - d)).mpr fun v hv => by
        have := (hmove v hv).mp (hall v hv)
        omega
      omega
    · intro h
      have hall := (hzero (n - d)).mp (by omega)
      exact ⟨by omega, fun v hv => (hmove v hv).mpr (by have := hall v hv; omega)⟩
  have hscalar : ∀ {d n : Nat}, d ≤ n ↔ 0 + d ≤ n := by
    intro d n
    rw [Nat.zero_add]
  induction v using induct with
  | null => exact hscalar
  | bool b => exact hscalar
  | int k => exact hscalar
  | float text => exact hscalar
  | str s => exact hscalar
  | arr items ih => exact hcontainer _ items maxDepthItems_le_iff ih
  | obj members ih =>
    have hmembers : ∀ {d n : Nat}, (obj members).maxDepth d ≤ n ↔
        d ≤ n ∧ ∀ v ∈ members.map Prod.snd, v.maxDepth (d + 1) ≤ n := by
      intro d n
      rw [maxDepth, maxDepthMembers_le_iff, List.forall_mem_map]
    intro d n
    exact hcontainer _ _ hmembers (List.forall_mem_map.mpr ih)

theorem depth_arr_le_iff : (arr items).depth ≤ n ↔ ∀ v ∈ items, v.depth + 1 ≤ n := by
  rw [depth, maxDepth, maxDepthItems_le_iff]
  simp only [Nat.zero_le, true_and, Nat.zero_add, maxDepth_le_iff]

theorem depth_obj_le_iff : (obj members).depth ≤ n ↔ ∀ m ∈ members, m.2.depth + 1 ≤ n := by
  rw [depth, maxDepth, maxDepthMembers_le_iff]
  simp only [Nat.zero_le, true_and, Nat.zero_add, maxDepth_le_iff]

theorem nestingItems_le_iff : nestingItems items ≤ n ↔ ∀ v ∈ items, v.nesting ≤ n := by
  induction items with
  | nil => simp [nestingItems]
  | cons v rest ih => rw [nestingItems, Nat.max_le, ih, List.forall_mem_cons]

theorem nestingMembers_le_iff : nestingMembers members ≤ n ↔ ∀ m ∈ members, m.2.nesting ≤ n := by
  induction members with
  | nil => simp [nestingMembers]
  | cons m rest ih => rw [nestingMembers, Nat.max_le, ih, List.forall_mem_cons]

/-- Only the innermost container can be empty. -/
theorem nesting_le_depth (v : Json) : v.nesting ≤ v.depth + 1 := by
  induction v using induct with
  | null => exact Nat.zero_le _
  | bool b => exact Nat.zero_le _
  | int n => exact Nat.zero_le _
  | float text => exact Nat.zero_le _
  | str s => exact Nat.zero_le _
  | arr items ih =>
    refine Nat.add_le_add_right (nestingItems_le_iff.mpr fun v hv => ?_) 1
    exact (ih v hv).trans (depth_arr_le_iff.mp (Nat.le_refl _) v hv)
  | obj members ih =>
    refine Nat.add_le_add_right (nestingMembers_le_iff.mpr fun m hm => ?_) 1
    exact (ih m hm).trans (depth_obj_le_iff.mp (Nat.le_refl _) m hm)

/-! ## Each key once, in key order -/

mutual

/-- The tree with the last member of each key, in key order. -/
def normal : Json → Json
  | arr items => arr (normalItems items)
  | obj members => obj (OrdMap.ofList (normalMembers members)).entries
  | v@(null) | v@(bool _) | v@(int _) | v@(float _) | v@(str _) => v

def normalItems : List Json → List Json
  | [] => []
  | v :: rest => v.normal :: normalItems rest

def normalMembers : List (String × Json) → List (String × Json)
  | [] => []
  | (name, v) :: rest => (name, v.normal) :: normalMembers rest

end

theorem normalItems_eq (items : List Json) : normalItems items = items.map normal := by
  induction items with
  | nil => rfl
  | cons v rest ih => rw [normalItems, ih, List.map_cons]

theorem normalMembers_eq (members : List (String × Json)) :
    normalMembers members = members.map fun m => (m.1, m.2.normal) := by
  induction members with
  | nil => rfl
  | cons m rest ih => rw [normalMembers, ih, List.map_cons]

theorem normalMembers_of_normal (h : ∀ m ∈ members, m.2.normal = m.2) :
    normalMembers members = members := by
  rw [normalMembers_eq]
  conv_rhs => rw [← List.map_id members]
  exact List.map_congr_left fun m hm => by simp only [h m hm, id]

theorem mem_normal_obj {m : String × Json}
    (h : m ∈ (OrdMap.ofList (normalMembers members)).entries) :
    ∃ m' ∈ members, m = (m'.1, m'.2.normal) := by
  have hmem := OrdMap.mem_of_mem_ofList h
  rw [normalMembers_eq, List.mem_map] at hmem
  obtain ⟨m', hm', heq⟩ := hmem
  exact ⟨m', hm', heq.symm⟩

theorem normal_normal (v : Json) : v.normal.normal = v.normal := by
  induction v using induct with
  | null => rfl
  | bool b => rfl
  | int n => rfl
  | float text => rfl
  | str s => rfl
  | arr items ih =>
    simp only [normal, normalItems_eq, List.map_map, arr.injEq]
    exact List.map_congr_left ih
  | obj members ih =>
    have hparts : ∀ m ∈ (OrdMap.ofList (normalMembers members)).entries, m.2.normal = m.2 := by
      intro m hm
      obtain ⟨m', hm', rfl⟩ := mem_normal_obj hm
      exact ih m' hm'
    rw [normal, normal, normalMembers_of_normal hparts, OrdMap.ofList_entries]

/-- A normal object is an ordered map with normal values. -/
theorem exists_entries_of_normal_obj (h : (obj members).normal = obj members) :
    ∃ M : OrdMap String Json, members = M.entries ∧ ∀ m ∈ members, m.2.normal = m.2 := by
  have hentries := (obj.inj h).symm
  refine ⟨_, hentries, fun m hm => ?_⟩
  rw [hentries] at hm
  obtain ⟨m', -, rfl⟩ := mem_normal_obj hm
  exact normal_normal m'.2

/-! ## Floating point numbers -/

mutual

/-- The tree with its floating point numbers replaced. -/
def mapFloats (f : String → String) : Json → Json
  | float text => float (f text)
  | arr items => arr (mapFloatsItems f items)
  | obj members => obj (mapFloatsMembers f members)
  | v@(null) | v@(bool _) | v@(int _) | v@(str _) => v

def mapFloatsItems (f : String → String) : List Json → List Json
  | [] => []
  | v :: rest => v.mapFloats f :: mapFloatsItems f rest

def mapFloatsMembers (f : String → String) : List (String × Json) → List (String × Json)
  | [] => []
  | (name, v) :: rest => (name, v.mapFloats f) :: mapFloatsMembers f rest

/-- Whether there is no floating point number in a tree. -/
def floatFree : Json → Bool
  | float _ => false
  | arr items => floatFreeItems items
  | obj members => floatFreeMembers members
  | null | bool _ | int _ | str _ => true

def floatFreeItems : List Json → Bool
  | [] => true
  | v :: rest => v.floatFree && floatFreeItems rest

def floatFreeMembers : List (String × Json) → Bool
  | [] => true
  | (_, v) :: rest => v.floatFree && floatFreeMembers rest

end

theorem mapFloatsItems_eq (f : String → String) (items : List Json) :
    mapFloatsItems f items = items.map (mapFloats f) := by
  induction items with
  | nil => rfl
  | cons v rest ih => rw [mapFloatsItems, ih, List.map_cons]

theorem mapFloatsMembers_eq (f : String → String) (members : List (String × Json)) :
    mapFloatsMembers f members = members.map fun m => (m.1, m.2.mapFloats f) := by
  induction members with
  | nil => rfl
  | cons m rest ih => rw [mapFloatsMembers, ih, List.map_cons]

theorem floatFreeItems_iff : floatFreeItems items = true ↔ ∀ v ∈ items, v.floatFree = true := by
  induction items with
  | nil => simp [floatFreeItems]
  | cons v rest ih => rw [floatFreeItems, Bool.and_eq_true, ih, List.forall_mem_cons]

theorem floatFreeMembers_iff :
    floatFreeMembers members = true ↔ ∀ m ∈ members, m.2.floatFree = true := by
  induction members with
  | nil => simp [floatFreeMembers]
  | cons m rest ih => rw [floatFreeMembers, Bool.and_eq_true, ih, List.forall_mem_cons]

theorem mapFloats_of_floatFree {f : String → String} (v : Json) (h : v.floatFree = true) :
    v.mapFloats f = v := by
  induction v using induct with
  | null => rfl
  | bool b => rfl
  | int n => rfl
  | float text => cases h
  | str s => rfl
  | arr items ih =>
    have hitems := floatFreeItems_iff.mp h
    rw [mapFloats, mapFloatsItems_eq]
    conv_rhs => rw [← List.map_id items]
    exact congrArg arr (List.map_congr_left fun v hv => ih v hv (hitems v hv))
  | obj members ih =>
    have hmembers := floatFreeMembers_iff.mp h
    rw [mapFloats, mapFloatsMembers_eq]
    conv_rhs => rw [← List.map_id members]
    exact congrArg obj (List.map_congr_left fun m hm => by
      simp only [ih m hm (hmembers m hm), id])

end Json

/-! ## Readers -/

/-- A reader of JSON texts.  It limits how deep containers may nest, and need not read
a floating point number as the one that was written. -/
class JsonReader where
  /-- The tree of a text, or what the reader reports. -/
  parse : List UInt8 → Except String Json
  /-- The number that the text of a floating point number is read as. -/
  readFloat : String → String

namespace JsonReader

/-- The recursion limit: this many containers may be inside one another. -/
def recursionLimit : Nat := 127

variable [JsonReader]

/-- What a reader does with the text of a tree that nests within its limit. -/
def Reads (v : Json) : Prop :=
  v.nesting ≤ recursionLimit → parse v.bytes = .ok (v.mapFloats readFloat)

end JsonReader

/-- A reader of one text, with or without a blank before it. -/
@[reducible] def JsonReader.reading (v : Json) : JsonReader where
  parse bytes :=
    if bytes = v.bytes ∨ bytes = 0x20 :: v.bytes then .ok v else .error "expected value"
  readFloat := id

theorem JsonReader.reads_reading {v : Json} (hfree : v.floatFree = true) :
    @Reads (reading v) v := by
  intro _
  rw [Json.mapFloats_of_floatFree v hfree]
  exact if_pos (.inl rfl)

/-! ## Values -/

/-- A JSON value: each object has a key once, and in key order. -/
structure Value where
  json : Json
  normal : json.normal = json

namespace Value

variable {v : Value}

theorem eq_of_json {w : Value} (h : v.json = w.json) : v = w := by
  cases v
  cases w
  simp only at h
  subst h
  rfl

/-- The value of a tree. -/
def ofJson (v : Json) : Value := ⟨v.normal, v.normal_normal⟩

@[simp] theorem ofJson_json (v : Value) : ofJson v.json = v := eq_of_json v.normal

def null : Value := ⟨.null, rfl⟩

def int (n : Int) : Value := ⟨.int n, rfl⟩

def str (s : String) : Value := ⟨.str s, rfl⟩

def array (items : List Value) : Value :=
  ⟨.arr (items.map json), by
    rw [Json.normal, Json.normalItems_eq, List.map_map]
    exact congrArg Json.arr (List.map_congr_left fun v _ => v.normal)⟩

theorem normal_entries (m : OrdMap String Value) :
    (Json.obj (m.mapValues json).entries).normal = Json.obj (m.mapValues json).entries := by
  have hparts : ∀ e ∈ (m.mapValues json).entries, e.2.normal = e.2 := by
    intro e he
    obtain ⟨e', -, rfl⟩ := List.mem_map.mp he
    exact e'.2.normal
  rw [Json.normal, Json.normalMembers_of_normal hparts, OrdMap.ofList_entries]

def object (m : OrdMap String Value) : Value := ⟨.obj (m.mapValues json).entries, normal_entries m⟩

/-- The bytes of the text of a value. -/
def bytes (v : Value) : List UInt8 := v.json.bytes

/-- The number of bytes of the text. -/
def size (v : Value) : Nat := v.json.size

/-- How deep a value is. -/
def depth (v : Value) : Nat := v.json.depth

theorem length_bytes (v : Value) : v.bytes.length = v.size := v.json.length_bytes

/-- The members of an object. -/
def asObject (v : Value) : Option (OrdMap String Value) :=
  match v.json with
  | .obj members => some (OrdMap.ofList (members.map fun m => (m.1, ofJson m.2)))
  | _ => none

/-- The items of an array. -/
def asArray (v : Value) : Option (List Value) :=
  match v.json with
  | .arr items => some (items.map ofJson)
  | _ => none

/-- The text of a string. -/
def asStr (v : Value) : Option String :=
  match v.json with
  | .str s => some s
  | _ => none

def isObject (v : Value) : Bool := v.asObject.isSome

@[simp] theorem asObject_object (m : OrdMap String Value) : (object m).asObject = some m := by
  have hmembers : (m.mapValues json).entries.map (fun e => (e.1, ofJson e.2)) = m.entries := by
    rw [OrdMap.entries_mapValues, List.map_map]
    conv_rhs => rw [← List.map_id m.entries]
    exact List.map_congr_left fun e _ => by simp only [Function.comp, ofJson_json, id]
  rw [asObject, object]
  simp only [hmembers, OrdMap.ofList_entries]

/-- The objects are the ordered maps. -/
theorem asObject_eq_some_iff {m : OrdMap String Value} : v.asObject = some m ↔ v = object m := by
  constructor
  · intro h
    obtain ⟨j, hj⟩ := v
    cases j with
    | obj members =>
      obtain ⟨M, rfl, hparts⟩ := Json.exists_entries_of_normal_obj hj
      have hm : M.mapValues ofJson = m := by
        rw [← Option.some.inj h]
        exact (OrdMap.ofList_entries (M.mapValues ofJson)).symm
      refine eq_of_json (congrArg Json.obj ?_)
      rw [← hm, OrdMap.entries_mapValues, OrdMap.entries_mapValues, List.map_map]
      conv_lhs => rw [← List.map_id M.entries]
      exact List.map_congr_left fun e he => by simp only [Function.comp, ofJson, hparts e he, id]
    | null => cases h
    | bool b => cases h
    | int n => cases h
    | float text => cases h
    | str s => cases h
    | arr items => cases h
  · rintro rfl
    exact asObject_object m

theorem asArray_eq_some_iff {items : List Value} : v.asArray = some items ↔ v = array items := by
  have hitems : ∀ items : List Value, (items.map json).map ofJson = items := by
    intro items
    rw [List.map_map]
    conv_rhs => rw [← List.map_id items]
    exact List.map_congr_left fun v _ => ofJson_json v
  constructor
  · intro h
    obtain ⟨j, hj⟩ := v
    cases j with
    | arr parts =>
      have hparts : parts.map Json.normal = parts := by
        rw [← Json.normalItems_eq]
        exact Json.arr.inj hj
      refine eq_of_json (congrArg Json.arr ?_)
      rw [← Option.some.inj h, List.map_map]
      exact hparts.symm
    | null => cases h
    | bool b => cases h
    | int n => cases h
    | float text => cases h
    | str s => cases h
    | obj members => cases h
  · rintro rfl
    exact congrArg some (hitems items)

theorem asStr_eq_some_iff {s : String} : v.asStr = some s ↔ v = str s := by
  constructor
  · intro h
    obtain ⟨j, hj⟩ := v
    cases j with
    | str s' => rw [← Option.some.inj h]; rfl
    | null => cases h
    | bool b => cases h
    | int n => cases h
    | float text => cases h
    | arr items => cases h
    | obj members => cases h
  · rintro rfl
    rfl

theorem str_injective : Function.Injective str := fun _ _ h => Json.str.inj (congrArg json h)

theorem depth_object_le_iff {m : OrdMap String Value} {n : Nat} :
    (object m).depth ≤ n ↔ ∀ k v, m.get k = some v → v.depth + 1 ≤ n := by
  rw [depth, object, Json.depth_obj_le_iff, OrdMap.entries_mapValues, List.forall_mem_map]
  exact ⟨fun h k v hget => h (k, v) (OrdMap.mem_entries_iff.mpr hget),
    fun h e he => h e.1 e.2 (OrdMap.mem_entries_iff.mp he)⟩

/-- The value that the text of a value is read as, up to its nesting. -/
def reread [JsonReader] (v : Value) : Value := ofJson (v.json.mapFloats JsonReader.readFloat)

theorem reread_of_floatFree [JsonReader] (h : v.json.floatFree = true) : v.reread = v := by
  rw [reread, Json.mapFloats_of_floatFree v.json h, ofJson_json]

end Value

end Gump.Foundation
