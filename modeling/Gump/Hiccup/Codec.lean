/-
  Hiccup/Codec.lean --- declarations as JSON (`gump-hiccup/src/codec.rs`).

  `readMembers` and `encodeDeclaration` are each described by what they accept: a
  declaration is read from exactly its own members, and both directions check sizes
  and the capability map alike.  They differ in two checks that only the reader
  makes, the depth of the document and that `data` is an object.
-/
import Gump.Foundation.Json
import Gump.Types.Label

set_option autoImplicit false

namespace Gump.Hiccup

open Gump.Foundation Gump.Types

def maxDeclarationBytes : Nat := 64 * 1024

def maxPublicDataBytes : Nat := 8 * 1024

def maxSecretDataBytes : Nat := 32 * 1024

def maxJsonDepth : Nat := 16

def maxCapabilitiesPerAttempt : Nat := 32

/-- Why a document was refused (`CodecError`). -/
inductive CodecError where
  | tooLarge (len max : Nat)
  | notObject
  | depthExceeded
  | invalidJson (e : String)
  | notHiccupOne
  | unexpectedField (n : String)
  | invalidField (n : String)
  deriving DecidableEq, Repr

/-- What an application declares about itself. -/
structure Declaration where
  /-- Omitted for `@self`; JSON null for a declaration that only listens. -/
  topic : Option (Option String)
  listen : Option (List String)
  data : Option Value
  secretData : Option String
  /-- The capabilities of directory mode. -/
  capabilities : Option (OrdMap String Value)

/-! ## Checks -/

/-- A check that fails with an error. -/
def require (holds : Bool) (e : CodecError) : Except CodecError Unit :=
  if holds then .ok () else .error e

@[simp] theorem require_eq_ok_iff {holds : Bool} {e : CodecError} :
    require holds e = .ok () ↔ holds = true := by
  cases holds <;> simp [require]

/-- `check_bounds`. -/
def checkBounds (len max : Nat) : Except CodecError Unit :=
  require (decide (len ≤ max)) (.tooLarge len max)

/-- `check_data_size`. -/
def checkDataSize (data : Value) : Except CodecError Unit :=
  checkBounds data.bytes.length maxPublicDataBytes

/-- The loop over the capabilities of a declaration, which collects them. -/
def collectCapabilities :
    List (String × Value) → OrdMap String Value → Except CodecError (OrdMap String Value)
  | [], out => .ok out
  | (name, value) :: rest, out => do
    require value.isObject (.invalidField "capabilities")
    checkDataSize value
    collectCapabilities rest (out.insert name value)

/-- Public data as a reader takes it: an object of bounded size. -/
def PublicData (value : Value) : Prop :=
  value.isObject = true ∧ value.size ≤ maxPublicDataBytes

theorem checkDataSize_eq_ok_iff {data : Value} :
    checkDataSize data = .ok () ↔ data.size ≤ maxPublicDataBytes := by
  rw [checkDataSize, checkBounds, require_eq_ok_iff, decide_eq_true_iff, Value.length_bytes]

theorem collectCapabilities_eq_ok_iff {entries : List (String × Value)} :
    ∀ {out result : OrdMap String Value}, collectCapabilities entries out = .ok result ↔
      (∀ e ∈ entries, PublicData e.2) ∧
        entries.foldl (fun m e => m.insert e.1 e.2) out = result := by
  induction entries with
  | nil => simp [collectCapabilities]
  | cons e rest ih =>
    intro out result
    rw [collectCapabilities, except_check_eq_ok, except_check_eq_ok, require_eq_ok_iff,
      checkDataSize_eq_ok_iff, ih, List.forall_mem_cons, List.foldl_cons, PublicData]
    tauto

/-- The entries of a map are collected as that map. -/
theorem collectCapabilities_entries {m result : OrdMap String Value} :
    collectCapabilities m.entries .empty = .ok result ↔
      m = result ∧ ∀ e ∈ m.entries, PublicData e.2 := by
  rw [collectCapabilities_eq_ok_iff, ← OrdMap.ofList, OrdMap.ofList_entries, and_comm]

/-! ## Members -/

/-- The fields that a document may have. -/
def knownKeys : List String := ["hiccup", "topic", "listen", "data", "secretData", "capabilities"]

/-- The JSON of a declared topic. -/
def topicValue : Option String → Value
  | none => .null
  | some s => .str s

/-- The fields of a declaration in the order in which they are written. -/
def Declaration.fields (d : Declaration) : List (String × Option Value) :=
  [("hiccup", some (.int 1)),
   ("topic", d.topic.map topicValue),
   ("listen", d.listen.map fun listen => .array (listen.map .str)),
   ("data", d.data),
   ("secretData", d.secretData.map .str),
   ("capabilities", d.capabilities.map .object)]

/-- The members of the document of a declaration. -/
def Declaration.members (d : Declaration) : OrdMap String Value :=
  .ofList (OrdMap.present d.fields)

/-- Whether a declaration has no field of the topic form. -/
def Declaration.topicless (d : Declaration) : Bool :=
  d.topic.isNone && d.listen.isNone && d.data.isNone && d.secretData.isNone

theorem Declaration.keys_fields (d : Declaration) : d.fields.map Prod.fst = knownKeys := rfl

theorem Declaration.nodup_fields (d : Declaration) : (d.fields.map Prod.fst).Nodup := by
  rw [d.keys_fields]
  decide

/-! ## Encoding -/

/-- The checks on the capabilities that are to be written. -/
def checkCapabilities (decl : Declaration) (capabilities : OrdMap String Value) :
    Except CodecError Unit := do
  require (decide (capabilities.size ≤ maxCapabilitiesPerAttempt) && decl.topicless)
    (.invalidField "capabilities")
  let _ ← collectCapabilities capabilities.entries .empty
  return ()

/-- `encode_declaration`. -/
def encodeDeclaration (decl : Declaration) : Except CodecError (List UInt8) := do
  decl.data.forM checkDataSize
  decl.secretData.forM fun s => checkBounds s.utf8ByteSize maxSecretDataBytes
  decl.capabilities.forM (checkCapabilities decl)
  let bytes := (Value.object decl.members).bytes
  checkBounds bytes.length maxDeclarationBytes
  return bytes

/-- What both directions check of a declaration. -/
structure Declaration.Checked (d : Declaration) : Prop where
  data : ∀ data ∈ d.data, data.size ≤ maxPublicDataBytes
  secret : ∀ s ∈ d.secretData, s.utf8ByteSize ≤ maxSecretDataBytes
  capabilities : ∀ m ∈ d.capabilities, m.size ≤ maxCapabilitiesPerAttempt ∧
    d.topicless = true ∧ ∀ e ∈ m.entries, PublicData e.2

/-- The size of the document of a declaration. -/
def Declaration.size (d : Declaration) : Nat := (Value.object d.members).size

variable {d : Declaration}

theorem checkCapabilities_eq_ok_iff {m : OrdMap String Value} :
    checkCapabilities d m = .ok () ↔ m.size ≤ maxCapabilitiesPerAttempt ∧
      d.topicless = true ∧ ∀ e ∈ m.entries, PublicData e.2 := by
  rw [checkCapabilities, except_check_eq_ok, require_eq_ok_iff, except_bind_eq_ok, Bool.and_eq_true,
    decide_eq_true_iff, and_assoc]
  refine and_congr_right fun _ => and_congr_right fun _ => ?_
  exact ⟨fun ⟨_, h, _⟩ => (collectCapabilities_entries.mp h).2,
    fun h => ⟨m, collectCapabilities_entries.mpr ⟨rfl, h⟩, rfl⟩⟩

theorem encodeDeclaration_eq_ok_iff {bytes : List UInt8} : encodeDeclaration d = .ok bytes ↔
      d.Checked ∧ d.size ≤ maxDeclarationBytes ∧ bytes = (Value.object d.members).bytes := by
  rw [encodeDeclaration, except_check_eq_ok, except_check_eq_ok, except_check_eq_ok,
    except_check_eq_ok, except_forM_eq_ok, except_forM_eq_ok, except_forM_eq_ok]
  simp only [checkDataSize_eq_ok_iff, checkBounds, require_eq_ok_iff, decide_eq_true_iff,
    Value.length_bytes, checkCapabilities_eq_ok_iff]
  constructor
  · rintro ⟨hdata, hsecret, hcaps, hsize, hbytes⟩
    exact ⟨⟨hdata, hsecret, hcaps⟩, hsize, (Except.ok.inj hbytes).symm⟩
  · rintro ⟨⟨hdata, hsecret, hcaps⟩, hsize, rfl⟩
    exact ⟨hdata, hsecret, hcaps, hsize, rfl⟩

/-! ## Parsing -/

def forgedKeys : List String := ["from", "messages", "more", "id", "attempt", "ip"]

/-- The loop over the keys of the document. -/
def checkKeys : List String → Except CodecError Unit
  | [] => .ok ()
  | key :: rest =>
    if key ∈ knownKeys then checkKeys rest
    else if key ∈ forgedKeys then .error (.unexpectedField "forged-identity-or-delivery")
    else .error (.unexpectedField "unknown")

/-- The number of a member, when it is a `u64`. -/
def asU64 (v : Value) : Option Nat :=
  match v.json with
  | .int n => if 0 ≤ n ∧ n < 2 ^ 64 then some n.toNat else none
  | _ => none

def checkHiccup (v : Option Value) : Except CodecError Unit :=
  require (decide (v.bind asU64 = some 1)) .notHiccupOne

/-- A field that may be left out. -/
def readField {α : Type} (read : Value → Except CodecError α) :
    Option Value → Except CodecError (Option α)
  | none => .ok none
  | some v => (read v).map some

def readTopic (v : Value) : Except CodecError (Option String) :=
  match v.json with
  | .null => .ok none
  | .str s => .ok (some s)
  | _ => .error (.invalidField "topic")

/-- The loop over the listened topics. -/
def readStrings : List Value → Except CodecError (List String)
  | [] => .ok []
  | v :: rest =>
    match v.asStr with
    | none => .error (.invalidField "listen")
    | some s => (readStrings rest).map (s :: ·)

def readListen (v : Value) : Except CodecError (List String) :=
  match v.asArray with
  | none => .error (.invalidField "listen")
  | some items => readStrings items

def readData (v : Value) : Except CodecError Value := do
  require v.isObject (.invalidField "data")
  checkDataSize v
  return v

def readSecretData (v : Value) : Except CodecError String :=
  match v.asStr with
  | none => .error (.invalidField "secretData")
  | some s => do
    checkBounds s.utf8ByteSize maxSecretDataBytes
    return s

def readCapabilities (v : Value) : Except CodecError (OrdMap String Value) :=
  match v.asObject with
  | none => .error (.invalidField "capabilities")
  | some entries => do
    require (decide (entries.size ≤ maxCapabilitiesPerAttempt)) (.invalidField "capabilities")
    collectCapabilities entries.entries .empty

/-- The fields of the document, once it is an object. -/
def readMembers (obj : OrdMap String Value) : Except CodecError Declaration := do
  checkKeys obj.keys
  checkHiccup (obj.get "hiccup")
  let topic ← readField readTopic (obj.get "topic")
  let listen ← readField readListen (obj.get "listen")
  let data ← readField readData (obj.get "data")
  let secretData ← readField readSecretData (obj.get "secretData")
  let capabilities ← readField readCapabilities (obj.get "capabilities")
  let decl : Declaration := ⟨topic, listen, data, secretData, capabilities⟩
  require (capabilities.isNone || decl.topicless) (.invalidField "capabilities")
  return decl

theorem checkKeys_eq_ok_iff {keys : List String} :
    checkKeys keys = .ok () ↔ ∀ k ∈ keys, k ∈ knownKeys := by
  induction keys with
  | nil => simp [checkKeys]
  | cons key rest ih =>
    rw [checkKeys, List.forall_mem_cons]
    split_ifs with hknown hforged
    · rw [ih]
      exact ⟨fun h => ⟨hknown, h⟩, fun h => h.2⟩
    · simp [hknown]
    · simp [hknown]

theorem asU64_eq_some_iff {v : Value} {n : Nat} (hn : n < 2 ^ 64) :
    asU64 v = some n ↔ v = .int n := by
  constructor
  · intro h
    obtain ⟨j, hj⟩ := v
    cases j with
    | int k =>
      simp only [asU64] at h
      split_ifs at h with hk
      refine Value.eq_of_json (congrArg Json.int ?_)
      have := Option.some.inj h
      omega
    | null => cases h
    | bool b => cases h
    | float text => cases h
    | str s => cases h
    | arr items => cases h
    | obj members => cases h
  · rintro rfl
    simp only [asU64, Value.int]
    rw [if_pos (by omega)]
    simp

theorem checkHiccup_eq_ok_iff {v : Option Value} :
    checkHiccup v = .ok () ↔ v = some (.int 1) := by
  rw [checkHiccup, require_eq_ok_iff, decide_eq_true_iff, Option.bind_eq_some_iff]
  constructor
  · rintro ⟨x, hx, h⟩
    rw [hx, (asU64_eq_some_iff (by decide)).mp h]
    rfl
  · rintro rfl
    exact ⟨_, rfl, (asU64_eq_some_iff (by decide)).mpr rfl⟩

theorem map_eq_ok_iff {α β : Type} {m : Except CodecError α} {f : α → β} {b : β} :
    m.map f = .ok b ↔ ∃ a, m = .ok a ∧ f a = b := by
  cases m <;> simp [Except.map]

/-- A field that may be left out is read from what it is written as. -/
theorem readField_eq_ok_iff {α : Type} {read : Value → Except CodecError α} {w : α → Value}
    {C : α → Prop} (hread : ∀ v a, read v = .ok a ↔ v = w a ∧ C a) {v : Option Value}
    {o : Option α} : readField read v = .ok o ↔ v = o.map w ∧ ∀ a ∈ o, C a := by
  cases v with
  | none => cases o <;> simp [readField]
  | some v =>
    rw [readField, map_eq_ok_iff]
    cases o with
    | none => simp
    | some b => simp [hread]

theorem readTopic_eq_ok_iff (v : Value) (topic : Option String) :
    readTopic v = .ok topic ↔ v = topicValue topic ∧ True := by
  rw [and_true]
  constructor
  · intro h
    obtain ⟨j, hj⟩ := v
    cases j with
    | null => rw [← Except.ok.inj h]; rfl
    | str s => rw [← Except.ok.inj h]; rfl
    | int k => cases h
    | bool b => cases h
    | float text => cases h
    | arr items => cases h
    | obj members => cases h
  · rintro rfl
    cases topic <;> rfl

theorem readStrings_eq_ok_iff {items : List Value} :
    ∀ {strings : List String}, readStrings items = .ok strings ↔ items = strings.map .str := by
  induction items with
  | nil => simp [readStrings, eq_comm]
  | cons v rest ih =>
    intro strings
    rw [readStrings]
    cases hv : v.asStr with
    | none =>
      have hne : ∀ s, v ≠ .str s := fun s h => by simp [h, Value.asStr, Value.str] at hv
      cases strings <;> simp [hne]
    | some s =>
      have hs := Value.asStr_eq_some_iff.mp hv
      subst hs
      simp only [map_eq_ok_iff, ih]
      constructor
      · rintro ⟨_, rfl, rfl⟩
        rfl
      · intro h
        cases strings with
        | nil => cases h
        | cons s' strings =>
          rw [List.map_cons, List.cons.injEq] at h
          have hs' : s = s' := Value.str_injective h.1
          exact ⟨strings, h.2, by rw [hs']⟩

theorem readListen_eq_ok_iff (v : Value) (listen : List String) :
    readListen v = .ok listen ↔ v = .array (listen.map .str) ∧ True := by
  rw [and_true, ← Value.asArray_eq_some_iff, readListen]
  cases v.asArray <;> simp [readStrings_eq_ok_iff]

theorem readData_eq_ok_iff (v data : Value) :
    readData v = .ok data ↔ v = data ∧ PublicData data := by
  rw [readData, except_check_eq_ok, except_check_eq_ok, require_eq_ok_iff, checkDataSize_eq_ok_iff]
  constructor
  · rintro ⟨hobj, hsize, h⟩
    cases h
    exact ⟨rfl, hobj, hsize⟩
  · rintro ⟨rfl, hobj, hsize⟩
    exact ⟨hobj, hsize, rfl⟩

theorem readSecretData_eq_ok_iff (v : Value) (secret : String) :
    readSecretData v = .ok secret ↔ v = .str secret ∧ secret.utf8ByteSize ≤ maxSecretDataBytes := by
  rw [← Value.asStr_eq_some_iff, readSecretData]
  cases v.asStr with
  | none => simp
  | some s =>
    simp only [except_check_eq_ok, checkBounds, require_eq_ok_iff, decide_eq_true_iff,
      Option.some.injEq]
    constructor
    · rintro ⟨hsize, h⟩
      cases h
      exact ⟨rfl, hsize⟩
    · rintro ⟨rfl, hsize⟩
      exact ⟨hsize, rfl⟩

theorem readCapabilities_eq_ok_iff (v : Value) (m : OrdMap String Value) :
    readCapabilities v = .ok m ↔
      v = .object m ∧ m.size ≤ maxCapabilitiesPerAttempt ∧ ∀ e ∈ m.entries, PublicData e.2 := by
  rw [← Value.asObject_eq_some_iff, readCapabilities]
  cases v.asObject with
  | none => simp
  | some entries =>
    simp only [except_check_eq_ok, require_eq_ok_iff, decide_eq_true_iff,
      collectCapabilities_entries, Option.some.injEq]
    constructor
    · rintro ⟨hsize, rfl, hok⟩
      exact ⟨rfl, hsize, hok⟩
    · rintro ⟨rfl, hsize, hok⟩
      exact ⟨hsize, rfl, hok⟩

/-- A declaration is read from its own members and from nothing else. -/
theorem readMembers_eq_ok_iff {obj : OrdMap String Value} : readMembers obj = .ok d ↔
      obj = d.members ∧ d.Checked ∧ ∀ data ∈ d.data, data.isObject = true := by
  have hmembers : obj = d.members ↔
      (∀ f ∈ d.fields, obj.get f.1 = f.2) ∧ ∀ k ∈ obj.keys, k ∈ knownKeys :=
    OrdMap.eq_ofList_present_iff d.nodup_fields
  rw [hmembers]
  simp only [Declaration.fields, List.forall_mem_cons]
  constructor
  · intro h
    obtain ⟨hkeys, h⟩ := except_check_eq_ok.mp h
    obtain ⟨hhiccup, h⟩ := except_check_eq_ok.mp h
    obtain ⟨topic, htopic, h⟩ := except_bind_eq_ok.mp h
    obtain ⟨listen, hlisten, h⟩ := except_bind_eq_ok.mp h
    obtain ⟨data, hdata, h⟩ := except_bind_eq_ok.mp h
    obtain ⟨secretData, hsecret, h⟩ := except_bind_eq_ok.mp h
    obtain ⟨capabilities, hcaps, h⟩ := except_bind_eq_ok.mp h
    obtain ⟨hexclusive, h⟩ := except_check_eq_ok.mp h
    cases h
    rw [readField_eq_ok_iff readTopic_eq_ok_iff] at htopic
    rw [readField_eq_ok_iff readListen_eq_ok_iff] at hlisten
    rw [readField_eq_ok_iff (w := id) readData_eq_ok_iff, Option.map_id, id] at hdata
    rw [readField_eq_ok_iff readSecretData_eq_ok_iff] at hsecret
    rw [readField_eq_ok_iff readCapabilities_eq_ok_iff] at hcaps
    refine ⟨⟨⟨checkHiccup_eq_ok_iff.mp hhiccup, htopic.1, hlisten.1, hdata.1, hsecret.1, hcaps.1,
      by simp⟩, checkKeys_eq_ok_iff.mp hkeys⟩, ⟨fun x hx => (hdata.2 x hx).2, hsecret.2, ?_⟩,
      fun x hx => (hdata.2 x hx).1⟩
    intro m hm
    have hm' : capabilities = some m := hm
    rw [hm', require_eq_ok_iff] at hexclusive
    exact ⟨(hcaps.2 m hm).1, hexclusive, (hcaps.2 m hm).2⟩
  · rintro ⟨⟨⟨hhiccup, htopic, hlisten, hdata, hsecret, hcaps, -⟩, hkeys⟩, hchecked, hobject⟩
    refine except_check_eq_ok.mpr ⟨checkKeys_eq_ok_iff.mpr hkeys, ?_⟩
    refine except_check_eq_ok.mpr ⟨checkHiccup_eq_ok_iff.mpr hhiccup, ?_⟩
    refine except_bind_eq_ok.mpr ⟨d.topic, ?_, ?_⟩
    · exact (readField_eq_ok_iff readTopic_eq_ok_iff).mpr ⟨htopic, fun _ _ => trivial⟩
    refine except_bind_eq_ok.mpr ⟨d.listen, ?_, ?_⟩
    · exact (readField_eq_ok_iff readListen_eq_ok_iff).mpr ⟨hlisten, fun _ _ => trivial⟩
    refine except_bind_eq_ok.mpr ⟨d.data, ?_, ?_⟩
    · rw [readField_eq_ok_iff (w := id) readData_eq_ok_iff, Option.map_id]
      exact ⟨hdata, fun x hx => ⟨hobject x hx, hchecked.data x hx⟩⟩
    refine except_bind_eq_ok.mpr ⟨d.secretData, ?_, ?_⟩
    · exact (readField_eq_ok_iff readSecretData_eq_ok_iff).mpr ⟨hsecret, hchecked.secret⟩
    refine except_bind_eq_ok.mpr ⟨d.capabilities, ?_, ?_⟩
    · refine (readField_eq_ok_iff readCapabilities_eq_ok_iff).mpr ⟨hcaps, fun m hm => ?_⟩
      exact ⟨(hchecked.capabilities m hm).1, (hchecked.capabilities m hm).2.2⟩
    refine except_check_eq_ok.mpr ⟨require_eq_ok_iff.mpr ?_, rfl⟩
    cases hcapabilities : d.capabilities with
    | none => rfl
    | some m => exact (hchecked.capabilities m hcapabilities).2.1

/-! ## Depth -/

/-- The depth that leaves room for the data inside the document. -/
def Declaration.Shallow (d : Declaration) : Prop :=
  (∀ data ∈ d.data, data.depth + 1 ≤ maxJsonDepth) ∧
    ∀ m ∈ d.capabilities, ∀ e ∈ m.entries, e.2.depth + 2 ≤ maxJsonDepth

/-- Whether a declaration has no floating point number. -/
def Declaration.floatFree (d : Declaration) : Bool := (Value.object d.members).json.floatFree

theorem depth_strings_le (strings : List String) : (Value.array (strings.map .str)).depth ≤ 1 := by
  rw [Value.depth, Value.array, Json.depth_arr_le_iff]
  simp only [List.map_map, List.forall_mem_map]
  exact fun s _ => Nat.le_refl 1

theorem depth_topicValue (topic : Option String) : (topicValue topic).depth = 0 := by
  cases topic <;> rfl

/-- The document is shallow when the data in it is: the other fields are. -/
theorem Declaration.depth_le_iff : (Value.object d.members).depth ≤ maxJsonDepth ↔ d.Shallow := by
  have hfields : (Value.object d.members).depth ≤ maxJsonDepth ↔
      ∀ f ∈ d.fields, ∀ v ∈ f.2, v.depth + 1 ≤ maxJsonDepth := by
    rw [Value.depth_object_le_iff]
    constructor
    · rintro h ⟨k, o⟩ hf v rfl
      exact h k v ((OrdMap.get_ofList_present d.nodup_fields).mpr hf)
    · exact fun h k v hget => h _ ((OrdMap.get_ofList_present d.nodup_fields).mp hget) v rfl
  have hcaps : ∀ m : OrdMap String Value, (Value.object m).depth + 1 ≤ maxJsonDepth ↔
      ∀ e ∈ m.entries, e.2.depth + 2 ≤ maxJsonDepth := by
    intro m
    rw [show maxJsonDepth = 15 + 1 from rfl, Nat.add_le_add_iff_right, Value.depth_object_le_iff]
    exact ⟨fun h e he => Nat.add_le_add_right (h e.1 e.2 (OrdMap.mem_entries_iff.mp he)) 1,
      fun h k v hget => Nat.le_of_succ_le_succ (h (k, v) (OrdMap.mem_entries_iff.mpr hget))⟩
  rw [hfields]
  constructor
  · intro h
    simp only [fields, List.forall_mem_cons] at h
    obtain ⟨-, -, -, hdata, -, hcapabilities, -⟩ := h
    refine ⟨hdata, fun m hm => (hcaps m).mp (hcapabilities _ ?_)⟩
    rw [show d.capabilities = some m from hm]
    rfl
  · rintro ⟨hdata, hcapabilities⟩
    simp only [fields, List.forall_mem_cons, Option.mem_def, Option.map_eq_some_iff,
      Option.some.injEq]
    refine ⟨?_, ?_, ?_, hdata, ?_, ?_, by simp⟩
    · rintro v rfl
      decide
    · rintro v ⟨topic, -, rfl⟩
      rw [depth_topicValue]
      decide
    · rintro v ⟨listen, -, rfl⟩
      exact (Nat.add_le_add_right (depth_strings_le listen) 1).trans (by decide)
    · rintro v ⟨s, -, rfl⟩
      exact show 0 + 1 ≤ maxJsonDepth by decide
    · rintro v ⟨m, hm, rfl⟩
      exact (hcaps m).mpr (hcapabilities m hm)

section Reader

variable [JsonReader]

/-- `serde_json::from_slice`. -/
def fromSlice (bytes : List UInt8) : Except CodecError Value :=
  match JsonReader.parse bytes with
  | .error e => .error (.invalidJson e)
  | .ok v => .ok (.ofJson v)

/-- `parse_declaration`. -/
def parseDeclaration (bytes : List UInt8) : Except CodecError Declaration := do
  checkBounds bytes.length maxDeclarationBytes
  let value ← fromSlice bytes
  require (decide (value.depth ≤ maxJsonDepth)) .depthExceeded
  match value.asObject with
  | none => .error .notObject
  | some obj => readMembers obj

theorem fromSlice_eq_ok_iff {bytes : List UInt8} {value : Value} :
    fromSlice bytes = .ok value ↔ ∃ v, JsonReader.parse bytes = .ok v ∧ Value.ofJson v = value := by
  rw [fromSlice]
  cases JsonReader.parse bytes <;> simp

theorem parseDeclaration_eq_ok_iff {bytes : List UInt8} {d : Declaration} :
    parseDeclaration bytes = .ok d ↔
      bytes.length ≤ maxDeclarationBytes ∧ fromSlice bytes = .ok (.object d.members) ∧
        (Value.object d.members).depth ≤ maxJsonDepth ∧ d.Checked ∧
        ∀ data ∈ d.data, data.isObject = true := by
  rw [parseDeclaration, except_check_eq_ok, checkBounds, require_eq_ok_iff, decide_eq_true_iff,
    except_bind_eq_ok]
  refine and_congr_right fun _ => ?_
  constructor
  · rintro ⟨value, hvalue, h⟩
    obtain ⟨hdepth, h⟩ := except_check_eq_ok.mp h
    rw [require_eq_ok_iff, decide_eq_true_iff] at hdepth
    cases hobj : value.asObject with
    | none => simp only [hobj, reduceCtorEq] at h
    | some obj =>
      simp only [hobj, readMembers_eq_ok_iff] at h
      rw [Value.asObject_eq_some_iff, h.1] at hobj
      rw [hobj] at hvalue hdepth
      exact ⟨hvalue, hdepth, h.2⟩
  · rintro ⟨hvalue, hdepth, hd⟩
    refine ⟨_, hvalue, except_check_eq_ok.mpr ⟨?_, ?_⟩⟩
    · rw [require_eq_ok_iff, decide_eq_true_iff]
      exact hdepth
    · simp only [Value.asObject_object]
      exact readMembers_eq_ok_iff.mpr ⟨rfl, hd⟩

/-- A declaration and its document agree when the reader's own checks hold, and in the
other direction when writing the declaration anew keeps its size and its numbers. -/
theorem encode_parse_agree (d : Declaration)
    (hreads : JsonReader.Reads (Value.object d.members).json) :
    (d.floatFree = true → ∀ bytes, encodeDeclaration d = .ok bytes →
      (parseDeclaration bytes = .ok d ↔ (∀ data ∈ d.data, data.isObject = true) ∧ d.Shallow)) ∧
    ∀ bytes, (∀ v, fromSlice bytes = .ok v → v.json.floatFree = true → v.size ≤ bytes.length) →
      parseDeclaration bytes = .ok d →
      ((∃ bytes', encodeDeclaration d = .ok bytes' ∧ parseDeclaration bytes' = .ok d) ↔
        d.floatFree = true ∨ d.size ≤ maxDeclarationBytes ∧
          (Value.object d.members).reread = .object d.members) := by
  have hback : d.Shallow →
      fromSlice (Value.object d.members).bytes = .ok (Value.object d.members).reread := by
    intro hshallow
    have hdepth := Declaration.depth_le_iff.mpr hshallow
    have hnesting : (Value.object d.members).json.nesting ≤ JsonReader.recursionLimit :=
      (Json.nesting_le_depth _).trans ((Nat.add_le_add_right hdepth 1).trans (by decide))
    exact fromSlice_eq_ok_iff.mpr ⟨_, hreads hnesting, rfl⟩
  constructor
  · intro hfree bytes hencode
    obtain ⟨hchecked, hsize, rfl⟩ := encodeDeclaration_eq_ok_iff.mp hencode
    rw [parseDeclaration_eq_ok_iff, Declaration.depth_le_iff]
    constructor
    · rintro ⟨-, -, hshallow, -, hobject⟩
      exact ⟨hobject, hshallow⟩
    · rintro ⟨hobject, hshallow⟩
      rw [hback hshallow, Value.reread_of_floatFree hfree, Value.length_bytes]
      exact ⟨hsize, rfl, hshallow, hchecked, hobject⟩
  · intro bytes hcompact hparse
    obtain ⟨hlength, hslice, hdepth, hchecked, hobject⟩ := parseDeclaration_eq_ok_iff.mp hparse
    have hshallow := Declaration.depth_le_iff.mp hdepth
    constructor
    · rintro ⟨bytes', hencode, hparse'⟩
      obtain ⟨-, hsize, rfl⟩ := encodeDeclaration_eq_ok_iff.mp hencode
      obtain ⟨-, hslice', -⟩ := parseDeclaration_eq_ok_iff.mp hparse'
      rw [hback hshallow] at hslice'
      exact .inr ⟨hsize, Except.ok.inj hslice'⟩
    · intro h
      have hfits : d.size ≤ maxDeclarationBytes ∧
          (Value.object d.members).reread = .object d.members := by
        rcases h with hfree | hfits
        · exact ⟨(hcompact _ hslice hfree).trans hlength, Value.reread_of_floatFree hfree⟩
        · exact hfits
      refine ⟨_, encodeDeclaration_eq_ok_iff.mpr ⟨hchecked, hfits.1, rfl⟩, ?_⟩
      rw [parseDeclaration_eq_ok_iff, hback hshallow, hfits.2, Value.length_bytes]
      exact ⟨hfits.1, rfl, hdepth, hchecked, hobject⟩

end Reader

namespace Sample

/-- A declaration of a public port. -/
def published : Declaration where
  topic := some (some "banana")
  listen := none
  data := some (.object (.ofList [("port", .int 7600)]))
  secretData := none
  capabilities := none

/-- An object inside objects. -/
def nested : Nat → Value
  | 0 => .object .empty
  | n + 1 => .object (.ofList [("a", nested n)])

/-- A declaration whose data is one level too deep for a document. -/
def tooDeep : Declaration where
  topic := none
  listen := none
  data := some (nested 16)
  secretData := none
  capabilities := none

/-- A declaration of public data is checked when the data is small. -/
theorem checked_of_data {d : Declaration} {data : Value} (hdata : d.data = some data)
    (hsecret : d.secretData = none) (hcaps : d.capabilities = none)
    (hsize : data.size ≤ maxPublicDataBytes) : d.Checked where
  data x hx := by
    rw [hdata] at hx
    cases hx
    exact hsize
  secret s hs := by
    rw [hsecret] at hs
    cases hs
  capabilities m hm := by
    rw [hcaps] at hm
    cases hm

end Sample

/-- The document of a declaration is read back.  So is one with a blank before it, and what
is read there is written anew as a document that is read back. -/
theorem published_parses : letI := JsonReader.reading (Value.object Sample.published.members).json
    ∃ bytes, encodeDeclaration Sample.published = .ok bytes ∧
      parseDeclaration bytes = .ok Sample.published ∧
      parseDeclaration (0x20 :: bytes) = .ok Sample.published ∧
      ∃ bytes', encodeDeclaration Sample.published = .ok bytes' ∧
        parseDeclaration bytes' = .ok Sample.published := by
  let := JsonReader.reading (Value.object Sample.published.members).json
  have hfree : Sample.published.floatFree = true := by decide +kernel
  have hagree := encode_parse_agree Sample.published (JsonReader.reads_reading hfree)
  have hchecked := Sample.checked_of_data (d := Sample.published) rfl rfl rfl (by decide +kernel)
  have hsize : Sample.published.size + 1 ≤ maxDeclarationBytes := by decide +kernel
  have hobject : ∀ data ∈ Sample.published.data, data.isObject = true := by
    rintro _ ⟨⟩
    decide +kernel
  have hencode : encodeDeclaration Sample.published =
      .ok (Value.object Sample.published.members).bytes :=
    encodeDeclaration_eq_ok_iff.mpr ⟨hchecked, Nat.le_of_succ_le hsize, rfl⟩
  have hblank : fromSlice (0x20 :: (Value.object Sample.published.members).bytes) =
      .ok (.object Sample.published.members) :=
    fromSlice_eq_ok_iff.mpr ⟨_, if_pos (.inr rfl), Value.ofJson_json _⟩
  have hparse : parseDeclaration (0x20 :: (Value.object Sample.published.members).bytes) =
      .ok Sample.published :=
    parseDeclaration_eq_ok_iff.mpr
      ⟨by rw [List.length_cons, Value.length_bytes]; exact hsize, hblank, by decide +kernel,
        hchecked, hobject⟩
  refine ⟨_, hencode, (hagree.1 hfree _ hencode).mpr ⟨hobject, ?_, ?_⟩, hparse,
    (hagree.2 _ (fun v hv _ => ?_) hparse).mpr (.inl hfree)⟩
  · rintro _ ⟨⟩
    decide +kernel
  · rintro _ ⟨⟩
  · rw [← Except.ok.inj (hblank.symm.trans hv), List.length_cons, Value.length_bytes]
    exact Nat.le_succ _

/-- The encoder writes data that the reader refuses for its depth. -/
theorem tooDeep_not_parsed : letI := JsonReader.reading (Value.object Sample.tooDeep.members).json
    ∃ bytes, encodeDeclaration Sample.tooDeep = .ok bytes ∧
      parseDeclaration bytes ≠ .ok Sample.tooDeep := by
  refine ⟨_, encodeDeclaration_eq_ok_iff.mpr
    ⟨Sample.checked_of_data rfl rfl rfl (by decide +kernel), by decide +kernel, rfl⟩, ?_⟩
  intro hparse
  obtain ⟨-, -, hdepth, -⟩ := (@parseDeclaration_eq_ok_iff (JsonReader.reading _) _ _).mp hparse
  exact absurd hdepth (by decide +kernel)

end Gump.Hiccup
