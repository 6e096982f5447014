/-
  Types/Id.lean --- typed identifiers.

  Every identifier is a UUID of version 7: sixteen bytes whose seventh byte
  carries the version in its high half.
-/
import Mathlib.Algebra.GroupWithZero.Nat
import Gump.Foundation.Words

set_option autoImplicit false

namespace Gump.Types

open Gump.Foundation

/-- One execution of a unit. -/
abbrev AttemptId : Type := Octets 16

/-- The stable logical slot of a workload. -/
abbrev UnitId : Type := Octets 16

abbrev WorkloadId : Type := Octets 16

abbrev CapsuleId : Type := Octets 16

abbrev NodeId : Type := Octets 16

abbrev ClusterId : Type := Octets 16

abbrev ExecutionId : Type := Octets 16

/-- The version that an identifier carries. -/
def version (id : Octets 16) : Nat := (id.bytes.getD 6 0).toNat / 16

inductive IdError where
  | invalidUuid
  | notVersion7
  deriving DecidableEq, Repr

/-- Accept a UUID of version 7 as an identifier. -/
def requireV7 (id : Octets 16) : Except IdError (Octets 16) :=
  if version id = 7 then .ok id else .error .notVersion7

/-- The text parser of the UUID library. -/
class UuidParser where
  parseStr : String → Option (Octets 16)

/-- A typed identifier from its text. -/
def parseId [UuidParser] (s : String) : Except IdError (Octets 16) :=
  match UuidParser.parseStr s with
  | none => .error .invalidUuid
  | some id => requireV7 id

/-- Lower-case hexadecimal text with the dashes of a UUID. -/
def toHyphenated (id : Octets 16) : String :=
  let hex := fun (start count : Nat) =>
    String.join (((id.bytes.drop start).take count).map hexByte)
  hex 0 4 ++ "-" ++ hex 4 2 ++ "-" ++ hex 6 2 ++ "-" ++ hex 8 2 ++ "-" ++ hex 10 6

/-! ## Texts of different identifiers differ -/

theorem hexDigit_injective : ∀ i < 16, ∀ j < 16, hexDigit i = hexDigit j → i = j := by
  decide

theorem hexByte_injective {a b : UInt8} (h : hexByte a = hexByte b) : a = b := by
  have hdigits := String.ofList_inj.mp h
  simp only [List.cons.injEq, and_true] at hdigits
  have ha := a.toNat_lt
  have hb := b.toNat_lt
  have hhigh := hexDigit_injective _ (by omega) _ (by omega) hdigits.1
  have hlow := hexDigit_injective _ (by omega) _ (by omega) hdigits.2
  apply UInt8.toNat_inj.mp
  omega

/-- The characters of the hexadecimal text of bytes. -/
def hexText (bytes : List UInt8) : List Char := bytes.flatMap fun b => (hexByte b).toList

theorem length_hexText (bytes : List UInt8) : (hexText bytes).length = 2 * bytes.length := by
  induction bytes with
  | nil => rfl
  | cons b rest ih =>
    unfold hexText at ih ⊢
    rw [List.flatMap_cons, List.length_append, ih, List.length_cons]
    simp [hexByte]
    omega

/-- Equally many bytes with the same hexadecimal text are the same bytes. -/
theorem hexText_injective {as bs : List UInt8} (hlength : as.length = bs.length)
    (h : hexText as = hexText bs) : as = bs := by
  induction as generalizing bs with
  | nil => exact (List.length_eq_zero_iff.mp hlength.symm).symm
  | cons a as ih =>
    cases bs with
    | nil => cases hlength
    | cons b bs =>
      obtain ⟨hhead, htail⟩ := List.append_inj h (by simp [hexByte])
      rw [hexByte_injective (String.toList_inj.mp hhead), ih (Nat.succ.inj hlength) htail]

theorem toList_join_hexByte (bytes : List UInt8) :
    (String.join (bytes.map hexByte)).toList = hexText bytes := by
  rw [String.toList_join, List.flatMap_map]
  rfl

/-- The groups of an identifier, with the byte they start at and their length. -/
theorem toList_toHyphenated (id : Octets 16) :
    (toHyphenated id).toList = hexText ((id.bytes.drop 0).take 4) ++ '-' ::
      (hexText ((id.bytes.drop 4).take 2) ++ '-' :: (hexText ((id.bytes.drop 6).take 2) ++ '-' ::
        (hexText ((id.bytes.drop 8).take 2) ++ '-' :: hexText ((id.bytes.drop 10).take 6)))) := by
  have hdash : "-".toList = ['-'] := rfl
  unfold toHyphenated
  simp only [String.toList_append, toList_join_hexByte, hdash, List.append_assoc, List.cons_append,
    List.nil_append]

theorem length_toHyphenated (id : Octets 16) : (toHyphenated id).toList.length = 36 := by
  rw [toList_toHyphenated]
  simp [length_hexText, id.length_eq]

theorem toHyphenated_injective {a b : Octets 16} (h : toHyphenated a = toHyphenated b) : a = b := by
  have hlength : ∀ start count, ((a.bytes.drop start).take count).length =
      ((b.bytes.drop start).take count).length := by
    intro start count
    simp [a.length_eq, b.length_eq]
  have hsame : ∀ start count, (hexText ((a.bytes.drop start).take count)).length =
      (hexText ((b.bytes.drop start).take count)).length := by
    intro start count
    rw [length_hexText, length_hexText, hlength]
  have hchars := congrArg String.toList h
  rw [toList_toHyphenated, toList_toHyphenated] at hchars
  obtain ⟨h₀, hchars⟩ := List.append_inj hchars (hsame 0 4)
  obtain ⟨h₄, hchars⟩ := List.append_inj (List.cons.inj hchars).2 (hsame 4 2)
  obtain ⟨h₆, hchars⟩ := List.append_inj (List.cons.inj hchars).2 (hsame 6 2)
  obtain ⟨h₈, hchars⟩ := List.append_inj (List.cons.inj hchars).2 (hsame 8 2)
  have hsplit : ∀ id : Octets 16, id.bytes = (id.bytes.drop 0).take 4 ++
      ((id.bytes.drop 4).take 2 ++ ((id.bytes.drop 6).take 2 ++ ((id.bytes.drop 8).take 2 ++
        (id.bytes.drop 10).take 6))) := by
    rintro ⟨bytes, hbytes⟩
    have hlast : (bytes.drop 10).take 6 = bytes.drop 10 := List.take_of_length_le (by simp [hbytes])
    have hjoin : ∀ start count, (bytes.drop start).take count ++ bytes.drop (start + count) =
        bytes.drop start := fun start count => by
      rw [← List.drop_drop, List.take_append_drop]
    rw [hlast, hjoin 8 2, hjoin 6 2, hjoin 4 2, hjoin 0 4, List.drop_zero]
  apply Octets.eq_of_bytes
  rw [hsplit a, hsplit b, hexText_injective (hlength 0 4) h₀, hexText_injective (hlength 4 2) h₄,
    hexText_injective (hlength 6 2) h₆, hexText_injective (hlength 8 2) h₈,
    hexText_injective (hlength 10 6) (List.cons.inj hchars).2]

/-- The last byte of an identifier. -/
def lastByte (id : Octets 16) : Nat := (id.bytes.getLastD 0).toNat

end Gump.Types
