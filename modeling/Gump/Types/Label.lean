/-
  Types/Label.lean --- human labels (`gump-types/src/bounded.rs`).

  A label is one to 63 bytes of `[a-z0-9-]` that neither starts nor ends with a
  hyphen.  `Label.parse` reports the first violated rule in the order the source
  checks them.
-/
import Mathlib.Data.List.Infix
import Gump.Foundation.Words

set_option autoImplicit false

namespace Gump.Types

open Gump.Foundation

/-- Why a label was refused (`LabelError`). -/
inductive LabelError where
  | empty
  | tooLong (len max : Nat)
  | invalidByte (index : Nat) (byte : UInt8)
  | leadingHyphen
  | trailingHyphen
  deriving DecidableEq, Repr

/-- The text of a label error. -/
def LabelError.display : LabelError → String
  | .empty => "label is empty"
  | .tooLong len max => s!"label length {len} exceeds max {max}"
  | .invalidByte index byte =>
    let hex := hexByte byte
    s!"invalid label byte 0x{hex} at index {index}"
  | .leadingHyphen => "label must not start with '-'"
  | .trailingHyphen => "label must not end with '-'"

/-- The characters that `str::trim` removes. -/
def isTrimmed (c : Char) : Bool :=
  (9 ≤ c.toNat && c.toNat ≤ 13) || c.toNat = 0x20 || c.toNat = 0x85 || c.toNat = 0xa0 ||
    c.toNat = 0x1680 || (0x2000 ≤ c.toNat && c.toNat ≤ 0x200a) || c.toNat = 0x2028 ||
    c.toNat = 0x2029 || c.toNat = 0x202f || c.toNat = 0x205f || c.toNat = 0x3000

/-- A text without the white space at its ends. -/
def trimText (s : String) : String :=
  String.ofList ((s.toList.dropWhile isTrimmed).reverse.dropWhile isTrimmed).reverse

/-- The UTF-8 bytes of a string. -/
def utf8 (s : String) : List UInt8 := s.toUTF8.data.toList

theorem utf8_append (a b : String) : utf8 (a ++ b) = utf8 a ++ utf8 b := by
  simp [utf8]

/-- Whether a text occurs in another. -/
def containsText (text part : String) : Bool := decide (part.toList <:+: text.toList)

/-- The bytes a label may contain: `a..z`, `0..9` and the hyphen. -/
def isLabelByte (byte : UInt8) : Bool :=
  (97 ≤ byte.toNat && byte.toNat ≤ 122) || (48 ≤ byte.toNat && byte.toNat ≤ 57)
    || byte.toNat == 45

/-- The byte `-`. -/
def hyphen : UInt8 := 45

/-- The scan of `Label::parse` over the bytes from `index` on. -/
def checkLabelBytes : Nat → List UInt8 → Except LabelError Unit
  | _, [] => .ok ()
  | index, byte :: rest =>
    if isLabelByte byte then checkLabelBytes (index + 1) rest
    else .error (.invalidByte index byte)

/-- `Label::parse`, returning the accepted text. -/
def parseLabel (s : String) : Except LabelError String :=
  let bytes := utf8 s
  match bytes with
  | [] => .error .empty
  | first :: _ =>
    if bytes.length > 63 then .error (.tooLong bytes.length 63)
    else if first = hyphen then .error .leadingHyphen
    else if bytes.getLast? = some hyphen then .error .trailingHyphen
    else match checkLabelBytes 0 bytes with
      | .error e => .error e
      | .ok () => .ok s

end Gump.Types
