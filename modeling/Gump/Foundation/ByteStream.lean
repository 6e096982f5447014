/-
  Foundation/ByteStream.lean --- byte streams, big-endian words and panics.

  A stream is read from the front until it ends or its source reports a fault.
  A computation that fails returns an error to its caller, or panics and never
  returns.
-/
import Mathlib.Algebra.GroupWithZero.Nat
import Gump.Foundation.Words
import Mathlib.Data.List.Induction

set_option autoImplicit false

namespace Gump.Foundation

/-- How a computation ends that does not return a value: with an error for its
caller, or by a panic. -/
inductive Halt (ε : Type) where
  | error (e : ε)
  | panic (message : String)
  deriving DecidableEq, Repr

/-- The result of a computation that may panic. -/
abbrev Checked (ε α : Type) : Type := Except (Halt ε) α

/-- The same end with another error. -/
def Halt.mapError {ε ε' : Type} (f : ε → ε') : Halt ε → Halt ε'
  | .error e => .error (f e)
  | .panic message => .panic message

/-- The word that big-endian bytes spell. -/
def ofBeBytes (bytes : List UInt8) : Nat := bytes.foldl (fun n b => 256 * n + b.toNat) 0

theorem length_toBeBytes (width w : Nat) : (toBeBytes width w).length = width := by
  simp [toBeBytes]

/-- `count` bytes from the position `start` on. -/
def slice (bytes : List UInt8) (start count : Nat) : List UInt8 := (bytes.drop start).take count

/-- The bytes still to be read, and the fault that the source reports after them,
if it does not end there. -/
structure ByteStream where
  bytes : List UInt8
  fault : Option String := none
  deriving DecidableEq, Repr

namespace ByteStream

/-- Read exactly `n` bytes. -/
def readExact (n : Nat) (s : ByteStream) : Except String (List UInt8 × ByteStream) :=
  if n ≤ s.bytes.length then .ok (s.bytes.take n, { s with bytes := s.bytes.drop n })
  else .error (s.fault.getD "failed to fill whole buffer")

/-- Read everything. -/
def readToEnd (s : ByteStream) : Except String (List UInt8) :=
  match s.fault with
  | none => .ok s.bytes
  | some e => .error e

end ByteStream

end Gump.Foundation
