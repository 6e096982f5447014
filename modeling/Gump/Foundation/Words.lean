/-
  Foundation/Words.lean --- machine counters and fixed-length byte strings.

  Counters are natural numbers; the operations that differ from the ones on `Nat`
  are addition and multiplication, which stop at the largest word.  Subtraction on
  `Nat` already stops at zero, exactly as the saturating machine operation does.
-/
import Mathlib.Algebra.GroupWithZero.Nat
import Mathlib.Algebra.Order.Ring.Int
import Mathlib.Data.List.Lex
import Mathlib.Order.Lattice

set_option autoImplicit false

namespace Gump.Foundation

/-- The largest 64-bit word. -/
def u64Max : Nat := 2 ^ 64 - 1

/-- Addition that stops at the largest 64-bit word. -/
@[grind =] def saturatingAdd (a b : Nat) : Nat := min (a + b) u64Max

theorem saturatingAdd_le (a b : Nat) : saturatingAdd a b ≤ u64Max :=
  Nat.min_le_right _ _

theorem saturatingAdd_le_add (a b : Nat) : saturatingAdd a b ≤ a + b :=
  Nat.min_le_left _ _

variable {a b : Nat}

/-- A saturated sum below the ceiling is the exact sum. -/
theorem saturatingAdd_eq_of_lt (h : saturatingAdd a b < u64Max) : saturatingAdd a b = a + b := by
  simp only [saturatingAdd] at h ⊢
  omega

theorem saturatingAdd_eq (h : a + b ≤ u64Max) : saturatingAdd a b = a + b :=
  Nat.min_eq_left h

theorem le_saturatingAdd (b : Nat) (h : a ≤ u64Max) : a ≤ saturatingAdd a b := by
  simp only [saturatingAdd]
  omega

/-- A counter strictly below the ceiling moves when it is bumped. -/
theorem saturatingAdd_one (h : a < u64Max) : saturatingAdd a 1 = a + 1 :=
  saturatingAdd_eq h

/-- A counter that stops at the largest word counts as far as that. -/
theorem saturatingAdd_min_one (n : Nat) : saturatingAdd (min n u64Max) 1 = min (n + 1) u64Max := by
  simp only [saturatingAdd]
  generalize u64Max = top
  omega

/-- Multiplication that stops at the largest 64-bit word. -/
def saturatingMul (a b : Nat) : Nat := min (a * b) u64Max

/-- The largest 32-bit word. -/
def u32Max : Nat := 2 ^ 32 - 1

/-- Addition that stops at the largest 32-bit word. -/
@[grind =] def saturatingAdd32 (a b : Nat) : Nat := min (a + b) u32Max

theorem saturatingAdd32_le_add (a b : Nat) : saturatingAdd32 a b ≤ a + b :=
  Nat.min_le_left _ _

theorem saturatingAdd32_eq (h : a + b ≤ u32Max) : saturatingAdd32 a b = a + b :=
  Nat.min_eq_left h

/-- The cast of a 64-bit word to a signed one, which wraps. -/
def asI64 (n : Nat) : Int := (BitVec.ofNat 64 n).toInt

/-- Addition of signed 64-bit words that stops at both ends. -/
def saturatingAddI64 (a b : Int) : Int := max (-(2 ^ 63)) (min (a + b) (2 ^ 63 - 1))

/-- A fixed-length byte string, `[u8; n]`. -/
structure Octets (n : Nat) where
  bytes : List UInt8
  length_eq : bytes.length = n
  deriving DecidableEq, Repr

namespace Octets

variable {n : Nat}

instance decidableMem (a : Octets n) (l : List (Octets n)) : Decidable (a ∈ l) :=
  List.instDecidableMemOfLawfulBEq a l

theorem eq_of_bytes {a b : Octets n} (h : a.bytes = b.bytes) : a = b := by
  cases a
  cases b
  simp only at h
  subst h
  rfl

/-- Byte strings are ordered lexicographically by byte value. -/
instance : LinearOrder (Octets n) :=
  LinearOrder.lift' (fun o => o.bytes.map UInt8.toNat) (by
    intro a b h
    exact eq_of_bytes (List.map_injective_iff.mpr (fun x y => UInt8.toNat_inj.mp) h))

/-- The byte string that repeats one byte. -/
def fill (n : Nat) (byte : UInt8) : Octets n :=
  ⟨List.replicate n byte, List.length_replicate⟩

instance : Inhabited (Octets n) := ⟨fill n 0⟩

/-- The first `k` bytes. -/
def truncate (o : Octets n) (k : Nat) (h : k ≤ n) : Octets k :=
  ⟨o.bytes.take k, by rw [List.length_take, o.length_eq, Nat.min_eq_left h]⟩

end Octets

/-- The little-endian bytes of a 64-bit word. -/
def toLeBytes (w : Nat) : List UInt8 :=
  (List.range 8).map (fun i => UInt8.ofNat (w / 256 ^ i))

/-- The big-endian bytes of a word of `width` bytes. -/
def toBeBytes (width w : Nat) : List UInt8 :=
  (List.range width).map (fun i => UInt8.ofNat (w / 256 ^ (width - 1 - i)))

theorem toBeBytes_succ (width w : Nat) :
    toBeBytes (width + 1) w = toBeBytes width (w / 256) ++ [UInt8.ofNat w] := by
  unfold toBeBytes
  rw [List.range_succ, List.map_append, List.map_singleton]
  congr 1
  · refine List.map_congr_left fun i hi => ?_
    have hlt := List.mem_range.mp hi
    have hexp : width + 1 - 1 - i = width - 1 - i + 1 := by omega
    rw [hexp, Nat.pow_succ', Nat.div_div_eq_div_mul]
  · simp

theorem toBeBytes_injective {width : Nat} (ha : a < 256 ^ width) (hb : b < 256 ^ width)
    (h : toBeBytes width a = toBeBytes width b) : a = b := by
  induction width generalizing a b with
  | zero => omega
  | succ width ih =>
    rw [toBeBytes_succ, toBeBytes_succ] at h
    obtain ⟨hhigh, hlow⟩ := List.append_inj' h rfl
    have hdiv : a / 256 = b / 256 := by
      refine ih ?_ ?_ hhigh
      · exact Nat.div_lt_of_lt_mul (by rwa [Nat.pow_succ'] at ha)
      · exact Nat.div_lt_of_lt_mul (by rwa [Nat.pow_succ'] at hb)
    have hmod : a % 256 = b % 256 := by
      have hbyte := congrArg UInt8.toNat (List.singleton_inj.mp hlow)
      simpa using hbyte
    rw [← Nat.div_add_mod a 256, ← Nat.div_add_mod b 256, hdiv, hmod]

/-- One lower-case hexadecimal digit. -/
def hexDigit (d : Nat) : Char := Nat.digitChar d

/-- Two-digit lower-case hexadecimal rendering of a byte, `{b:02x}`. -/
def hexByte (b : UInt8) : String :=
  String.ofList [hexDigit (b.toNat / 16), hexDigit (b.toNat % 16)]

/-! ## Computations that may fail -/

/-- A computation in steps returns exactly when each step does. -/
theorem except_bind_eq_ok {ε α β : Type} {m : Except ε α} {k : α → Except ε β} {b : β} :
    (m >>= k) = .ok b ↔ ∃ a, m = .ok a ∧ k a = .ok b := by
  cases m with
  | error e =>
    constructor
    · intro h
      cases h
    · rintro ⟨_, ⟨⟩, _⟩
  | ok a =>
    constructor
    · exact fun h => ⟨a, rfl, h⟩
    · rintro ⟨_, ⟨⟩, h⟩
      exact h

/-- A step that only checks. -/
theorem except_check_eq_ok {ε β : Type} {m : Except ε PUnit} {k : PUnit → Except ε β} {b : β} :
    (m >>= k) = .ok b ↔ m = .ok ⟨⟩ ∧ k ⟨⟩ = .ok b := by
  rw [except_bind_eq_ok]
  exact ⟨fun ⟨_, h⟩ => h, fun h => ⟨⟨⟩, h⟩⟩

theorem except_forM_eq_ok {ε α : Type} {o : Option α} {f : α → Except ε PUnit} :
    o.forM f = .ok ⟨⟩ ↔ ∀ a ∈ o, f a = .ok ⟨⟩ := by
  cases o with
  | none => simp [Option.forM, pure, Except.pure]
  | some a => simp [Option.forM]

end Gump.Foundation
