/-
  Foundation/Base128.lean --- numbers written in bytes of seven bits.

  The lowest digits come first.  Every byte but the last has its high bit set, so the
  number ends where a byte below 128 stands, and a list of bytes either starts with a
  number or ends inside of one.
-/
import Mathlib.Algebra.GroupWithZero.Nat
import Mathlib.Data.List.TakeWhile

set_option autoImplicit false

namespace Gump.Foundation

/-- The number that bytes spell. -/
def base128 : List UInt8 → Nat
  | [] => 0
  | b :: rest => b.toNat % 128 + 128 * base128 rest

/-- Whether a byte announces another one. -/
def continues (b : UInt8) : Bool := decide (128 ≤ b.toNat)

/-- Bytes that all continue, and a last one that does not. -/
def Terminated (bytes : List UInt8) : Prop :=
  ∃ run last, bytes = run ++ [last] ∧ (∀ b ∈ run, continues b) ∧ continues last = false

/-- A list of bytes starts with a number, or every byte of it continues. -/
theorem number_or_run (bytes : List UInt8) :
    (∃ run last rest, bytes = run ++ last :: rest ∧ (∀ b ∈ run, continues b) ∧
      continues last = false) ∨ ∀ b ∈ bytes, continues b := by
  induction bytes with
  | nil => exact .inr (by simp)
  | cons b bytes ih =>
    by_cases hb : continues b
    · rcases ih with ⟨run, last, rest, rfl, hrun, hlast⟩ | hall
      · exact .inl ⟨b :: run, last, rest, rfl, List.forall_mem_cons.mpr ⟨hb, hrun⟩, hlast⟩
      · exact .inr (List.forall_mem_cons.mpr ⟨hb, hall⟩)
    · exact .inl ⟨[], b, bytes, rfl, by simp, by simpa using hb⟩

theorem take_number (run : List UInt8) (last : UInt8) (rest : List UInt8) :
    (run ++ last :: rest).take (run.length + 1) = run ++ [last] := by
  rw [List.take_length_add_append]
  rfl

theorem base128_append (xs ys : List UInt8) :
    base128 (xs ++ ys) = base128 xs + 128 ^ xs.length * base128 ys := by
  induction xs with
  | nil => simp [base128]
  | cons b xs ih =>
    simp only [List.cons_append, base128, ih, List.length_cons, Nat.pow_succ', Nat.mul_add,
      Nat.mul_assoc, Nat.add_assoc]

theorem base128_lt (bytes : List UInt8) : base128 bytes < 128 ^ bytes.length := by
  induction bytes with
  | nil => simp [base128]
  | cons b rest ih =>
    simp only [base128, List.length_cons, Nat.pow_succ']
    omega

/-- The bytes of a number, the shortest ones that spell it. -/
def toBase128 (n : Nat) : List UInt8 :=
  if n / 128 ≠ 0 then UInt8.ofNat (n % 128 + 128) :: toBase128 (n / 128)
  else [UInt8.ofNat (n % 128)]
termination_by n
decreasing_by omega

theorem toBase128_spec (n : Nat) : Terminated (toBase128 n) ∧ base128 (toBase128 n) = n := by
  fun_induction toBase128 n with
  | case1 n hmore ih =>
    obtain ⟨⟨run, last, heq, hrun, hlast⟩, hvalue⟩ := ih
    have hbyte : (UInt8.ofNat (n % 128 + 128)).toNat = n % 128 + 128 := by
      rw [UInt8.toNat_ofNat']
      omega
    refine ⟨⟨UInt8.ofNat (n % 128 + 128) :: run, last, by rw [heq]; rfl, ?_, hlast⟩, ?_⟩
    · rw [List.forall_mem_cons]
      refine ⟨decide_eq_true ?_, hrun⟩
      rw [hbyte]
      omega
    · rw [base128, hvalue, hbyte]
      omega
  | case2 n hlow =>
    have hbyte : (UInt8.ofNat (n % 128)).toNat = n % 128 := by
      rw [UInt8.toNat_ofNat']
      omega
    refine ⟨⟨[], _, rfl, by simp, by simp [continues, hbyte, Nat.mod_lt]⟩, ?_⟩
    rw [base128, base128, hbyte]
    omega

/-- A number below `128 ^ k` takes at most `k` bytes. -/
theorem length_toBase128_le {n k : Nat} (hk : 0 < k) (h : n < 128 ^ k) :
    (toBase128 n).length ≤ k := by
  induction k generalizing n with
  | zero => omega
  | succ k ih =>
    rw [toBase128]
    split
    · next hmore =>
      have hdiv : n / 128 < 128 ^ k := Nat.div_lt_of_lt_mul (by rwa [Nat.pow_succ'] at h)
      have hpos : 0 < k := Nat.pos_of_ne_zero (by rintro rfl; omega)
      exact Nat.succ_le_succ (ih hpos hdiv)
    · exact Nat.succ_le_succ (Nat.zero_le k)

end Gump.Foundation
