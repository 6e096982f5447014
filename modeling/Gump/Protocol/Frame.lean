/-
  Protocol/Frame.lean --- control-stream framing.

  A frame is the length of its payload as a varint, and the payload.  A receiver
  splits one frame after another off its buffer; a length over the ceiling of the
  message kind is refused before the payload is there.  The decoder of lengths keeps
  64 bits and stops after ten bytes, but it does not look at the high bits of the
  tenth byte.
-/
import Gump.Foundation.Base128
import Gump.Foundation.Words

set_option autoImplicit false

namespace Gump.Protocol

open Gump.Foundation

def maxControlFrame : Nat := 2 ^ 20
def maxErrorFrame : Nat := 16 * 2 ^ 10
def maxHelloFrame : Nat := 64 * 2 ^ 10

/-- Which ceiling applies to a message. -/
inductive FrameKind where
  | control
  | error
  | hello
  deriving DecidableEq, Repr

def FrameKind.maxLen : FrameKind → Nat
  | .control => maxControlFrame
  | .error => maxErrorFrame
  | .hello => maxHelloFrame

inductive FrameError where
  | truncated
  | varintOverflow
  | lengthExceedsCeiling (length ceiling : Nat)
  | emptyFrame
  deriving DecidableEq, Repr

/-- The loop of `decodeVarint` at the byte with index `i`.  A shift keeps the low 64
bits of its result. -/
def decodeVarintFrom (i value shift : Nat) : List UInt8 → Except FrameError (Nat × Nat)
  | [] => .error .truncated
  | byte :: rest =>
    if i ≥ 10 then .error .varintOverflow
    else
      let value := value ||| ((byte &&& 0x7f).toNat <<< shift) % 2 ^ 64
      if byte &&& 0x80 = 0 then .ok (value, i + 1)
      else if shift + 7 ≥ 64 then .error .varintOverflow
      else decodeVarintFrom (i + 1) value (shift + 7) rest

/-- The number at the start of a buffer, and how many bytes it takes. -/
def decodeVarint (buf : List UInt8) : Except FrameError (Nat × Nat) := decodeVarintFrom 0 0 0 buf

/-- The bytes of a number. -/
def encodeVarint (value : Nat) : List UInt8 :=
  let byte := UInt8.ofNat (value &&& 0x7f)
  if value >>> 7 ≠ 0 then (byte ||| 0x80) :: encodeVarint (value >>> 7) else [byte]
termination_by value
decreasing_by
  rw [Nat.shiftRight_eq_div_pow] at *
  omega

/-- The length of the payload and of its varint, after the ceiling is checked. -/
def decodeFramePrefix (buf : List UInt8) (kind : FrameKind) : Except FrameError (Nat × Nat) := do
  let (length, prefixLen) ← decodeVarint buf
  if length = 0 then throw .emptyFrame
  if length > kind.maxLen then throw (.lengthExceedsCeiling length kind.maxLen)
  if prefixLen + length > u64Max then throw .varintOverflow
  if buf.length < prefixLen + length then throw .truncated
  return (length, prefixLen)

/-- The payload of the first frame, and how many bytes the frame takes. -/
def splitFrame (buf : List UInt8) (kind : FrameKind) : Except FrameError (List UInt8 × Nat) := do
  let (length, prefixLen) ← decodeFramePrefix buf kind
  return ((buf.drop prefixLen).take length, prefixLen + length)

/-- The frame of a payload. -/
def encodeFrame (payload : List UInt8) (kind : FrameKind) : Except FrameError (List UInt8) :=
  if payload.isEmpty then .error .emptyFrame
  else if payload.length > kind.maxLen then
    .error (.lengthExceedsCeiling payload.length kind.maxLen)
  else .ok (encodeVarint payload.length ++ payload)

/-! ## Lengths -/

/-- The loop masks a byte with its seven low bits. -/
theorem toNat_and_low (b : UInt8) : (b &&& 0x7f).toNat = b.toNat % 128 := by
  rw [UInt8.toNat_and]
  exact Nat.and_two_pow_sub_one_eq_mod b.toNat 7

theorem and_high_eq_zero_iff (b : UInt8) : b &&& 0x80 = 0 ↔ continues b = false := by
  have hall : ∀ b : BitVec 8, b &&& 0x80 = 0 ↔ b.toNat < 128 := by decide
  rw [← UInt8.toBitVec_inj, continues, decide_eq_false_iff_not, Nat.not_le]
  exact hall b.toBitVec

variable {value i : Nat}

/-- A digit is put above the ones already read, as far as 64 bits hold it. -/
theorem or_shift (digit : Nat) (hi : i ≤ 9) (h : value < 128 ^ i) :
    value ||| digit <<< (7 * i) % 2 ^ 64 = (value + 128 ^ i * digit) % 2 ^ 64 := by
  have hpow : 128 ^ i = 2 ^ (7 * i) := by rw [Nat.pow_mul]
  have hword : value < 2 ^ 64 :=
    calc value < 128 ^ i := h
      _ ≤ 128 ^ 9 := Nat.pow_le_pow_right (by decide) hi
      _ ≤ 2 ^ 64 := by decide
  rw [hpow] at h ⊢
  calc value ||| digit <<< (7 * i) % 2 ^ 64
      = (digit <<< (7 * i) ||| value) % 2 ^ 64 := by
        rw [Nat.or_comm, Nat.or_mod_two_pow, Nat.mod_eq_of_lt hword]
    _ = (value + 2 ^ (7 * i) * digit) % 2 ^ 64 := by
        rw [← Nat.shiftLeft_add_eq_or_of_lt h, Nat.shiftLeft_eq, Nat.mul_comm, Nat.add_comm]

/-- The digits read so far stay below the next place. -/
theorem add_digit_lt (h : value < 128 ^ i) (digit : Nat) :
    value + 128 ^ i * (digit % 128) < 128 ^ (i + 1) := by
  have hdigit : 128 ^ i * (digit % 128) ≤ 128 ^ i * 127 :=
    Nat.mul_le_mul_left _ (Nat.le_of_lt_succ (Nat.mod_lt _ (by decide)))
  rw [Nat.pow_succ]
  omega

section Loop

variable {i value : Nat} (hi : i ≤ 9) (hv : value < 128 ^ i)

include hi hv

/-- A byte that does not continue ends the number. -/
theorem decodeVarintFrom_last {b : UInt8} (hb : continues b = false) (rest : List UInt8) :
    decodeVarintFrom i value (7 * i) (b :: rest) =
      .ok ((value + 128 ^ i * base128 [b]) % 2 ^ 64, i + 1) := by
  have hlow : b.toNat % 128 = base128 [b] := by simp [base128]
  rw [decodeVarintFrom, if_neg (by omega), if_pos ((and_high_eq_zero_iff b).mpr hb), toNat_and_low,
    or_shift _ hi hv, hlow]

/-- A byte that continues goes on with its digit, unless it is the tenth. -/
theorem decodeVarintFrom_more {b : UInt8} (hb : continues b) (rest : List UInt8) :
    decodeVarintFrom i value (7 * i) (b :: rest) =
      if i = 9 then .error .varintOverflow
      else decodeVarintFrom (i + 1) (value + 128 ^ i * (b.toNat % 128)) (7 * (i + 1)) rest := by
  have hhigh : ¬ b &&& 0x80 = 0 := by
    rw [and_high_eq_zero_iff, hb]
    decide
  rw [decodeVarintFrom, if_neg (by omega), if_neg hhigh, toNat_and_low, or_shift _ hi hv]
  by_cases hlast : i = 9
  · rw [if_pos (by omega), if_pos hlast]
  · have hfits : value + 128 ^ i * (b.toNat % 128) < 2 ^ 64 :=
      calc value + 128 ^ i * (b.toNat % 128) < 128 ^ (i + 1) := add_digit_lt hv _
        _ ≤ 128 ^ 9 := Nat.pow_le_pow_right (by decide) (by omega)
        _ ≤ 2 ^ 64 := by decide
    rw [if_neg (by omega), if_neg hlast, Nat.mod_eq_of_lt hfits, Nat.mul_succ]

end Loop

variable {run : List UInt8}

/-- Ten bytes that continue are too many. -/
theorem decodeVarintFrom_overflow (hrun : ∀ b ∈ run, continues b) (rest : List UInt8) (hi : i ≤ 9)
    (hv : value < 128 ^ i) (hlen : 10 ≤ i + run.length) :
    decodeVarintFrom i value (7 * i) (run ++ rest) = .error .varintOverflow := by
  induction run generalizing i value with
  | nil => simp only [List.length_nil] at hlen; omega
  | cons b run ih =>
    rw [List.forall_mem_cons] at hrun
    rw [List.length_cons] at hlen
    rw [List.cons_append, decodeVarintFrom_more hi hv hrun.1]
    split
    · rfl
    · exact ih hrun.2 (by omega) (add_digit_lt hv _) (by omega)

/-- Fewer bytes that continue, with nothing after them, ask for more. -/
theorem decodeVarintFrom_truncated (hrun : ∀ b ∈ run, continues b) (hv : value < 128 ^ i)
    (hlen : i + run.length ≤ 9) : decodeVarintFrom i value (7 * i) run = .error .truncated := by
  induction run generalizing i value with
  | nil => rfl
  | cons b run ih =>
    rw [List.forall_mem_cons] at hrun
    rw [List.length_cons] at hlen
    rw [decodeVarintFrom_more (by omega) hv hrun.1, if_neg (by omega)]
    exact ih hrun.2 (add_digit_lt hv _) (by omega)

/-- A number of at most ten bytes is read modulo `2 ^ 64`. -/
theorem decodeVarintFrom_terminated (hrun : ∀ b ∈ run, continues b) {last : UInt8}
    (hlast : continues last = false) (rest : List UInt8) (hv : value < 128 ^ i)
    (hlen : i + run.length ≤ 9) : decodeVarintFrom i value (7 * i) (run ++ last :: rest) =
      .ok ((value + 128 ^ i * base128 (run ++ [last])) % 2 ^ 64, i + run.length + 1) := by
  induction run generalizing i value with
  | nil => exact decodeVarintFrom_last (by omega) hv hlast rest
  | cons b run ih =>
    rw [List.forall_mem_cons] at hrun
    rw [List.length_cons] at hlen
    rw [List.cons_append, decodeVarintFrom_more (by omega) hv hrun.1, if_neg (by omega),
      ih hrun.2 (add_digit_lt hv _) (by omega), List.cons_append, base128, List.length_cons,
      Nat.pow_succ, Nat.mul_add, Nat.mul_assoc, Nat.add_assoc value, Nat.add_right_comm i 1]
    rfl

/-- What the decoder accepts: a number of at most ten bytes, modulo `2 ^ 64`. -/
theorem decodeVarint_ok_iff (buf : List UInt8) (v n : Nat) :
    decodeVarint buf = .ok (v, n) ↔
      ∃ run last rest, buf = run ++ last :: rest ∧ (∀ b ∈ run, continues b) ∧
        continues last = false ∧ run.length ≤ 9 ∧ n = run.length + 1 ∧
        v = base128 (run ++ [last]) % 2 ^ 64 := by
  have hstart : decodeVarint buf = decodeVarintFrom 0 0 (7 * 0) buf := rfl
  constructor
  · intro h
    rw [hstart] at h
    rcases number_or_run buf with ⟨run, last, rest, rfl, hrun, hlast⟩ | hall
    · by_cases hlen : run.length ≤ 9
      · rw [decodeVarintFrom_terminated hrun hlast rest (by decide) (by omega)] at h
        simp only [Nat.zero_add, Nat.pow_zero, Nat.one_mul] at h
        cases h
        exact ⟨run, last, rest, rfl, hrun, hlast, hlen, rfl, rfl⟩
      · rw [decodeVarintFrom_overflow hrun _ (by decide) (by decide) (by omega)] at h
        cases h
    · by_cases hlen : buf.length ≤ 9
      · rw [decodeVarintFrom_truncated hall (by decide) (by omega)] at h
        cases h
      · rw [← List.append_nil buf, decodeVarintFrom_overflow hall [] (by decide) (by decide)
          (by omega)] at h
        cases h
  · rintro ⟨run, last, rest, rfl, hrun, hlast, hlen, rfl, rfl⟩
    rw [hstart, decodeVarintFrom_terminated hrun hlast rest (by decide) (by omega)]
    simp only [Nat.zero_add, Nat.pow_zero, Nat.one_mul]

/-- A number of ten bytes whose last one does not fit into the 64th bit. -/
def WideTenth (buf : List UInt8) : Prop :=
  ∃ run last rest, buf = run ++ last :: rest ∧ run.length = 9 ∧ (∀ b ∈ run, continues b) ∧
    continues last = false ∧ 2 ≤ last.toNat

/-- What the decoder returns is the number at the start of the buffer. -/
def VarintExact (buf : List UInt8) : Prop :=
  ∀ v n, decodeVarint buf = .ok (v, n) →
    n ≤ buf.length ∧ Terminated (buf.take n) ∧ base128 (buf.take n) = v

/-- The number of a run and its last byte. -/
theorem base128_run (run : List UInt8) {last : UInt8} (hlast : continues last = false) :
    base128 (run ++ [last]) = base128 run + 128 ^ run.length * last.toNat := by
  have hlow : last.toNat < 128 := Nat.lt_of_not_le (of_decide_eq_false hlast)
  rw [base128_append, base128, base128, Nat.mod_eq_of_lt hlow]
  rfl

theorem varintExact_iff (buf : List UInt8) : VarintExact buf ↔ ¬ WideTenth buf := by
  constructor
  · rintro hexact ⟨run, last, rest, rfl, hnine, hrun, hlast, hwide⟩
    have hok := (decodeVarint_ok_iff (run ++ last :: rest) _ _).mpr
      ⟨run, last, rest, rfl, hrun, hlast, by omega, rfl, rfl⟩
    obtain ⟨-, -, hvalue⟩ := hexact _ _ hok
    rw [take_number, base128_run run hlast, hnine] at hvalue
    omega
  · intro hnarrow v n hok
    obtain ⟨run, last, rest, rfl, hrun, hlast, hlen, rfl, rfl⟩ := (decodeVarint_ok_iff _ v n).mp hok
    refine ⟨by simp, by rw [take_number]; exact ⟨run, last, rfl, hrun, hlast⟩, ?_⟩
    rw [take_number, Nat.mod_eq_of_lt]
    by_cases hnine : run.length = 9
    · -- Only the lowest bit of the tenth byte is a digit of a 64-bit word.
      have hbit : last.toNat < 2 := by
        by_contra hwide
        exact hnarrow ⟨run, last, rest, rfl, hnine, hrun, hlast, Nat.le_of_not_lt hwide⟩
      have hlow := base128_lt run
      rw [base128_run run hlast, hnine]
      rw [hnine] at hlow
      omega
    · calc base128 (run ++ [last]) < 128 ^ (run ++ [last]).length := base128_lt _
        _ ≤ 128 ^ 9 := Nat.pow_le_pow_right (by decide) (by simp; omega)
        _ ≤ 2 ^ 64 := by decide

/-! ## Frames -/

/-- The encoder writes the shortest bytes of a number. -/
theorem encodeVarint_eq (value : Nat) : encodeVarint value = toBase128 value := by
  have hlow : ∀ n : Nat, n &&& 0x7f = n % 128 := fun n => Nat.and_two_pow_sub_one_eq_mod n 7
  have hhigh : ∀ n : Nat, UInt8.ofNat (n % 128) ||| 0x80 = UInt8.ofNat (n % 128 + 128) := by
    intro n
    have hall : ∀ d < 128, UInt8.ofNat d ||| 0x80 = UInt8.ofNat (d + 128) := by decide
    exact hall _ (Nat.mod_lt _ (by decide))
  fun_induction encodeVarint value with
  | case1 value byte hmore ih =>
    rw [Nat.shiftRight_eq_div_pow] at hmore ih
    rw [toBase128, if_pos hmore, ← ih, ← hhigh, ← hlow, Nat.shiftRight_eq_div_pow]
  | case2 value byte hlast =>
    rw [Nat.shiftRight_eq_div_pow] at hlast
    rw [toBase128, if_neg hlast, ← hlow]

section Frames

variable {kind : FrameKind} {length : Nat}

theorem maxLen_le (kind : FrameKind) : kind.maxLen ≤ 2 ^ 20 := by
  cases kind <;> decide

/-- A length within a ceiling takes at most three bytes. -/
theorem length_encodeVarint_le (h : length ≤ kind.maxLen) : (encodeVarint length).length ≤ 3 := by
  rw [encodeVarint_eq]
  have hle := maxLen_le kind
  exact length_toBase128_le (by decide) (by omega)

/-- A length is read back, whatever follows it. -/
theorem decodeVarint_encodeVarint (h : length ≤ kind.maxLen) (rest : List UInt8) :
    decodeVarint (encodeVarint length ++ rest) = .ok (length, (encodeVarint length).length) := by
  have hshort := length_encodeVarint_le h
  have hle := maxLen_le kind
  rw [encodeVarint_eq] at hshort ⊢
  obtain ⟨⟨run, last, heq, hrun, hlast⟩, hvalue⟩ := toBase128_spec length
  rw [heq, List.length_append, List.length_singleton] at hshort
  refine (decodeVarint_ok_iff _ _ _).mpr
    ⟨run, last, rest, by simp [heq], hrun, hlast, by omega, by simp [heq], ?_⟩
  rw [← heq, hvalue, Nat.mod_eq_of_lt (by omega)]

variable {n : Nat}

/-- A part of a length asks for more. -/
theorem decodeVarint_take (h : length ≤ kind.maxLen) (hn : n < (encodeVarint length).length) :
    decodeVarint ((encodeVarint length).take n) = .error .truncated := by
  have hshort := length_encodeVarint_le h
  rw [encodeVarint_eq] at hn hshort ⊢
  obtain ⟨⟨run, last, heq, hrun, hlast⟩, -⟩ := toBase128_spec length
  rw [heq, List.length_append, List.length_singleton] at hn hshort
  rw [heq, List.take_append_of_le_length (by omega)]
  exact decodeVarintFrom_truncated (fun b hb => hrun b (List.mem_of_mem_take hb)) (by decide)
    (by rw [List.length_take]; omega)

/-- What is left to check once the length is read. -/
theorem splitFrame_of_length {buf : List UInt8} (hok : decodeVarint buf = .ok (length, n))
    (hpos : length ≠ 0) (h : length ≤ kind.maxLen) (hn : n ≤ 3) : splitFrame buf kind =
      if buf.length < n + length then .error .truncated
      else .ok ((buf.drop n).take length, n + length) := by
  have hle := maxLen_le kind
  have hword : ¬ n + length > u64Max := by
    simp only [u64Max]
    omega
  rw [splitFrame, decodeFramePrefix, hok]
  by_cases hcut : buf.length < n + length
  · simp [bind, Except.bind, throw, throwThe, MonadExceptOf.throw, hpos,
      Nat.not_lt.mpr h, hword, hcut]
  · simp [bind, Except.bind, pure, Except.pure, hpos, Nat.not_lt.mpr h, hword, hcut]

/-- The frame of a payload is split off a buffer. -/
theorem splitFrame_frame {payload : List UInt8} (hne : payload ≠ [])
    (h : payload.length ≤ kind.maxLen) (rest : List UInt8) :
    splitFrame (encodeVarint payload.length ++ payload ++ rest) kind =
      .ok (payload, (encodeVarint payload.length ++ payload).length) := by
  rw [List.append_assoc, splitFrame_of_length (decodeVarint_encodeVarint h _)
    (List.length_eq_zero_iff.not.mpr hne) h (length_encodeVarint_le h), if_neg (by simp),
    List.drop_left, List.take_left, List.length_append]

/-- A part of a frame asks for more. -/
theorem splitFrame_take {payload : List UInt8} (hne : payload ≠ [])
    (h : payload.length ≤ kind.maxLen) (hn : n < (encodeVarint payload.length ++ payload).length) :
    splitFrame ((encodeVarint payload.length ++ payload).take n) kind = .error .truncated := by
  rw [List.length_append] at hn
  by_cases hcut : n < (encodeVarint payload.length).length
  · rw [List.take_append_of_le_length (Nat.le_of_lt hcut), splitFrame, decodeFramePrefix,
      decodeVarint_take h hcut]
    rfl
  · rw [List.take_append, List.take_of_length_le (Nat.le_of_not_lt hcut),
      splitFrame_of_length (decodeVarint_encodeVarint h _)
        (List.length_eq_zero_iff.not.mpr hne) h (length_encodeVarint_le h),
      if_pos (by rw [List.length_append, List.length_take]; omega)]

end Frames

variable {buf payload : List UInt8} {kind : FrameKind}

/-- A frame that is split off takes bytes of the buffer. -/
theorem splitFrame_ok {used : Nat} (h : splitFrame buf kind = .ok (payload, used)) :
    0 < used ∧ used ≤ buf.length := by
  unfold splitFrame decodeFramePrefix at h
  cases hok : decodeVarint buf with
  | error e => simp [hok, bind, Except.bind] at h
  | ok number =>
    obtain ⟨length, n⟩ := number
    simp only [hok, bind, Except.bind, pure, Except.pure, throw, throwThe, MonadExceptOf.throw] at h
    grind

/-- Split frames off a buffer until one cannot be: the payloads, and what the last
attempt returned. -/
def splitFrames (kind : FrameKind) (buf : List UInt8) : List (List UInt8) × FrameError :=
  match _h : splitFrame buf kind with
  | .error e => ([], e)
  | .ok (payload, used) =>
    let rest := splitFrames kind (buf.drop used)
    (payload :: rest.1, rest.2)
termination_by buf.length
decreasing_by
  have hused := splitFrame_ok _h
  rw [List.length_drop]
  omega

theorem splitFrames_error {e : FrameError} (h : splitFrame buf kind = .error e) :
    splitFrames kind buf = ([], e) := by
  rw [splitFrames]
  split
  · next e' heq => rw [h] at heq; cases heq; rfl
  · next heq => rw [h] at heq; cases heq

theorem splitFrames_ok {used : Nat} (h : splitFrame buf kind = .ok (payload, used)) :
    splitFrames kind buf =
      (payload :: (splitFrames kind (buf.drop used)).1, (splitFrames kind (buf.drop used)).2) := by
  rw [splitFrames]
  split
  · next heq => rw [h] at heq; cases heq
  · next heq => rw [h] at heq; cases heq; rfl

/-- A payload that a frame can carry. -/
def Fits (kind : FrameKind) (payload : List UInt8) : Prop :=
  payload ≠ [] ∧ payload.length ≤ kind.maxLen

theorem encodeFrame_ok (h : Fits kind payload) :
    encodeFrame payload kind = .ok (encodeVarint payload.length ++ payload) := by
  rw [encodeFrame, if_neg (by simpa using h.1), if_neg (Nat.not_lt.mpr h.2)]

/-- Frames one after another, and a part of another one, are split into their
payloads. -/
theorem splitFrames_frames {payloads : List (List UInt8)} (hfit : ∀ p ∈ payloads, Fits kind p)
    {further : List UInt8} (hfurther : Fits kind further) {n : Nat}
    (hn : n < (encodeVarint further.length ++ further).length) : splitFrames kind
        ((payloads.map fun p => encodeVarint p.length ++ p).flatten ++
          (encodeVarint further.length ++ further).take n) = (payloads, .truncated) := by
  induction payloads with
  | nil => exact splitFrames_error (splitFrame_take hfurther.1 hfurther.2 hn)
  | cons p payloads ih =>
    rw [List.forall_mem_cons] at hfit
    rw [List.map_cons, List.flatten_cons, List.append_assoc,
      splitFrames_ok (splitFrame_frame hfit.1.1 hfit.1.2 _), List.drop_left, ih hfit.2]

/-- Payloads within the ceiling come back from their frames, and a part of a further
frame asks for more; a length is read exactly unless it has a wide tenth byte. -/
theorem framing_exact_iff (buf : List UInt8) :
    (∀ (kind : FrameKind) (payloads : List (List UInt8)) (further : List UInt8),
      (∀ p ∈ payloads, Fits kind p) → Fits kind further →
      ∃ frames frame, payloads.mapM (encodeFrame · kind) = .ok frames ∧
        encodeFrame further kind = .ok frame ∧
        ∀ tail, tail <+: frame → tail ≠ frame →
          splitFrames kind (frames.flatten ++ tail) = (payloads, .truncated)) ∧
    (VarintExact buf ↔ ¬ WideTenth buf) := by
  refine ⟨fun kind payloads further hfit hfurther => ?_, varintExact_iff buf⟩
  refine ⟨payloads.map fun p => encodeVarint p.length ++ p,
    encodeVarint further.length ++ further, ?_, encodeFrame_ok hfurther, ?_⟩
  · induction payloads with
    | nil => rfl
    | cons p payloads ih =>
      rw [List.forall_mem_cons] at hfit
      rw [List.mapM_cons, encodeFrame_ok hfit.1, ih hfit.2]
      rfl
  · intro tail hpre hne
    have hshort : tail.length < (encodeVarint further.length ++ further).length :=
      Nat.lt_of_le_of_ne hpre.length_le fun heq => hne (hpre.eq_of_length heq)
    have htail := splitFrames_frames hfit hfurther hshort
    rwa [← List.prefix_iff_eq_take.mp hpre] at htail

/-- The bytes of `2 ^ 64 + 5` are read as `5`, and the next five bytes as a frame. -/
theorem wide_length_is_read_as_five :
    decodeVarint (0x85 :: List.replicate 8 0x80 ++ [2]) = .ok (5, 10) ∧
      base128 (0x85 :: List.replicate 8 0x80 ++ [2]) = 2 ^ 64 + 5 ∧
      splitFrame (0x85 :: List.replicate 8 0x80 ++ [2] ++ [1, 2, 3, 4, 5]) .control =
        .ok ([1, 2, 3, 4, 5], 15) := by
  decide

end Gump.Protocol
