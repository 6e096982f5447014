/-
  Foundation/Effects.lean --- computations that keep their state when they fail.

  A method that mutates its receiver and returns a `Result` keeps what it did
  before the error.  `EStateM` is that computation: a failure carries the state it
  was reached in.  The rules below reason about the state a computation ends in,
  returned or failed, as a chain of small steps, and about loops that stop at the
  first error.
-/
import Mathlib.Algebra.GroupWithZero.Nat
import Mathlib.Logic.Relation

set_option autoImplicit false

namespace Gump.Foundation

variable {ε σ α β ι : Type}

/-- The state a computation ends in, whether it returned or failed. -/
def endState : EStateM.Result ε σ α → σ
  | .ok _ s => s
  | .error _ s => s

@[simp, grind =] theorem endState_ok (a : α) (s : σ) :
    endState (.ok a s : EStateM.Result ε σ α) = s := rfl

@[simp, grind =] theorem endState_error (e : ε) (s : σ) :
    endState (.error e s : EStateM.Result ε σ α) = s := rfl

/-- Whether a computation returned. -/
def succeeded : EStateM.Result ε σ α → Bool
  | .ok _ _ => true
  | .error _ _ => false

@[simp, grind =] theorem succeeded_ok (a : α) (s : σ) :
    succeeded (.ok a s : EStateM.Result ε σ α) = true := rfl

@[simp, grind =] theorem succeeded_error (e : ε) (s : σ) :
    succeeded (.error e s : EStateM.Result ε σ α) = false := rfl

theorem succeeded_iff {r : EStateM.Result ε σ α} :
    succeeded r = true ↔ ∃ a s, r = .ok a s := by
  cases r <;> simp

/-- The same outcome in another state. -/
def mapState (f : σ → σ) : EStateM.Result ε σ α → EStateM.Result ε σ α
  | .ok a s => .ok a (f s)
  | .error e s => .error e (f s)

/-! ## Sequencing -/

variable {m : EStateM ε σ α} {k : α → EStateM ε σ β} {s s' : σ}

theorem run_bind_ok {a : α} (h : m.run s = .ok a s') : (m >>= k).run s = (k a).run s' := by
  simp [EStateM.run_bind, h]

theorem run_bind_error {e : ε} (h : m.run s = .error e s') : (m >>= k).run s = .error e s' := by
  simp [EStateM.run_bind, h]

/-- A sequence returns exactly when both parts do. -/
theorem run_bind_eq_ok {b : β} :
    (m >>= k).run s = .ok b s' ↔ ∃ a t, m.run s = .ok a t ∧ (k a).run t = .ok b s' := by
  cases h : m.run s with
  | ok a t =>
    rw [run_bind_ok h]
    exact ⟨fun hk => ⟨a, t, rfl, hk⟩, by rintro ⟨_, _, ⟨⟩, hk⟩; exact hk⟩
  | error e t => simp [run_bind_error h]

/-- A sequence fails in its first part, or in its second after the first
returned. -/
theorem run_bind_eq_error {e : ε} : (m >>= k).run s = .error e s' ↔
      m.run s = .error e s' ∨ ∃ a t, m.run s = .ok a t ∧ (k a).run t = .error e s' := by
  cases h : m.run s with
  | ok a t =>
    rw [run_bind_ok h]
    refine ⟨fun hk => Or.inr ⟨a, t, rfl, hk⟩, ?_⟩
    rintro (hm | ⟨_, _, ⟨⟩, hk⟩)
    · cases hm
    · exact hk
  | error e t => simp [run_bind_error h]

/-! ## The errors of a computation -/

/-- Every error of the computation meets `P`. -/
def FailsWith (P : ε → Prop) (m : EStateM ε σ α) : Prop :=
  ∀ s s' e, m.run s = .error e s' → P e

section Errors

variable {P : ε → Prop}

theorem FailsWith.of_ok {m : EStateM ε σ α} (h : ∀ s, ∃ a s', m.run s = .ok a s') :
    FailsWith P m := by
  intro s s' e hrun
  obtain ⟨a, t, ht⟩ := h s
  cases ht.symm.trans hrun

theorem FailsWith.throw {e : ε} (h : P e) : FailsWith P (throw e : EStateM ε σ α) := by
  intro s s' e' hrun
  obtain ⟨rfl, _⟩ := EStateM.Result.error.inj hrun
  exact h

theorem FailsWith.bind {m : EStateM ε σ α} {k : α → EStateM ε σ β} (hm : FailsWith P m)
    (hk : ∀ a, FailsWith P (k a)) : FailsWith P (m >>= k) := by
  intro s s' e hrun
  rcases run_bind_eq_error.mp hrun with h | ⟨a, t, _, h⟩
  · exact hm s s' e h
  · exact hk a t s' e h

theorem FailsWith.forM {f : ι → EStateM ε σ PUnit} (hf : ∀ x, FailsWith P (f x))
    (xs : List ι) : FailsWith P (forM xs f : EStateM ε σ PUnit) := by
  induction xs with
  | nil => exact FailsWith.of_ok fun s => ⟨_, _, rfl⟩
  | cons x rest ih =>
    rw [List.forM_cons]
    exact (hf x).bind fun _ => ih

end Errors

/-! ## Properties that a computation keeps -/

/-- From a state that meets `I` the computation ends in one that does, returned or
failed. -/
def Keeps (I : σ → Prop) (m : EStateM ε σ α) : Prop := ∀ s, I s → I (endState (m.run s))

namespace Keeps

variable {I : σ → Prop}

theorem pure (a : α) : Keeps I (pure a : EStateM ε σ α) := fun _ hs => hs

theorem throw (e : ε) : Keeps I (throw e : EStateM ε σ α) := fun _ hs => hs

theorem set {t : σ} (ht : I t) : Keeps I (set t : EStateM ε σ PUnit) := fun _ _ => ht

/-- What follows may rely on how its argument was returned. -/
theorem bind_ok {m : EStateM ε σ α} {k : α → EStateM ε σ β} (hm : Keeps I m)
    (hk : ∀ s a t, m.run s = .ok a t → Keeps I (k a)) : Keeps I (m >>= k) := by
  intro s hs
  have hend := hm s hs
  cases h : m.run s with
  | ok a t =>
    rw [h] at hend
    rw [run_bind_ok h]
    exact hk s a t h t hend
  | error e t =>
    rw [h] at hend
    rw [run_bind_error h]
    exact hend

theorem bind {m : EStateM ε σ α} {k : α → EStateM ε σ β} (hm : Keeps I m)
    (hk : ∀ a, Keeps I (k a)) : Keeps I (m >>= k) := hm.bind_ok fun _ a _ _ => hk a

/-- The state that is read meets the property. -/
theorem get_bind {k : σ → EStateM ε σ α} (hk : ∀ s, I s → Keeps I (k s)) :
    Keeps I (get >>= k) := fun s hs => hk s hs s hs

theorem forM_of_mem {f : ι → EStateM ε σ PUnit} {xs : List ι} (hf : ∀ x ∈ xs, Keeps I (f x)) :
    Keeps I (forM xs f : EStateM ε σ PUnit) := by
  induction xs with
  | nil => exact Keeps.pure _
  | cons x rest ih =>
    rw [List.forall_mem_cons] at hf
    rw [List.forM_cons]
    exact hf.1.bind fun _ => ih hf.2

end Keeps

/-- A sequence runs its second part on what the first returned and left. -/
theorem stateM_run_bind {op : StateM σ α} {k : α → StateM σ β} {a : α} (h : op.run s = (a, s')) :
    (op >>= k).run s = (k a).run s' := by
  change (k (op.run s).1).run (op.run s).2 = _
  rw [h]

/-- What a computation returns and leaves, run from a state, has a property. -/
def Ensures (op : StateM σ α) (s : σ) (Q : α → σ → Prop) : Prop := Q (op.run s).1 (op.run s).2

namespace Ensures

variable {op : StateM σ α} {s : σ} {P Q : α → σ → Prop}

theorem pure {a : α} (h : Q a s) : Ensures (pure a) s Q := h

variable {k : α → StateM σ β} {R : β → σ → Prop}

theorem bind (h : Ensures op s fun a t => Ensures (k a) t R) : Ensures (op >>= k) s R := h

/-- A sequence, from what is known of its first part. -/
theorem seq (h : Ensures op s P) (hk : ∀ a t, P a t → Ensures (k a) t R) :
    Ensures (op >>= k) s R := hk _ _ h

/-- A sequence, whatever its first part does. -/
theorem next (h : ∀ a t, Ensures (k a) t R) : Ensures (op >>= k) s R := h _ _

theorem self : Ensures op s fun a t => op.run s = (a, t) := rfl

theorem and (hP : Ensures op s P) (hQ : Ensures op s Q) : Ensures op s fun a t => P a t ∧ Q a t :=
  ⟨hP, hQ⟩

theorem mono (h : Ensures op s P) (hPQ : ∀ a t, P a t → Q a t) : Ensures op s Q := hPQ _ _ h

end Ensures

/-! ## Chains of small steps -/

section Chains

variable {r : σ → σ → Prop}

/-- Run from `s`, the computation ends in a state that a chain of `r`-steps
reaches. -/
def Reaches (r : σ → σ → Prop) (m : EStateM ε σ α) (s : σ) : Prop :=
  Relation.ReflTransGen r s (endState (m.run s))

theorem Reaches.pure (a : α) (s : σ) : Reaches r (pure a : EStateM ε σ α) s :=
  Relation.ReflTransGen.refl

theorem Reaches.throw (e : ε) (s : σ) : Reaches r (throw e : EStateM ε σ α) s :=
  Relation.ReflTransGen.refl

variable {m : EStateM ε σ α} {s : σ}

/-- The chain of one step. -/
theorem Reaches.single {t : σ} (hend : endState (m.run s) = t) (hstep : r s t) : Reaches r m s := by
  unfold Reaches
  rw [hend]
  exact Relation.ReflTransGen.single hstep

/-- The chain of no step. -/
theorem Reaches.idle (hend : endState (m.run s) = s) : Reaches r m s := by
  unfold Reaches
  rw [hend]

/-- Reading the state adds nothing to a chain. -/
theorem Reaches.get_bind {k : σ → EStateM ε σ α} (h : Reaches r (k s) s) :
    Reaches r (get >>= k) s := h

theorem Reaches.bind {k : α → EStateM ε σ β} (hm : Reaches r m s)
    (hk : ∀ a s', m.run s = .ok a s' → Reaches r (k a) s') : Reaches r (m >>= k) s := by
  unfold Reaches at hm ⊢
  cases h : m.run s with
  | ok a t =>
    rw [run_bind_ok h]
    rw [h] at hm
    exact hm.trans (hk a t h)
  | error e t =>
    rw [run_bind_error h]
    rwa [h] at hm

/-- A property kept by every step holds at the end of a chain. -/
theorem chain_invariant {P : σ → Prop} (hstep : ∀ s s', P s → r s s' → P s') {s' : σ}
    (h : Relation.ReflTransGen r s s') (hs : P s) : P s' := by
  induction h with
  | refl => exact hs
  | tail _ hlast ih => exact hstep _ _ ih hlast

/-- A loop reaches its end by a chain when each round does from a state that
meets an invariant of the rounds that return. -/
theorem Reaches.forM_of_ok {I : σ → Prop} {f : ι → EStateM ε σ PUnit} {xs : List ι}
    (hf : ∀ x ∈ xs, ∀ s, I s → Reaches r (f x) s)
    (hok : ∀ x ∈ xs, ∀ s s', I s → (f x).run s = .ok () s' → I s') (hs : I s) :
    Reaches r (forM xs f) s := by
  induction xs generalizing s with
  | nil => exact Reaches.pure _ _
  | cons x rest ih =>
    rw [List.forM_cons]
    refine (hf x (by simp) s hs).bind ?_
    intro _ t ht
    exact ih (fun y hy => hf y (by simp [hy])) (fun y hy => hok y (by simp [hy]))
      (hok x (by simp) s t hs ht)

/-- A loop reaches its end by a chain when each round does from a state that
meets an invariant of the steps. -/
theorem Reaches.forM {I : σ → Prop} (hI : ∀ s s', I s → r s s' → I s') {f : ι → EStateM ε σ PUnit}
    {xs : List ι} (hf : ∀ x ∈ xs, ∀ s, I s → Reaches r (f x) s) (hs : I s) :
    Reaches r (forM xs f) s := by
  refine Reaches.forM_of_ok hf ?_ hs
  intro x hx s s' hs' hrun
  have hend := chain_invariant hI (hf x hx s hs') hs'
  rwa [hrun] at hend

end Chains

/-! ## Loops that stop at the first error -/

section Loops

variable {f : ι → EStateM ε σ PUnit}

@[simp] theorem forM_nil_run (s : σ) : (forM [] f : EStateM ε σ PUnit).run s = .ok () s := rfl

theorem forM_cons_run (x : ι) (xs : List ι) (s : σ) :
    (forM (x :: xs) f : EStateM ε σ PUnit).run s = (f x >>= fun _ => forM xs f).run s := by
  rw [List.forM_cons]

theorem forM_append_run (xs ys : List ι) (s : σ) :
    (forM (xs ++ ys) f : EStateM ε σ PUnit).run s = (forM xs f >>= fun _ => forM ys f).run s := by
  induction xs generalizing s with
  | nil => rfl
  | cons x rest ih =>
    rw [List.cons_append, forM_cons_run]
    cases h : (f x).run s with
    | ok u t =>
      rw [run_bind_ok h, ih, List.forM_cons, bind_assoc, run_bind_ok h]
    | error e t =>
      rw [run_bind_error h, List.forM_cons, bind_assoc, run_bind_error h]

/-- A loop fails at the first element that fails, in the state its predecessors
left. -/
theorem forM_run_eq_error {xs : List ι} {s s' : σ} {e : ε} :
    (forM xs f : EStateM ε σ PUnit).run s = .error e s' ↔
      ∃ pre x post t, xs = pre ++ x :: post ∧
        (forM pre f : EStateM ε σ PUnit).run s = .ok () t ∧ (f x).run t = .error e s' := by
  constructor
  · intro h
    induction xs generalizing s with
    | nil => simp at h
    | cons x rest ih =>
      rw [forM_cons_run] at h
      rcases run_bind_eq_error.mp h with hx | ⟨_, t, hx, hrest⟩
      · exact ⟨[], x, rest, s, rfl, rfl, hx⟩
      · obtain ⟨pre, y, post, u, hsplit, hpre, hy⟩ := ih hrest
        refine ⟨x :: pre, y, post, u, by rw [hsplit]; rfl, ?_, hy⟩
        rw [forM_cons_run, run_bind_ok hx, hpre]
  · rintro ⟨pre, x, post, t, hsplit, hpre, hx⟩
    rw [hsplit, forM_append_run, run_bind_ok hpre, forM_cons_run, run_bind_error hx]

/-- In a loop that returned, every element ran and returned, between the loops
over the elements before and after it. -/
theorem forM_run_split {pre post : List ι} {x : ι} {s s' : σ}
    (h : (forM (pre ++ x :: post) f : EStateM ε σ PUnit).run s = .ok () s') :
    ∃ t u, (forM pre f : EStateM ε σ PUnit).run s = .ok () t ∧ (f x).run t = .ok () u ∧
      (forM post f : EStateM ε σ PUnit).run u = .ok () s' := by
  rw [forM_append_run] at h
  obtain ⟨_, t, hpre, hrest⟩ := run_bind_eq_ok.mp h
  rw [forM_cons_run] at hrest
  obtain ⟨_, u, hx, hpost⟩ := run_bind_eq_ok.mp hrest
  exact ⟨t, u, hpre, hx, hpost⟩

end Loops

end Gump.Foundation
