/-
  Memory/ClusterNode.lean --- a write as its caller sees it (`cluster_node.rs`).

  A write is proposed on this node or forwarded to the leader.  Between the
  caller's last look at the state and its command, and between the command and the
  return of the call, commands of other clients may be applied.  A call that times
  out or loses its connection returns an error, whether its command was committed
  or not.
-/
import Mathlib.Algebra.GroupWithZero.Nat
import Gump.Memory.Desired

set_option autoImplicit false

namespace Gump.Memory

open Gump.Foundation

/-- What the caller of a write gets. -/
inductive WriteAnswer where
  /-- The response of the state machine. -/
  | response
  /-- An error, before or after the command was committed. -/
  | error (committed : Bool) (text : String)
  deriving DecidableEq, Repr

/-- How a write meets the rest of the cluster. -/
structure WriteFate where
  /-- Commands of others that are applied before this one. -/
  before : List RaftCommand := []
  answer : WriteAnswer := .response
  /-- Commands of others that are applied after this one, until the call returns. -/
  after : List RaftCommand := []

namespace WriteFate

variable [Blake3] (fate : WriteFate) (cmd : RaftCommand) (s : ClusterState)

/-- Whether the command is in the log. -/
def committed : Bool :=
  match fate.answer with
  | .response => true
  | .error committed _ => committed

/-- The state that the command meets. -/
def met : ClusterState := runFrom ClusterState.apply s fate.before

/-- What the call returns. -/
def reply : Except String RaftResponse :=
  match fate.answer with
  | .response => .ok ((fate.met s).apply cmd).2
  | .error _ text => .error text

/-- The state just after the command. -/
def written : ClusterState :=
  if fate.committed then ((fate.met s).apply cmd).1 else fate.met s

/-- The state when the call returns. -/
def left : ClusterState := runFrom ClusterState.apply (fate.written cmd s) fate.after

end WriteFate

/-- `MemoryCluster::client_write`. -/
def clientWrite [Blake3] (fate : WriteFate) (cmd : RaftCommand) :
    StateM ClusterState (Except String RaftResponse) :=
  fun s => (fate.reply cmd s, fate.left cmd s)

/-! ## Declarations -/

section Declared

variable [Blake3]

/-- A write on an undisturbed cluster leaves what its command leaves, or nothing. -/
theorem WriteFate.left_alone (answer : WriteAnswer) (cmd : RaftCommand) (s : ClusterState) :
    ({ answer := answer } : WriteFate).left cmd s = (s.apply cmd).1 ∨
      ({ answer := answer } : WriteFate).left cmd s = s := by
  unfold left written
  simp only [runFrom_nil]
  split
  · exact Or.inl rfl
  · exact Or.inr rfl

/-- A declaration in an envelope adds at most itself. -/
theorem ClusterState.declares (s : ClusterState) (operationId : Id16) (requestDigest : Digest)
    (ns app : String) (expected : Nat) (payload : List UInt8) (digest : Digest) {key : AppKey}
    {entry : DesiredEntry}
    (h : (s.apply (.idempotent operationId requestDigest
      (.putDesired ns app expected payload digest))).1.desired.get key = some entry) :
    s.desired.get key = some entry ∨
      key = ⟨ns, app⟩ ∧ entry = ⟨saturatingAdd expected 1, digest, payload⟩ := by
  have hstep := s.apply_coreStep (.idempotent operationId requestDigest
    (.putDesired ns app expected payload digest))
  generalize hcore : (s.apply (.idempotent operationId requestDigest
    (.putDesired ns app expected payload digest))).1.core = c at hstep
  generalize (s.apply (.idempotent operationId requestDigest
    (.putDesired ns app expected payload digest))).2 = response at hstep
  have hget : c.desired.get key = some entry := by rw [← hcore]; exact h
  cases hstep with
  | replayed => exact Or.inl hget
  | refused => exact Or.inl hget
  | ran heff =>
    change InnerEffect _ (.putDesired ns app expected payload digest) _ _ at heff
    cases heff with
    | declined _ => exact Or.inl hget
    | redeclared _ _ _ _ => exact Or.inl hget
    | declared _ _ _ _ _ _ =>
      rw [ClusterCore.declare, OrdMap.get_insert] at hget
      split at hget
      · rename_i hkey
        exact Or.inr ⟨hkey, (Option.some.inj hget).symm⟩
      · exact Or.inl hget

/-- The generation of a declaration, 0 if there is none. -/
def ClusterState.generation (s : ClusterState) (ns app : String) : Nat :=
  (s.desiredGeneration ns app).getD 0

omit [Blake3] in
theorem ClusterState.generation_eq (s : ClusterState) (ns app : String) :
    s.generation ns app = s.core.generationAt ⟨ns, app⟩ := rfl

/-- A command leaves a generation or takes it one further. -/
theorem CoreStep.generationAt {c c' : ClusterCore} {cmd : RaftCommand} {response : RaftResponse}
    (h : CoreStep c cmd c' response) (key : AppKey) :
    c'.generationAt key = c.generationAt key ∨
      c'.generationAt key = saturatingAdd (c.generationAt key) 1 := by
  cases h with
  | replayed => exact Or.inl rfl
  | refused => exact Or.inl rfl
  | ran heff =>
    generalize cmd.body = body at heff
    cases heff with
    | @declared ns app expected payload digest _ _ hgen _ _ _ =>
      by_cases hkey : key = ⟨ns, app⟩
      · subst hkey
        refine Or.inr ?_
        rw [hgen]
        simp [ClusterCore.generationAt, ClusterCore.declare]
      · refine Or.inl ?_
        unfold ClusterCore.generationAt
        rw [ClusterCore.declare, OrdMap.get_insert_of_ne _ _ hkey]
    | recordApplied _ | recordRejected _ | declined _ | acquired | alreadyCompleted _ _ _
    | completed _ _ _ _ | redeclared _ _ _ _ => exact Or.inl rfl

/-- A generation is a word and does not decrease. -/
theorem ClusterState.generation_run (s : ClusterState) (ns app : String)
    (cmds : List RaftCommand) (hword : s.generation ns app ≤ u64Max) :
    s.generation ns app ≤ (runFrom apply s cmds).generation ns app ∧
      (runFrom apply s cmds).generation ns app ≤ u64Max := by
  induction cmds generalizing s with
  | nil => exact ⟨Nat.le_refl _, hword⟩
  | cons cmd rest ih =>
    have hstep : s.generation ns app ≤ (s.apply cmd).1.generation ns app ∧
        (s.apply cmd).1.generation ns app ≤ u64Max := by
      rw [generation_eq, generation_eq]
      rw [generation_eq] at hword
      rcases (s.apply_coreStep cmd).generationAt ⟨ns, app⟩ with hsame | hnext
      · rw [hsame]
        exact ⟨Nat.le_refl _, hword⟩
      · rw [hnext]
        unfold saturatingAdd
        omega
    obtain ⟨hle, hmax⟩ := ih (s.apply cmd).1 hstep.2
    exact ⟨Nat.le_trans hstep.1 hle, hmax⟩

variable {s : ClusterState} {id : Id16}

/-- A declaration that was applied is at its next generation. -/
theorem ClusterState.generation_of_applied {requestDigest : Digest} {ns app : String}
    {expected : Nat} {payload : List UInt8} {digest : Digest} {outcome : ApplyOutcome}
    (h : (s.apply (.idempotent id requestDigest (.putDesired ns app expected payload digest))).2 =
      .applied outcome) : (s.apply (.idempotent id requestDigest
      (.putDesired ns app expected payload digest))).1.generation ns app =
        saturatingAdd expected 1 := by
  have hstep := s.apply_coreStep (.idempotent id requestDigest
    (.putDesired ns app expected payload digest))
  rw [h] at hstep
  rw [generation_eq]
  generalize (s.apply (.idempotent id requestDigest
    (.putDesired ns app expected payload digest))).1.core = c at hstep
  cases hstep with
  | ran heff =>
    change InnerEffect _ (.putDesired ns app expected payload digest) _ _ at heff
    cases heff with
    | redeclared hget _ hnext _ => simp [ClusterCore.generationAt, hget, hnext]
    | declared _ _ _ _ _ _ => simp [ClusterCore.generationAt, ClusterCore.declare]

variable {e : IdempotencyEntry}

omit [Blake3] in
/-- Expiry only removes receipts. -/
theorem ClusterState.get_of_expire (h : s.expireIdempotencyTtl.idempotency.get id = some e) :
    s.idempotency.get id = some e := by
  have hcached : (if s.idempotencyOldestMs.isNone && s.idempotency.size != 0 then
      s.recomputeIdempotencyOldest else s).idempotency = s.idempotency := by
    split <;> rfl
  unfold expireIdempotencyTtl at h
  simp only at h
  generalize (if s.idempotencyOldestMs.isNone && s.idempotency.size != 0 then
    s.recomputeIdempotencyOldest else s) = cached at h hcached
  rw [← hcached]
  split at h
  · exact h
  · split at h
    · exact h
    · exact (Option.filter_eq_some_iff.mp ((OrdMap.get_retain _ _ _).symm.trans h)).1

/-- The receipt of an applied envelope has its digest and its response. -/
theorem ClusterState.receipt_of_applied {requestDigest : Digest} {inner : RaftCommand}
    {outcome : ApplyOutcome}
    (h : (s.apply (.idempotent id requestDigest inner)).2 = .applied outcome)
    (hget : (s.apply (.idempotent id requestDigest inner)).1.idempotency.get id = some e) :
    e.requestDigest = requestDigest ∧ e.response = .applied outcome := by
  have hget' := get_of_expire hget
  have henveloped := s.expireIdempotencyTtl.applyIdempotent_enveloped id requestDigest inner
  change (s.expireIdempotencyTtl.applyIdempotent id requestDigest inner).2 = _ at h
  generalize (s.expireIdempotencyTtl.applyIdempotent id requestDigest inner).1 = t
    at hget' henveloped
  rw [h] at henveloped
  generalize hresponse : RaftResponse.applied outcome = response at henveloped
  cases henveloped with
  | replayed => cases hresponse
  | conflict => cases hresponse
  | nested => cases hresponse
  | recorded _ _ =>
    have hself := hget'.symm.trans (OrdMap.get_insert_self _ _ _)
    obtain rfl := Option.some.inj hself
    exact ⟨rfl, rfl⟩
  | failed _ hfailed =>
    rw [← hresponse] at hfailed
    cases hfailed

/-- An envelope whose receipt is retained changes no declaration. -/
theorem ClusterState.apply_retained (h : s.expireIdempotencyTtl.idempotency.get id = some e)
    (digest : Digest) (inner : RaftCommand) : (s.apply (.idempotent id digest inner)).2 =
        (if e.requestDigest = digest then .replay e.response
          else .rejected ("idempotency conflict for operation " ++ hex16 id)) ∧
      (s.apply (.idempotent id digest inner)).1.desired = s.desired := by
  have hdesired : ∀ t : ClusterState, t.expireIdempotencyTtl.desired = t.desired :=
    fun t => congrArg ClusterCore.desired t.core_expireIdempotencyTtl
  unfold apply applyIdempotent
  simp only [h]
  split
  · exact ⟨rfl, (hdesired _).trans (hdesired s)⟩
  · exact ⟨rfl, (hdesired _).trans (hdesired s)⟩

end Declared

/-! ## References to a Capsule -/

end Gump.Memory
