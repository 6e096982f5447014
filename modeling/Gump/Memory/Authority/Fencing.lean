/-
  Memory/Authority/Fencing.lean --- controller authority along whole runs.

  Validity of a token joins two records that move independently: the authority
  record, changed only by acquisitions, and the lease table with the committed
  clock, changed by every lease command.  What the second can do is `LeaseStep`:
  the clock and the id counter move forward, and a lease id that is dead stays
  dead.  Together with the epochs this gives exclusivity, and rules out that a
  token which has failed once ever passes again.
-/
import Gump.Memory.ClusterStep

set_option autoImplicit false

namespace Gump.Memory

open Gump.Foundation

/-! ## Leases and the clock along a run of the record machine -/

/-- What a move does to clock and leases, as long as lease ids do not run out. -/
structure LeaseStep (m m' : TypedRecordMachine) : Prop where
  nextId_le : m'.leases.nextId < u64Max → m.leases.nextId ≤ m'.leases.nextId
  dead : ∀ id, id ≤ m.leases.nextId → m'.leases.nextId < u64Max →
    m.leases.Dead m.nowMs id → m'.leases.Dead m'.nowMs id

namespace LeaseStep

/-- A move of the clock that keeps the leases. -/
theorem of_leases_eq {m m' : TypedRecordMachine} (hnow : m.nowMs ≤ m'.nowMs)
    (hleases : m'.leases = m.leases) : LeaseStep m m' where
  nextId_le := fun _ => by rw [hleases]
  dead := by
    intro id _ _ hdead
    rw [hleases]
    exact hdead.mono hnow (fun _ hget => hget)

theorem trans {m₁ m₂ m₃ : TypedRecordMachine} (h : LeaseStep m₁ m₂) (h' : LeaseStep m₂ m₃) :
    LeaseStep m₁ m₃ where
  nextId_le := by
    intro hroom
    have hle := h'.nextId_le hroom
    exact (h.nextId_le (lt_of_le_of_lt hle hroom)).trans hle
  dead := by
    intro id hid hroom hdead
    have hle := h'.nextId_le hroom
    have hroom₂ := lt_of_le_of_lt hle hroom
    exact h'.dead id (hid.trans (h.nextId_le hroom₂)) hroom (h.dead id hid hroom₂ hdead)

/-- A grant at the committed clock, possibly moved forward before. -/
theorem grant {m m' : TypedRecordMachine} (hnow : m.nowMs ≤ m'.nowMs) (purpose : LeasePurpose)
    (grantMs : Nat) (hleases : m'.leases = (m.leases.grant purpose grantMs).1) :
    LeaseStep m m' where
  nextId_le := by
    intro hroom
    rw [hleases] at hroom ⊢
    have hnext : saturatingAdd m.leases.nextId 1 = m.leases.nextId + 1 :=
      saturatingAdd_eq_of_lt hroom
    change m.leases.nextId ≤ saturatingAdd m.leases.nextId 1
    omega
  dead := by
    intro id hid hroom hdead
    rw [hleases] at hroom ⊢
    exact (hdead.mono hnow (fun _ hget => hget)).grant hid purpose grantMs hroom

end LeaseStep

section Machine

variable [Blake3]

theorem TypedRecordMachine.Effect.leaseStep {m m' : TypedRecordMachine} {cmd : Command}
    {ok : Bool} {changes : List WatchChange} (h : TypedRecordMachine.Effect m cmd m' ok changes) :
    LeaseStep m m' := by
  have hnow := h.advance.nowMs_le
  cases h with
  | refused _ => exact .of_leases_eq hnow rfl
  | mutated _ hperf =>
    refine .of_leases_eq hnow ?_
    rw [TypedRecordMachine.flushPending_eq]
    exact hperf.frame.leases
  | compacted => exact .of_leases_eq hnow rfl
  | granted hle => exact .grant hle _ _ rfl
  | @renewed leaseId nowMs _ hle _ =>
    exact ⟨fun _ => (LeaseTable.nextId_renew _ leaseId nowMs).ge, fun id _ _ hdead =>
      (hdead.mono hle (fun _ hget => hget)).renew leaseId⟩
  | @renewFailed leaseId nowMs _ hle _ =>
    exact ⟨fun _ => (LeaseTable.nextId_renew _ leaseId nowMs).ge, fun id _ _ hdead =>
      (hdead.mono hle (fun _ hget => hget)).renew leaseId⟩
  | @revoked leaseId _ _ =>
    unfold TypedRecordMachine.commitBatch
    rw [TypedRecordMachine.flushPending_eq]
    exact ⟨fun _ => le_refl _, fun id _ _ hdead => hdead.erase leaseId⟩
  | advanced _ => exact .of_leases_eq hnow rfl
  | noneDue _ _ => exact .of_leases_eq hnow rfl
  | expired hle _ =>
    unfold TypedRecordMachine.commitBatch
    rw [TypedRecordMachine.flushPending_eq]
    exact ⟨fun _ => le_refl _, fun id _ _ hdead =>
      (hdead.mono hle (fun _ hget => hget)).expireDue⟩

theorem TypedRecordMachine.leaseStep_run (m : TypedRecordMachine) (ops : List MachineOp) :
    LeaseStep m (runFrom TypedRecordMachine.step m ops) := by
  induction ops generalizing m with
  | nil => exact .of_leases_eq (le_refl _) rfl
  | cons op rest ih =>
    refine LeaseStep.trans ?_ (ih (m.step op).1)
    cases op with
    | command cmd => exact (m.apply_effect cmd).leaseStep
    | bumpRevision => exact .of_leases_eq (le_refl _) rfl
    | grantLease purpose => exact .grant (le_refl _) purpose _ rfl

/-! ## Issued tokens -/

/-- The token a response issues: only an applied acquisition carries one; a replay
repeats a token issued before. -/
def RaftResponse.issued : RaftResponse → Option FenceToken
  | .applied outcome => outcome.controller
  | _ => none

/-- A step of the core either leaves the authority record alone and issues
nothing, or issues the token of the next epoch under the next lease id. -/
theorem CoreStep.controller {c c' : ClusterCore} {cmd : RaftCommand} {response : RaftResponse}
    (h : CoreStep c cmd c' response) :
    (response.issued = none ∧ c'.controller = c.controller) ∨
      ∃ token, response.issued = some token ∧ c'.controller.current = some token ∧
        token.epoch = saturatingAdd c.controller.epoch 1 ∧
        token.leaseId = saturatingAdd c.records.leases.nextId 1 ∧
        c'.records.leases.nextId = saturatingAdd c.records.leases.nextId 1 := by
  cases h with
  | replayed => exact Or.inl ⟨rfl, rfl⟩
  | refused => exact Or.inl ⟨rfl, rfl⟩
  | ran heff =>
    generalize cmd.body = body at heff
    cases heff with
    | @acquired holder => exact Or.inr ⟨c.issue holder, rfl, rfl, rfl, rfl, rfl⟩
    | recordApplied | recordRejected | declined | redeclared | declared
    | alreadyCompleted | completed => exact Or.inl ⟨rfl, rfl⟩

end Machine

namespace ClusterState

/-- The tokens issued along a run, in order. -/
def issuedTokens (ts : List ClusterTransition) : List FenceToken :=
  ts.filterMap (fun t => t.output.issued)

/-- Whether an effect passes validation at the committed clock. -/
def validates (s : ClusterState) (effect : EffectCommand) : Bool :=
  (s.controller.validateEffect effect s.records.nowMs s.records.leases).isOk

/-- Neither the epoch nor the lease ids have run out. -/
def Unsaturated (s : ClusterState) : Prop :=
  s.controller.epoch < u64Max ∧ s.records.leases.nextId < u64Max

variable {s : ClusterState}

theorem validates_iff {effect : EffectCommand} :
    s.validates effect = true ↔ s.controller.current = some effect.token ∧
      ¬ s.records.leases.Dead s.records.nowMs effect.token.leaseId := by
  have hok : s.validates effect = true ↔
      s.controller.validateEffect effect s.records.nowMs s.records.leases = .ok () := by
    unfold validates
    cases s.controller.validateEffect effect s.records.nowMs s.records.leases with
    | error e => simp [Except.isOk, Except.toBool]
    | ok u => simp [Except.isOk, Except.toBool]
  rw [hok, ControllerAuthority.validateEffect_eq_ok_iff]
  simp only [LeaseTable.Dead, not_forall, not_le, exists_prop]

/-- The tokens issued so far have increasing epochs and lease ids, none above the
counters of the state. -/
structure FenceInv (s : ClusterState) (tokens : List FenceToken) : Prop where
  epochs : tokens.Pairwise (fun a b => a.epoch < b.epoch)
  leaseIds : tokens.Pairwise (fun a b => a.leaseId < b.leaseId)
  epoch_le : ∀ token ∈ tokens, token.epoch ≤ s.controller.epoch
  leaseId_le : ∀ token ∈ tokens, token.leaseId ≤ s.records.leases.nextId

/-- Counters that only grow keep the issued tokens at or below them. -/
theorem FenceInv.mono {s' : ClusterState} {tokens : List FenceToken} (h : FenceInv s tokens)
    (hepoch : s.controller.epoch ≤ s'.controller.epoch)
    (hnext : s.records.leases.nextId ≤ s'.records.leases.nextId) : FenceInv s' tokens :=
  ⟨h.epochs, h.leaseIds, fun token ht => (h.epoch_le token ht).trans hepoch,
    fun token ht => (h.leaseId_le token ht).trans hnext⟩

/-- A token above the counters of the state before extends the issued ones. -/
theorem FenceInv.concat {s' : ClusterState} {tokens : List FenceToken} (h : FenceInv s tokens)
    {token : FenceToken} (hepoch : s.controller.epoch < token.epoch)
    (hlease : s.records.leases.nextId < token.leaseId) (hepoch' : s'.controller.epoch = token.epoch)
    (hlease' : s'.records.leases.nextId = token.leaseId) : FenceInv s' (tokens ++ [token]) := by
  have hold := h.mono (hepoch'.symm ▸ hepoch.le) (hlease'.symm ▸ hlease.le)
  refine ⟨?_, ?_, ?_, ?_⟩
  · refine List.pairwise_append.mpr ⟨h.epochs, List.pairwise_singleton _ _, ?_⟩
    intro a ha b hb
    rw [List.mem_singleton.mp hb]
    exact lt_of_le_of_lt (h.epoch_le a ha) hepoch
  · refine List.pairwise_append.mpr ⟨h.leaseIds, List.pairwise_singleton _ _, ?_⟩
    intro a ha b hb
    rw [List.mem_singleton.mp hb]
    exact lt_of_le_of_lt (h.leaseId_le a ha) hlease
  · intro t ht
    rcases List.mem_append.mp ht with hin | hnew
    · exact hold.epoch_le t hin
    · rw [List.mem_singleton.mp hnew, hepoch']
  · intro t ht
    rcases List.mem_append.mp ht with hin | hnew
    · exact hold.leaseId_le t hin
    · rw [List.mem_singleton.mp hnew, hlease']

/-- The token has lost its authority for good. -/
def Fenced (s : ClusterState) (token : FenceToken) : Prop :=
  token.epoch ≤ s.controller.epoch ∧ token.leaseId ≤ s.records.leases.nextId ∧
    (s.controller.current ≠ some token ∨ s.records.leases.Dead s.records.nowMs token.leaseId)

theorem Fenced.not_validates {effect : EffectCommand} (h : s.Fenced effect.token) :
    s.validates effect = false := by
  rw [Bool.eq_false_iff]
  intro hvalid
  obtain ⟨hcurrent, hlive⟩ := validates_iff.mp hvalid
  rcases h.2.2 with hother | hdead
  · exact hother hcurrent
  · exact hlive hdead

section Runs

variable [Blake3]

/-- A step of the cluster moves its leases by a lease step. -/
theorem leaseStep_apply (s : ClusterState) (cmd : RaftCommand) :
    LeaseStep s.records (s.apply cmd).1.records := by
  obtain ⟨ops, hops⟩ := (s.apply_coreStep cmd).recordMoves
  have hrun := s.records.leaseStep_run ops
  have hrecords : (s.apply cmd).1.records = runFrom TypedRecordMachine.step s.records ops := hops
  rw [hrecords]
  exact hrun

/-- The epoch only grows, by one with each issued token. -/
theorem epoch_apply (s : ClusterState) (cmd : RaftCommand)
    (hroom : (s.apply cmd).1.controller.epoch < u64Max) :
    s.controller.epoch ≤ (s.apply cmd).1.controller.epoch := by
  rcases (s.apply_coreStep cmd).controller with ⟨_, hsame⟩ | ⟨token, _, hcurrent, hepoch, _, _⟩
  · have hcontroller : (s.apply cmd).1.controller = s.controller := hsame
    rw [hcontroller]
  · have hnext : (s.apply cmd).1.controller.epoch = saturatingAdd s.controller.epoch 1 := by
      change (s.apply cmd).1.controller.current = some token at hcurrent
      unfold ControllerAuthority.epoch
      rw [hcurrent]
      exact hepoch
    rw [hnext] at hroom ⊢
    rw [saturatingAdd_eq_of_lt hroom]
    exact Nat.le_succ _

variable {s : ClusterState}

/-- Counters that have not run out had not run out before either. -/
theorem Unsaturated.of_apply {cmd : RaftCommand} (h : (s.apply cmd).1.Unsaturated) :
    s.Unsaturated :=
  ⟨lt_of_le_of_lt (s.epoch_apply cmd h.1) h.1,
    lt_of_le_of_lt ((s.leaseStep_apply cmd).nextId_le h.2) h.2⟩

theorem Unsaturated.of_run {cmds : List RaftCommand} (h : (runFrom apply s cmds).Unsaturated) :
    s.Unsaturated := by
  induction cmds generalizing s with
  | nil => exact h
  | cons cmd rest ih => exact (ih h).of_apply

/-- One command extends the issued tokens by at most one, above all earlier ones. -/
theorem FenceInv.apply {tokens : List FenceToken} (h : FenceInv s tokens) (cmd : RaftCommand)
    (hroom : (s.apply cmd).1.Unsaturated) :
    FenceInv (s.apply cmd).1 (tokens ++ (s.apply cmd).2.issued.toList) := by
  rcases (s.apply_coreStep cmd).controller with
    ⟨hnone, _⟩ | ⟨token, hissued, hcurrent, htoken, hlease, hcounter⟩
  · rw [hnone, Option.toList_none, List.append_nil]
    exact h.mono (s.epoch_apply cmd hroom.1) ((s.leaseStep_apply cmd).nextId_le hroom.2)
  · change (s.apply cmd).1.controller.current = some token at hcurrent
    change token.epoch = saturatingAdd s.controller.epoch 1 at htoken
    change token.leaseId = saturatingAdd s.records.leases.nextId 1 at hlease
    change (s.apply cmd).1.records.leases.nextId =
      saturatingAdd s.records.leases.nextId 1 at hcounter
    have hsame : (s.apply cmd).1.controller.epoch = token.epoch := by
      unfold ControllerAuthority.epoch
      rw [hcurrent]
      rfl
    -- short of saturation the new token stands one above both counters
    obtain ⟨hroomEpoch, hroomLease⟩ := hroom
    rw [hsame, htoken] at hroomEpoch
    rw [hcounter] at hroomLease
    rw [saturatingAdd_eq_of_lt hroomEpoch] at htoken
    rw [saturatingAdd_eq_of_lt hroomLease] at hlease hcounter
    rw [hissued, Option.toList_some]
    exact h.concat (by omega) (by omega) hsame (by omega)

theorem fenceInv_run (cmds : List RaftCommand) :
    (runFrom apply new cmds).Unsaturated →
      FenceInv (runFrom apply new cmds) (issuedTokens (transitions apply new cmds)) := by
  refine runFrom_history (P := fun (s : ClusterState) past =>
    s.Unsaturated → FenceInv s (issuedTokens past)) ?_ ?_ cmds
  · intro _
    exact ⟨List.Pairwise.nil, List.Pairwise.nil, by simp [issuedTokens],
      by simp [issuedTokens]⟩
  · intro s past cmd ih hroom
    have hnext := (ih hroom.of_apply).apply cmd hroom
    have htokens : issuedTokens (past ++ [⟨s, cmd, (s.apply cmd).2, (s.apply cmd).1⟩]) =
        issuedTokens past ++ (s.apply cmd).2.issued.toList := by
      unfold issuedTokens
      rw [List.filterMap_append]
      cases hissued : (s.apply cmd).2.issued <;> simp [hissued]
    rw [htokens]
    exact hnext

/-- A fenced token stays fenced. -/
theorem Fenced.apply {token : FenceToken} (h : s.Fenced token) (cmd : RaftCommand)
    (hroom : (s.apply cmd).1.Unsaturated) : (s.apply cmd).1.Fenced token := by
  obtain ⟨hepoch, hlease, hlost⟩ := h
  have hstep := s.leaseStep_apply cmd
  refine ⟨hepoch.trans (s.epoch_apply cmd hroom.1), hlease.trans (hstep.nextId_le hroom.2), ?_⟩
  rcases (s.apply_coreStep cmd).controller with ⟨_, hsame⟩ | ⟨fresh, _, hcurrent, hfresh, _, _⟩
  · have hcontroller : (s.apply cmd).1.controller = s.controller := hsame
    rw [hcontroller]
    rcases hlost with hother | hdead
    · exact Or.inl hother
    · exact Or.inr (hstep.dead _ hlease hroom.2 hdead)
  · -- the new token has a larger epoch
    change (s.apply cmd).1.controller.current = some fresh at hcurrent
    change fresh.epoch = saturatingAdd s.controller.epoch 1 at hfresh
    have hroomEpoch : saturatingAdd s.controller.epoch 1 < u64Max := by
      have hlt := hroom.1
      unfold ControllerAuthority.epoch at hlt
      rw [hcurrent] at hlt
      rw [← hfresh]
      exact hlt
    rw [saturatingAdd_eq_of_lt hroomEpoch] at hfresh
    refine Or.inl ?_
    rw [hcurrent]
    intro heq
    rw [← Option.some.inj heq] at hepoch
    omega

theorem Fenced.run {token : FenceToken} (h : s.Fenced token) (cmds : List RaftCommand)
    (hroom : (runFrom ClusterState.apply s cmds).Unsaturated) :
    (runFrom ClusterState.apply s cmds).Fenced token := by
  induction cmds generalizing s with
  | nil => exact h
  | cons cmd rest ih => exact ih (h.apply cmd (Unsaturated.of_run hroom)) hroom

/-- **Controller authority is exclusive and never resurrected.**  The tokens
issued along a run have strictly increasing epochs and distinct lease ids, at most
one token passes validation at the committed clock, and an issued token that fails
validation fails in every later state. -/
theorem controller_authority_exclusive (cmds later : List RaftCommand)
    (hroom : (runFrom apply (runFrom apply new cmds) later).Unsaturated) :
    (issuedTokens (transitions apply new cmds)).Pairwise
        (fun a b => a.epoch < b.epoch ∧ a.leaseId ≠ b.leaseId) ∧
      (∀ effect effect' : EffectCommand, (runFrom apply new cmds).validates effect = true →
        (runFrom apply new cmds).validates effect' = true → effect.token = effect'.token) ∧
      ∀ effect : EffectCommand, effect.token ∈ issuedTokens (transitions apply new cmds) →
        (runFrom apply new cmds).validates effect = false →
        (runFrom apply (runFrom apply new cmds) later).validates effect = false := by
  have hinv := fenceInv_run cmds hroom.of_run
  refine ⟨?_, ?_, ?_⟩
  · exact (hinv.epochs.and hinv.leaseIds).imp (fun h => ⟨h.1, h.2.ne⟩)
  · intro effect effect' hvalid hvalid'
    have hcurrent := (validates_iff.mp hvalid).1
    rw [(validates_iff.mp hvalid').1] at hcurrent
    exact (Option.some.inj hcurrent).symm
  · intro effect hissued hfails
    have hlost : (runFrom apply new cmds).controller.current ≠ some effect.token ∨
        (runFrom apply new cmds).records.leases.Dead
          (runFrom apply new cmds).records.nowMs effect.token.leaseId := by
      by_contra hlive
      push Not at hlive
      exact absurd (validates_iff.mpr hlive) (by simp [hfails])
    have hfenced : (runFrom apply new cmds).Fenced effect.token :=
      ⟨hinv.epoch_le _ hissued, hinv.leaseId_le _ hissued, hlost⟩
    exact (hfenced.run later hroom).not_validates

end Runs

/-- After a second acquisition the first token fails, and keeps failing once the
clock has moved on. -/
theorem second_acquisition_fences_first :
    letI := Blake3.knownAnswers
    let first : FenceToken := ⟨1, FenceToken.deriveFence 1 1 1, 1⟩
    let s := runFrom apply new [.acquireController 1, .acquireController 2]
    first ∈ issuedTokens
        (transitions apply new [.acquireController 1, .acquireController 2]) ∧
      (runFrom apply s [.record (.advanceTime 5)]).validates ⟨first, 1, 1, 1⟩ = false :=
  letI := Blake3.knownAnswers
  ⟨by decide, (controller_authority_exclusive
    [.acquireController 1, .acquireController 2] [.record (.advanceTime 5)]
    (by unfold Unsaturated; decide)).2.2
      ⟨⟨1, FenceToken.deriveFence 1 1 1, 1⟩, 1, 1, 1⟩ (by decide) (by decide)⟩

end ClusterState

end Gump.Memory
