/-
  Memory/Authority/Agent.lean --- the fence memory of an agent
  (`authority/agent.rs`).

  An agent remembers the controller token it accepted last and the highest epoch
  it has seen.  A higher epoch fences the lower ones for good; within one epoch
  the fence is that of the first token.  The cluster issues one token an epoch, so
  agents that are given only its tokens never disagree on a fence.
-/
import Gump.Memory.Authority.Fencing
import Mathlib.Data.List.Nodup

set_option autoImplicit false

namespace Gump.Memory

open Gump.Foundation

inductive AgentFenceError where
  | reject (e : EffectReject)
  /-- Equal epoch, different fence. -/
  | protocolViolation (epoch : Nat)
  deriving DecidableEq, Repr

/-- The fence an agent has accepted for local effects. -/
structure AgentFenceMemory where
  accepted : Option FenceToken := none
  /-- Highest epoch ever observed. -/
  maxEpoch : Nat := 0
  deriving DecidableEq, Repr

namespace AgentFenceMemory

/-- Accept a controller fence. -/
def accept (m : AgentFenceMemory) (token : FenceToken) :
    AgentFenceMemory × Except AgentFenceError Unit :=
  if token.epoch < m.maxEpoch then
    (m, .error (.reject (.staleEpoch m.maxEpoch token.epoch)))
  else if token.epoch = m.maxEpoch ∧ m.accepted.any (fun prev => prev.fence ≠ token.fence) then
    (m, .error (.protocolViolation token.epoch))
  else (⟨some token, max m.maxEpoch token.epoch⟩, .ok ())

/-- Whether the agent may perform a local effect under a token. -/
def authorizeEffect (m : AgentFenceMemory) (token : FenceToken) : Except AgentFenceError Unit :=
  if token.epoch < m.maxEpoch then .error (.reject (.staleEpoch m.maxEpoch token.epoch))
  else match m.accepted with
    | none => .error (.reject .noAuthority)
    | some accepted =>
      if token.epoch ≠ accepted.epoch then
        .error (.reject (.staleEpoch accepted.epoch token.epoch))
      else if token.fence ≠ accepted.fence then .error (.protocolViolation token.epoch)
      else .ok ()

/-- The tokens that a run accepted, in order. -/
def acceptedIn
    (past : List (Transition AgentFenceMemory FenceToken (Except AgentFenceError Unit))) :
    List FenceToken :=
  (past.filter fun t => t.output = .ok ()).map Transition.input

/-- The memory stands for what was accepted: the last token carries the highest
epoch, and every token accepted at that epoch has its fence. -/
structure Remembers (m : AgentFenceMemory) (past : List FenceToken) : Prop where
  bound : ∀ t ∈ past, t.epoch ≤ m.maxEpoch
  none : m.accepted = none → past = []
  last : ∀ t, m.accepted = some t → t ∈ past ∧ t.epoch = m.maxEpoch
  fence : ∀ t, m.accepted = some t → ∀ s ∈ past, s.epoch = m.maxEpoch → s.fence = t.fence

variable {m : AgentFenceMemory} {token : FenceToken}

/-- A token is accepted exactly if its epoch is higher, or the same under the
fence that is held. -/
theorem accept_eq_ok_iff : (m.accept token).2 = .ok () ↔ m.maxEpoch ≤ token.epoch ∧
      (token.epoch = m.maxEpoch → ∀ t, m.accepted = some t → t.fence = token.fence) := by
  cases hheld : m.accepted <;> grind [accept]

theorem accept_of_ok (h : (m.accept token).2 = .ok ()) :
    (m.accept token).1 = ⟨some token, token.epoch⟩ := by
  grind [accept]

theorem accept_of_error (h : (m.accept token).2 ≠ .ok ()) : (m.accept token).1 = m := by
  grind [accept]

theorem authorizeEffect_eq_ok_iff : m.authorizeEffect token = .ok () ↔ m.maxEpoch ≤ token.epoch ∧
      ∃ t, m.accepted = some t ∧ token.epoch = t.epoch ∧ token.fence = t.fence := by
  grind [authorizeEffect]

/-- One more token keeps the memory in step with the history. -/
theorem Remembers.accept {past : List FenceToken} (hm : m.Remembers past) (token : FenceToken) :
    (m.accept token).1.Remembers (past ++ if (m.accept token).2 = .ok () then [token] else []) := by
  by_cases hok : (m.accept token).2 = .ok ()
  · obtain ⟨hle, hfence⟩ := accept_eq_ok_iff.mp hok
    rw [accept_of_ok hok, if_pos hok]
    refine ⟨?_, by simp, by simp, ?_⟩
    · intro t ht
      rcases List.mem_append.mp ht with ht | ht
      · exact (hm.bound t ht).trans hle
      · rw [List.mem_singleton.mp ht]
    · intro t ht s hs hepoch
      obtain rfl := Option.some.inj ht
      change s.epoch = token.epoch at hepoch
      rcases List.mem_append.mp hs with hs | hs
      · -- An old token of the new epoch is one of the highest epoch so far.
        have hmax : token.epoch = m.maxEpoch := le_antisymm (hepoch ▸ hm.bound s hs) hle
        cases hold : m.accepted with
        | none => rw [hm.none hold] at hs; cases hs
        | some old =>
          rw [hm.fence old hold s hs (hepoch.trans hmax), hfence hmax old hold]
      · rw [List.mem_singleton.mp hs]
  · rw [accept_of_error hok, if_neg hok, List.append_nil]
    exact hm

theorem remembers_run (tokens : List FenceToken) :
    (runFrom accept {} tokens).Remembers (acceptedIn (transitions accept {} tokens)) := by
  refine runFrom_history (P := fun m past => Remembers m (acceptedIn past))
    ⟨by simp [acceptedIn], by simp [acceptedIn], by simp, by simp⟩ ?_ tokens
  intro m past token hm
  have hstep := hm.accept token
  by_cases hok : (m.accept token).2 = .ok () <;> simpa [acceptedIn, hok] using hstep

theorem maxEpoch_run_le (m : AgentFenceMemory) (tokens : List FenceToken) :
    m.maxEpoch ≤ (runFrom accept m tokens).maxEpoch :=
  runFrom_invariant (P := fun m' : AgentFenceMemory => m.maxEpoch ≤ m'.maxEpoch)
    (fun m' token h => h.trans (by grind [accept])) (le_refl _) tokens

/-- After any tokens: the highest epoch only grows and is that of the accepted
token, an effect is authorized only under the highest epoch and the fence first
accepted there, and what an accepted token fences is never accepted or authorized
again. -/
theorem fence_memory_monotone (tokens : List FenceToken) :
    let m := runFrom accept {} tokens
    let past := acceptedIn (transitions accept {} tokens)
    (∀ more, m.maxEpoch ≤ (runFrom accept m more).maxEpoch) ∧
    (∀ t, m.accepted = some t → m.maxEpoch = t.epoch) ∧
    (∀ t, m.authorizeEffect t = .ok () → t.epoch = m.maxEpoch ∧
      ∃ first, past.find? (fun s => s.epoch = m.maxEpoch) = some first ∧ t.fence = first.fence) ∧
    ∀ first ∈ past, ∀ t : FenceToken,
      t.epoch < first.epoch ∨ (t.epoch = first.epoch ∧ t.fence ≠ first.fence) →
      (m.accept t).2 ≠ .ok () ∧ m.authorizeEffect t ≠ .ok () := by
  intro m past
  have hm : m.Remembers past := remembers_run tokens
  refine ⟨maxEpoch_run_le m, fun t ht => (hm.last t ht).2.symm, ?_, ?_⟩
  · intro t ht
    obtain ⟨hle, held, hheld, hepoch, hfence⟩ := authorizeEffect_eq_ok_iff.mp ht
    obtain ⟨hmem, hmax⟩ := hm.last held hheld
    refine ⟨hepoch.trans hmax, ?_⟩
    cases hfind : past.find? (fun s => s.epoch = m.maxEpoch) with
    | none => simpa [hmax] using List.find?_eq_none.mp hfind held hmem
    | some first =>
      have hfirst := hm.fence held hheld first (List.mem_of_find?_eq_some hfind)
        (by simpa using List.find?_some hfind)
      exact ⟨first, rfl, hfence.trans hfirst.symm⟩
  · intro first hfirst t ht
    have hbound := hm.bound first hfirst
    -- A token that is not stale is one of the highest epoch, and so is `first`.
    have hfenced (hle : m.maxEpoch ≤ t.epoch) : t.epoch = m.maxEpoch ∧
        ∀ held, m.accepted = some held → held.fence ≠ t.fence := by
      rcases ht with hlt | ⟨hepoch, hne⟩
      · omega
      · refine ⟨by omega, fun held hheld hsame => hne ?_⟩
        rw [← hsame, hm.fence held hheld first hfirst (by omega)]
    refine ⟨fun hok => ?_, fun hok => ?_⟩
    · obtain ⟨hle, hsame⟩ := accept_eq_ok_iff.mp hok
      obtain ⟨hepoch, hdiffers⟩ := hfenced hle
      cases hheld : m.accepted with
      | none => rw [hm.none hheld] at hfirst; cases hfirst
      | some held => exact hdiffers held hheld (hsame hepoch held hheld)
    · obtain ⟨hle, held, hheld, -, hsame⟩ := authorizeEffect_eq_ok_iff.mp hok
      exact (hfenced hle).2 held hheld hsame.symm

/-! ## Agents of one cluster -/

/-- The token an agent holds is one that it was given. -/
theorem accepted_run_mem {tokens : List FenceToken} {t : FenceToken}
    (h : (runFrom accept {} tokens).accepted = some t) : t ∈ tokens := by
  obtain ⟨step, hstep, rfl⟩ := List.mem_map.mp ((remembers_run tokens).last t h).1
  obtain ⟨pre, post, hsplit, -⟩ := exists_split_of_mem_transitions (List.mem_filter.mp hstep).1
  exact hsplit ▸ List.mem_append_right pre List.mem_cons_self

/-- Accepted or refused, a token leaves the agent at its epoch or above. -/
theorem epoch_le_maxEpoch_run {tokens : List FenceToken} {t : FenceToken} (h : t ∈ tokens) :
    t.epoch ≤ (runFrom accept {} tokens).maxEpoch := by
  obtain ⟨pre, post, rfl⟩ := List.append_of_mem h
  rw [runFrom_append, runFrom_cons]
  refine le_trans ?_ (maxEpoch_run_le _ post)
  grind [accept]

/-- The agents of a cluster, each given issued tokens in any order, with losses and
repetitions.  None ever sees a protocol violation: it refuses an issued token only
for a higher epoch it has seen.  Two agents that authorize effects at one epoch
authorize the same fence.  An agent that the current token has reached authorizes
nothing else. -/
theorem agents_agree_on_fences [Blake3] (cmds : List RaftCommand) (given other : List FenceToken)
    (hroom : (runFrom ClusterState.apply .new cmds).Unsaturated)
    (hgiven : given ++ other ⊆
      ClusterState.issuedTokens (transitions ClusterState.apply .new cmds)) :
    let agent := runFrom accept {} given
    (∀ t ∈ ClusterState.issuedTokens (transitions ClusterState.apply .new cmds),
      (agent.accept t).2 = .ok () ↔ agent.maxEpoch ≤ t.epoch) ∧
    (∀ t t' : FenceToken, agent.authorizeEffect t = .ok () →
      (runFrom accept {} other).authorizeEffect t' = .ok () →
      t.epoch = t'.epoch → t.fence = t'.fence) ∧
    ∀ current ∈ given,
      (runFrom ClusterState.apply .new cmds).controller.current = some current →
      ∀ t, agent.authorizeEffect t = .ok () →
        t.epoch = current.epoch ∧ t.fence = current.fence := by
  intro agent
  have hinv := ClusterState.fenceInv_run cmds hroom
  generalize ClusterState.issuedTokens (transitions ClusterState.apply .new cmds) = issued at *
  obtain ⟨hgiven, hother⟩ := List.append_subset.mp hgiven
  -- an epoch is issued once
  have hunique := List.inj_on_of_nodup_map
    (List.Pairwise.map FenceToken.epoch (fun _ _ h => h.ne) hinv.epochs)
  refine ⟨fun t ht => ?_, fun t t' ht ht' hepoch => ?_, fun current hcurrent hnow t ht => ?_⟩
  · rw [accept_eq_ok_iff, and_iff_left_iff_imp]
    intro _ hepoch held hheld
    have hmax := ((remembers_run given).last held hheld).2
    rw [hunique (hgiven (accepted_run_mem hheld)) ht (hmax.trans hepoch.symm)]
  · obtain ⟨-, held, hheld, hsame, hfence⟩ := authorizeEffect_eq_ok_iff.mp ht
    obtain ⟨-, held', hheld', hsame', hfence'⟩ := authorizeEffect_eq_ok_iff.mp ht'
    have heq := hunique (hgiven (accepted_run_mem hheld)) (hother (accepted_run_mem hheld'))
      (hsame.symm.trans (hepoch.trans hsame'))
    rw [hfence, hfence', heq]
  · obtain ⟨-, held, hheld, hsame, hfence⟩ := authorizeEffect_eq_ok_iff.mp ht
    have hmem := hgiven (accepted_run_mem hheld)
    have hmax := ((remembers_run given).last held hheld).2
    have hle := hinv.epoch_le held hmem
    have hge := epoch_le_maxEpoch_run hcurrent
    rw [ControllerAuthority.epoch, hnow] at hle
    have heq := hunique hmem (hgiven hcurrent) (le_antisymm hle (hmax.symm ▸ hge))
    exact heq ▸ ⟨hsame, hfence⟩

/-- After two acquisitions, an agent that has only the first token accepts the second. -/
theorem second_acquisition_reaches_agent :
    letI := Blake3.knownAnswers
    ((runFrom accept {} [⟨1, FenceToken.deriveFence 1 1 1, 1⟩]).accept
      ⟨2, FenceToken.deriveFence 2 2 2, 2⟩).2 = .ok () :=
  letI := Blake3.knownAnswers
  ((agents_agree_on_fences [.acquireController 1, .acquireController 2]
    [⟨1, FenceToken.deriveFence 1 1 1, 1⟩] [⟨2, FenceToken.deriveFence 2 2 2, 2⟩]
    (by unfold ClusterState.Unsaturated; decide) (by decide)).1
      ⟨2, FenceToken.deriveFence 2 2 2, 2⟩ (by decide)).mpr (by decide)

end AgentFenceMemory

end Gump.Memory
