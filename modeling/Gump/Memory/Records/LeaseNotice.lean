/-
  Memory/Records/LeaseNotice.lean --- lease removals and their notifications.

  Watchers learn of the end of a lease from a `LeaseRevoked` change.  Explicit
  revocation and expiry commit one for each lease they remove.  A renewal that
  arrives after the lease is due removes it as well, but on its error path, and
  commits nothing: `leases_announced_iff` shows that this, and a saturated revision
  counter, are the only ways a removal goes unannounced.
-/
import Gump.Foundation.Run
import Gump.Memory.Records.ChangeFeed

set_option autoImplicit false

namespace Gump.Memory

open Gump.Foundation

/-- The revisions at which `changes` announce the revocation of `leaseId`. -/
def revocations (leaseId : Nat) (changes : List WatchChange) : List Nat :=
  changes.filterMap (fun c => match c with
    | .leaseRevoked id revision => if id = leaseId then some revision else none
    | _ => none)

theorem revocations_map (leaseId revision : Nat) {ids : List Nat} (h : ids.Nodup) :
    revocations leaseId (ids.map (fun id => .leaseRevoked id revision)) =
      if leaseId ∈ ids then [revision] else [] := by
  induction ids with
  | nil => rfl
  | cons id rest ih =>
    obtain ⟨hnot, hrest⟩ := List.nodup_cons.mp h
    have htail := ih hrest
    simp only [revocations] at htail ⊢
    by_cases hid : id = leaseId
    · subst hid
      simp only [List.map_cons, List.filterMap_cons, if_true, htail, hnot, if_false]
      simp
    · simp only [List.map_cons, List.filterMap_cons, hid, if_false, htail, List.mem_cons,
        Ne.symm hid, false_or]

/-- Record mutations announce no revocation. -/
theorem revocations_opChanges [Blake3] (leaseId revision : Nat) (ops : List MutateOp) :
    revocations leaseId (opChanges revision ops) = [] := by
  induction ops generalizing revision with
  | nil => rfl
  | cons op rest ih =>
    have htail := ih (saturatingAdd revision 1)
    simp only [revocations] at htail
    cases op with
    | put | delete =>
      simp only [opChanges, MutateOp.change, revocations, List.filterMap_cons, htail]

namespace TypedRecordMachine

/-- The lease was live before the step and is gone after it. -/
def LeaseGone (m m' : TypedRecordMachine) (leaseId : Nat) : Prop :=
  (∃ lease, m.leases.get leaseId = some lease) ∧ m'.leases.get leaseId = none

/-- A command announces exactly the leases it removes.  Its changes reach the
watch history as one batch, stamped with the revision the command reaches; they
revoke each removed lease once, at that fresh revision, and no other lease. -/
structure Notified [Blake3] (m : TypedRecordMachine) (cmd : Command) : Prop where
  pushed : ∃ w, Pruning m (m.apply cmd).1 (.command cmd) w ∧
    (m.apply cmd).1.watch =
      w.record (batchOf (m.apply cmd).1 (m.committed cmd)) m.budgets.historyBytes
  announced : ∀ leaseId, LeaseGone m (m.apply cmd).1 leaseId →
    revocations leaseId (m.committed cmd) = [(m.apply cmd).1.revision] ∧
      m.revision < (m.apply cmd).1.revision
  removed : ∀ leaseId, revocations leaseId (m.committed cmd) ≠ [] →
    LeaseGone m (m.apply cmd).1 leaseId

/-- The command renews a lease that is due at the command's own time stamp. -/
def RenewsExpired (m : TypedRecordMachine) (cmd : Command) : Prop :=
  ∃ leaseId nowMs lease, cmd = .leaseRenew leaseId nowMs ∧ m.nowMs ≤ nowMs ∧
    m.leases.get leaseId = some lease ∧ lease.expiresAtMs ≤ nowMs

/-- The command revokes a live lease, or expires at least one. -/
def RevokesLeases (m : TypedRecordMachine) (cmd : Command) : Prop :=
  (∃ leaseId lease, cmd = .leaseRevoke leaseId ∧ m.leases.get leaseId = some lease) ∨
    ∃ nowMs, cmd = .expireLeases nowMs ∧ m.nowMs ≤ nowMs ∧ m.leases.due nowMs ≠ []

/-- The condition under which a removal is announced: no renewal of a lease that
is already due, and a revision left to announce a revocation at. -/
def Announces (m : TypedRecordMachine) (cmd : Command) : Prop :=
  ¬ m.RenewsExpired cmd ∧ (m.RevokesLeases cmd → m.revision < u64Max)

end TypedRecordMachine

namespace LeaseTable

variable {t : LeaseTable} {id nowMs : Nat}

/-- Renewing a lease that is due removes it. -/
theorem renew_of_due {lease : Lease} (hget : t.get id = some lease)
    (hdue : lease.expiresAtMs ≤ nowMs) :
    t.renew id nowMs = ({ t with leases := t.leases.erase id }, .error (.expired id)) := by
  unfold renew
  rw [show t.leases.get id = some lease from hget]
  exact if_pos hdue

/-- A renewal removes no lease unless the lease is due. -/
theorem due_of_get_renew_none {id' : Nat} {lease : Lease} (hget : t.get id' = some lease)
    (h : (t.renew id nowMs).1.get id' = none) : id' = id ∧ lease.expiresAtMs ≤ nowMs := by
  unfold renew at h
  cases hid : t.leases.get id with
  | none =>
    simp only [hid] at h
    rw [hget] at h
    exact absurd h (by simp)
  | some old =>
    simp only [hid] at h
    by_cases hdue : old.expiresAtMs ≤ nowMs
    · rw [if_pos hdue] at h
      by_cases heq : id' = id
      · subst heq
        have hold : old = lease := Option.some.inj (hid.symm.trans hget)
        exact ⟨rfl, hold ▸ hdue⟩
      · have hsame := OrdMap.get_erase_of_ne t.leases heq
        exact absurd (hsame.symm.trans h) (by
          rw [show t.leases.get id' = some lease from hget]
          simp)
    · rw [if_neg hdue] at h
      simp only [get, OrdMap.get_insert] at h
      split at h
      · exact absurd h (by simp)
      · exact absurd h (by
          rw [show t.leases.get id' = some lease from hget]
          simp)

end LeaseTable

namespace TypedRecordMachine

section Steps

variable {m m' : TypedRecordMachine} {cmd : Command} {ok : Bool} {changes : List WatchChange}

@[simp] theorem leases_flushPending (m : TypedRecordMachine) :
    m.flushPending.leases = m.leases := by
  rw [flushPending_eq]

@[simp] theorem revision_flushPending (m : TypedRecordMachine) :
    m.flushPending.revision = m.revision := by
  rw [flushPending_eq]

/-- A step that keeps the lease table removes no lease. -/
theorem not_leaseGone_of_leases_eq {leaseId : Nat} (h : m'.leases = m.leases) :
    ¬ LeaseGone m m' leaseId := by
  rintro ⟨⟨lease, hbefore⟩, hafter⟩
  rw [h, hbefore] at hafter
  exact absurd hafter (by simp)

variable [Blake3]

/-- The leases a step may remove, and where each is announced. -/
theorem Effect.gone (h : Effect m cmd m' ok changes) (hc : m.Announces cmd) {leaseId : Nat}
    (hgone : LeaseGone m m' leaseId) :
    revocations leaseId changes = [m'.revision] ∧ m.revision < m'.revision := by
  obtain ⟨hrenew, hroom⟩ := hc
  cases h with
  | refused _ => exact absurd hgone (not_leaseGone_of_leases_eq rfl)
  | mutated _ hperf =>
    refine absurd hgone (not_leaseGone_of_leases_eq ?_)
    rw [leases_flushPending, hperf.frame.leases]
  | compacted | advanced _ | noneDue _ _ =>
    exact absurd hgone (not_leaseGone_of_leases_eq rfl)
  | granted _ =>
    obtain ⟨⟨lease, hbefore⟩, hafter⟩ := hgone
    simp only [LeaseTable.get_grant, hbefore] at hafter
    split at hafter <;> exact absurd hafter (by simp)
  | renewed hle _ | renewFailed hle _ =>
    obtain ⟨⟨lease, hbefore⟩, hafter⟩ := hgone
    obtain ⟨hid, hdue⟩ := LeaseTable.due_of_get_renew_none hbefore hafter
    subst hid
    exact absurd ⟨leaseId, _, lease, rfl, hle, hbefore, hdue⟩ hrenew
  | @revoked id lease hget =>
    have hlt := hroom (Or.inl ⟨id, lease, rfl, hget⟩)
    have hid : leaseId = id := by
      by_contra hne
      obtain ⟨⟨other, hbefore⟩, hafter⟩ := hgone
      simp only [commitBatch, leases_flushPending, LeaseTable.get,
        OrdMap.get_erase_of_ne _ hne] at hafter
      exact absurd (hafter.symm.trans hbefore) (by simp)
    subst hid
    refine ⟨?_, ?_⟩
    · simp [revocations, commitBatch]
    · simp only [commitBatch, revision_flushPending, saturatingAdd_one hlt]
      exact Nat.lt_succ_self _
  | @expired nowMs hle hdue =>
    have hlt := hroom (Or.inr ⟨nowMs, rfl, hle, hdue⟩)
    have hmem : leaseId ∈ m.leases.due nowMs := by
      by_contra hnot
      obtain ⟨⟨lease, hbefore⟩, hafter⟩ := hgone
      simp only [commitBatch, leases_flushPending, LeaseTable.get_expireDue, hnot, if_false,
        hbefore] at hafter
      exact absurd hafter (by simp)
    refine ⟨?_, ?_⟩
    · rw [revocations_map _ _ (m.leases.due_nodup nowMs), if_pos hmem]
      simp [commitBatch]
    · simp only [commitBatch, revision_flushPending, saturatingAdd_one hlt]
      exact Nat.lt_succ_self _

/-- Only removed leases are announced. -/
theorem Effect.gone_of_revocations (h : Effect m cmd m' ok changes) {leaseId : Nat}
    (hne : revocations leaseId changes ≠ []) : LeaseGone m m' leaseId := by
  cases h with
  | refused _ | compacted | granted _ | renewed _ _ | renewFailed _ _ | advanced _
  | noneDue _ _ => exact absurd rfl hne
  | mutated _ _ => exact absurd (revocations_opChanges _ _ _) hne
  | @revoked id lease hget =>
    have hid : id = leaseId := by
      by_contra hid
      exact hne (by simp [revocations, hid])
    subst hid
    refine ⟨⟨lease, hget⟩, ?_⟩
    simp [commitBatch, LeaseTable.get]
  | @expired nowMs hle hdue =>
    rw [revocations_map _ _ (m.leases.due_nodup nowMs)] at hne
    have hmem : leaseId ∈ m.leases.due nowMs := by
      by_contra hnot
      exact hne (if_neg hnot)
    obtain ⟨lease, hget, _⟩ := LeaseTable.mem_due_iff.mp hmem
    refine ⟨⟨lease, hget⟩, ?_⟩
    simp only [commitBatch, leases_flushPending, LeaseTable.get_expireDue, if_pos hmem]

/-- Renewing a lease that is due removes it and announces nothing. -/
theorem Effect.silent_of_renewsExpired (h : Effect m cmd m' ok changes)
    (hrenew : m.RenewsExpired cmd) :
    ∃ leaseId, LeaseGone m m' leaseId ∧ changes = [] := by
  obtain ⟨leaseId, nowMs, lease, hcmd, hle, hget, hdue⟩ := hrenew
  subst hcmd
  have htable := LeaseTable.renew_of_due hget hdue
  cases h with
  | refused hback => exact absurd hle (not_le.mpr hback)
  | mutated hops _ => exact absurd hops (by simp [Command.mutations])
  | renewed _ hok =>
    rw [htable] at hok
    exact absurd hok (by simp)
  | renewFailed _ _ =>
    refine ⟨leaseId, ⟨⟨lease, hget⟩, ?_⟩, rfl⟩
    simp [htable, LeaseTable.get]

/-- With the revision counter at its ceiling a revocation has no fresh revision. -/
theorem Effect.stuck_of_revokes (h : Effect m cmd m' ok changes) (hrev : m.RevokesLeases cmd)
    (hmax : u64Max ≤ m.revision) :
    ∃ leaseId, LeaseGone m m' leaseId ∧ m'.revision ≤ m.revision := by
  rcases hrev with ⟨leaseId, lease, hcmd, hget⟩ | ⟨nowMs, hcmd, hle, hdue⟩
  · subst hcmd
    cases h with
    | refused hnone => exact absurd (hget.symm.trans hnone) (by simp)
    | mutated hops _ => exact absurd hops (by simp [Command.mutations])
    | revoked _ =>
      refine ⟨leaseId, ⟨⟨lease, hget⟩, by simp [commitBatch, LeaseTable.get]⟩, ?_⟩
      simp only [commitBatch, revision_flushPending]
      exact (saturatingAdd_le _ _).trans hmax
  · subst hcmd
    cases h with
    | refused hback => exact absurd hle (not_le.mpr hback)
    | mutated hops _ => exact absurd hops (by simp [Command.mutations])
    | noneDue _ hnone => exact absurd hnone hdue
    | expired _ _ =>
      obtain ⟨leaseId, hmem⟩ := List.exists_mem_of_ne_nil _ hdue
      obtain ⟨lease, hget, _⟩ := LeaseTable.mem_due_iff.mp hmem
      refine ⟨leaseId, ⟨⟨lease, hget⟩, ?_⟩, ?_⟩
      · simp only [commitBatch, leases_flushPending, LeaseTable.get_expireDue, if_pos hmem]
      · simp only [commitBatch, revision_flushPending]
        exact (saturatingAdd_le _ _).trans hmax

/-- One command announces its removals exactly when the condition holds. -/
theorem notified_iff_announces (hp : m.pending = []) (cmd : Command) :
    m.Notified cmd ↔ m.Announces cmd := by
  have heff := m.apply_effect cmd
  constructor
  · intro h
    refine ⟨fun hrenew => ?_, fun hrev => ?_⟩
    · obtain ⟨leaseId, hgone, hquiet⟩ := heff.silent_of_renewsExpired hrenew
      have hnotice := (h.announced leaseId hgone).1
      rw [hquiet] at hnotice
      exact absurd hnotice (by simp [revocations])
    · by_contra hmax
      obtain ⟨leaseId, hgone, hle⟩ := heff.stuck_of_revokes hrev (not_lt.mp hmax)
      exact absurd (h.announced leaseId hgone).2 (not_lt.mpr hle)
  · intro hc
    exact ⟨heff.advance.watch hp, fun _ => heff.gone hc, fun _ => heff.gone_of_revocations⟩

end Steps

section Runs

variable [Blake3]

/-- A record command as a step, with the changes it commits. -/
def commandStep (m : TypedRecordMachine) (cmd : Command) :
    TypedRecordMachine × List WatchChange :=
  ((m.apply cmd).1, m.committed cmd)

/-- No change is left pending between commands. -/
theorem pending_before {budgets : MemoryBudgets} {cmds : List Command}
    {t : Transition TypedRecordMachine Command (List WatchChange)}
    (ht : t ∈ transitions commandStep (new budgets) cmds) : t.before.pending = [] := by
  obtain ⟨pre, _, _, hbefore, _, _⟩ := exists_split_of_mem_transitions ht
  rw [hbefore]
  have hstep : ∀ (m : TypedRecordMachine) (cmd : Command),
      m.pending = [] → (m.commandStep cmd).1.pending = [] :=
    fun m cmd hp => (m.apply_effect cmd).advance.pending hp
  exact runFrom_invariant (P := fun m : TypedRecordMachine => m.pending = []) hstep
    (show (new budgets).pending = [] from rfl) pre

/-- **No lease disappears silently, exactly when.**  Along a run of record
commands every step announces the leases it removes if and only if no step renews
a lease that is already due, and no lease is revoked or expired once the revision
counter stands at its ceiling. -/
theorem leases_announced_iff (budgets : MemoryBudgets) (cmds : List Command) :
    (∀ t ∈ transitions commandStep (new budgets) cmds, t.before.Notified t.input) ↔
      ∀ t ∈ transitions commandStep (new budgets) cmds, t.before.Announces t.input :=
  forall₂_congr (fun t ht => notified_iff_announces (pending_before ht) t.input)

end Runs

/-- A lease granted at time 0 and renewed after its lifetime is removed without a
notification. -/
theorem late_renewal_is_silent :
    ¬ ∃ _ : Blake3, ∀ t ∈ transitions commandStep (new MemoryBudgets.default)
        [.leaseGrant .memberLiveness 0, .leaseRenew 1 15000],
      t.before.Notified t.input := by
  rintro ⟨_, h⟩
  have hrenew := h _ (List.mem_cons_of_mem _ List.mem_cons_self)
  have hannounces := (notified_iff_announces rfl _).mp hrenew
  exact hannounces.1 ⟨1, 15000, _, rfl, Nat.zero_le _, rfl, saturatingAdd_le_add 0 15000⟩

end TypedRecordMachine

end Gump.Memory
