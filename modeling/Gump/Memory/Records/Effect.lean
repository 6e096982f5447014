/-
  Memory/Records/Effect.lean --- what one record command does.

  `Effect` lists every outcome of `TypedRecordMachine.apply`, with the state it
  leaves behind and the changes it commits.  `apply_effect` proves the list
  complete; everything later about record commands is a case analysis on it, and
  no other file unfolds `apply`.

  `changes` states what a command means to commit, in terms of the command and of
  the state alone.  It does not look at the `pending` queue of the machine; that
  the queue carries exactly these changes to the watch history is proved here.
-/
import Gump.Memory.Records.Machine

set_option autoImplicit false

namespace Gump.Memory

open Gump.Foundation

/-! ## Clock, frame, digests and refusals

Nothing in this part depends on the hash function. -/

/-- The time stamp of a command that carries one. -/
def Command.stamp : Command → Option Nat
  | .leaseGrant _ nowMs => some nowMs
  | .leaseRenew _ nowMs => some nowMs
  | .advanceTime nowMs => some nowMs
  | .expireLeases nowMs => some nowMs
  | _ => none

namespace TypedRecordMachine

/-- The machine with its clock moved forward to `nowMs`. -/
def atTime (m : TypedRecordMachine) (nowMs : Nat) : TypedRecordMachine :=
  { m with
    nowMs := nowMs
    watch := if m.nowMs < nowMs then m.watch.retain nowMs m.budgets.historyBytes else m.watch }

/-- The machine with a batch of changes committed at revision `revision`. -/
def commitBatch (m : TypedRecordMachine) (revision : Nat) (changes : List WatchChange) :
    TypedRecordMachine :=
  { m with revision := revision, pending := m.pending ++ changes }.flushPending

theorem commitTime_eq (m : TypedRecordMachine) (nowMs : Nat) :
    m.commitTime nowMs =
      if nowMs < m.nowMs then (m, .error (.timeWentBackward m.nowMs nowMs))
      else (m.atTime nowMs, .ok ()) := by
  unfold commitTime atTime
  split
  · rfl
  · rename_i hback
    split
    · rfl
    · rename_i hsame
      have heq : nowMs = m.nowMs := by omega
      simp [heq]

variable {nowMs : Nat}

theorem commitTime_of_le {m : TypedRecordMachine} (h : m.nowMs ≤ nowMs) :
    m.commitTime nowMs = (m.atTime nowMs, .ok ()) := by
  rw [commitTime_eq, if_neg (not_lt.mpr h)]

/-- Record mutations leave budgets, clock, watch history and leases alone. -/
structure SameFrame (m m' : TypedRecordMachine) : Prop where
  budgets : m'.budgets = m.budgets
  nowMs : m'.nowMs = m.nowMs
  watch : m'.watch = m.watch
  leases : m'.leases = m.leases

theorem SameFrame.refl (m : TypedRecordMachine) : SameFrame m m := ⟨rfl, rfl, rfl, rfl⟩

theorem SameFrame.trans {m₁ m₂ m₃ : TypedRecordMachine} (h : SameFrame m₁ m₂)
    (h' : SameFrame m₂ m₃) : SameFrame m₁ m₃ :=
  ⟨h'.budgets.trans h.budgets, h'.nowMs.trans h.nowMs, h'.watch.trans h.watch,
    h'.leases.trans h.leases⟩

/-- Rolling back to a snapshot undoes record mutations. -/
theorem restore_snapshot {m m' : TypedRecordMachine} (h : SameFrame m m') :
    m'.restore m.snapshot = m := by
  cases m
  cases m'
  obtain ⟨hb, hn, _, _⟩ := h
  simp only at hb hn
  simp [restore, snapshot, hb, hn]

/-- The digest stored under each key. -/
def digests (m : TypedRecordMachine) : RecordKey → Option Digest :=
  fun key => (m.records.get key).map RecordValue.digest

/-- Expiry with nothing due leaves the table as it was. -/
theorem expireDue_of_due_nil {t : LeaseTable} (h : t.due nowMs = []) :
    t.expireDue nowMs = (t, []) := by
  simp only [LeaseTable.expireDue, h, List.foldl_nil]

/-- When a command may be refused outright: a mutation always, a stamped command
only for going back in time, a revocation only for want of the lease. -/
def Refuses (m : TypedRecordMachine) : Command → Prop
  | .put _ _ _ _ | .delete _ _ | .txn _ => True
  | .compact _ => False
  | .leaseGrant _ nowMs | .leaseRenew _ nowMs | .advanceTime nowMs | .expireLeases nowMs =>
    nowMs < m.nowMs
  | .leaseRevoke leaseId => m.leases.get leaseId = none

theorem refuses_of_stamp_lt {m : TypedRecordMachine} {cmd : Command}
    (hstamp : cmd.stamp = some nowMs) (hback : nowMs < m.nowMs) : m.Refuses cmd := by
  cases cmd with
  | leaseGrant | leaseRenew | advanceTime | expireLeases =>
    simp only [Command.stamp, Option.some.injEq] at hstamp
    subst hstamp
    exact hback
  | put | delete | txn | compact | leaseRevoke => simp [Command.stamp] at hstamp

end TypedRecordMachine

/-- The effect of one change on a key-to-digest map. -/
def WatchChange.onDigests (digests : RecordKey → Option Digest) :
    WatchChange → RecordKey → Option Digest
  | .put key _ digest => Function.update digests key (some digest)
  | .delete key _ => Function.update digests key none
  | .leaseRevoked _ _ => digests

section Effects

variable [Blake3]

/-! ## The changes a command commits -/

/-- The change one mutation makes at revision `revision`. -/
def MutateOp.change (revision : Nat) : MutateOp → WatchChange
  | .put key _ payload _ => .put key revision (Blake3.hash payload)
  | .delete key _ => .delete key revision

/-- The changes of consecutive mutations after revision `revision`. -/
def opChanges : Nat → List MutateOp → List WatchChange
  | _, [] => []
  | revision, op :: rest =>
    op.change (saturatingAdd revision 1) :: opChanges (saturatingAdd revision 1) rest

/-- The revision after `count` bumps. -/
def bumpBy : Nat → Nat → Nat
  | revision, 0 => revision
  | revision, count + 1 => bumpBy (saturatingAdd revision 1) count

/-- The mutations a record command runs, if it is of that kind. -/
def Command.mutations (m : TypedRecordMachine) : Command → Option (List MutateOp)
  | .put key expected payload leased => some [.put key expected payload leased]
  | .delete key expected => some [.delete key expected]
  | .txn t => some (m.txnOps t)
  | _ => none

/-- The changes a command commits when it succeeds. -/
def Command.changes (m : TypedRecordMachine) (cmd : Command) : List WatchChange :=
  match cmd with
  | .leaseRevoke leaseId => [.leaseRevoked leaseId (saturatingAdd m.revision 1)]
  | .expireLeases nowMs =>
    (m.leases.due nowMs).map (fun id => .leaseRevoked id (saturatingAdd m.revision 1))
  | _ =>
    match cmd.mutations m with
    | some ops => opChanges m.revision ops
    | none => []

namespace TypedRecordMachine

/-- The changes committed by applying `cmd`: those of the command if it succeeds,
none if it fails. -/
def committed (m : TypedRecordMachine) (cmd : Command) : List WatchChange :=
  match (m.apply cmd).2 with
  | .ok _ => cmd.changes m
  | .error _ => []

/-! ## Mutations -/

/-- What a successful mutation does. -/
structure Mutated (m : TypedRecordMachine) (op : MutateOp) (m' : TypedRecordMachine) : Prop
    where
  frame : SameFrame m m'
  revision : m'.revision = saturatingAdd m.revision 1
  pending : m'.pending = m.pending ++ [op.change (saturatingAdd m.revision 1)]
  digests : m'.digests = (op.change (saturatingAdd m.revision 1)).onDigests m.digests

theorem put_spec (m : TypedRecordMachine) (key : RecordKey) (expected : Expected)
    (payload : List UInt8) (leased : Bool) :
    (∃ e, m.put key expected payload leased = (m, .error e)) ∨
      (∃ m', m.put key expected payload leased = (m', .ok ()) ∧
        Mutated m (.put key expected payload leased) m') := by
  unfold put
  split
  · exact Or.inl ⟨_, rfl⟩
  · simp only
    split
    · exact Or.inl ⟨_, rfl⟩
    · split
      · exact Or.inl ⟨_, rfl⟩
      · refine Or.inr ⟨_, rfl, ⟨rfl, rfl, rfl, rfl⟩, rfl, rfl, ?_⟩
        funext key'
        simp only [TypedRecordMachine.digests, MutateOp.change, WatchChange.onDigests,
          OrdMap.get_insert, Function.update_apply]
        split
        · rfl
        · rfl

theorem delete_spec (m : TypedRecordMachine) (key : RecordKey) (expected : Expected) :
    (∃ e, m.delete key expected = (m, .error e)) ∨
      (∃ m', m.delete key expected = (m', .ok ()) ∧ Mutated m (.delete key expected) m') := by
  unfold delete
  split
  · exact Or.inl ⟨_, rfl⟩
  · split
    · exact Or.inl ⟨_, rfl⟩
    · refine Or.inr ⟨_, rfl, ⟨rfl, rfl, rfl, rfl⟩, rfl, rfl, ?_⟩
      funext key'
      simp only [TypedRecordMachine.digests, MutateOp.change, WatchChange.onDigests,
        OrdMap.get_erase, Function.update_apply]
      split
      · rfl
      · rfl

/-- A mutation either fails and changes nothing, or makes its change. -/
theorem applyMutate_spec (m : TypedRecordMachine) (op : MutateOp) :
    (∃ e, m.applyMutate op = (m, .error e)) ∨
      (∃ m', m.applyMutate op = (m', .ok ()) ∧ Mutated m op m') := by
  cases op with
  | put key expected payload leased => exact m.put_spec key expected payload leased
  | delete key expected => exact m.delete_spec key expected

/-- What a completed list of mutations does. -/
structure Performed (m : TypedRecordMachine) (ops : List MutateOp) (m' : TypedRecordMachine) :
    Prop where
  frame : SameFrame m m'
  revision : m'.revision = bumpBy m.revision ops.length
  pending : m'.pending = m.pending ++ opChanges m.revision ops
  digests : m'.digests = (opChanges m.revision ops).foldl WatchChange.onDigests m.digests

/-- A list of mutations stops at an error, leaving the frame as it was, or
performs them all. -/
theorem applyOps_spec (m : TypedRecordMachine) (ops : List MutateOp) :
    (∃ m' e, m.applyOps ops = (m', .error e) ∧ SameFrame m m') ∨
      (∃ m', m.applyOps ops = (m', .ok ()) ∧ Performed m ops m') := by
  induction ops generalizing m with
  | nil =>
    exact Or.inr ⟨m, rfl, SameFrame.refl m, rfl, by simp [opChanges], rfl⟩
  | cons op rest ih =>
    rcases m.applyMutate_spec op with ⟨e, herr⟩ | ⟨m₁, hok, hop⟩
    · exact Or.inl ⟨m, e, by simp [applyOps, herr], SameFrame.refl m⟩
    · have hstep : m.applyOps (op :: rest) = m₁.applyOps rest := by
        simp [applyOps, hok]
      rw [hstep]
      rcases ih m₁ with ⟨m₂, e, herr, hframe⟩ | ⟨m₂, hok₂, hrest⟩
      · exact Or.inl ⟨m₂, e, herr, hop.frame.trans hframe⟩
      · refine Or.inr ⟨m₂, hok₂, hop.frame.trans hrest.frame, ?_, ?_, ?_⟩
        · rw [hrest.revision, hop.revision]
          rfl
        · rw [hrest.pending, hop.pending, hop.revision, List.append_assoc]
          rfl
        · rw [hrest.digests, hop.digests, hop.revision]
          rfl

/-! ## The effects of a command -/

/-- Every outcome of a record command: the state left behind, whether the command
succeeded, and the changes it committed. -/
inductive Effect (m : TypedRecordMachine) :
    Command → TypedRecordMachine → Bool → List WatchChange → Prop where
  /-- Refused before anything changed. -/
  | refused {cmd : Command} : m.Refuses cmd → Effect m cmd m false []
  /-- A list of mutations ran to its end. -/
  | mutated {cmd : Command} {ops : List MutateOp} {m' : TypedRecordMachine} :
      cmd.mutations m = some ops → Performed m ops m' →
      Effect m cmd m'.flushPending true (opChanges m.revision ops)
  | compacted {through : Nat} :
      Effect m (.compact through) { m with watch := m.watch.compactThrough through } true []
  | granted {purpose : LeasePurpose} {nowMs : Nat} : m.nowMs ≤ nowMs →
      Effect m (.leaseGrant purpose nowMs)
        { m.atTime nowMs with
          leases := (m.leases.grant purpose nowMs).1
          revision := saturatingAdd m.revision 1 } true []
  | renewed {leaseId nowMs : Nat} {lease : Lease} : m.nowMs ≤ nowMs →
      (m.leases.renew leaseId nowMs).2 = .ok lease →
      Effect m (.leaseRenew leaseId nowMs)
        { m.atTime nowMs with
          leases := (m.leases.renew leaseId nowMs).1
          revision := saturatingAdd m.revision 1 } true []
  /-- The renewal failed after its time stamp was committed. -/
  | renewFailed {leaseId nowMs : Nat} {e : LeaseError} : m.nowMs ≤ nowMs →
      (m.leases.renew leaseId nowMs).2 = .error e →
      Effect m (.leaseRenew leaseId nowMs)
        { m.atTime nowMs with leases := (m.leases.renew leaseId nowMs).1 } false []
  | revoked {leaseId : Nat} {lease : Lease} : m.leases.get leaseId = some lease →
      Effect m (.leaseRevoke leaseId)
        ({ m with leases := { m.leases with leases := m.leases.leases.erase leaseId } }.commitBatch
          (saturatingAdd m.revision 1)
          [.leaseRevoked leaseId (saturatingAdd m.revision 1)]) true
        [.leaseRevoked leaseId (saturatingAdd m.revision 1)]
  | advanced {nowMs : Nat} : m.nowMs ≤ nowMs →
      Effect m (.advanceTime nowMs) (m.atTime nowMs) true []
  /-- No lease was due. -/
  | noneDue {nowMs : Nat} : m.nowMs ≤ nowMs → m.leases.due nowMs = [] →
      Effect m (.expireLeases nowMs) (m.atTime nowMs) true []
  | expired {nowMs : Nat} : m.nowMs ≤ nowMs → m.leases.due nowMs ≠ [] →
      Effect m (.expireLeases nowMs)
        ({ m.atTime nowMs with leases := (m.leases.expireDue nowMs).1 }.commitBatch
          (saturatingAdd m.revision 1)
          ((m.leases.due nowMs).map (fun id => .leaseRevoked id (saturatingAdd m.revision 1)))) true
        ((m.leases.due nowMs).map (fun id => .leaseRevoked id (saturatingAdd m.revision 1)))

variable {cmd : Command}

/-- A command whose result is an error commits nothing. -/
theorem committed_of_error {m m' : TypedRecordMachine} {e : ApplyError}
    (h : m.apply cmd = (m', .error e)) : m.committed cmd = [] := by
  simp [committed, h]

theorem committed_of_ok {m m' : TypedRecordMachine} {r : ApplyResult}
    (h : m.apply cmd = (m', .ok r)) : m.committed cmd = cmd.changes m := by
  simp [committed, h]

/-- Assemble the effect of a command from an equation for `apply`. -/
theorem effect_of_error {m m' : TypedRecordMachine} {e : ApplyError}
    (h : m.apply cmd = (m', .error e)) (heff : Effect m cmd m' false []) :
    Effect m cmd (m.apply cmd).1 (m.apply cmd).2.isOk (m.committed cmd) := by
  rw [committed_of_error h, h]
  exact heff

theorem effect_of_ok {m m' : TypedRecordMachine} (h : ∃ r, m.apply cmd = (m', .ok r))
    (heff : Effect m cmd m' true (cmd.changes m)) :
    Effect m cmd (m.apply cmd).1 (m.apply cmd).2.isOk (m.committed cmd) := by
  obtain ⟨r, hr⟩ := h
  rw [committed_of_ok hr, hr]
  exact heff

theorem applySingle_effect {m : TypedRecordMachine} {op : MutateOp}
    (happly : m.apply cmd = m.applySingle op) (hrefuses : m.Refuses cmd)
    (hmut : cmd.mutations m = some [op]) (hchanges : cmd.changes m = opChanges m.revision [op]) :
    Effect m cmd (m.apply cmd).1 (m.apply cmd).2.isOk (m.committed cmd) := by
  rcases m.applyMutate_spec op with ⟨e, herr⟩ | ⟨m', hok, hop⟩
  · have h : m.apply cmd = (m, .error e) := by rw [happly, applySingle, herr]
    exact effect_of_error h (.refused hrefuses)
  · have h : m.apply cmd = (m'.flushPending, .ok m'.flushPending.plainResult) := by
      rw [happly, applySingle, hok]
    have hperf : Performed m [op] m' := ⟨hop.frame, hop.revision, hop.pending, hop.digests⟩
    exact effect_of_ok ⟨_, h⟩ (hchanges ▸ .mutated hmut hperf)

theorem applyTxn_effect (m : TypedRecordMachine) (txn : Txn) :
    Effect m (.txn txn) (m.apply (.txn txn)).1 (m.apply (.txn txn)).2.isOk
      (m.committed (.txn txn)) := by
  rcases m.applyOps_spec (m.txnOps txn) with ⟨m', e, herr, hframe⟩ | ⟨m', hok, hperf⟩
  · have h : m.apply (.txn txn) = (m, .error e) := by
      simp only [apply, applyTxn, herr, restore_snapshot hframe]
    exact effect_of_error h (.refused trivial)
  · have h : m.apply (.txn txn) = (m'.flushPending,
        .ok { m'.flushPending.plainResult with
          txnSucceeded := some (m.comparisonsHold txn.comparisons) }) := by
      simp only [apply, applyTxn, hok]
    exact effect_of_ok ⟨_, h⟩ (.mutated rfl hperf)

variable {nowMs : Nat}

/-- A stamp before the committed clock is refused. -/
theorem apply_of_stamp_lt {m : TypedRecordMachine} (hstamp : cmd.stamp = some nowMs)
    (hback : nowMs < m.nowMs) : m.apply cmd = (m, .error (.timeWentBackward m.nowMs nowMs)) := by
  have hc := m.commitTime_eq nowMs
  rw [if_pos hback] at hc
  cases cmd with
  | leaseGrant | leaseRenew | advanceTime | expireLeases =>
    simp only [Command.stamp, Option.some.injEq] at hstamp
    subst hstamp
    simp only [apply, hc]
  | put | delete | txn | compact | leaseRevoke => simp [Command.stamp] at hstamp

theorem apply_leaseRenew_effect {m : TypedRecordMachine} {leaseId : Nat} (h : m.nowMs ≤ nowMs) :
    Effect m (.leaseRenew leaseId nowMs) (m.apply (.leaseRenew leaseId nowMs)).1
      (m.apply (.leaseRenew leaseId nowMs)).2.isOk
      (m.committed (.leaseRenew leaseId nowMs)) := by
  have hc := commitTime_of_le h
  have htable : (m.atTime nowMs).leases.renew leaseId (m.atTime nowMs).nowMs =
      ((m.leases.renew leaseId nowMs).1, (m.leases.renew leaseId nowMs).2) := rfl
  cases hr : (m.leases.renew leaseId nowMs).2 with
  | error e =>
    rw [hr] at htable
    refine effect_of_error (e := .lease e) ?_ (.renewFailed h hr)
    simp only [apply, hc, htable]
  | ok lease =>
    rw [hr] at htable
    refine effect_of_ok ?_ (.renewed h hr)
    simp only [apply, hc, htable]
    exact ⟨_, rfl⟩

theorem apply_leaseRevoke_effect (m : TypedRecordMachine) (leaseId : Nat) :
    Effect m (.leaseRevoke leaseId) (m.apply (.leaseRevoke leaseId)).1
      (m.apply (.leaseRevoke leaseId)).2.isOk (m.committed (.leaseRevoke leaseId)) := by
  cases hr : m.leases.leases.get leaseId with
  | none =>
    have hrevoke : m.leases.revoke leaseId = (m.leases, .error (.notFound leaseId)) := by
      simp only [LeaseTable.revoke, hr]
    have h : m.apply (.leaseRevoke leaseId) = (m, .error (.lease (.notFound leaseId))) := by
      simp only [apply, hrevoke]
    exact effect_of_error h (.refused hr)
  | some lease =>
    have hrevoke : m.leases.revoke leaseId =
        ({ m.leases with leases := m.leases.leases.erase leaseId }, .ok lease) := by
      simp only [LeaseTable.revoke, hr]
    refine effect_of_ok ?_ (.revoked hr)
    simp only [apply, hrevoke]
    exact ⟨_, rfl⟩

theorem apply_expireLeases_effect {m : TypedRecordMachine} (h : m.nowMs ≤ nowMs) :
    Effect m (.expireLeases nowMs) (m.apply (.expireLeases nowMs)).1
      (m.apply (.expireLeases nowMs)).2.isOk (m.committed (.expireLeases nowMs)) := by
  have hc := commitTime_of_le h
  by_cases hdue : m.leases.due nowMs = []
  · have hexp := expireDue_of_due_nil hdue
    have hchanges : (Command.expireLeases nowMs).changes m = [] := by
      simp [Command.changes, hdue]
    have hnone : m.apply (.expireLeases nowMs) =
        (m.atTime nowMs, .ok (m.atTime nowMs).plainResult) := by
      have htable : (m.atTime nowMs).leases.expireDue (m.atTime nowMs).nowMs =
          (m.leases, []) := hexp
      simp only [apply, hc, htable, List.isEmpty_nil, if_true]
      rfl
    exact effect_of_ok ⟨_, hnone⟩ (hchanges ▸ .noneDue h hdue)
  · refine effect_of_ok ?_ (.expired h hdue)
    have hne : ((m.atTime nowMs).leases.expireDue (m.atTime nowMs).nowMs).2.isEmpty = false := by
      rw [List.isEmpty_eq_false_iff]
      exact hdue
    simp only [apply, hc, hne]
    exact ⟨_, rfl⟩

/-- The list of effects is complete. -/
theorem apply_effect (m : TypedRecordMachine) (cmd : Command) :
    Effect m cmd (m.apply cmd).1 (m.apply cmd).2.isOk (m.committed cmd) := by
  by_cases hback : ∃ nowMs, cmd.stamp = some nowMs ∧ nowMs < m.nowMs
  · obtain ⟨nowMs, hstamp, hlt⟩ := hback
    exact effect_of_error (apply_of_stamp_lt hstamp hlt) (.refused (refuses_of_stamp_lt hstamp hlt))
  · have hforward : ∀ nowMs, cmd.stamp = some nowMs → m.nowMs ≤ nowMs := by
      intro nowMs hstamp
      exact not_lt.mp (fun hlt => hback ⟨nowMs, hstamp, hlt⟩)
    cases cmd with
    | put key expected payload leased => exact applySingle_effect rfl trivial rfl rfl
    | delete key expected => exact applySingle_effect rfl trivial rfl rfl
    | txn txn => exact m.applyTxn_effect txn
    | compact through => exact effect_of_ok ⟨_, rfl⟩ .compacted
    | leaseGrant purpose nowMs =>
      have hle := hforward nowMs rfl
      refine effect_of_ok ?_ (.granted hle)
      simp only [apply, commitTime_of_le hle]
      exact ⟨_, rfl⟩
    | leaseRenew leaseId nowMs => exact apply_leaseRenew_effect (hforward nowMs rfl)
    | leaseRevoke leaseId => exact m.apply_leaseRevoke_effect leaseId
    | advanceTime nowMs =>
      have hle := hforward nowMs rfl
      refine effect_of_ok ?_ (.advanced hle)
      simp only [apply, commitTime_of_le hle]
      exact ⟨_, rfl⟩
    | expireLeases nowMs => exact apply_expireLeases_effect (hforward nowMs rfl)

end TypedRecordMachine

end Effects

end Gump.Memory
