/-
  Memory/Membership.lean --- the membership of a cluster.

  Models `membership/lifecycle.rs`, `membership/joint.rs`, `membership/snapshot.rs` and
  `quorum.rs`.  An operation answers with an event or an error and leaves a cluster behind
  in both cases.  `Lifecycle` is what holds of every cluster that operations can reach, and
  `Based` is why two consecutive configurations cannot decide apart: one set of voters has
  a majority in every set that can commit in either.
-/
import Gump.Foundation.Run
import Gump.Memory.Records.Record
import Mathlib.Data.Finset.Sort

set_option autoImplicit false

namespace Gump.Memory.Membership

open Gump.Foundation

/-! ## Quorums -/

abbrev MemberId : Type := Nat

inductive QuorumError where
  | noVoters
  | availableExceedsVoters (available voters : Nat)
  deriving DecidableEq, Repr

/-- A length as a 32-bit word. -/
def asU32 (n : Nat) : Nat := n % 2 ^ 32

def majority (voters : Nat) : Except QuorumError Nat :=
  if voters = 0 then .error .noVoters else .ok (voters / 2 + 1)

def canCommit (voters available : Nat) : Except QuorumError Bool :=
  if available > voters then .error (.availableExceedsVoters available voters)
  else do
    let needed ← majority voters
    pure (decide (available ≥ needed))

/-- Overlapping old and new voters during a change. -/
structure JointConfig where
  oldVoters : Finset MemberId
  newVoters : Finset MemberId
  deriving DecidableEq

inductive JointError where
  | quorum (e : QuorumError)
  | emptyOld
  | emptyNew
  deriving DecidableEq, Repr

def JointConfig.new (oldVoters newVoters : Finset MemberId) : Except JointError JointConfig :=
  if oldVoters = ∅ then .error .emptyOld
  else if newVoters = ∅ then .error .emptyNew
  else .ok ⟨oldVoters, newVoters⟩

def canCommitJoint (joint : JointConfig) (available : Finset MemberId) : Except JointError Bool :=
  let oldN := asU32 joint.oldVoters.card
  let newN := asU32 joint.newVoters.card
  let oldAvail := asU32 (joint.oldVoters ∩ available).card
  let newAvail := asU32 (joint.newVoters ∩ available).card
  match canCommit oldN oldAvail with
  | .error e => .error (.quorum e)
  | .ok false => .ok false
  | .ok true =>
    match canCommit newN newAvail with
    | .error e => .error (.quorum e)
    | .ok b => .ok b

/-! ## Members -/

inductive MemberPhase where
  | transferring
  | learner
  | voter
  | draining
  deriving DecidableEq, Repr

structure MemberRecord where
  id : MemberId
  phase : MemberPhase
  deriving DecidableEq, Repr

structure SnapshotOffer where
  committedIndex : Nat
  digest : Digest
  bytes : List UInt8
  deriving DecidableEq

inductive SnapshotTransferError where
  | digestMismatch (expected actual : Digest)
  | indexMismatch (expected actual : Nat)
  deriving DecidableEq

def SnapshotOffer.verify [Blake3] (offer : SnapshotOffer) (expectedIndex : Nat)
    (expectedDigest : Digest) : Except SnapshotTransferError Unit :=
  let actual := Blake3.hash offer.bytes
  if actual ≠ offer.digest ∨ actual ≠ expectedDigest then
    .error (.digestMismatch expectedDigest actual)
  else if offer.committedIndex ≠ expectedIndex then
    .error (.indexMismatch expectedIndex offer.committedIndex)
  else .ok ()

inductive MembershipError where
  | alreadyInitialized
  | notInitialized
  | memberExists (id : MemberId)
  | unknownMember (id : MemberId)
  | badPhase (id : MemberId) (phase : MemberPhase) (needed : String)
  | jointInProgress
  | noJoint
  | snapshot (e : SnapshotTransferError)
  | joint (e : JointError)
  | jointQuorumNotMet
  | notAVoter (id : MemberId)
  | lastVoter
  deriving DecidableEq

inductive MembershipEvent where
  | initialized (seed : MemberId) (incarnation : Nat)
  | joinStarted (id : MemberId)
  | transferCompleted (id : MemberId) (committedIndex : Nat)
  | transferAborted (id : MemberId)
  | jointEntered (joint : JointConfig)
  | jointCommitted (voters : Finset MemberId)
  | removed (id : MemberId)
  deriving DecidableEq

/-- The view of one cluster. -/
structure MembershipCluster where
  incarnation : Option Nat
  members : OrdMap MemberId MemberRecord
  voters : Finset MemberId
  learners : Finset MemberId
  joint : Option JointConfig
  transferIndex : OrdMap MemberId Nat
  transferDigest : OrdMap MemberId Digest
  deriving DecidableEq

/-- What an operation leaves behind, and its answer. -/
abbrev Outcome : Type := MembershipCluster × Except MembershipError MembershipEvent

namespace MembershipCluster

def new : MembershipCluster := ⟨none, .empty, ∅, ∅, none, .empty, .empty⟩

def phaseOf (c : MembershipCluster) (id : MemberId) : Option MemberPhase :=
  (c.members.get id).map MemberRecord.phase

def init (c : MembershipCluster) (seed : MemberId) (incarnation : Nat) : Outcome :=
  if c.incarnation.isSome then (c, .error .alreadyInitialized)
  else
    ({ c with
        incarnation := some incarnation
        members := c.members.insert seed ⟨seed, .voter⟩
        voters := insert seed c.voters },
      .ok (.initialized seed incarnation))

def beginJoin (c : MembershipCluster) (id : MemberId) (expectedIndex : Nat)
    (expectedDigest : Digest) : Outcome :=
  if c.incarnation = none then (c, .error .notInitialized)
  else if c.members.contains id then (c, .error (.memberExists id))
  else if c.joint.isSome then (c, .error .jointInProgress)
  else
    ({ c with
        members := c.members.insert id ⟨id, .transferring⟩
        learners := insert id c.learners
        transferIndex := c.transferIndex.insert id expectedIndex
        transferDigest := c.transferDigest.insert id expectedDigest },
      .ok (.joinStarted id))

def completeTransfer [Blake3] (c : MembershipCluster) (id : MemberId) (offer : SnapshotOffer) :
    Outcome :=
  if c.incarnation = none then (c, .error .notInitialized)
  else
    match c.members.get id with
    | none => (c, .error (.unknownMember id))
    | some record =>
      if record.phase ≠ .transferring then
        (c, .error (.badPhase id record.phase "Transferring"))
      else
        match c.transferIndex.get id with
        | none => (c, .error (.unknownMember id))
        | some expectedIndex =>
          match c.transferDigest.get id with
          | none => (c, .error (.unknownMember id))
          | some expectedDigest =>
            match offer.verify expectedIndex expectedDigest with
            | .error e => (c, .error (.snapshot e))
            | .ok _ =>
              ({ c with
                  members := c.members.insert id { record with phase := .learner }
                  transferIndex := c.transferIndex.erase id
                  transferDigest := c.transferDigest.erase id },
                .ok (.transferCompleted id offer.committedIndex))

def abortTransfer (c : MembershipCluster) (id : MemberId) : Outcome :=
  if c.incarnation = none then (c, .error .notInitialized)
  else
    match c.members.get id with
    | none => (c, .error (.unknownMember id))
    | some record =>
      if record.phase ≠ .transferring then
        (c, .error (.badPhase id record.phase "Transferring"))
      else
        ({ c with
            members := c.members.erase id
            learners := c.learners.erase id
            transferIndex := c.transferIndex.erase id
            transferDigest := c.transferDigest.erase id },
          .ok (.transferAborted id))

def beginPromote (c : MembershipCluster) (id : MemberId) : Outcome :=
  if c.incarnation = none then (c, .error .notInitialized)
  else if c.joint.isSome then (c, .error .jointInProgress)
  else
    match c.members.get id with
    | none => (c, .error (.unknownMember id))
    | some record =>
      if record.phase ≠ .learner then (c, .error (.badPhase id record.phase "Learner"))
      else
        match JointConfig.new c.voters (insert id c.voters) with
        | .error e => (c, .error (.joint e))
        | .ok joint => ({ c with joint := some joint }, .ok (.jointEntered joint))

def beginDrain (c : MembershipCluster) (id : MemberId) : Outcome :=
  if c.incarnation = none then (c, .error .notInitialized)
  else if c.joint.isSome then (c, .error .jointInProgress)
  else if id ∉ c.voters then (c, .error (.notAVoter id))
  else if c.voters.card = 1 then (c, .error .lastVoter)
  else
    match c.members.get id with
    | none => (c, .error (.unknownMember id))
    | some record =>
      if record.phase ≠ .voter then (c, .error (.badPhase id record.phase "Voter"))
      else
        -- the phase is set before the joint configuration is built
        let c := { c with members := c.members.insert id { record with phase := .draining } }
        match JointConfig.new c.voters (c.voters.erase id) with
        | .error e => (c, .error (.joint e))
        | .ok joint => ({ c with joint := some joint }, .ok (.jointEntered joint))

/-- A joining member becomes a voter. -/
def promote (c : MembershipCluster) (id : MemberId) : MembershipCluster :=
  { c with
    members := match c.members.get id with
      | some record => c.members.insert id { record with phase := .voter }
      | none => c.members
    learners := c.learners.erase id }

/-- A leaving member is forgotten. -/
def forget (c : MembershipCluster) (id : MemberId) : MembershipCluster :=
  { c with members := c.members.erase id, learners := c.learners.erase id }

/-- The new voters take over. -/
def adopt (c : MembershipCluster) (joint : JointConfig) : MembershipCluster :=
  let leaving := (joint.oldVoters \ joint.newVoters).sort (· ≤ ·)
  let joining := (joint.newVoters \ joint.oldVoters).sort (· ≤ ·)
  let c := joining.foldl promote { c with joint := none }
  let c := leaving.foldl forget c
  { c with voters := joint.newVoters }

def commitJoint (c : MembershipCluster) (available : Finset MemberId) : Outcome :=
  if c.incarnation = none then (c, .error .notInitialized)
  else
    match c.joint with
    | none => (c, .error .noJoint)
    | some joint =>
      -- the joint configuration is taken out before the quorum is looked at
      match canCommitJoint joint available with
      | .error e => ({ c with joint := none }, .error (.joint e))
      | .ok false => (c, .error .jointQuorumNotMet)
      | .ok true => (c.adopt joint, .ok (.jointCommitted joint.newVoters))

def remove (c : MembershipCluster) (id : MemberId) : Outcome :=
  if c.incarnation = none then (c, .error .notInitialized)
  else if c.joint.isSome then (c, .error .jointInProgress)
  else if id ∈ c.voters then
    (c, .error (.badPhase id .voter "non-voter (drain via joint first)"))
  else if ¬ c.members.contains id then (c, .error (.unknownMember id))
  else
    ({ c with
        members := c.members.erase id
        learners := c.learners.erase id
        transferIndex := c.transferIndex.erase id
        transferDigest := c.transferDigest.erase id },
      .ok (.removed id))

end MembershipCluster

/-- The operations. -/
inductive MembershipOp where
  | init (seed : MemberId) (incarnation : Nat)
  | beginJoin (id : MemberId) (expectedIndex : Nat) (expectedDigest : Digest)
  | completeTransfer (id : MemberId) (offer : SnapshotOffer)
  | abortTransfer (id : MemberId)
  | beginPromote (id : MemberId)
  | beginDrain (id : MemberId)
  | commitJoint (available : Finset MemberId)
  | remove (id : MemberId)

def MembershipCluster.apply [Blake3] (c : MembershipCluster) : MembershipOp → Outcome
  | .init seed incarnation => c.init seed incarnation
  | .beginJoin id index digest => c.beginJoin id index digest
  | .completeTransfer id offer => c.completeTransfer id offer
  | .abortTransfer id => c.abortTransfer id
  | .beginPromote id => c.beginPromote id
  | .beginDrain id => c.beginDrain id
  | .commitJoint available => c.commitJoint available
  | .remove id => c.remove id

/-! ## The lifecycle -/

namespace MembershipCluster

/-- A change of voters that is under way. -/
inductive Changes (c : MembershipCluster) (joint : JointConfig) : Prop where
  | promotes (id : MemberId) (hid : id ∉ c.voters) (hphase : c.phaseOf id = some .learner)
      (heq : joint = ⟨c.voters, insert id c.voters⟩)
  | drains (id : MemberId) (hid : id ∈ c.voters) (hrest : (c.voters.erase id).Nonempty)
      (heq : joint = ⟨c.voters, c.voters.erase id⟩)

/-- What holds of a cluster once it is initialized. -/
structure Lifecycle (c : MembershipCluster) : Prop where
  nonempty : c.voters.Nonempty
  voters : ∀ id ∈ c.voters, c.phaseOf id = some .voter ∨ c.phaseOf id = some .draining
  learners : ∀ id, id ∈ c.learners ↔
    c.phaseOf id = some .transferring ∨ c.phaseOf id = some .learner
  index : ∀ id, c.transferIndex.contains id = true ↔ c.phaseOf id = some .transferring
  digest : ∀ id, c.transferDigest.contains id = true ↔ c.phaseOf id = some .transferring
  joint : ∀ joint, c.joint = some joint → c.Changes joint
  small : c.voters.card < 2 ^ 32

/-- What an operation does that answers with an event. -/
inductive Step (c : MembershipCluster) : MembershipCluster → Prop where
  | joined (id : MemberId) (index : Nat) (digest : Digest) (hjoint : c.joint = none)
      (hid : c.members.get id = none) :
      Step c { c with
        members := c.members.insert id ⟨id, .transferring⟩
        learners := insert id c.learners
        transferIndex := c.transferIndex.insert id index
        transferDigest := c.transferDigest.insert id digest }
  | transferred (id : MemberId) (record : MemberRecord) (hget : c.members.get id = some record)
      (hphase : record.phase = .transferring) :
      Step c { c with
        members := c.members.insert id { record with phase := .learner }
        transferIndex := c.transferIndex.erase id
        transferDigest := c.transferDigest.erase id }
  | dropped (id : MemberId) (hid : id ∉ c.voters)
      (hjoint : c.joint = none ∨ c.phaseOf id = some .transferring) :
      Step c { c with
        members := c.members.erase id
        learners := c.learners.erase id
        transferIndex := c.transferIndex.erase id
        transferDigest := c.transferDigest.erase id }
  | promoting (id : MemberId) (hjoint : c.joint = none) (hphase : c.phaseOf id = some .learner) :
      Step c { c with joint := some ⟨c.voters, insert id c.voters⟩ }
  | draining (id : MemberId) (record : MemberRecord) (hjoint : c.joint = none)
      (hid : id ∈ c.voters) (hrest : (c.voters.erase id).Nonempty) :
      Step c { c with
        members := c.members.insert id { record with phase := .draining }
        joint := some ⟨c.voters, c.voters.erase id⟩ }
  | committed (joint : JointConfig) (available : Finset MemberId) (hjoint : c.joint = some joint)
      (hcommit : canCommitJoint joint available = .ok true) : Step c (c.adopt joint)

variable {c : MembershipCluster}

theorem jointConfig_new {oldVoters newVoters : Finset MemberId} (hold : oldVoters.Nonempty)
    (hnew : newVoters.Nonempty) :
    JointConfig.new oldVoters newVoters = .ok ⟨oldVoters, newVoters⟩ := by
  rw [JointConfig.new, if_neg hold.ne_empty, if_neg hnew.ne_empty]

variable {id : MemberId}

theorem phaseOf_eq {record : MemberRecord} (h : c.members.get id = some record) :
    c.phaseOf id = some record.phase := by
  rw [phaseOf, h]
  rfl

/-- What an operation answers: an error that changes nothing, an error after which the joint
configuration is lost because its quorum cannot be computed, or an event with a step. -/
inductive Answers (c : MembershipCluster) : Outcome → Prop where
  | refused (e : MembershipError) : Answers c (c, .error e)
  | lost (joint : JointConfig) (available : Finset MemberId) (e : JointError)
      (hjoint : c.joint = some joint) (herror : canCommitJoint joint available = .error e) :
      Answers c ({ c with joint := none }, .error (.joint e))
  | stepped (c' : MembershipCluster) (event : MembershipEvent) (hstep : c.Step c') :
      Answers c (c', .ok event)

section Operations

variable (h : c.Lifecycle) (hinit : c.incarnation ≠ none)

include hinit in
theorem beginJoin_answers (id : MemberId) (index : Nat) (digest : Digest) :
    c.Answers (c.beginJoin id index digest) := by
  unfold beginJoin
  rw [if_neg hinit]
  split_ifs with hexists hjoint
  · exact .refused _
  · exact .refused _
  · refine .stepped _ _ (.joined id index digest ?_ ?_)
    · exact Option.not_isSome_iff_eq_none.mp hjoint
    · exact OrdMap.contains_eq_false_iff.mp (Bool.eq_false_iff.mpr hexists)

include hinit in
theorem completeTransfer_answers [Blake3] (id : MemberId) (offer : SnapshotOffer) :
    c.Answers (c.completeTransfer id offer) := by
  unfold completeTransfer
  rw [if_neg hinit]
  cases hget : c.members.get id with
  | none => exact .refused _
  | some record =>
    dsimp only
    split_ifs with hphase
    · exact .refused _
    rw [not_not] at hphase
    cases c.transferIndex.get id with
    | none => exact .refused _
    | some index =>
      cases c.transferDigest.get id with
      | none => exact .refused _
      | some digest =>
        dsimp only
        cases offer.verify index digest with
        | error e => exact .refused _
        | ok _ => exact .stepped _ _ (.transferred id record hget hphase)

include h hinit in
theorem abortTransfer_answers (id : MemberId) : c.Answers (c.abortTransfer id) := by
  unfold abortTransfer
  rw [if_neg hinit]
  cases hget : c.members.get id with
  | none => exact .refused _
  | some record =>
    dsimp only
    split_ifs with hphase
    · exact .refused _
    rw [not_not] at hphase
    have hphaseOf := phaseOf_eq hget
    rw [hphase] at hphaseOf
    refine .stepped _ _ (.dropped id (fun hvoter => ?_) (.inr hphaseOf))
    have hvoters := h.voters id hvoter
    rw [hphaseOf] at hvoters
    simp at hvoters

include h hinit in
theorem beginPromote_answers (id : MemberId) : c.Answers (c.beginPromote id) := by
  unfold beginPromote
  rw [if_neg hinit]
  split_ifs with hjoint
  · exact .refused _
  have hnone := Option.not_isSome_iff_eq_none.mp hjoint
  cases hget : c.members.get id with
  | none => exact .refused _
  | some record =>
    dsimp only
    split_ifs with hphase
    · exact .refused _
    rw [not_not] at hphase
    have hphaseOf := phaseOf_eq hget
    rw [hphase] at hphaseOf
    rw [jointConfig_new h.nonempty (Finset.insert_nonempty _ _)]
    exact .stepped _ _ (.promoting id hnone hphaseOf)

include h hinit in
theorem beginDrain_answers (id : MemberId) : c.Answers (c.beginDrain id) := by
  unfold beginDrain
  rw [if_neg hinit]
  split_ifs with hjoint hvoter hlast
  · exact .refused _
  · exact .refused _
  · have hnone := Option.not_isSome_iff_eq_none.mp hjoint
    have hrest : (c.voters.erase id).Nonempty := by
      rw [← Finset.card_pos, Finset.card_erase_of_mem hvoter]
      have hpos := h.nonempty.card_pos
      omega
    cases hget : c.members.get id with
    | none => exact .refused _
    | some record =>
      dsimp only
      split_ifs with hphase
      · exact .refused _
      rw [jointConfig_new h.nonempty hrest]
      exact .stepped _ _ (.draining id record hnone hvoter hrest)
  · exact .refused _

include hinit in
theorem commitJoint_answers (available : Finset MemberId) :
    c.Answers (c.commitJoint available) := by
  unfold commitJoint
  rw [if_neg hinit]
  cases hjoint : c.joint with
  | none => exact .refused _
  | some joint =>
    dsimp only
    cases hcommit : canCommitJoint joint available with
    | error e => exact .lost joint available e hjoint hcommit
    | ok b =>
      cases b with
      | false => exact .refused _
      | true => exact .stepped _ _ (.committed joint available hjoint hcommit)

include hinit in
theorem remove_answers (id : MemberId) : c.Answers (c.remove id) := by
  unfold remove
  rw [if_neg hinit]
  split_ifs with hjoint hvoter hknown
  · exact .refused _
  · exact .refused _
  · exact .stepped _ _ (.dropped id hvoter (.inl (Option.not_isSome_iff_eq_none.mp hjoint)))
  · exact .refused _

include h hinit in
theorem apply_answers [Blake3] (op : MembershipOp) : c.Answers (c.apply op) := by
  cases op with
  | init seed incarnation =>
    have hagain : c.init seed incarnation = (c, .error .alreadyInitialized) :=
      if_pos (Option.isSome_iff_ne_none.mpr hinit)
    rw [apply, hagain]
    exact .refused _
  | beginJoin id index digest => exact beginJoin_answers hinit id index digest
  | completeTransfer id offer => exact completeTransfer_answers hinit id offer
  | abortTransfer id => exact abortTransfer_answers h hinit id
  | beginPromote id => exact beginPromote_answers h hinit id
  | beginDrain id => exact beginDrain_answers h hinit id
  | commitJoint available => exact commitJoint_answers hinit available
  | remove id => exact remove_answers hinit id

end Operations

/-! ## Every cluster that is reached -/

/-- Quorums are computed on the numbers themselves while these are words. -/
theorem canCommit_ok_true {voters available : Nat} (h : canCommit voters available = .ok true) :
    voters < 2 * available ∧ voters ≠ 0 := by
  unfold canCommit at h
  split_ifs at h with hmore
  obtain ⟨needed, hneeded, hle⟩ := except_bind_eq_ok.mp h
  unfold majority at hneeded
  split_ifs at hneeded with hzero
  cases hneeded
  have henough := of_decide_eq_true (Except.ok.inj hle)
  exact ⟨by omega, hzero⟩

variable {available : Finset MemberId} {joint : JointConfig}

theorem canCommitJoint_ok_true (h : canCommitJoint joint available = .ok true) :
    canCommit (asU32 joint.oldVoters.card) (asU32 (joint.oldVoters ∩ available).card) = .ok true ∧
      canCommit (asU32 joint.newVoters.card) (asU32 (joint.newVoters ∩ available).card) =
        .ok true := by
  unfold canCommitJoint at h
  dsimp only at h
  split at h
  · cases h
  · cases h
  · rename_i hold
    split at h
    · cases h
    · rename_i b hnew
      cases h
      exact ⟨hold, hnew⟩

theorem adopt_promotes (hid : id ∉ c.voters) : c.adopt ⟨c.voters, insert id c.voters⟩ =
      { promote { c with joint := none } id with voters := insert id c.voters } := by
  unfold adopt
  dsimp only
  rw [Finset.insert_sdiff_cancel hid,
    Finset.sdiff_eq_empty_iff_subset.mpr (Finset.subset_insert _ _),
    Finset.sort_singleton, Finset.sort_empty]
  rfl

theorem adopt_drains (hid : id ∈ c.voters) : c.adopt ⟨c.voters, c.voters.erase id⟩ =
      { forget { c with joint := none } id with voters := c.voters.erase id } := by
  unfold adopt
  dsimp only
  rw [Finset.sdiff_erase_self hid, Finset.sdiff_eq_empty_iff_subset.mpr (Finset.erase_subset _ _),
    Finset.sort_singleton, Finset.sort_empty]
  rfl

variable {c' : MembershipCluster}

/-- A change stays under way while the voters and its member stay as they are. -/
theorem Changes.mono (h : c.Changes joint) (hvoters : c'.voters = c.voters)
    (hphase : ∀ id, c.phaseOf id = some .learner → c'.phaseOf id = some .learner) :
    c'.Changes joint := by
  cases h with
  | promotes id hid hlearner heq =>
    refine .promotes id ?_ (hphase id hlearner) ?_
    · rw [hvoters]
      exact hid
    · rw [hvoters]
      exact heq
  | drains id hid hrest heq =>
    refine .drains id ?_ ?_ ?_
    · rw [hvoters]
      exact hid
    · rw [hvoters]
      exact hrest
    · rw [hvoters]
      exact heq

theorem phaseOf_insert {record : MemberRecord} (h : c'.members = c.members.insert id record)
    (id' : MemberId) : c'.phaseOf id' = if id' = id then some record.phase else c.phaseOf id' := by
  rw [phaseOf, h, OrdMap.get_insert]
  split_ifs
  · rfl
  · rfl

theorem phaseOf_erase (h : c'.members = c.members.erase id) (id' : MemberId) :
    c'.phaseOf id' = if id' = id then none else c.phaseOf id' := by
  rw [phaseOf, h, OrdMap.get_erase]
  split_ifs
  · rfl
  · rfl

/-- A voter is not on its way in. -/
theorem Lifecycle.not_voter (h : c.Lifecycle)
    (hphase : c.phaseOf id = none ∨ c.phaseOf id = some .transferring ∨
      c.phaseOf id = some .learner) : id ∉ c.voters := by
  intro hvoter
  rcases h.voters id hvoter with hv | hv
  · rw [hv] at hphase
    simp at hphase
  · rw [hv] at hphase
    simp at hphase

theorem Lifecycle.disjoint (h : c.Lifecycle) : Disjoint c.learners c.voters :=
  Finset.disjoint_left.mpr fun id hlearner => h.not_voter (.inr ((h.learners id).mp hlearner))

/-- A change of one member keeps the lifecycle if the collections follow its phase. -/
theorem Lifecycle.of_change (h : c.Lifecycle) {phase : Option MemberPhase}
    (hphase : ∀ id', c'.phaseOf id' = if id' = id then phase else c.phaseOf id')
    (hlearners : ∀ id', id' ∈ c'.learners ↔
      if id' = id then phase = some .transferring ∨ phase = some .learner else id' ∈ c.learners)
    (hindex : ∀ id', c'.transferIndex.contains id' = true ↔
      if id' = id then phase = some .transferring else c.transferIndex.contains id' = true)
    (hdigest : ∀ id', c'.transferDigest.contains id' = true ↔
      if id' = id then phase = some .transferring else c.transferDigest.contains id' = true)
    (hvoters : ∀ id' ∈ c'.voters,
      if id' = id then phase = some .voter ∨ phase = some .draining else id' ∈ c.voters)
    (hnonempty : c'.voters.Nonempty) (hsmall : c'.voters.card < 2 ^ 32)
    (hjoint : ∀ joint, c'.joint = some joint → c'.Changes joint) : c'.Lifecycle := by
  refine ⟨hnonempty, fun id' hvoter => ?_, fun id' => ?_, fun id' => ?_, fun id' => ?_, hjoint,
    hsmall⟩
  · have hold := hvoters id' hvoter
    rw [hphase]
    split_ifs at hold ⊢
    · exact hold
    · exact h.voters id' hold
  · rw [hlearners, hphase]
    split_ifs
    · exact Iff.rfl
    · exact h.learners id'
  · rw [hindex, hphase]
    split_ifs
    · exact Iff.rfl
    · exact h.index id'
  · rw [hdigest, hphase]
    split_ifs
    · exact Iff.rfl
    · exact h.digest id'

variable {ids : Finset MemberId} {id' : MemberId} {p : Prop}

theorem mem_insert_iff_ite (hp : p) : id' ∈ insert id ids ↔ if id' = id then p else id' ∈ ids := by
  rw [Finset.mem_insert]
  split_ifs with heq
  · exact iff_of_true (.inl heq) hp
  · exact ⟨fun hor => hor.resolve_left heq, .inr⟩

theorem mem_erase_iff_ite (hp : ¬ p) : id' ∈ ids.erase id ↔ if id' = id then p else id' ∈ ids := by
  rw [Finset.mem_erase]
  split_ifs with heq
  · exact iff_of_false (fun hand => hand.1 heq) hp
  · exact ⟨And.right, fun hmem => ⟨heq, hmem⟩⟩

theorem mem_iff_ite (hp : id ∈ ids ↔ p) : id' ∈ ids ↔ if id' = id then p else id' ∈ ids := by
  split_ifs with heq
  · rw [heq]
    exact hp
  · exact Iff.rfl

theorem contains_insert_iff_ite {V : Type} {m : OrdMap MemberId V} {v : V} (hp : p) :
    (m.insert id v).contains id' = true ↔ if id' = id then p else m.contains id' = true := by
  rw [OrdMap.contains_insert]
  split_ifs with heq
  · exact iff_of_true (.inl heq) hp
  · exact ⟨fun hor => hor.resolve_left heq, .inr⟩

theorem contains_erase_iff_ite {V : Type} {m : OrdMap MemberId V} (hp : ¬ p) :
    (m.erase id).contains id' = true ↔ if id' = id then p else m.contains id' = true := by
  rw [OrdMap.contains_erase]
  split_ifs with heq
  · exact iff_of_false (fun hand => hand.1 heq) hp
  · exact ⟨And.right, fun hmem => ⟨heq, hmem⟩⟩

theorem contains_iff_ite {V : Type} {m : OrdMap MemberId V} (hp : m.contains id = true ↔ p) :
    m.contains id' = true ↔ if id' = id then p else m.contains id' = true := by
  split_ifs with heq
  · rw [heq]
    exact hp
  · exact Iff.rfl

/-- The voters stay, and the member that changes is none of them. -/
theorem voters_of_not_mem (hid : id ∉ c.voters) :
    ∀ id' ∈ c.voters, if id' = id then p else id' ∈ c.voters := by
  intro id' hvoter
  have hne : id' ≠ id := fun heq => hid (heq ▸ hvoter)
  rw [if_neg hne]
  exact hvoter

theorem Lifecycle.step (h : c.Lifecycle) (hstep : c.Step c') : c'.Lifecycle := by
  cases hstep with
  | joined id index digest hjoint hid =>
    have hnone : c.phaseOf id = none := by
      rw [phaseOf, hid]
      rfl
    refine h.of_change (phaseOf_insert rfl) (fun id' => mem_insert_iff_ite (.inl rfl))
      (fun id' => contains_insert_iff_ite rfl) (fun id' => contains_insert_iff_ite rfl)
      (voters_of_not_mem (h.not_voter (.inl hnone))) h.nonempty h.small fun joint hsome => ?_
    rw [hjoint] at hsome
    cases hsome
  | transferred id record hget hphase =>
    have hold := phaseOf_eq hget
    rw [hphase] at hold
    have hlearner : id ∈ c.learners := (h.learners id).mpr (.inl hold)
    refine h.of_change (phaseOf_insert rfl)
      (fun id' => mem_iff_ite (iff_of_true hlearner (.inr rfl)))
      (fun id' => contains_erase_iff_ite nofun) (fun id' => contains_erase_iff_ite nofun)
      (voters_of_not_mem (h.not_voter (.inr (.inl hold)))) h.nonempty h.small
      fun joint hsome => (h.joint joint hsome).mono rfl fun id' hid' => ?_
    rw [phaseOf_insert rfl]
    split_ifs
    · rfl
    · exact hid'
  | dropped id hid hjoint =>
    refine h.of_change (phaseOf_erase rfl) (fun id' => mem_erase_iff_ite (by simp))
      (fun id' => contains_erase_iff_ite nofun) (fun id' => contains_erase_iff_ite nofun)
      (voters_of_not_mem hid) h.nonempty h.small
      fun joint hsome => (h.joint joint hsome).mono rfl fun id' hid' => ?_
    rw [phaseOf_erase rfl]
    rcases hjoint with hnone | htransferring
    · rw [hnone] at hsome
      cases hsome
    · have hne : id' ≠ id := by
        rintro rfl
        rw [htransferring] at hid'
        cases hid'
      rw [if_neg hne]
      exact hid'
  | promoting id hjoint hphase =>
    refine ⟨h.nonempty, h.voters, h.learners, h.index, h.digest, fun joint hsome => ?_, h.small⟩
    cases hsome
    exact .promotes id (h.not_voter (.inr (.inr hphase))) hphase rfl
  | draining id record hjoint hid hrest =>
    have hlearner : id ∉ c.learners := fun hmem => Finset.disjoint_left.mp h.disjoint hmem hid
    have hold : c.phaseOf id ≠ some .transferring := fun htransferring =>
      h.not_voter (.inr (.inl htransferring)) hid
    refine h.of_change (phaseOf_insert rfl)
      (fun id' => mem_iff_ite (iff_of_false hlearner (by simp)))
      (fun id' => contains_iff_ite (iff_of_false (fun hmem => hold ((h.index id).mp hmem)) nofun))
      (fun id' => contains_iff_ite (iff_of_false (fun hmem => hold ((h.digest id).mp hmem)) nofun))
      (fun id' hvoter => ?_) h.nonempty h.small fun joint hsome => ?_
    · split_ifs
      · exact .inr rfl
      · exact hvoter
    · cases hsome
      exact .drains id hid hrest rfl
  | committed joint available hjoint hcommit =>
    cases h.joint joint hjoint with
    | promotes id hid hphase heq =>
      subst heq
      obtain ⟨record, hget, -⟩ := Option.map_eq_some_iff.mp hphase
      have hold : c.phaseOf id ≠ some .transferring := by
        rw [hphase]
        exact nofun
      -- the new set is not as large as a word, or its quorum could not be computed
      have hsmall : (insert id c.voters).card < 2 ^ 32 := by
        have hcount := (canCommit_ok_true (canCommitJoint_ok_true hcommit).2).2
        have hlt := h.small
        unfold asU32 at hcount
        rw [Finset.card_insert_of_notMem hid] at hcount ⊢
        omega
      have hmembers : (promote { c with joint := none } id).members =
          c.members.insert id { record with phase := .voter } := by
        unfold promote
        dsimp only
        rw [hget]
      rw [adopt_promotes hid]
      refine h.of_change (phaseOf_insert hmembers) (fun id' => mem_erase_iff_ite (by simp))
        (fun id' => contains_iff_ite (iff_of_false (fun hmem => hold ((h.index id).mp hmem)) nofun))
        (fun id' =>
          contains_iff_ite (iff_of_false (fun hmem => hold ((h.digest id).mp hmem)) nofun))
        (fun id' hvoter => (mem_insert_iff_ite (.inl rfl)).mp hvoter) (Finset.insert_nonempty _ _)
        hsmall nofun
    | drains id hid hrest heq =>
      subst heq
      have hold : c.phaseOf id ≠ some .transferring := fun htransferring =>
        h.not_voter (.inr (.inl htransferring)) hid
      have hsmall : (c.voters.erase id).card < 2 ^ 32 :=
        Nat.lt_of_le_of_lt (Finset.card_le_card (Finset.erase_subset _ _)) h.small
      rw [adopt_drains hid]
      exact h.of_change (phaseOf_erase rfl) (fun id' => mem_erase_iff_ite (by simp))
        (fun id' => contains_iff_ite (iff_of_false (fun hmem => hold ((h.index id).mp hmem)) nofun))
        (fun id' =>
          contains_iff_ite (iff_of_false (fun hmem => hold ((h.digest id).mp hmem)) nofun))
        (fun id' hvoter => (mem_erase_iff_ite (by simp)).mp hvoter) hrest hsmall nofun

/-- What operations can reach: nothing yet, or a cluster with its lifecycle. -/
def Reached (c : MembershipCluster) : Prop :=
  c = new ∨ c.incarnation ≠ none ∧ c.Lifecycle

theorem Lifecycle.lost (h : c.Lifecycle) : Lifecycle { c with joint := none } :=
  ⟨h.nonempty, h.voters, h.learners, h.index, h.digest, nofun, h.small⟩

theorem Step.incarnation (hstep : c.Step c') (h : c.Lifecycle) :
    c'.incarnation = c.incarnation := by
  cases hstep with
  | joined | transferred | dropped | promoting | draining => rfl
  | committed joint available hjoint hcommit =>
    cases h.joint joint hjoint with
    | promotes id hid hphase heq =>
      rw [heq, adopt_promotes hid]
      rfl
    | drains id hid hrest heq =>
      rw [heq, adopt_drains hid]
      rfl

theorem phaseOf_new (id : MemberId) : new.phaseOf id = none := rfl

theorem lifecycle_init (seed : MemberId) (incarnation : Nat) :
    Lifecycle (new.init seed incarnation).1 := by
  have hphase : ∀ id, phaseOf (new.init seed incarnation).1 id =
      if id = seed then some .voter else new.phaseOf id :=
    phaseOf_insert (show _ = new.members.insert seed ⟨seed, .voter⟩ from rfl)
  have hvoters : (new.init seed incarnation).1.voters = {seed} := rfl
  refine ⟨Finset.insert_nonempty _ _, fun id hid => ?_, fun id => ?_, fun id => ?_, fun id => ?_,
    nofun, ?_⟩
  · rw [hvoters, Finset.mem_singleton] at hid
    rw [hphase, if_pos hid]
    exact .inl rfl
  · rw [hphase]
    refine iff_of_false (Finset.notMem_empty id) ?_
    split_ifs
    · simp
    · simp [phaseOf_new]
  · rw [hphase]
    refine iff_of_false Bool.false_ne_true ?_
    split_ifs
    · simp
    · simp [phaseOf_new]
  · rw [hphase]
    refine iff_of_false Bool.false_ne_true ?_
    split_ifs
    · simp
    · simp [phaseOf_new]
  · rw [hvoters, Finset.card_singleton]
    decide

/-- The quorum of sets that are not as large as a word is computed. -/
theorem canCommit_eq_ok {voters available : Nat} (h : available ≤ voters) (hpos : voters ≠ 0) :
    canCommit voters available = .ok (decide (available ≥ voters / 2 + 1)) := by
  rw [canCommit, if_neg (Nat.not_lt.mpr h), majority, if_neg hpos]
  rfl

variable {n : Nat}

theorem asU32_eq (h : n < 2 ^ 32) : asU32 n = n := Nat.mod_eq_of_lt h

theorem canCommit_card {voters : Finset MemberId} (hsmall : voters.card < 2 ^ 32)
    (hne : voters.Nonempty) : canCommit (asU32 voters.card) (asU32 (voters ∩ available).card) =
      .ok (decide ((voters ∩ available).card ≥ voters.card / 2 + 1)) := by
  have hle : (voters ∩ available).card ≤ voters.card := Finset.card_le_card Finset.inter_subset_left
  rw [asU32_eq hsmall, asU32_eq (Nat.lt_of_le_of_lt hle hsmall)]
  exact canCommit_eq_ok hle hne.card_pos.ne'

theorem canCommitJoint_ne_error {e : JointError} (hold : joint.oldVoters.card < 2 ^ 32)
    (hnew : joint.newVoters.card < 2 ^ 32) (holdne : joint.oldVoters.Nonempty)
    (hnewne : joint.newVoters.Nonempty) : canCommitJoint joint available ≠ .error e := by
  unfold canCommitJoint
  dsimp only
  rw [canCommit_card hold holdne, canCommit_card hnew hnewne]
  cases decide ((joint.oldVoters ∩ available).card ≥ joint.oldVoters.card / 2 + 1) with
  | false => exact nofun
  | true => exact nofun

theorem Changes.nonempty (h : c.Changes joint) :
    joint.oldVoters = c.voters ∧ joint.newVoters.Nonempty := by
  cases h with
  | promotes id hid hphase heq =>
    subst heq
    exact ⟨rfl, Finset.insert_nonempty _ _⟩
  | drains id hid hrest heq =>
    subst heq
    exact ⟨rfl, hrest⟩

/-- A change is of one member that exists. -/
theorem Changes.exists_member (h : c.Lifecycle) (hjoint : c.Changes joint) :
    ∃ id, c.phaseOf id ≠ none ∧
      (joint.oldVoters \ joint.newVoters) ∪ (joint.newVoters \ joint.oldVoters) = {id} := by
  cases hjoint with
  | promotes id hid hphase heq =>
    subst heq
    refine ⟨id, ?_, ?_⟩
    · rw [hphase]
      exact nofun
    · rw [Finset.insert_sdiff_cancel hid,
        Finset.sdiff_eq_empty_iff_subset.mpr (Finset.subset_insert _ _), Finset.empty_union]
  | drains id hid hrest heq =>
    subst heq
    refine ⟨id, ?_, ?_⟩
    · rcases h.voters id hid with hv | hv
      · rw [hv]
        exact nofun
      · rw [hv]
        exact nofun
    · rw [Finset.sdiff_erase_self hid,
        Finset.sdiff_eq_empty_iff_subset.mpr (Finset.erase_subset _ _), Finset.union_empty]

variable [Blake3]

theorem apply_new (op : MembershipOp) :
    (∃ e, new.apply op = (new, .error e)) ∨ ∃ seed incarnation, op = .init seed incarnation := by
  cases op with
  | init seed incarnation => exact .inr ⟨seed, incarnation, rfl⟩
  | beginJoin | completeTransfer | abortTransfer | beginPromote | beginDrain
  | commitJoint | remove =>
    exact .inl ⟨.notInitialized, rfl⟩

theorem Reached.apply (h : c.Reached) (op : MembershipOp) : (c.apply op).1.Reached := by
  rcases h with rfl | ⟨hinit, hlife⟩
  · rcases apply_new op with ⟨e, heq⟩ | ⟨seed, incarnation, rfl⟩
    · rw [heq]
      exact .inl rfl
    · exact .inr ⟨nofun, lifecycle_init seed incarnation⟩
  · have hanswers := apply_answers hlife hinit op
    generalize c.apply op = outcome at hanswers
    cases hanswers with
    | refused e => exact .inr ⟨hinit, hlife⟩
    | lost joint available e hjoint herror => exact .inr ⟨hinit, hlife.lost⟩
    | stepped c' event hstep =>
      refine .inr ⟨?_, hlife.step hstep⟩
      rw [hstep.incarnation hlife]
      exact hinit

theorem reached_run (ops : List MembershipOp) : (runFrom apply new ops).Reached :=
  runFrom_invariant (fun _ op h => h.apply op) (.inl rfl) ops

/-- Every cluster that operations reach has its lifecycle once it is initialized, and an
operation that answers with an error changes nothing, unless the new voters of a pending
change are as many as a word. -/
theorem lifecycle_invariant (ops : List MembershipOp) :
    ((runFrom apply new ops).incarnation ≠ none →
      (runFrom apply new ops).Lifecycle ∧
      Disjoint (runFrom apply new ops).learners (runFrom apply new ops).voters ∧
      ∀ joint, (runFrom apply new ops).joint = some joint →
        joint.oldVoters = (runFrom apply new ops).voters ∧
        ∃ id, (runFrom apply new ops).phaseOf id ≠ none ∧
          (joint.oldVoters \ joint.newVoters) ∪ (joint.newVoters \ joint.oldVoters) = {id}) ∧
    ∀ op e, ((runFrom apply new ops).apply op).2 = .error e →
      (∀ joint, (runFrom apply new ops).joint = some joint → joint.newVoters.card < 2 ^ 32) →
      ((runFrom apply new ops).apply op).1 = runFrom apply new ops := by
  have hreached := reached_run ops
  generalize runFrom apply new ops = c at hreached ⊢
  rcases hreached with rfl | ⟨hinit, hlife⟩
  · refine ⟨fun hinit => absurd rfl hinit, fun op e herror _ => ?_⟩
    rcases apply_new op with ⟨e', heq⟩ | ⟨seed, incarnation, rfl⟩
    · rw [heq]
    · cases herror
  · refine ⟨fun _ => ⟨hlife, hlife.disjoint, fun joint hjoint => ?_⟩, fun op e herror hsmall => ?_⟩
    · have hchanges := hlife.joint joint hjoint
      exact ⟨(hchanges.nonempty).1, hchanges.exists_member hlife⟩
    · have hanswers := apply_answers hlife hinit op
      generalize c.apply op = outcome at hanswers herror
      cases hanswers with
      | refused e => rfl
      | stepped c' event hstep => cases herror
      | lost joint available e' hjoint hquorum =>
        obtain ⟨hold, hnew⟩ := (hlife.joint joint hjoint).nonempty
        refine absurd hquorum (canCommitJoint_ne_error ?_ (hsmall joint hjoint) ?_ hnew)
        · rw [hold]
          exact hlife.small
        · rw [hold]
          exact hlife.nonempty

/-! ## A change to as many voters as a word -/

/-- The members up to `n` are voters, and no change is under way. -/
structure Grown (c : MembershipCluster) (n : Nat) : Prop where
  initialized : c.incarnation ≠ none
  voters : c.voters = Finset.range (n + 1)
  members : ∀ id : Nat, c.members.get id = none ↔ n < id
  joint : c.joint = none

/-- The change to one voter more is under way. -/
structure Growing (c : MembershipCluster) (n : Nat) : Prop where
  initialized : c.incarnation ≠ none
  voters : c.voters = Finset.range (n + 1)
  members : ∀ id : Nat, c.members.get id = none ↔ n + 1 < id
  joint : c.joint = some ⟨Finset.range (n + 1), Finset.range (n + 2)⟩

theorem Grown.growing (h : Grown c n) : ∃ ops, Growing (runFrom apply c ops) n := by
  have hfresh : c.members.get (n + 1) = none := (h.members _).mpr (Nat.lt_succ_self n)
  have hjoint : ¬ c.joint.isSome = true := by
    rw [h.joint]
    exact Bool.false_ne_true
  have hcontains : ¬ c.members.contains (n + 1) = true := by
    rw [OrdMap.contains_eq_false_iff.mpr hfresh]
    exact Bool.false_ne_true
  refine ⟨[.beginJoin (n + 1) 0 (Blake3.hash []), .completeTransfer (n + 1) ⟨0, Blake3.hash [], []⟩,
    .beginPromote (n + 1)], ?_⟩
  simp only [runFrom_cons, runFrom_nil, apply]
  rw [beginJoin, if_neg h.initialized, if_neg hcontains, if_neg hjoint]
  rw [completeTransfer, if_neg h.initialized]
  dsimp only
  rw [OrdMap.get_insert_self, OrdMap.get_insert_self, OrdMap.get_insert_self]
  simp only [ne_eq, not_true_eq_false, if_false, SnapshotOffer.verify, or_self]
  rw [beginPromote, if_neg h.initialized, if_neg hjoint]
  dsimp only
  rw [OrdMap.get_insert_self]
  dsimp only
  rw [if_neg (not_not.mpr rfl), h.voters, jointConfig_new Finset.nonempty_range_add_one
    (Finset.insert_nonempty _ _), ← Finset.range_add_one]
  refine ⟨h.initialized, rfl, fun id => ?_, rfl⟩
  simp only [OrdMap.get_insert]
  split_ifs with heq
  · exact iff_of_false nofun (Nat.not_lt.mpr (Nat.le_of_eq heq))
  · have hne : (id : Nat) ≠ n + 1 := heq
    rw [h.members]
    omega

theorem Growing.grown (h : Growing c n) (hn : n + 2 < 2 ^ 32) :
    Grown (c.apply (.commitJoint (Finset.range (n + 2)))).1 (n + 1) := by
  have hsubset : Finset.range (n + 1) ∩ Finset.range (n + 2) = Finset.range (n + 1) :=
    Finset.inter_eq_left.mpr (Finset.range_mono (Nat.le_succ _))
  have hcommit :
      canCommitJoint ⟨Finset.range (n + 1), Finset.range (n + 2)⟩ (Finset.range (n + 2)) =
      .ok true := by
    have hold := canCommit_eq_ok (Nat.le_refl (n + 1)) (Nat.succ_ne_zero n)
    have hnew := canCommit_eq_ok (Nat.le_refl (n + 2)) (Nat.succ_ne_zero (n + 1))
    rw [decide_eq_true (by omega)] at hold hnew
    unfold canCommitJoint
    dsimp only
    rw [hsubset, Finset.inter_self, Finset.card_range, Finset.card_range, asU32_eq (by omega),
      asU32_eq hn, hold, hnew]
  have hnext : insert (n + 1) c.voters = Finset.range (n + 2) := by
    rw [h.voters, ← Finset.range_add_one]
  have hnotMem : n + 1 ∉ c.voters := by
    rw [h.voters]
    exact Finset.notMem_range_self
  have hadopt := adopt_promotes hnotMem
  rw [hnext, h.voters] at hadopt
  rw [apply, commitJoint, if_neg h.initialized, h.joint]
  dsimp only
  rw [hcommit]
  dsimp only
  rw [hadopt]
  refine ⟨h.initialized, rfl, fun id => ?_, rfl⟩
  unfold promote
  dsimp only
  cases hget : c.members.get (n + 1) with
  | none => exact h.members id
  | some record =>
    rw [OrdMap.get_insert]
    split_ifs with heq
    · exact iff_of_false nofun (Nat.not_lt.mpr (Nat.le_of_eq heq))
    · exact h.members id

theorem exists_growing (n : Nat) (hn : n + 1 < 2 ^ 32) :
    ∃ ops, Growing (runFrom apply new ops) n := by
  have hgrown : ∀ n, n + 1 < 2 ^ 32 → ∃ ops, Grown (runFrom apply new ops) n := by
    intro n
    induction n with
    | zero =>
      refine fun _ => ⟨[.init 0 1], nofun, rfl, fun id => ?_, rfl⟩
      change (OrdMap.insert _ 0 _).get id = none ↔ 0 < id
      rw [OrdMap.get_insert]
      split_ifs with heq
      · exact iff_of_false nofun (by omega)
      · exact iff_of_true rfl (by omega)
    | succ n ih =>
      intro hlt
      obtain ⟨ops, hops⟩ := ih (by omega)
      obtain ⟨more, hmore⟩ := hops.growing
      refine ⟨ops ++ more ++ [.commitJoint (Finset.range (n + 2))], ?_⟩
      rw [runFrom_concat, runFrom_append]
      exact hmore.grown hlt
  obtain ⟨ops, hops⟩ := hgrown n hn
  obtain ⟨more, hmore⟩ := hops.growing
  refine ⟨ops ++ more, ?_⟩
  rw [runFrom_append]
  exact hmore

end MembershipCluster

/-- With all voters available, the last change before the number of voters leaves the words
is answered with an error, and the change that was under way is lost. -/
theorem pending_change_lost :
    letI := Blake3.knownAnswers
    ∃ ops available e, ((runFrom MembershipCluster.apply .new ops).apply
        (.commitJoint available)).2 = .error e ∧
      ((runFrom MembershipCluster.apply .new ops).apply (.commitJoint available)).1 ≠
        runFrom MembershipCluster.apply .new ops := by
  let := Blake3.knownAnswers
  obtain ⟨n, hn⟩ : ∃ n, n + 2 = 2 ^ 32 := ⟨2 ^ 32 - 2, by decide⟩
  obtain ⟨ops, h⟩ := MembershipCluster.exists_growing n (by omega)
  have hsubset : Finset.range (n + 1) ∩ Finset.range (n + 2) = Finset.range (n + 1) :=
    Finset.inter_eq_left.mpr (Finset.range_mono (Nat.le_succ _))
  have hquorum :
      canCommitJoint ⟨Finset.range (n + 1), Finset.range (n + 2)⟩ (Finset.range (n + 2)) =
      .error (.quorum .noVoters) := by
    have hold := MembershipCluster.canCommit_eq_ok (Nat.le_refl (n + 1)) (Nat.succ_ne_zero n)
    rw [decide_eq_true (by omega)] at hold
    have hword : asU32 (n + 2) = 0 := by
      rw [hn]
      decide
    unfold canCommitJoint
    dsimp only
    rw [hsubset, Finset.inter_self, Finset.card_range, Finset.card_range,
      MembershipCluster.asU32_eq (by omega), hword, hold]
    rfl
  have hlost :
      (runFrom MembershipCluster.apply .new ops).apply (.commitJoint (Finset.range (n + 2))) =
      ({ runFrom MembershipCluster.apply .new ops with joint := none },
        .error (.joint (.quorum .noVoters))) := by
    rw [MembershipCluster.apply, MembershipCluster.commitJoint, if_neg h.initialized, h.joint]
    dsimp only
    rw [hquorum]
  refine ⟨ops, Finset.range (n + 2), _, congrArg Prod.snd hlost, fun hsame => ?_⟩
  rw [hlost] at hsame
  have hjoint := congrArg MembershipCluster.joint hsame
  rw [h.joint] at hjoint
  cases hjoint

/-- Draining the only voter is refused, and nothing changes. -/
theorem last_voter_stays :
    letI := Blake3.knownAnswers
    ((runFrom MembershipCluster.apply .new [.init 1 1]).apply (.beginDrain 1)).1 =
      runFrom MembershipCluster.apply .new [.init 1 1] := by
  let := Blake3.knownAnswers
  exact (MembershipCluster.lifecycle_invariant [.init 1 1]).2 (.beginDrain 1) .lastVoter rfl nofun

end Gump.Memory.Membership
