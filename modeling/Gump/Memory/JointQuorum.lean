/-
  Memory/JointQuorum.lean --- quorums across changes of membership.

  A configuration is a set of voters or a joint configuration.  An operation leads from one
  configuration to the next, and one set of voters has a majority in everything that can
  commit in either (`apply_based`): the voters while a change starts or is refused, the new
  voters when it is committed.  So what two sets decide in consecutive configurations, a
  common voter has seen.
-/
import Gump.Memory.Membership

set_option autoImplicit false

namespace Gump.Memory.Membership

open Gump.Foundation

inductive Configuration where
  | stable (voters : Finset MemberId)
  | joint (joint : JointConfig)
  deriving DecidableEq

namespace Configuration

def voters : Configuration → Finset MemberId
  | stable voters => voters
  | joint j => j.oldVoters ∪ j.newVoters

/-- A set of available members can commit. -/
def Commits (available : Finset MemberId) : Configuration → Prop
  | stable voters => canCommit (asU32 voters.card) (asU32 (voters ∩ available).card) = .ok true
  | joint j => canCommitJoint j available = .ok true

instance (available : Finset MemberId) (config : Configuration) :
    Decidable (config.Commits available) :=
  match config with
  | stable _ => inferInstanceAs (Decidable (canCommit _ _ = .ok true))
  | joint _ => inferInstanceAs (Decidable (canCommitJoint _ _ = .ok true))

end Configuration

def MembershipCluster.configuration (c : MembershipCluster) : Configuration :=
  match c.joint with
  | some joint => .joint joint
  | none => .stable c.voters

/-! ## Majorities -/

/-- More than half of the voters are available. -/
def Majority (voters available : Finset MemberId) : Prop :=
  voters.card < 2 * (voters ∩ available).card

theorem Majority.meet {voters a b : Finset MemberId} (ha : Majority voters a)
    (hb : Majority voters b) : ∃ id ∈ voters, id ∈ a ∧ id ∈ b := by
  have hsuba : voters ∩ a ⊆ voters := Finset.inter_subset_left
  have hsubb : voters ∩ b ⊆ voters := Finset.inter_subset_left
  unfold Majority at ha hb
  obtain ⟨id, hid⟩ := Finset.inter_nonempty_of_card_lt_card_add_card hsuba hsubb (by omega)
  simp only [Finset.mem_inter] at hid
  exact ⟨id, hid.1.1, hid.1.2, hid.2.2⟩

/-- A quorum of at most as many voters as a word has values is a majority. -/
theorem majority_of_canCommit {voters available : Finset MemberId} (hcard : voters.card ≤ 2 ^ 32)
    (h : canCommit (asU32 voters.card) (asU32 (voters ∩ available).card) = .ok true) :
    Majority voters available := by
  obtain ⟨hmore, hpos⟩ := MembershipCluster.canCommit_ok_true h
  have hle : (voters ∩ available).card ≤ voters.card := Finset.card_le_card Finset.inter_subset_left
  unfold Majority
  unfold asU32 at hmore hpos
  omega

namespace MembershipCluster

variable {c : MembershipCluster}

theorem Changes.card_le (hsmall : c.voters.card < 2 ^ 32) {joint : JointConfig}
    (h : c.Changes joint) : joint.newVoters.card ≤ 2 ^ 32 := by
  cases h with
  | promotes id hid hphase heq =>
    subst heq
    have hcard := Finset.card_insert_le id c.voters
    dsimp only
    omega
  | drains id hid hrest heq =>
    subst heq
    exact Nat.le_of_lt (Nat.lt_of_le_of_lt (Finset.card_le_card (Finset.erase_subset _ _)) hsmall)

/-- A joint quorum is a majority of both sets. -/
theorem Lifecycle.joint_majorities (h : c.Lifecycle) {joint : JointConfig}
    (hjoint : c.joint = some joint) {available : Finset MemberId}
    (hcommit : canCommitJoint joint available = .ok true) :
    Majority joint.oldVoters available ∧ Majority joint.newVoters available := by
  obtain ⟨hold, hnew⟩ := canCommitJoint_ok_true hcommit
  have hchanges := h.joint joint hjoint
  refine ⟨majority_of_canCommit ?_ hold, majority_of_canCommit (hchanges.card_le h.small) hnew⟩
  rw [hchanges.nonempty.1]
  exact Nat.le_of_lt h.small

/-- What can commit has a majority of the voters. -/
theorem Lifecycle.majority (h : c.Lifecycle) {available : Finset MemberId}
    (hcommits : c.configuration.Commits available) : Majority c.voters available := by
  unfold configuration at hcommits
  cases hjoint : c.joint with
  | none =>
    rw [hjoint] at hcommits
    exact majority_of_canCommit (Nat.le_of_lt h.small) hcommits
  | some joint =>
    rw [hjoint] at hcommits
    rw [← (h.joint joint hjoint).nonempty.1]
    exact (h.joint_majorities hjoint hcommits).1

theorem voters_subset (h : c.Lifecycle) : c.voters ⊆ c.configuration.voters := by
  unfold configuration
  cases hjoint : c.joint with
  | none => exact Finset.Subset.refl _
  | some joint =>
    rw [← (h.joint joint hjoint).nonempty.1]
    exact Finset.subset_union_left

/-! ## Consecutive configurations -/

/-- One set of voters has a majority in everything that can commit in either of two
configurations. -/
def Based (base : Finset MemberId) (config config' : Configuration) : Prop :=
  (∀ id ∈ base, id ∈ config.voters ∨ id ∈ config'.voters) ∧
    ∀ available, config.Commits available ∨ config'.Commits available → Majority base available

theorem Lifecycle.based {c' : MembershipCluster} (h : c.Lifecycle) (h' : c'.Lifecycle)
    (hvoters : c'.voters = c.voters) : Based c.voters c.configuration c'.configuration := by
  refine ⟨fun id hid => .inl (voters_subset h hid), fun available hcommits => ?_⟩
  rcases hcommits with hcommits | hcommits
  · exact h.majority hcommits
  · rw [← hvoters]
    exact h'.majority hcommits

theorem Step.based {c' : MembershipCluster} (hstep : c.Step c') (h : c.Lifecycle) :
    ∃ base, Based base c.configuration c'.configuration := by
  have h' := h.step hstep
  cases hstep with
  | joined | transferred | dropped | promoting | draining => exact ⟨c.voters, h.based h' rfl⟩
  | committed joint available hjoint hcommit =>
    refine ⟨joint.newVoters, fun id hid => .inr (voters_subset h' hid),
      fun available hcommits => ?_⟩
    rcases hcommits with hcommits | hcommits
    · rw [configuration, hjoint] at hcommits
      exact (h.joint_majorities hjoint hcommits).2
    · exact h'.majority hcommits

variable [Blake3]

/-- Before and after an operation, what can commit has a majority of one set of voters. -/
theorem apply_based (h : c.Reached) (op : MembershipOp) :
    ∃ base, Based base c.configuration (c.apply op).1.configuration := by
  have hempty : ∀ available, ¬ new.configuration.Commits available := by
    intro available hcommits
    exact (canCommit_ok_true hcommits).2 rfl
  rcases h with rfl | ⟨hinit, hlife⟩
  · rcases apply_new op with ⟨e, heq⟩ | ⟨seed, incarnation, rfl⟩
    · rw [heq]
      refine ⟨∅, fun id hid => absurd hid (Finset.notMem_empty id), fun available hcommits => ?_⟩
      rcases hcommits with hcommits | hcommits
      · exact absurd hcommits (hempty available)
      · exact absurd hcommits (hempty available)
    · have hlife := lifecycle_init seed incarnation
      refine ⟨(new.init seed incarnation).1.voters, fun id hid => .inr (voters_subset hlife hid),
        fun available hcommits => ?_⟩
      rcases hcommits with hcommits | hcommits
      · exact absurd hcommits (hempty available)
      · exact hlife.majority hcommits
  · have hanswers := apply_answers hlife hinit op
    generalize c.apply op = outcome at hanswers
    cases hanswers with
    | refused e => exact ⟨c.voters, hlife.based hlife rfl⟩
    | lost joint available e hjoint herror => exact ⟨c.voters, hlife.based hlife.lost rfl⟩
    | stepped c' event hstep => exact hstep.based hlife

/-- Sets that can commit in consecutive configurations of a history share a voter, and two
sets that can commit in one joint configuration share an old and a new voter. -/
theorem quorums_intersect (ops : List MembershipOp) (op : MembershipOp) (a b : Finset MemberId) :
    ((runFrom apply new ops).configuration.Commits a ∨
        ((runFrom apply new ops).apply op).1.configuration.Commits a →
      (runFrom apply new ops).configuration.Commits b ∨
        ((runFrom apply new ops).apply op).1.configuration.Commits b →
      ∃ id, id ∈ a ∧ id ∈ b ∧ (id ∈ (runFrom apply new ops).configuration.voters ∨
        id ∈ ((runFrom apply new ops).apply op).1.configuration.voters)) ∧
    ∀ joint, (runFrom apply new ops).joint = some joint →
      canCommitJoint joint a = .ok true → canCommitJoint joint b = .ok true →
      (∃ id ∈ joint.oldVoters, id ∈ a ∧ id ∈ b) ∧ ∃ id ∈ joint.newVoters, id ∈ a ∧ id ∈ b := by
  have hreached := reached_run ops
  generalize runFrom apply new ops = c at hreached ⊢
  constructor
  · intro ha hb
    obtain ⟨base, hvoters, hmajority⟩ := apply_based hreached op
    obtain ⟨id, hid, hida, hidb⟩ := (hmajority a ha).meet (hmajority b hb)
    exact ⟨id, hida, hidb, hvoters id hid⟩
  · intro joint hjoint ha hb
    rcases hreached with rfl | ⟨-, hlife⟩
    · cases hjoint
    · obtain ⟨holda, hnewa⟩ := hlife.joint_majorities hjoint ha
      obtain ⟨holdb, hnewb⟩ := hlife.joint_majorities hjoint hb
      exact ⟨holda.meet holdb, hnewa.meet hnewb⟩

end MembershipCluster

/-- A third voter is added.  While the change is under way the first two can commit, after
it the last two can, and the voter between them has seen both. -/
theorem middle_voter_sees_both :
    letI := Blake3.knownAnswers
    ∃ ops, let c := runFrom MembershipCluster.apply .new ops
      let c' := (c.apply (.commitJoint (Finset.range 3))).1
      c.configuration = .joint ⟨Finset.range 2, Finset.range 3⟩ ∧
      c'.configuration = .stable (Finset.range 3) ∧
      ∃ id, id ∈ ({0, 1} : Finset MemberId) ∧ id ∈ ({1, 2} : Finset MemberId) ∧
        (id ∈ c.configuration.voters ∨ id ∈ c'.configuration.voters) := by
  let := Blake3.knownAnswers
  obtain ⟨ops, h⟩ := MembershipCluster.exists_growing 1 (by decide)
  have hafter := h.grown (by decide)
  refine ⟨ops, ?_⟩
  intro c c'
  have hjoint : c.configuration = .joint ⟨Finset.range 2, Finset.range 3⟩ := by
    rw [MembershipCluster.configuration, h.joint]
  have hstable : c'.configuration = .stable (Finset.range 3) := by
    rw [MembershipCluster.configuration, hafter.joint, hafter.voters]
  have hcommits : c.configuration.Commits {0, 1} ∧ c'.configuration.Commits {1, 2} := by
    rw [hjoint, hstable]
    decide
  exact ⟨hjoint, hstable, (MembershipCluster.quorums_intersect ops _ _ _).1 (.inl hcommits.1)
    (.inr hcommits.2)⟩

end Gump.Memory.Membership
