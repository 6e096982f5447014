/-
  Hiccup/Board.lean --- the presence board (`gump-hiccup/src/board.rs`,
  `gump-hiccup/src/stamp.rs`).

  The board keeps its presences twice, by topic and by attempt, and a running count
  of their bytes.  Seen from outside it is a partial function from a topic and an
  attempt to a presence (`PresenceBoard.look`).  Every operation is a sequence of two
  edits: an attempt loses all its presences, or one presence is offered, which the
  board stores unless a bound is reached.  `Sound` says that both indexes and the
  count describe the same presences; both edits keep it.
-/
import Gump.Hiccup.Codec
import Gump.Hiccup.Topic
import Gump.Memory.Records.Record

set_option autoImplicit false

namespace Gump.Hiccup

open Gump.Foundation Gump.Types Gump.Memory

def maxPublishersPerTopic : Nat := 10000

def maxKeeperBytes : Nat := 64 * 1024 * 1024

/-! ## Presences -/

/-- JSON writes the text of an identifier as it is. -/
theorem plain_toHyphenated (id : Octets 16) :
    ∀ c ∈ (toHyphenated id).toList, SerdeValue.IsPlain c := by
  have hdigit : ∀ d < 16, SerdeValue.IsPlain (hexDigit d) := by
    unfold SerdeValue.IsPlain
    decide
  have hdash : SerdeValue.IsPlain '-' := by
    unfold SerdeValue.IsPlain
    decide
  have hhex : ∀ bytes : List UInt8, ∀ c ∈ hexText bytes, SerdeValue.IsPlain c := by
    intro bytes c hc
    obtain ⟨b, -, hb⟩ := List.mem_flatMap.mp hc
    have hlt := b.toNat_lt
    simp only [hexByte, String.toList_ofList, List.mem_cons, List.not_mem_nil, or_false] at hb
    rcases hb with rfl | rfl
    · exact hdigit _ (by omega)
    · exact hdigit _ (by omega)
  intro c hc
  simp only [toList_toHyphenated, List.mem_append, List.mem_cons] at hc
  rcases hc with h | rfl | h | rfl | h | rfl | h | rfl | h
  · exact hhex _ c h
  · exact hdash
  · exact hhex _ c h
  · exact hdash
  · exact hhex _ c h
  · exact hdash
  · exact hhex _ c h
  · exact hdash
  · exact hhex _ c h

/-- What the node vouches for when it introduces an attempt. -/
structure PlacementStamp where
  clusterId : ClusterId
  ns : String
  appId : String
  workloadId : WorkloadId
  capsuleId : CapsuleId
  executionId : ExecutionId
  unitId : UnitId
  role : Option String
  rank : Option Nat
  attemptId : AttemptId
  nodeId : NodeId
  agentIncarnation : Nat
  placementFenceDigest : Digest
  healthEligible : Bool
  /-- The private address selected for the receiver. -/
  receiverReachableIp : Option String
  deriving DecidableEq

/-- `PlacementStamp::fence_matches`. -/
def PlacementStamp.fenceMatches (stamp : PlacementStamp) (digest : Digest) : Bool :=
  decide (stamp.placementFenceDigest = digest)

/-- The presence of an attempt on one topic. -/
structure Presence where
  canonicalTopic : CanonicalTopic
  stamp : PlacementStamp
  data : Option Value
  secretData : Option String
  expiresAt : Nat
  contentDigest : Digest
  /-- Set for a capability, not for the presence of a topic declaration. -/
  directoryVisible : Bool

namespace Presence

/-- The attempt that is present. -/
abbrev attempt (p : Presence) : AttemptId := p.stamp.attemptId

/-- `presence_size`. -/
def size (p : Presence) : Nat :=
  256 + (p.secretData.map String.utf8ByteSize).getD 0 + (p.data.map Value.size).getD 0

end Presence

/-- `digest_presence`. -/
def digestPresence [Blake3] (topic : CanonicalTopic) (stamp : PlacementStamp)
    (data : Option Value) (secret : Option String) : Digest :=
  Blake3.hash (utf8 topic.asStr ++ stamp.unitId.bytes ++ stamp.attemptId.bytes
    ++ stamp.placementFenceDigest.bytes ++ (data.map Value.bytes).getD []
    ++ (secret.map utf8).getD [])

/-! ## The board -/

structure PresenceBoard where
  byTopic : OrdMap CanonicalTopic (OrdMap AttemptId Presence)
  /-- The topics of an attempt, in the order in which they were published. -/
  byAttempt : OrdMap AttemptId (List CanonicalTopic)
  approxBytes : Nat
  /-- How many presences were not taken. -/
  omitCount : Nat

namespace PresenceBoard

/-- `PresenceBoard::new`. -/
def new : PresenceBoard := ⟨.empty, .empty, 0, 0⟩

/-- The presences on a topic. -/
def bucketOf (b : PresenceBoard) (t : CanonicalTopic) : OrdMap AttemptId Presence :=
  (b.byTopic.get t).getD .empty

/-- The presence of an attempt on a topic. -/
def look (b : PresenceBoard) (t : CanonicalTopic) (a : AttemptId) : Option Presence :=
  (b.bucketOf t).get a

/-- The topics that the attempt index lists. -/
def topicsOf (b : PresenceBoard) (a : AttemptId) : List CanonicalTopic :=
  (b.byAttempt.get a).getD []

/-- The bytes of a bucket. -/
def bucketBytes (bucket : OrdMap AttemptId Presence) : Nat := bucket.sumBy fun _ p => p.size

/-- The bytes of all presences. -/
def totalBytes (b : PresenceBoard) : Nat := b.byTopic.sumBy fun _ bucket => bucketBytes bucket

/-- `PresenceBoard::presence_for_attempt`. -/
def presenceForAttempt (b : PresenceBoard) (attempt : AttemptId) : Option Presence :=
  (b.topicsOf attempt).head?.bind fun topic => b.look topic attempt

/-- The board after a presence was not taken; the bucket of its topic is there. -/
def omitted (b : PresenceBoard) (topic : CanonicalTopic) : PresenceBoard :=
  { b with
    byTopic := b.byTopic.insertAbsent topic .empty
    omitCount := saturatingAdd b.omitCount 1 }

/-- The bytes of the board with a presence in it. -/
def projected (b : PresenceBoard) (p : Presence) : Nat :=
  saturatingAdd (b.approxBytes - ((b.look p.canonicalTopic p.attempt).map Presence.size).getD 0)
    p.size

/-- Whether a topic has its full number of publishers, and an attempt is not one. -/
def topicFull (b : PresenceBoard) (topic : CanonicalTopic) (attempt : AttemptId) : Bool :=
  decide (maxPublishersPerTopic ≤ (b.bucketOf topic).size) && !(b.bucketOf topic).contains attempt

/-- The board with a presence in it. -/
def stored (b : PresenceBoard) (p : Presence) : PresenceBoard :=
  let topics := b.topicsOf p.attempt
  { b with
    byTopic := b.byTopic.insert p.canonicalTopic ((b.bucketOf p.canonicalTopic).insert p.attempt p)
    byAttempt := b.byAttempt.insert p.attempt
      (if p.canonicalTopic ∈ topics then topics else topics ++ [p.canonicalTopic])
    approxBytes := b.projected p }

/-- `PresenceBoard::insert_presence`. -/
def insertPresence (b : PresenceBoard) (p : Presence) : PresenceBoard :=
  if b.topicFull p.canonicalTopic p.attempt then b.omitted p.canonicalTopic
  else if maxKeeperBytes < b.projected p then b.omitted p.canonicalTopic
  else b.stored p

/-- One turn of the loop that removes an attempt from its topics. -/
def removeFrom (attempt : AttemptId) (b : PresenceBoard) (topic : CanonicalTopic) : PresenceBoard :=
  match b.byTopic.get topic with
  | none => b
  | some bucket =>
    { b with
      approxBytes := b.approxBytes - ((bucket.get attempt).map Presence.size).getD 0
      byTopic :=
        if (bucket.erase attempt).size = 0 then b.byTopic.erase topic
        else b.byTopic.insert topic (bucket.erase attempt) }

/-- `PresenceBoard::remove_attempt`. -/
def removeAttempt (b : PresenceBoard) (attempt : AttemptId) : PresenceBoard :=
  match b.byAttempt.get attempt with
  | none => b
  | some topics =>
    topics.foldl (removeFrom attempt) { b with byAttempt := b.byAttempt.erase attempt }

/-- `PresenceBoard::fence_attempt`. -/
def fenceAttempt (b : PresenceBoard) (attempt : AttemptId) (fence : Digest) : PresenceBoard :=
  if ((b.presenceForAttempt attempt).map (·.stamp.fenceMatches fence)).getD true then
    b.removeAttempt attempt
  else b

/-- The attempts with a presence that has expired, once for each. -/
def expiredAttempts (b : PresenceBoard) (now : Nat) : List AttemptId :=
  b.byTopic.values.flatMap fun bucket =>
    (bucket.entries.filter fun e => decide (e.2.expiresAt ≤ now)).map Prod.fst

/-- `PresenceBoard::expire`. -/
def expire (b : PresenceBoard) (now : Nat) : PresenceBoard :=
  (b.expiredAttempts now).foldl removeAttempt b

/-- The presence of a topic declaration. -/
def declaredPresence [Blake3] (topic : CanonicalTopic) (stamp : PlacementStamp)
    (decl : Declaration) (expiresAt : Nat) : Presence :=
  ⟨topic, stamp, decl.data, decl.secretData, expiresAt,
    digestPresence topic stamp decl.data decl.secretData, false⟩

/-- `PresenceBoard::upsert`. -/
def upsert [Blake3] (b : PresenceBoard) (resolved : ResolvedTopics) (stamp : PlacementStamp)
    (decl : Declaration) (expiresAt : Nat) : PresenceBoard :=
  let b := b.removeAttempt stamp.attemptId
  match resolved.publish with
  | none => b
  | some topic =>
    if stamp.healthEligible then b.insertPresence (declaredPresence topic stamp decl expiresAt)
    else b

/-- The presence of one capability. -/
def capabilityPresence [Blake3] (topic : CanonicalTopic) (stamp : PlacementStamp) (data : Value)
    (expiresAt : Nat) : Presence :=
  ⟨topic, stamp, some data, none, expiresAt, digestPresence topic stamp (some data) none, true⟩

/-- The topic of a capability name. -/
def capabilityTopic (name : String) (workload : WorkloadId) : Except TopicError CanonicalTopic :=
  if name = "@self" then .error .invalidShape else canonicalizeTopic name workload

/-- The loop over the capabilities.  What was inserted before an error stays. -/
def insertCapabilities [Blake3] (stamp : PlacementStamp) (expiresAt : Nat) :
    List (String × Value) → PresenceBoard → Except TopicError Unit × PresenceBoard
  | [], b => (.ok (), b)
  | (name, data) :: rest, b =>
    match capabilityTopic name stamp.workloadId with
    | .error e => (.error e, b)
    | .ok topic =>
      insertCapabilities stamp expiresAt rest
        (b.insertPresence (capabilityPresence topic stamp data expiresAt))

/-- `PresenceBoard::upsert_capabilities`. -/
def upsertCapabilities [Blake3] (b : PresenceBoard) (stamp : PlacementStamp)
    (capabilities : OrdMap String Value) (expiresAt : Nat) :
    Except TopicError Unit × PresenceBoard :=
  let b := b.removeAttempt stamp.attemptId
  if stamp.healthEligible then insertCapabilities stamp expiresAt capabilities.entries b
  else (.ok (), b)

/-! ## What the edits do to the presences -/

theorem bucketOf_omitted (b : PresenceBoard) (topic t : CanonicalTopic) :
    (b.omitted topic).bucketOf t = b.bucketOf t := by
  simp only [bucketOf, omitted, OrdMap.get_insertAbsent]
  by_cases ht : t = topic
  · simp only [ht, if_true, Option.getD_some]
  · simp only [ht, if_false]

theorem bucketOf_stored (b : PresenceBoard) (p : Presence) (t : CanonicalTopic) :
    (b.stored p).bucketOf t =
      if t = p.canonicalTopic then (b.bucketOf p.canonicalTopic).insert p.attempt p
      else b.bucketOf t := by
  simp only [bucketOf, stored, OrdMap.get_insert]
  by_cases ht : t = p.canonicalTopic
  · simp only [ht, if_true, Option.getD_some]
  · simp only [ht, if_false]

theorem bucketOf_removeFrom (b : PresenceBoard) (attempt : AttemptId) (topic t : CanonicalTopic) :
    (removeFrom attempt b topic).bucketOf t =
      if t = topic then (b.bucketOf topic).erase attempt else b.bucketOf t := by
  unfold removeFrom
  cases hbucket : b.byTopic.get topic with
  | none =>
    by_cases ht : t = topic
    · rw [if_pos ht, ht, bucketOf, hbucket]
      rfl
    · simp only [ht, if_false]
  | some bucket =>
    have hof : b.bucketOf topic = bucket := by rw [bucketOf, hbucket, Option.getD_some]
    rw [hof]
    by_cases hempty : (bucket.erase attempt).size = 0
    · simp only [bucketOf, hempty, if_true, OrdMap.get_erase]
      by_cases ht : t = topic
      · simp only [ht, if_true, Option.getD_none]
        exact (OrdMap.size_eq_zero_iff.mp hempty).symm
      · simp only [ht, if_false]
    · simp only [bucketOf, hempty, if_false, OrdMap.get_insert]
      by_cases ht : t = topic
      · simp only [ht, if_true, Option.getD_some]
      · simp only [ht, if_false]

@[simp] theorem look_new (t : CanonicalTopic) (a : AttemptId) : new.look t a = none := rfl

@[simp] theorem look_omitted (b : PresenceBoard) (topic t : CanonicalTopic) (a : AttemptId) :
    (b.omitted topic).look t a = b.look t a := by
  rw [look, bucketOf_omitted, look]

theorem look_stored (b : PresenceBoard) (p : Presence) (t : CanonicalTopic) (a : AttemptId) :
    (b.stored p).look t a =
      if t = p.canonicalTopic ∧ a = p.attempt then some p else b.look t a := by
  rw [look, bucketOf_stored]
  by_cases ht : t = p.canonicalTopic
  · by_cases ha : a = p.attempt
    · simp only [ht, ha, if_true, and_self, OrdMap.get_insert_self]
    · simp only [ht, ha, if_true, and_false, if_false, OrdMap.get_insert_of_ne _ _ ha, look]
  · simp only [ht, if_false, false_and, look]

theorem look_removeFrom (b : PresenceBoard) (attempt : AttemptId) (topic t : CanonicalTopic)
    (a : AttemptId) : (removeFrom attempt b topic).look t a =
      if t = topic ∧ a = attempt then none else b.look t a := by
  rw [look, bucketOf_removeFrom]
  by_cases ht : t = topic
  · by_cases ha : a = attempt
    · simp only [ht, ha, if_true, and_self, OrdMap.get_erase_self]
    · simp only [ht, ha, if_true, and_false, if_false, OrdMap.get_erase_of_ne _ ha, look]
  · simp only [ht, if_false, false_and, look]

/-- The loop takes the attempt off every topic that it runs over. -/
theorem look_foldl_removeFrom (attempt : AttemptId) (topics : List CanonicalTopic)
    (t : CanonicalTopic) (a : AttemptId) : ∀ b : PresenceBoard,
    (topics.foldl (removeFrom attempt) b).look t a =
      if t ∈ topics ∧ a = attempt then none else b.look t a := by
  induction topics with
  | nil => simp
  | cons topic rest ih =>
    intro b
    rw [List.foldl_cons, ih, look_removeFrom]
    simp only [List.mem_cons]
    by_cases ha : a = attempt
    · by_cases ht : t ∈ rest
      · simp only [ht, ha, or_true, and_self, if_true]
      · simp only [ht, ha, or_false, and_true, if_false]
    · simp only [ha, and_false, if_false]

/-! ## Byte counts -/

theorem bucketBytes_bucketOf (b : PresenceBoard) (t : CanonicalTopic) :
    bucketBytes (b.bucketOf t) = ((b.byTopic.get t).map bucketBytes).getD 0 := by
  rw [bucketOf]
  cases b.byTopic.get t <;> rfl

theorem bucketBytes_insert (bucket : OrdMap AttemptId Presence) (a : AttemptId) (p : Presence) :
    bucketBytes (bucket.insert a p) + ((bucket.get a).map Presence.size).getD 0 =
      bucketBytes bucket + p.size :=
  bucket.sumBy_insert (fun _ p => p.size) a p

theorem bucketBytes_erase (bucket : OrdMap AttemptId Presence) (a : AttemptId) :
    bucketBytes (bucket.erase a) + ((bucket.get a).map Presence.size).getD 0 =
      bucketBytes bucket := by
  cases h : bucket.get a with
  | none => rw [OrdMap.erase_of_get_none h]; rfl
  | some p => exact OrdMap.sumBy_erase (fun _ p => p.size) h

theorem totalBytes_insert (b : PresenceBoard) (t : CanonicalTopic)
    (bucket : OrdMap AttemptId Presence) :
    (b.byTopic.insert t bucket).sumBy (fun _ bucket => bucketBytes bucket) +
      bucketBytes (b.bucketOf t) = b.totalBytes + bucketBytes bucket := by
  rw [bucketBytes_bucketOf]
  exact b.byTopic.sumBy_insert (fun _ bucket => bucketBytes bucket) t bucket

theorem totalBytes_stored (b : PresenceBoard) (p : Presence) :
    (b.stored p).totalBytes + ((b.look p.canonicalTopic p.attempt).map Presence.size).getD 0 =
      b.totalBytes + p.size := by
  have hbucket := bucketBytes_insert (b.bucketOf p.canonicalTopic) p.attempt p
  have htopic := b.totalBytes_insert p.canonicalTopic
    ((b.bucketOf p.canonicalTopic).insert p.attempt p)
  simp only [totalBytes, stored, look] at htopic ⊢
  omega

theorem totalBytes_omitted (b : PresenceBoard) (topic : CanonicalTopic) :
    (b.omitted topic).totalBytes = b.totalBytes := by
  rw [totalBytes, omitted, OrdMap.insertAbsent]
  cases h : b.byTopic.get topic with
  | none =>
    have hsum := b.byTopic.sumBy_insert (fun _ bucket => bucketBytes bucket) topic .empty
    rw [h] at hsum
    exact hsum
  | some bucket => rfl

theorem totalBytes_removeFrom (b : PresenceBoard) (attempt : AttemptId) (topic : CanonicalTopic) :
    (removeFrom attempt b topic).totalBytes +
      ((b.look topic attempt).map Presence.size).getD 0 = b.totalBytes := by
  have herase := bucketBytes_erase (b.bucketOf topic) attempt
  rw [look]
  unfold removeFrom
  cases hbucket : b.byTopic.get topic with
  | none =>
    have hof : b.bucketOf topic = .empty := by rw [bucketOf, hbucket, Option.getD_none]
    rw [hof, OrdMap.get_empty]
    rfl
  | some bucket =>
    have hof : b.bucketOf topic = bucket := by rw [bucketOf, hbucket, Option.getD_some]
    rw [hof] at herase ⊢
    by_cases hempty : (bucket.erase attempt).size = 0
    · have htopic := OrdMap.sumBy_erase (fun _ bucket => bucketBytes bucket) hbucket
      have hzero : bucketBytes (bucket.erase attempt) = 0 := by
        rw [OrdMap.size_eq_zero_iff.mp hempty]
        rfl
      simp only [totalBytes, hempty, if_true] at htopic ⊢
      omega
    · have htopic := b.totalBytes_insert topic (bucket.erase attempt)
      rw [hof] at htopic
      simp only [totalBytes, hempty, if_false] at htopic ⊢
      omega

variable {b : PresenceBoard}

theorem size_le_totalBytes (t : CanonicalTopic) (a : AttemptId) :
    ((b.look t a).map Presence.size).getD 0 ≤ b.totalBytes := by
  have h := b.totalBytes_removeFrom a t
  omega

/-! ## Soundness -/

/-- Both indexes and the byte count describe the same presences, within the bounds. -/
structure Sound (b : PresenceBoard) : Prop where
  indexed : ∀ a t, t ∈ b.topicsOf a ↔ (b.look t a).isSome = true
  listed : ∀ a topics, b.byAttempt.get a = some topics → topics ≠ [] ∧ topics.Nodup
  keyed : ∀ {t a p}, b.look t a = some p → p.canonicalTopic = t ∧ p.attempt = a
  counted : b.approxBytes = b.totalBytes
  bounded : b.approxBytes ≤ maxKeeperBytes
  publishers : ∀ t, (b.bucketOf t).size ≤ maxPublishersPerTopic

/-- No topic is kept without a publisher. -/
def Peopled (b : PresenceBoard) : Prop :=
  ∀ t bucket, b.byTopic.get t = some bucket → bucket.size ≠ 0

theorem sound_new : new.Sound where
  indexed a t := by simp [topicsOf, new, look, bucketOf]
  listed a topics h := by cases h
  keyed h := by cases h
  counted := rfl
  bounded := by decide
  publishers t := Nat.zero_le _

theorem Sound.nodup_topicsOf (h : b.Sound) (a : AttemptId) : (b.topicsOf a).Nodup := by
  rw [topicsOf]
  cases hget : b.byAttempt.get a with
  | none => exact List.nodup_nil
  | some topics => exact (h.listed _ _ hget).2

theorem Sound.omitted (h : b.Sound) (topic : CanonicalTopic) : (b.omitted topic).Sound where
  indexed a t := by
    rw [look_omitted]
    exact h.indexed a t
  listed := h.listed
  keyed hlook := h.keyed (by rwa [look_omitted] at hlook)
  counted := by
    rw [totalBytes_omitted]
    exact h.counted
  bounded := h.bounded
  publishers t := by
    rw [bucketOf_omitted]
    exact h.publishers t

variable {p : Presence}

/-- The count after a presence is stored is exact: what is replaced was counted. -/
theorem Sound.projected_eq (h : b.Sound) (hfits : b.projected p ≤ maxKeeperBytes) :
    b.projected p = (b.stored p).totalBytes := by
  have htotal := b.totalBytes_stored p
  have hold := size_le_totalBytes (b := b) p.canonicalTopic p.attempt
  have hsum : b.projected p = b.approxBytes -
      ((b.look p.canonicalTopic p.attempt).map Presence.size).getD 0 + p.size :=
    saturatingAdd_eq_of_lt (hfits.trans_lt (by decide))
  rw [hsum, h.counted]
  omega

variable {t : CanonicalTopic} {a : AttemptId}

theorem mem_topicsOf_stored : t ∈ (b.stored p).topicsOf a ↔
      t = p.canonicalTopic ∧ a = p.attempt ∨ t ∈ b.topicsOf a := by
  rw [topicsOf, PresenceBoard.stored]
  by_cases ha : a = p.attempt
  · subst ha
    simp only [OrdMap.get_insert_self, Option.getD_some, and_true]
    split_ifs with hmem
    · exact ⟨.inr, fun h => h.elim (fun heq => heq ▸ hmem) id⟩
    · rw [List.mem_append, List.mem_singleton, or_comm]
  · simp only [OrdMap.get_insert_of_ne _ _ ha, ha, and_false, false_or, topicsOf]

theorem Sound.stored (h : b.Sound) (hroom : b.topicFull p.canonicalTopic p.attempt = false)
    (hfits : b.projected p ≤ maxKeeperBytes) : (b.stored p).Sound where
  indexed a t := by
    rw [look_stored, mem_topicsOf_stored, h.indexed a t]
    split_ifs with heq
    · simp only [heq, and_self, true_or, Option.isSome_some]
    · simp only [heq, false_or]
  listed a topics htopics := by
    rw [PresenceBoard.stored, OrdMap.get_insert] at htopics
    split_ifs at htopics with ha hmem
    · cases htopics
      exact ⟨List.ne_nil_of_mem hmem, h.nodup_topicsOf _⟩
    · cases htopics
      refine ⟨List.append_ne_nil_of_right_ne_nil _ (List.cons_ne_nil _ _), ?_⟩
      rw [List.nodup_append_comm, List.singleton_append, List.nodup_cons]
      exact ⟨hmem, h.nodup_topicsOf _⟩
    · exact h.listed a topics htopics
  keyed {t a q} hlook := by
    rw [look_stored] at hlook
    split_ifs at hlook with heq
    · cases hlook
      exact ⟨heq.1.symm, heq.2.symm⟩
    · exact h.keyed hlook
  counted := h.projected_eq hfits
  bounded := hfits
  publishers t := by
    rw [bucketOf_stored]
    split_ifs with ht
    · cases hget : (b.bucketOf p.canonicalTopic).get p.attempt with
      | some old =>
        rw [OrdMap.size_insert_of_some p hget]
        exact h.publishers _
      | none =>
        rw [OrdMap.size_insert_of_none p hget]
        simp only [topicFull, OrdMap.contains, hget, Option.isSome_none, Bool.not_false,
          Bool.and_true, decide_eq_false_iff_not, Nat.not_le] at hroom
        exact hroom
    · exact h.publishers t

theorem Sound.insertPresence (h : b.Sound) (p : Presence) : (b.insertPresence p).Sound := by
  unfold PresenceBoard.insertPresence
  split_ifs with hfull hbytes
  · exact h.omitted _
  · exact h.omitted _
  · exact h.stored (Bool.eq_false_iff.mpr hfull) (Nat.not_lt.mp hbytes)

/-! ## Removal -/

@[simp] theorem byAttempt_removeFrom (b : PresenceBoard) (attempt : AttemptId)
    (topic : CanonicalTopic) : (removeFrom attempt b topic).byAttempt = b.byAttempt := by
  unfold removeFrom
  split <;> rfl

@[simp] theorem omitCount_removeFrom (b : PresenceBoard) (attempt : AttemptId)
    (topic : CanonicalTopic) : (removeFrom attempt b topic).omitCount = b.omitCount := by
  unfold removeFrom
  split <;> rfl

theorem approxBytes_removeFrom (b : PresenceBoard) (attempt : AttemptId) (topic : CanonicalTopic) :
    (removeFrom attempt b topic).approxBytes =
      b.approxBytes - ((b.look topic attempt).map Presence.size).getD 0 := by
  unfold removeFrom
  cases hbucket : b.byTopic.get topic with
  | none => simp [look, bucketOf, hbucket]
  | some bucket => simp [look, bucketOf, hbucket]

/-- What the loop of a removal keeps. -/
theorem removeFrom_keeps (attempt : AttemptId) (topic : CanonicalTopic)
    (hcounted : b.approxBytes = b.totalBytes) :
    (removeFrom attempt b topic).approxBytes = (removeFrom attempt b topic).totalBytes ∧
      (removeFrom attempt b topic).approxBytes ≤ b.approxBytes ∧
      ∀ t, ((removeFrom attempt b topic).bucketOf t).size ≤ (b.bucketOf t).size := by
  have htotal := b.totalBytes_removeFrom attempt topic
  have happrox := b.approxBytes_removeFrom attempt topic
  refine ⟨by omega, by omega, fun t => ?_⟩
  rw [bucketOf_removeFrom]
  split_ifs with ht
  · rw [ht]
    exact OrdMap.size_retain_le _ _
  · exact Nat.le_refl _

theorem foldl_removeFrom_keeps (attempt : AttemptId) (topics : List CanonicalTopic) :
    ∀ b : PresenceBoard, b.approxBytes = b.totalBytes →
      (topics.foldl (removeFrom attempt) b).byAttempt = b.byAttempt ∧
      (topics.foldl (removeFrom attempt) b).omitCount = b.omitCount ∧
      (topics.foldl (removeFrom attempt) b).approxBytes =
        (topics.foldl (removeFrom attempt) b).totalBytes ∧
      (topics.foldl (removeFrom attempt) b).approxBytes ≤ b.approxBytes ∧
      ∀ t, ((topics.foldl (removeFrom attempt) b).bucketOf t).size ≤ (b.bucketOf t).size := by
  induction topics with
  | nil => exact fun b h => ⟨rfl, rfl, h, Nat.le_refl _, fun _ => Nat.le_refl _⟩
  | cons topic rest ih =>
    intro b hcounted
    obtain ⟨hcounted', hle, hsize⟩ := removeFrom_keeps attempt topic hcounted
    obtain ⟨hattempts, homit, hdone, hle', hsize'⟩ := ih _ hcounted'
    rw [List.foldl_cons]
    exact ⟨hattempts.trans (byAttempt_removeFrom ..), homit.trans (omitCount_removeFrom ..), hdone,
      hle'.trans hle, fun t => (hsize' t).trans (hsize t)⟩

/-- A removed attempt has no presence, and nothing else changes. -/
theorem Sound.look_removeAttempt (h : b.Sound) (attempt : AttemptId) (t : CanonicalTopic)
    (a : AttemptId) :
    (b.removeAttempt attempt).look t a = if a = attempt then none else b.look t a := by
  have habsent : t ∉ b.topicsOf attempt → b.look t attempt = none := by
    intro ht
    rw [h.indexed] at ht
    simpa using ht
  unfold removeAttempt
  cases hget : b.byAttempt.get attempt with
  | none =>
    by_cases ha : a = attempt
    · rw [if_pos ha, ha]
      exact habsent (by simp [topicsOf, hget])
    · rw [if_neg ha]
  | some topics =>
    have htopics : b.topicsOf attempt = topics := by rw [topicsOf, hget, Option.getD_some]
    rw [htopics] at habsent
    simp only [look_foldl_removeFrom]
    by_cases ha : a = attempt
    · by_cases ht : t ∈ topics
      · simp only [ht, ha, and_self, if_true]
      · simp only [ht, ha, false_and, if_false, if_true]
        exact habsent ht
    · simp only [ha, and_false, if_false]
      rfl

/-- What a removal does beside the presences. -/
theorem Sound.removeAttempt_keeps (h : b.Sound) (attempt : AttemptId) :
    (b.removeAttempt attempt).byAttempt = b.byAttempt.erase attempt ∧
      (b.removeAttempt attempt).omitCount = b.omitCount ∧
      (b.removeAttempt attempt).approxBytes = (b.removeAttempt attempt).totalBytes ∧
      (b.removeAttempt attempt).approxBytes ≤ b.approxBytes ∧
      ∀ t, ((b.removeAttempt attempt).bucketOf t).size ≤ (b.bucketOf t).size := by
  unfold PresenceBoard.removeAttempt
  cases hget : b.byAttempt.get attempt with
  | none =>
    exact ⟨(OrdMap.erase_of_get_none hget).symm, rfl, h.counted, Nat.le_refl _,
      fun _ => Nat.le_refl _⟩
  | some topics => exact foldl_removeFrom_keeps attempt topics _ h.counted

theorem Sound.removeAttempt (h : b.Sound) (attempt : AttemptId) :
    (b.removeAttempt attempt).Sound := by
  obtain ⟨hattempts, -, hcounted, hle, hsize⟩ := h.removeAttempt_keeps attempt
  refine ⟨fun a t => ?_, fun a topics htopics => ?_, fun {t a p} hlook => ?_, hcounted,
    hle.trans h.bounded, fun t => (hsize t).trans (h.publishers t)⟩
  · rw [h.look_removeAttempt, topicsOf, hattempts]
    by_cases ha : a = attempt
    · simp [ha]
    · rw [OrdMap.get_erase_of_ne _ ha, if_neg ha]
      exact h.indexed a t
  · rw [hattempts] at htopics
    exact h.listed a topics (OrdMap.get_of_get_erase htopics)
  · rw [h.look_removeAttempt] at hlook
    split_ifs at hlook
    exact h.keyed hlook

/-! ## Topics without a publisher -/

theorem Peopled.removeFrom (h : b.Peopled) (attempt : AttemptId) (topic : CanonicalTopic) :
    (removeFrom attempt b topic).Peopled := by
  unfold PresenceBoard.removeFrom
  cases hbucket : b.byTopic.get topic with
  | none => exact h
  | some old =>
    intro t bucket hget
    by_cases hempty : (old.erase attempt).size = 0
    · simp only [hempty, if_true] at hget
      exact h t bucket (OrdMap.get_of_get_erase hget)
    · simp only [hempty, if_false, OrdMap.get_insert] at hget
      split_ifs at hget
      · cases hget
        exact hempty
      · exact h t bucket hget

theorem Peopled.removeAttempt (h : b.Peopled) (attempt : AttemptId) :
    (b.removeAttempt attempt).Peopled := by
  have hfold : ∀ (topics : List CanonicalTopic) (b : PresenceBoard), b.Peopled →
      (topics.foldl (PresenceBoard.removeFrom attempt) b).Peopled := by
    intro topics
    induction topics with
    | nil => exact fun b h => h
    | cons topic rest ih => exact fun b h => ih _ (h.removeFrom attempt topic)
  unfold PresenceBoard.removeAttempt
  split
  · exact h
  · exact hfold _ _ h

/-- A presence that is not taken leaves no topic behind if the topic has a publisher. -/
theorem Peopled.omitted (h : b.Peopled) {topic : CanonicalTopic}
    (htopic : (b.bucketOf topic).size ≠ 0) : (b.omitted topic).Peopled := by
  intro t bucket hget
  rw [PresenceBoard.omitted, OrdMap.get_insertAbsent] at hget
  split_ifs at hget
  · cases hget
    exact htopic
  · exact h t bucket hget

theorem Peopled.stored (h : b.Peopled) (p : Presence) : (b.stored p).Peopled := by
  intro t bucket hget
  rw [PresenceBoard.stored, OrdMap.get_insert] at hget
  split_ifs at hget
  · cases hget
    intro hzero
    have hnone := OrdMap.get_insert_self (b.bucketOf p.canonicalTopic) p.attempt p
    rw [OrdMap.size_eq_zero_iff.mp hzero] at hnone
    cases hnone
  · exact h t bucket hget

/-- Whether the board takes a presence without a trace: it has the bytes for it, or
another presence is on its topic. -/
def Takes (b : PresenceBoard) (p : Presence) : Prop :=
  b.approxBytes + p.size ≤ maxKeeperBytes ∨ (b.bucketOf p.canonicalTopic).size ≠ 0

theorem Peopled.insertPresence (h : b.Peopled) (htakes : b.Takes p) :
    (b.insertPresence p).Peopled := by
  unfold PresenceBoard.insertPresence
  split_ifs with hfull hbytes
  · refine h.omitted fun hzero => ?_
    rw [topicFull, hzero] at hfull
    exact absurd (Bool.and_eq_true_iff.mp hfull).1 (by decide)
  · refine h.omitted (htakes.resolve_left fun hroom => ?_)
    have hle : b.projected p ≤ b.approxBytes + p.size :=
      (saturatingAdd_le_add _ _).trans (Nat.add_le_add_right (Nat.sub_le _ _) _)
    exact absurd (hle.trans hroom) (Nat.not_le.mpr hbytes)
  · exact h.stored p

/-! ## Edits -/

/-- One change of the board. -/
inductive Edit where
  | remove (attempt : AttemptId)
  | insert (p : Presence)

/-- Whether the board does not take a presence. -/
def refuses (b : PresenceBoard) (p : Presence) : Bool :=
  b.topicFull p.canonicalTopic p.attempt || decide (maxKeeperBytes < b.projected p)

theorem insertPresence_eq (b : PresenceBoard) (p : Presence) :
    b.insertPresence p = if b.refuses p then b.omitted p.canonicalTopic else b.stored p := by
  unfold insertPresence refuses
  cases b.topicFull p.canonicalTopic p.attempt <;> simp

theorem look_insertPresence {q : Presence} (h : (b.insertPresence p).look t a = some q) :
    q = p ∧ t = p.canonicalTopic ∧ a = p.attempt ∨ b.look t a = some q := by
  rw [insertPresence_eq] at h
  split_ifs at h
  · rw [look_omitted] at h
    exact .inr h
  · rw [look_stored] at h
    split_ifs at h with heq
    · exact .inl ⟨(Option.some.inj h).symm, heq⟩
    · exact .inr h

/-- An offer concerns its own attempt only. -/
theorem look_insertPresence_of_ne (h : a ≠ p.attempt) :
    (b.insertPresence p).look t a = b.look t a := by
  rw [insertPresence_eq]
  split_ifs
  · exact look_omitted ..
  · rw [look_stored, if_neg fun heq => h heq.2]

def edit (b : PresenceBoard) : Edit → PresenceBoard
  | .remove attempt => b.removeAttempt attempt
  | .insert p => b.insertPresence p

/-- A sequence of changes. -/
def edits (b : PresenceBoard) (es : List Edit) : PresenceBoard := es.foldl edit b

@[simp] theorem edits_cons (b : PresenceBoard) (e : Edit) (es : List Edit) :
    b.edits (e :: es) = (b.edit e).edits es := rfl

theorem edits_append (b : PresenceBoard) (es es' : List Edit) :
    b.edits (es ++ es') = (b.edits es).edits es' := List.foldl_append

/-- The attempt that a change concerns. -/
def Edit.attempt : Edit → AttemptId
  | .remove attempt => attempt
  | .insert p => p.attempt

theorem Sound.edit (h : b.Sound) (e : Edit) : (b.edit e).Sound := by
  cases e with
  | remove attempt => exact h.removeAttempt attempt
  | insert p => exact h.insertPresence p

theorem Sound.edits (h : b.Sound) (es : List Edit) : (b.edits es).Sound := by
  induction es generalizing b with
  | nil => exact h
  | cons e rest ih => exact ih (h.edit e)

/-- A change concerns its own attempt only. -/
theorem Sound.look_edit_of_ne (h : b.Sound) {e : Edit} (hne : a ≠ e.attempt) (t : CanonicalTopic) :
    (b.edit e).look t a = b.look t a := by
  cases e with
  | remove attempt => exact (h.look_removeAttempt attempt t a).trans (if_neg hne)
  | insert p => exact look_insertPresence_of_ne hne

variable {es : List Edit}

theorem Sound.look_edits_of_ne (h : b.Sound) (hne : ∀ e ∈ es, a ≠ e.attempt) (t : CanonicalTopic) :
    (b.edits es).look t a = b.look t a := by
  induction es generalizing b with
  | nil => rfl
  | cons e rest ih =>
    rw [List.forall_mem_cons] at hne
    rw [edits_cons, ih (h.edit e) hne.2, h.look_edit_of_ne hne.1]

/-- What is on the board after a sequence of changes was offered in it, or was there
before and its attempt is not removed. -/
theorem Sound.look_edits (h : b.Sound) {q : Presence} (hlook : (b.edits es).look t a = some q) :
    Edit.insert q ∈ es ∨ b.look t a = some q ∧ Edit.remove a ∉ es := by
  induction es generalizing b with
  | nil => exact .inr ⟨hlook, List.not_mem_nil⟩
  | cons e rest ih =>
    rcases ih (h.edit e) hlook with hin | ⟨hold, hnot⟩
    · exact .inl (List.mem_cons_of_mem _ hin)
    · cases e with
      | remove attempt =>
        rw [PresenceBoard.edit, h.look_removeAttempt] at hold
        split_ifs at hold with ha
        refine .inr ⟨hold, ?_⟩
        rw [List.mem_cons, not_or]
        exact ⟨fun heq => ha (Edit.remove.inj heq), hnot⟩
      | insert p =>
        rcases look_insertPresence hold with ⟨rfl, -⟩ | hold
        · exact .inl List.mem_cons_self
        · refine .inr ⟨hold, ?_⟩
          rw [List.mem_cons, not_or]
          exact ⟨nofun, hnot⟩

/-! ## Bytes on offer -/

/-- The bytes that a change offers. -/
def Edit.bytes : Edit → Nat
  | .remove _ => 0
  | .insert p => p.size

/-- The bytes that a sequence of changes offers. -/
def offeredBytes (es : List Edit) : Nat := (es.map Edit.bytes).sum

theorem offeredBytes_append (es es' : List Edit) :
    offeredBytes (es ++ es') = offeredBytes es + offeredBytes es' := by
  simp [offeredBytes]

theorem offeredBytes_remove (attempts : List AttemptId) :
    offeredBytes (attempts.map .remove) = 0 := by
  simp [offeredBytes, Function.comp_def, Edit.bytes]

theorem offeredBytes_insert (ps : List Presence) :
    offeredBytes (ps.map .insert) = (ps.map Presence.size).sum := by
  simp [offeredBytes, Function.comp_def, Edit.bytes]

theorem Sound.approxBytes_edit_le (h : b.Sound) (e : Edit) :
    (b.edit e).approxBytes ≤ b.approxBytes + e.bytes := by
  cases e with
  | remove attempt => exact (h.removeAttempt_keeps attempt).2.2.2.1
  | insert p =>
    rw [PresenceBoard.edit, Edit.bytes, insertPresence_eq]
    split_ifs
    · exact Nat.le_add_right _ _
    · exact (saturatingAdd_le_add _ _).trans (Nat.add_le_add_right (Nat.sub_le _ _) _)

/-- No topic is left without a publisher by edits that the board has the bytes for,
or on whose topics there is an attempt that they do not concern. -/
theorem Peopled.edits (h : b.Peopled) (hsound : b.Sound)
    (hroom : ∀ p, Edit.insert p ∈ es → b.approxBytes + offeredBytes es ≤ maxKeeperBytes ∨
      ∃ a, (b.look p.canonicalTopic a).isSome = true ∧ ∀ e ∈ es, a ≠ e.attempt) :
    (b.edits es).Peopled := by
  induction es generalizing b with
  | nil => exact h
  | cons e rest ih =>
    have hsum : offeredBytes (e :: rest) = e.bytes + offeredBytes rest := by simp [offeredBytes]
    have hgrow := hsound.approxBytes_edit_le e
    refine ih ?_ (hsound.edit e) fun p hp => ?_
    · cases e with
      | remove attempt => exact h.removeAttempt attempt
      | insert p =>
        refine h.insertPresence ((hroom p List.mem_cons_self).imp (fun hfits => ?_) ?_)
        · have hoffer : (Edit.insert p).bytes = p.size := rfl
          omega
        · rintro ⟨a, ha, -⟩ hzero
          rw [look, OrdMap.size_eq_zero_iff.mp hzero] at ha
          cases ha
    · refine (hroom p (List.mem_cons_of_mem _ hp)).imp (fun hfits => by omega) ?_
      rintro ⟨a, ha, hne⟩
      rw [List.forall_mem_cons] at hne
      refine ⟨a, ?_, hne.2⟩
      rwa [hsound.look_edit_of_ne hne.1]

/-! ## Operations as edits -/

theorem foldl_removeAttempt (b : PresenceBoard) (attempts : List AttemptId) :
    attempts.foldl removeAttempt b = b.edits (attempts.map .remove) := by
  rw [edits, List.foldl_map]
  rfl

section Declared

variable [Blake3]

/-- The presences that a topic declaration stands for. -/
def declared (resolved : ResolvedTopics) (stamp : PlacementStamp) (decl : Declaration)
    (expiresAt : Nat) : List Presence :=
  if stamp.healthEligible then
    resolved.publish.toList.map (declaredPresence · stamp decl expiresAt)
  else []

/-- The presences of the capabilities before the first name that is no topic. -/
def capabilitiesUpTo (stamp : PlacementStamp) (expiresAt : Nat) :
    List (String × Value) → List Presence
  | [] => []
  | (name, data) :: rest =>
    match capabilityTopic name stamp.workloadId with
    | .error _ => []
    | .ok topic =>
      capabilityPresence topic stamp data expiresAt :: capabilitiesUpTo stamp expiresAt rest

/-- The presences that a capability declaration stands for. -/
def advertised (stamp : PlacementStamp) (capabilities : OrdMap String Value) (expiresAt : Nat) :
    List Presence :=
  if stamp.healthEligible then capabilitiesUpTo stamp expiresAt capabilities.entries else []

theorem upsert_eq_edits (b : PresenceBoard) (resolved : ResolvedTopics) (stamp : PlacementStamp)
    (decl : Declaration) (expiresAt : Nat) :
    b.upsert resolved stamp decl expiresAt =
      b.edits (.remove stamp.attemptId ::
        (declared resolved stamp decl expiresAt).map .insert) := by
  unfold upsert declared
  cases resolved.publish with
  | none => cases stamp.healthEligible <;> rfl
  | some topic => cases stamp.healthEligible <;> rfl

theorem insertCapabilities_snd (stamp : PlacementStamp) (expiresAt : Nat)
    (entries : List (String × Value)) : ∀ b : PresenceBoard,
    (insertCapabilities stamp expiresAt entries b).2 =
      b.edits ((capabilitiesUpTo stamp expiresAt entries).map .insert) := by
  induction entries with
  | nil => exact fun b => rfl
  | cons e rest ih =>
    intro b
    rw [insertCapabilities, capabilitiesUpTo]
    cases capabilityTopic e.1 stamp.workloadId with
    | error err => rfl
    | ok topic => exact ih _

theorem upsertCapabilities_eq_edits (b : PresenceBoard) (stamp : PlacementStamp)
    (capabilities : OrdMap String Value) (expiresAt : Nat) :
    (b.upsertCapabilities stamp capabilities expiresAt).2 =
      b.edits (.remove stamp.attemptId ::
        (advertised stamp capabilities expiresAt).map .insert) := by
  unfold upsertCapabilities advertised
  cases stamp.healthEligible with
  | false => rfl
  | true => exact insertCapabilities_snd ..

theorem insertCapabilities_isOk (stamp : PlacementStamp) (expiresAt : Nat)
    {entries : List (String × Value)}
    (h : ∀ e ∈ entries, (capabilityTopic e.1 stamp.workloadId).isOk = true) :
    ∀ b : PresenceBoard, (insertCapabilities stamp expiresAt entries b).1.isOk = true := by
  induction entries with
  | nil => exact fun b => rfl
  | cons e rest ih =>
    intro b
    rw [List.forall_mem_cons] at h
    rw [insertCapabilities]
    cases htopic : capabilityTopic e.1 stamp.workloadId with
    | error err => simp [htopic, Except.isOk, Except.toBool] at h
    | ok topic => exact ih h.2 _

/-- A capability map whose names are all topics is accepted, and one whose first name
is not offers nothing. -/
theorem upsertCapabilities_names (b : PresenceBoard) (stamp : PlacementStamp)
    (capabilities : OrdMap String Value) (expiresAt : Nat)
    (h : (∀ e ∈ capabilities.entries, (capabilityTopic e.1 stamp.workloadId).isOk = true) ∨
      ∀ e ∈ capabilities.entries.head?, (capabilityTopic e.1 stamp.workloadId).isOk = false) :
    (b.upsertCapabilities stamp capabilities expiresAt).1.isOk = true ∨
      advertised stamp capabilities expiresAt = [] := by
  unfold upsertCapabilities advertised
  cases stamp.healthEligible with
  | false => exact .inl rfl
  | true =>
    rcases h with hall | hfirst
    · exact .inl (insertCapabilities_isOk stamp expiresAt hall _)
    · cases hentries : capabilities.entries with
      | nil => exact .inl rfl
      | cons e rest =>
        rw [hentries] at hfirst
        have he := hfirst e rfl
        refine .inr ?_
        simp only [if_true, capabilitiesUpTo]
        cases htopic : capabilityTopic e.1 stamp.workloadId with
        | error err => rfl
        | ok topic => simp [htopic, Except.isOk, Except.toBool] at he

variable {stamp : PlacementStamp} {expiresAt : Nat} {p : Presence}

theorem stamp_of_mem_declared {resolved : ResolvedTopics} {decl : Declaration}
    (h : p ∈ declared resolved stamp decl expiresAt) : p.stamp = stamp := by
  unfold declared at h
  split_ifs at h
  · obtain ⟨topic, -, rfl⟩ := List.mem_map.mp h
    rfl
  · cases h

/-- What stands for a capability map is the presence of one of its names. -/
theorem exists_of_mem_capabilitiesUpTo {entries : List (String × Value)}
    (h : p ∈ capabilitiesUpTo stamp expiresAt entries) :
    ∃ e ∈ entries, ∃ topic, capabilityTopic e.1 stamp.workloadId = .ok topic ∧
      p = capabilityPresence topic stamp e.2 expiresAt := by
  induction entries with
  | nil => cases h
  | cons e rest ih =>
    rw [capabilitiesUpTo] at h
    split at h
    · cases h
    · rename_i topic htopic
      rcases List.mem_cons.mp h with rfl | hrest
      · exact ⟨e, List.mem_cons_self, topic, htopic, rfl⟩
      · obtain ⟨e', he', hp⟩ := ih hrest
        exact ⟨e', List.mem_cons_of_mem _ he', hp⟩

theorem exists_of_mem_advertised {capabilities : OrdMap String Value}
    (h : p ∈ advertised stamp capabilities expiresAt) :
    stamp.healthEligible = true ∧ ∃ e ∈ capabilities.entries, ∃ topic,
      capabilityTopic e.1 stamp.workloadId = .ok topic ∧
        p = capabilityPresence topic stamp e.2 expiresAt := by
  unfold advertised at h
  split_ifs at h with heligible
  · exact ⟨heligible, exists_of_mem_capabilitiesUpTo h⟩
  · cases h

theorem stamp_of_mem_advertised {capabilities : OrdMap String Value}
    (h : p ∈ advertised stamp capabilities expiresAt) : p.stamp = stamp := by
  obtain ⟨-, e, -, topic, -, rfl⟩ := exists_of_mem_advertised h
  rfl

end Declared

end PresenceBoard

/-! ## Samples -/

namespace Sample

/-- An identifier of version 7. -/
def uuid (n : UInt8) : Octets 16 := ⟨[1, 144, 0, 0, 0, 0, 112, 0, 128, 0, 0, 0, 0, 0, 0, n], rfl⟩

/-- The stamp of an attempt on a node. -/
def stamp (node attempt : UInt8) : PlacementStamp where
  clusterId := uuid 1
  ns := "default"
  appId := "peer-test"
  workloadId := uuid 2
  capsuleId := uuid 3
  executionId := uuid 4
  unitId := uuid 5
  role := none
  rank := none
  attemptId := uuid attempt
  nodeId := uuid node
  agentIncarnation := 1
  placementFenceDigest := .fill 32 7
  healthEligible := true
  receiverReachableIp := some "10.0.0.2"

/-- What is hashed for a presence of the sample unit. -/
def preimage (topic : String) (attempt : UInt8) (data : String) : List UInt8 :=
  utf8 topic ++ (uuid 5).bytes ++ (uuid attempt).bytes ++ (Octets.fill 32 7).bytes ++ utf8 data

/-- BLAKE3 on the presences of the worked examples. -/
@[reducible] def blake3 : Blake3 where
  hash input :=
    if input = preimage "a" 6 "{}" then
      ⟨[39, 57, 240, 155, 123, 10, 173, 125, 157, 65, 126, 177, 90, 174, 95, 112, 180, 164, 234,
      200, 108, 251, 191, 65, 30, 135, 134, 217, 160, 192, 134, 192], rfl⟩
    else if input = preimage "a" 6 "" then
      ⟨[23, 94, 146, 95, 74, 186, 187, 193, 130, 62, 209, 152, 192, 6, 11, 158, 140, 117, 96,
      221, 133, 185, 224, 78, 103, 119, 122, 151, 143, 9, 106, 189], rfl⟩
    else if input = preimage "gump/x" 6 "" then
      ⟨[83, 108, 10, 185, 237, 202, 188, 57, 83, 53, 25, 205, 182, 132, 17, 105, 140, 78, 255,
      173, 240, 33, 94, 38, 105, 254, 216, 120, 2, 140, 98, 189], rfl⟩
    else Blake3.knownAnswers.hash input

end Sample

end Gump.Hiccup
