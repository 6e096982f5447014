/-
  Hiccup/Delivery.lean --- bounded, rotating deliveries (`gump-hiccup/src/board.rs`,
  `gump-hiccup/src/codec.rs`, `gump-hiccup/src/stamp.rs`).

  A page of introductions is filled while the delivery, written with `more: true`, stays
  within its byte limit (`fillPage`).  The last field is decided afterwards, and
  `false` is one byte longer: a page with every match on it that fills the limit exactly
  is one byte too long (`delivery_fits_iff`).  The pages rotate over the matches.  An
  introduction of an accepted declaration always fits alone, so every page makes
  progress.
-/
import Gump.Foundation.Rotation
import Gump.Hiccup.Board

set_option autoImplicit false

namespace Gump.Hiccup

open Gump.Foundation Gump.Types Gump.Memory

def maxDeliveryBytes : Nat := 256 * 1024

def maxIntroductionsPerPost : Nat := 256

/-! ## Introductions -/

/-- Who is introduced, as the node vouches for it. -/
structure PublicFrom where
  id : String
  attempt : String
  ip : Option String

structure Introduction where
  topic : String
  publicFrom : PublicFrom
  /-- One capability for an entry of the directory, otherwise none. -/
  capabilities : OrdMap String Value
  data : Option Value
  secretData : Option String

structure Delivery where
  hiccup : Nat
  messages : List Introduction
  more : Bool

/-- `PlacementStamp::public_from`. -/
def PlacementStamp.publicFrom (stamp : PlacementStamp) : PublicFrom :=
  ⟨toHyphenated stamp.unitId, toHyphenated stamp.attemptId, stamp.receiverReachableIp⟩

/-- `application_topic`. -/
def applicationTopic (canonical : CanonicalTopic) (workload : WorkloadId) : String :=
  if canonical = .selfFor workload then "@self" else canonical.asStr

/-- The introduction of a presence to a listener. -/
def introduction (workload : WorkloadId) (p : Presence) : Introduction where
  topic := applicationTopic p.canonicalTopic workload
  publicFrom := p.stamp.publicFrom
  capabilities :=
    if p.directoryVisible then
      .ofList [(applicationTopic p.canonicalTopic workload, p.data.getD (.object .empty))]
    else .empty
  data := p.data
  secretData := p.secretData

/-! ## The JSON of a delivery -/

/-- The members of the fields that are written. -/
def PublicFrom.members (f : PublicFrom) : List (String × Json) :=
  OrdMap.present [("id", some (.str f.id)), ("attempt", some (.str f.attempt)),
    ("ip", f.ip.map .str)]

def Introduction.members (i : Introduction) : List (String × Json) :=
  OrdMap.present [("topic", some (.str i.topic)), ("from", some (.obj i.publicFrom.members)),
    ("capabilities",
      if i.capabilities.size = 0 then none else some (Value.object i.capabilities).json),
    ("data", i.data.map Value.json), ("secretData", i.secretData.map .str)]

def Introduction.size (i : Introduction) : Nat := (Json.obj i.members).size

/-- The document of a delivery. -/
def Delivery.json (d : Delivery) : Json :=
  .obj [("hiccup", .int d.hiccup), ("messages", .arr (d.messages.map fun i => .obj i.members)),
    ("more", .bool d.more)]

def Delivery.size (d : Delivery) : Nat := d.json.size

/-- `encode_delivery`. -/
def encodeDelivery (d : Delivery) : Except CodecError (List UInt8) := do
  checkBounds d.json.bytes.length maxDeliveryBytes
  return d.json.bytes

theorem encodeDelivery_eq (d : Delivery) :
    encodeDelivery d =
      if d.size ≤ maxDeliveryBytes then .ok d.json.bytes
      else .error (.tooLarge d.size maxDeliveryBytes) := by
  unfold encodeDelivery checkBounds require
  rw [Json.length_bytes, ← Delivery.size]
  by_cases h : d.size ≤ maxDeliveryBytes
  · simp only [h, decide_true, if_true]
    rfl
  · simp only [h, decide_false, if_false, Bool.false_eq_true]
    rfl

theorem size_toHyphenated (id : Octets 16) : (Json.str (toHyphenated id)).size = 38 := by
  rw [Json.size, Json.render, SerdeValue.utf8ByteSize_quote (plain_toHyphenated id),
    length_toHyphenated]

/-- The size of the introductions in their brackets. -/
def messagesSize (messages : List Introduction) : Nat := bracketed (messages.map Introduction.size)

variable (messages : List Introduction)

theorem messagesSize_eq :
    messagesSize messages = 2 + (messages.map Introduction.size).sum + (messages.length - 1) := by
  rw [messagesSize, bracketed_eq, List.length_map]

theorem messagesSize_perm {ms ms' : List Introduction} (h : ms.Perm ms') :
    messagesSize ms = messagesSize ms' := by
  rw [messagesSize_eq, messagesSize_eq, (h.map _).sum_eq, h.length_eq]

theorem messagesSize_append_le (ms ms' : List Introduction) :
    messagesSize ms ≤ messagesSize (ms ++ ms') := by
  rw [messagesSize_eq, messagesSize_eq, List.map_append, List.sum_append, List.length_append]
  omega

/-- The introductions apart, a delivery takes 36 bytes or, when it is the last one, 37. -/
theorem Delivery.size_eq (more : Bool) :
    (Delivery.mk 1 messages more).size = messagesSize messages + if more then 36 else 37 := by
  have harr : (Json.arr (messages.map fun i => .obj i.members)).size = messagesSize messages := by
    rw [Json.size_arr, List.map_map]
    rfl
  have hnames : (SerdeValue.quote "hiccup").utf8ByteSize = 8 ∧
      (SerdeValue.quote "messages").utf8ByteSize = 10 ∧
      (SerdeValue.quote "more").utf8ByteSize = 6 := by decide +kernel
  have hone : (Json.int (1 : Nat)).size = 1 := by decide +kernel
  have hbool : ∀ b : Bool, (Json.bool b).size = if b then 4 else 5 := by decide +kernel
  obtain ⟨h₁, h₂, h₃⟩ := hnames
  rw [Delivery.size, Delivery.json, Json.size_obj, bracketed_eq]
  simp only [List.map_cons, List.map_nil, Json.memberSize, harr, hone, hbool, h₁, h₂, h₃,
    List.sum_cons, List.sum_nil, List.length_cons, List.length_nil]
  cases more <;> simp <;> omega

/-- The size of a delivery that is still open, which the loop compares with the limit. -/
def openSize (messages : List Introduction) : Nat := (Delivery.mk 1 messages true).size

theorem openSize_eq :
    openSize messages = messagesSize messages + 36 := Delivery.size_eq messages true

/-! ## Pages -/

/-- The loop that fills a page. -/
def fillPage (workload : WorkloadId) : List Presence → List Introduction → List Introduction
  | [], messages => messages
  | p :: rest, messages =>
    let candidate := messages ++ [introduction workload p]
    if maxDeliveryBytes < openSize candidate then messages else fillPage workload rest candidate

/-- `PresenceBoard::delivery_from_matches`, with the offset of the next page. -/
def deliveryFromMatches (matched : List Presence) (workload : WorkloadId) (rotationOffset : Nat) :
    Delivery × Nat :=
  let total := matched.length
  let start := if total = 0 then 0 else rotationOffset % total
  -- `matched[(start + i) % total]` for `i` from zero on.
  let turn := (matched.rotate start).take (min total maxIntroductionsPerPost)
  let messages := fillPage workload turn []
  let delivered := messages.length
  let nextOffset := if total = 0 then 0 else (start + delivered) % total
  (⟨1, messages, decide (delivered < total)⟩, nextOffset)

/-- The order of the matches: by the text of the topic, then by attempt. -/
def beforeOrSame (p q : Presence) : Bool :=
  decide (p.canonicalTopic < q.canonicalTopic) ||
    decide (p.canonicalTopic = q.canonicalTopic) && decide (p.attempt ≤ q.attempt)

namespace PresenceBoard

/-- The presences that a listener to some topics is introduced to. -/
def listened (b : PresenceBoard) (listen : List CanonicalTopic) (listener : AttemptId)
    (authorizeTopic : CanonicalTopic → Bool) : List Presence :=
  ((listen.filter authorizeTopic).flatMap fun topic =>
    (b.bucketOf topic).values.filter fun p => p.attempt != listener).mergeSort beforeOrSame

/-- `PresenceBoard::deliver`. -/
def deliver (b : PresenceBoard) (listen : List CanonicalTopic) (listener : AttemptId)
    (workload : WorkloadId) (rotationOffset : Nat) (authorizeTopic : CanonicalTopic → Bool) :
    Delivery × Nat :=
  deliveryFromMatches (b.listened listen listener authorizeTopic) workload rotationOffset

/-- `PresenceBoard::deliver_directory`. -/
def deliverDirectory (b : PresenceBoard) (listener : AttemptId) (workload : WorkloadId)
    (rotationOffset : Nat) : Delivery × Nat :=
  let matched := (b.byTopic.values.flatMap OrdMap.values).filter fun p =>
    p.directoryVisible && p.attempt != listener
  deliveryFromMatches (matched.mergeSort beforeOrSame) workload rotationOffset

end PresenceBoard

/-- The loop introduces a first part of the presences: what it introduces fits, and
what it leaves out would not. -/
theorem fillPage_spec (workload : WorkloadId) (ps : List Presence) :
    ∀ messages, ∃ k ≤ ps.length,
      fillPage workload ps messages = messages ++ (ps.take k).map (introduction workload) ∧
      (0 < k → openSize (fillPage workload ps messages) ≤ maxDeliveryBytes) ∧
      (k < ps.length → maxDeliveryBytes <
        openSize (messages ++ (ps.take (k + 1)).map (introduction workload))) := by
  induction ps with
  | nil =>
    intro messages
    exact ⟨0, Nat.le_refl 0, by simp [fillPage], by simp, by simp⟩
  | cons p rest ih =>
    intro messages
    rw [fillPage]
    by_cases hlimit : maxDeliveryBytes < openSize (messages ++ [introduction workload p])
    · rw [if_pos hlimit]
      exact ⟨0, Nat.zero_le _, by simp, by simp, fun _ => hlimit⟩
    · rw [if_neg hlimit]
      obtain ⟨k, hk, heq, hfits, hnext⟩ := ih (messages ++ [introduction workload p])
      refine ⟨k + 1, Nat.succ_le_succ hk, ?_, fun _ => ?_, fun hlt => ?_⟩
      · rw [heq, List.take_succ_cons, List.map_cons, List.append_assoc, List.singleton_append]
      · rcases Nat.eq_zero_or_pos k with rfl | hpos
        · rw [heq, List.take_zero, List.map_nil, List.append_nil]
          exact Nat.not_lt.mp hlimit
        · exact hfits hpos
      · have h := hnext (Nat.lt_of_succ_lt_succ hlt)
        rwa [List.append_assoc, List.singleton_append] at h

section Pages

variable (matched : List Presence) (workload : WorkloadId)

/-- How many matches the page at an offset introduces. -/
def delivered (offset : Nat) : Nat :=
  (deliveryFromMatches matched workload offset).1.messages.length

/-- The matches that the page at an offset introduces. -/
def page (offset : Nat) : List Presence := rotatedPage matched (delivered matched workload) offset

variable (offset : Nat)

/-- The loop of a page runs over the matches from its offset on. -/
theorem messages_eq_fillPage : (deliveryFromMatches matched workload offset).1.messages =
      fillPage workload ((matched.rotate offset).take maxIntroductionsPerPost) [] := by
  have hstart : matched.rotate (if matched.length = 0 then 0 else offset % matched.length) =
      matched.rotate offset := by
    split_ifs with hempty
    · rw [List.length_eq_zero_iff.mp hempty, List.rotate_nil, List.rotate_nil]
    · exact List.rotate_mod matched offset
  have hlimit : ((matched.rotate offset).take maxIntroductionsPerPost).length ≤
      matched.length := by
    rw [List.length_take, List.length_rotate]
    exact Nat.min_le_right _ _
  simp only [deliveryFromMatches, hstart, ← List.take_take, List.take_of_length_le hlimit]

/-- A page introduces consecutive matches; the open delivery fits, and it ends early
only where one more introduction would not fit. -/
theorem page_spec : (deliveryFromMatches matched workload offset).1.messages =
        (page matched workload offset).map (introduction workload) ∧
      delivered matched workload offset ≤ min maxIntroductionsPerPost matched.length ∧
      (0 < delivered matched workload offset →
        openSize ((page matched workload offset).map (introduction workload)) ≤ maxDeliveryBytes) ∧
      (delivered matched workload offset < min maxIntroductionsPerPost matched.length →
        maxDeliveryBytes < openSize (((matched.rotate offset).take
          (delivered matched workload offset + 1)).map (introduction workload))) := by
  obtain ⟨k, hk, heq, hfits, hnext⟩ := fillPage_spec workload
    ((matched.rotate offset).take maxIntroductionsPerPost) []
  rw [List.length_take, List.length_rotate] at hk hnext
  rw [← messages_eq_fillPage, List.nil_append] at heq
  rw [← messages_eq_fillPage] at hfits
  have hdelivered : delivered matched workload offset = k := by
    rw [delivered, heq, List.length_map, List.length_take, List.length_take, List.length_rotate]
    exact Nat.min_eq_left hk
  -- The limit on the number does not cut the first part further.
  have hcut : ∀ n ≤ maxIntroductionsPerPost,
      ((matched.rotate offset).take maxIntroductionsPerPost).take n =
        (matched.rotate offset).take n := by
    intro n hn
    rw [List.take_take, Nat.min_eq_left hn]
  have hpage : page matched workload offset = (matched.rotate offset).take k := by
    rw [page, rotatedPage, hdelivered]
  rw [hcut k (hk.trans (Nat.min_le_left _ _))] at heq
  rw [hdelivered, hpage, ← heq]
  refine ⟨rfl, hk, hfits, fun hlt => ?_⟩
  have h := hnext hlt
  rwa [hcut _ (hlt.trans_le (Nat.min_le_left _ _)), List.nil_append] at h

/-- A page with every match on it is as long as the matches are in any order. -/
theorem openSize_page_of_all {offset : Nat}
    (hall : delivered matched workload offset = matched.length) :
    openSize ((page matched workload offset).map (introduction workload)) =
      openSize (matched.map (introduction workload)) := by
  rw [page, rotatedPage, hall, List.take_of_length_le (by rw [List.length_rotate]),
    openSize_eq, openSize_eq, messagesSize_perm ((List.rotate_perm matched offset).map _)]

/-- Everything is on one page exactly when there are not too many matches and the
delivery of all of them fits while it is open. -/
theorem delivered_eq_length_iff : delivered matched workload offset = matched.length ↔
      matched = [] ∨ matched.length ≤ maxIntroductionsPerPost ∧
        openSize (matched.map (introduction workload)) ≤ maxDeliveryBytes := by
  obtain ⟨-, hle, hfits, hnext⟩ := page_spec matched workload offset
  constructor
  · intro hall
    rcases Nat.eq_zero_or_pos matched.length with hzero | hpos
    · exact .inl (List.length_eq_zero_iff.mp hzero)
    · refine .inr ⟨by omega, ?_⟩
      have h := hfits (by omega)
      rwa [openSize_page_of_all matched workload hall] at h
  · rintro (rfl | ⟨hcount, hsize⟩)
    · simpa using hle
    · -- A page that ended early would be part of a delivery that fits.
      by_contra hne
      have hearly := hnext (by omega)
      have hpart := messagesSize_append_le
        (((matched.rotate offset).take (delivered matched workload offset + 1)).map
          (introduction workload))
        (((matched.rotate offset).drop (delivered matched workload offset + 1)).map
          (introduction workload))
      rw [← List.map_append, List.take_append_drop] at hpart
      rw [openSize_eq] at hearly hsize
      rw [messagesSize_perm ((List.rotate_perm matched offset).map _)] at hpart
      omega

/-- The size of a delivery from the size it had while it was open. -/
theorem size_deliveryFromMatches : (deliveryFromMatches matched workload offset).1.size =
      openSize ((page matched workload offset).map (introduction workload)) +
        if delivered matched workload offset < matched.length then 0 else 1 := by
  have hdelivery : (deliveryFromMatches matched workload offset).1 =
      ⟨1, (deliveryFromMatches matched workload offset).1.messages,
        decide (delivered matched workload offset < matched.length)⟩ := rfl
  rw [hdelivery, Delivery.size_eq, (page_spec matched workload offset).1, openSize_eq]
  by_cases h : delivered matched workload offset < matched.length
  · simp only [h, decide_true, if_true]
  · simp only [h, decide_false, if_false, Bool.false_eq_true]

/-- An open page is within the limit. -/
theorem openSize_page_le :
    openSize ((page matched workload offset).map (introduction workload)) ≤ maxDeliveryBytes := by
  rcases Nat.eq_zero_or_pos (delivered matched workload offset) with hzero | hpos
  · rw [page, rotatedPage, hzero, List.take_zero, List.map_nil]
    decide +kernel
  · exact (page_spec matched workload offset).2.2.1 hpos

end Pages

/-! ## The byte limit -/

/-- The encoded delivery is within its limit unless the page has every match on it and
fills the limit exactly as long as it is open. -/
theorem delivery_fits_iff (matched : List Presence) (workload : WorkloadId) (offset : Nat) :
    (deliveryFromMatches matched workload offset).1.size ≤ maxDeliveryBytes ∧
        encodeDelivery (deliveryFromMatches matched workload offset).1 =
          .ok (deliveryFromMatches matched workload offset).1.json.bytes ↔
      ¬ (matched.length ≤ maxIntroductionsPerPost ∧
        openSize (matched.map (introduction workload)) = maxDeliveryBytes) := by
  have hencode : (deliveryFromMatches matched workload offset).1.size ≤ maxDeliveryBytes →
      encodeDelivery (deliveryFromMatches matched workload offset).1 =
        .ok (deliveryFromMatches matched workload offset).1.json.bytes := by
    intro hsize
    rw [encodeDelivery_eq, if_pos hsize]
  rw [and_iff_left_of_imp hencode, size_deliveryFromMatches]
  have hopen := openSize_page_le matched workload offset
  have hall := delivered_eq_length_iff matched workload offset
  have hle := (page_spec matched workload offset).2.1
  by_cases hmore : delivered matched workload offset < matched.length
  · -- The field is written as it was measured.
    rw [if_pos hmore]
    refine iff_of_true hopen fun ⟨hcount, hsize⟩ => ?_
    have := hall.mpr (.inr ⟨hcount, Nat.le_of_eq hsize⟩)
    omega
  · -- The last page: `false` takes one byte more than `true`.
    have hlast : delivered matched workload offset = matched.length := by omega
    rw [openSize_page_of_all matched workload hlast] at hopen ⊢
    rw [if_neg hmore]
    constructor
    · rintro hsize ⟨-, hexact⟩
      omega
    · intro hexact
      have hne : openSize (matched.map (introduction workload)) ≠ maxDeliveryBytes :=
        fun h => hexact ⟨by omega, h⟩
      omega

/-! ### Nine replicas -/

/-- A publisher that the board has no presence of and has room for is stored. -/
theorem PresenceBoard.Sound.upsert_new [Blake3] {b : PresenceBoard} (h : b.Sound)
    {topic : CanonicalTopic} {listen : List CanonicalTopic} {stamp : PlacementStamp}
    {decl : Declaration} {expiresAt : Nat} (heligible : stamp.healthEligible = true)
    (hnew : ∀ t, b.look t stamp.attemptId = none)
    (hroom : (b.bucketOf topic).size < maxPublishersPerTopic)
    (hbytes : b.approxBytes + (declaredPresence topic stamp decl expiresAt).size ≤ maxKeeperBytes) :
    b.upsert ⟨some topic, listen⟩ stamp decl expiresAt =
      b.stored (declaredPresence topic stamp decl expiresAt) := by
  have hremove : b.removeAttempt stamp.attemptId = b := by
    rw [PresenceBoard.removeAttempt]
    cases hget : b.byAttempt.get stamp.attemptId with
    | none => rfl
    | some topics =>
      -- A listed attempt has a presence.
      obtain ⟨t, rest, rfl⟩ := List.exists_cons_of_ne_nil (h.listed _ _ hget).1
      have hlisted : t ∈ b.topicsOf stamp.attemptId := by
        rw [PresenceBoard.topicsOf, hget]
        exact List.mem_cons_self
      rw [h.indexed, hnew t] at hlisted
      cases hlisted
  have hfull : b.topicFull topic stamp.attemptId = false := by
    rw [PresenceBoard.topicFull, decide_eq_false (Nat.not_le.mpr hroom), Bool.false_and]
  have hprojected : b.projected (declaredPresence topic stamp decl expiresAt) ≤ maxKeeperBytes :=
    ((saturatingAdd_le_add _ _).trans (Nat.add_le_add_right (Nat.sub_le _ _) _)).trans hbytes
  unfold PresenceBoard.upsert
  simp only [hremove, heligible, if_true]
  unfold PresenceBoard.insertPresence
  rw [if_neg (by exact Bool.eq_false_iff.mp hfull), if_neg (Nat.not_lt.mpr hprojected)]

namespace Sample

def replicaTopic : CanonicalTopic := ⟨"b", .inr (by decide)⟩

/-- What every replica declares: the topic and a sealed text. -/
def replica (secret : String) : Declaration := ⟨some (some "b"), none, none, some secret, none⟩

theorem size_replica (secret : String) :
    (replica secret).size = (Json.str secret).size + 38 := by
  have hentries : (replica secret).members.entries =
      [("hiccup", .int 1), ("secretData", .str secret), ("topic", .str "b")] := by
    have horder : ¬ "topic" < "hiccup" ∧ ¬ "secretData" < "hiccup" ∧ "secretData" < "topic" := by
      decide +kernel
    simp [replica, Declaration.members, Declaration.fields, OrdMap.present, OrdMap.ofList,
      OrdMap.insert, OrdMap.insertEntry, OrdMap.empty, topicValue, horder]
  have hnames : (SerdeValue.quote "hiccup").utf8ByteSize = 8 ∧
      (SerdeValue.quote "secretData").utf8ByteSize = 12 ∧
      (SerdeValue.quote "topic").utf8ByteSize = 7 := by decide +kernel
  have hvalues : (Json.int 1).size = 1 ∧ (Json.str "b").size = 3 := by decide +kernel
  obtain ⟨h₁, h₂, h₃⟩ := hnames
  rw [Declaration.size, Value.size, Value.object, Json.size_obj, OrdMap.entries_mapValues, hentries,
    bracketed_eq]
  simp only [List.map_cons, List.map_nil, Json.memberSize, Value.int, Value.str, h₁, h₂, h₃,
    hvalues, List.sum_cons, List.sum_nil, List.length_cons, List.length_nil]
  omega

variable [Blake3]

def replicaPresence (secret : String) (n : UInt8) : Presence :=
  PresenceBoard.declaredPresence replicaTopic (stamp 9 n) (replica secret) 30000

/-- The board after replicas have published, the last of the list first. -/
def replicated (secret : String) : List UInt8 → PresenceBoard
  | [] => .new
  | n :: rest =>
    (replicated secret rest).upsert ⟨some replicaTopic, [replicaTopic]⟩ (stamp 9 n)
      (replica secret) 30000

theorem size_introduction_replica (workload : WorkloadId) (secret : String) (n : UInt8) :
    (introduction workload (replicaPresence secret n)).size = (Json.str secret).size + 145 := by
  have htopic : applicationTopic replicaTopic workload = "b" := by
    rw [applicationTopic, if_neg]
    · rfl
    · intro hself
      have h := congrArg (fun t : CanonicalTopic => t.asStr.toList.length) hself
      simp only [replicaTopic, CanonicalTopic.selfFor, toList_selfText, List.length_append,
        length_toHyphenated] at h
      revert h
      decide
  have hmembers : (introduction workload (replicaPresence secret n)).members =
      [("topic", .str (applicationTopic replicaTopic workload)),
       ("from", .obj [("id", .str (toHyphenated (uuid 5))),
         ("attempt", .str (toHyphenated (uuid n))), ("ip", .str "10.0.0.2")]),
       ("secretData", .str secret)] := rfl
  have hnames : (SerdeValue.quote "topic").utf8ByteSize = 7 ∧
      (SerdeValue.quote "from").utf8ByteSize = 6 ∧ (SerdeValue.quote "id").utf8ByteSize = 4 ∧
      (SerdeValue.quote "attempt").utf8ByteSize = 9 ∧ (SerdeValue.quote "ip").utf8ByteSize = 4 ∧
      (SerdeValue.quote "secretData").utf8ByteSize = 12 := by decide +kernel
  have hvalues : (Json.str "b").size = 3 ∧ (Json.str "10.0.0.2").size = 10 := by decide +kernel
  obtain ⟨h₁, h₂, h₃, h₄, h₅, h₆⟩ := hnames
  rw [Introduction.size, hmembers, htopic, Json.size_obj, bracketed_eq]
  simp only [List.map_cons, List.map_nil, Json.memberSize, Json.size_obj, bracketed_eq,
    size_toHyphenated, h₁, h₂, h₃, h₄, h₅, h₆, hvalues, List.sum_cons, List.sum_nil,
    List.length_cons, List.length_nil]
  omega

/-- The presences of a board that holds those of some replicas and no others. -/
structure Holds (b : PresenceBoard) (secret : String) (attempts : List UInt8) : Prop where
  sound : b.Sound
  only : ∀ {t a p}, b.look t a = some p → ∃ n ∈ attempts, p = replicaPresence secret n
  count : (b.bucketOf replicaTopic).size = attempts.length
  bytes : b.approxBytes ≤ attempts.length * (256 + secret.utf8ByteSize)

variable {secret : String}

theorem Holds.publish {b : PresenceBoard} {attempts : List UInt8} {n : UInt8}
    (h : Holds b secret attempts) (hnew : n ∉ attempts) (hcount : attempts.length < 9)
    (hsecret : secret.utf8ByteSize ≤ maxSecretDataBytes) :
    Holds (b.upsert ⟨some replicaTopic, [replicaTopic]⟩ (stamp 9 n) (replica secret) 30000) secret
      (n :: attempts) := by
  have huuid : ∀ m, uuid m = uuid n → m = n := by
    intro m heq
    injection heq with hbytes
    simpa using hbytes
  have hnone : ∀ t, b.look t (uuid n) = none := by
    intro t
    refine Option.eq_none_iff_forall_ne_some.mpr fun p hp => ?_
    obtain ⟨m, hm, rfl⟩ := h.only hp
    exact hnew (huuid m (h.sound.keyed hp).2 ▸ hm)
  have hsize : (replicaPresence secret n).size = 256 + secret.utf8ByteSize := rfl
  have hbytes : b.approxBytes + (replicaPresence secret n).size ≤ maxKeeperBytes := by
    have hle := h.bytes
    have hprod : attempts.length * (256 + secret.utf8ByteSize) ≤ 8 * (256 + 32768) :=
      Nat.mul_le_mul (by omega) (by unfold maxSecretDataBytes at hsecret; omega)
    unfold maxSecretDataBytes at hsecret
    unfold maxKeeperBytes
    omega
  have hroom : (b.bucketOf replicaTopic).size < maxPublishersPerTopic := by
    rw [h.count]
    unfold maxPublishersPerTopic
    omega
  have hstored : b.upsert ⟨some replicaTopic, [replicaTopic]⟩ (stamp 9 n) (replica secret) 30000 =
      b.stored (replicaPresence secret n) := h.sound.upsert_new rfl hnone hroom hbytes
  refine ⟨?_, fun {t a p} hlook => ?_, ?_, ?_⟩
  · rw [PresenceBoard.upsert_eq_edits]
    exact h.sound.edits _
  · rw [hstored, PresenceBoard.look_stored] at hlook
    split_ifs at hlook
    · exact ⟨n, List.mem_cons_self, (Option.some.inj hlook).symm⟩
    · obtain ⟨m, hm, hp⟩ := h.only hlook
      exact ⟨m, List.mem_cons_of_mem n hm, hp⟩
  · rw [hstored, PresenceBoard.bucketOf_stored,
      if_pos (show replicaTopic = (replicaPresence secret n).canonicalTopic from rfl),
      List.length_cons, ← h.count]
    exact OrdMap.size_insert_of_none _ (hnone replicaTopic)
  · rw [hstored, List.length_cons, Nat.add_mul, Nat.one_mul, ← hsize]
    exact ((saturatingAdd_le_add _ _).trans (Nat.add_le_add_right (Nat.sub_le _ _) _)).trans
      (Nat.add_le_add_right h.bytes _)

theorem holds_replicated (hsecret : secret.utf8ByteSize ≤ maxSecretDataBytes)
    (attempts : List UInt8) (hnodup : attempts.Nodup) (hcount : attempts.length ≤ 9) :
    Holds (replicated secret attempts) secret attempts := by
  induction attempts with
  | nil => exact ⟨PresenceBoard.sound_new, fun h => by simp [replicated] at h, rfl, Nat.zero_le _⟩
  | cons n rest ih =>
    rw [List.nodup_cons] at hnodup
    rw [List.length_cons] at hcount
    exact (ih hnodup.2 (by omega)).publish hnodup.1 (by omega) hsecret

/-- A listener that is none of the replicas is introduced to each of them. -/
theorem listened_replicated {b : PresenceBoard} {attempts : List UInt8}
    (h : Holds b secret attempts) {listener : AttemptId}
    (hlistener : ∀ n ∈ attempts, uuid n ≠ listener) :
    (b.listened [replicaTopic] listener fun _ => true).length = attempts.length ∧
      ∀ p ∈ b.listened [replicaTopic] listener fun _ => true,
        ∃ n, p = replicaPresence secret n := by
  have hbucket : ∀ p ∈ (b.bucketOf replicaTopic).values,
      ∃ n ∈ attempts, p = replicaPresence secret n := by
    intro p hp
    obtain ⟨a, hget⟩ := OrdMap.mem_values_iff.mp hp
    exact h.only (t := replicaTopic) (a := a) hget
  have hall : (b.bucketOf replicaTopic).values.filter (fun p => p.attempt != listener) =
      (b.bucketOf replicaTopic).values := by
    refine List.filter_eq_self.mpr fun p hp => ?_
    obtain ⟨n, hn, rfl⟩ := hbucket p hp
    exact bne_iff_ne.mpr (hlistener n hn)
  have hperm : (b.listened [replicaTopic] listener fun _ => true).Perm
      (b.bucketOf replicaTopic).values := by
    unfold PresenceBoard.listened
    refine (List.mergeSort_perm _ _).trans ?_
    rw [List.filter_true, List.flatMap_cons, List.flatMap_nil, List.append_nil, hall]
  refine ⟨?_, fun p hp => ?_⟩
  · rw [hperm.length_eq, ← h.count]
    exact List.length_map _
  · obtain ⟨n, -, hn⟩ := hbucket p (hperm.mem_iff.mp hp)
    exact ⟨n, hn⟩

end Sample

/-- Nine replicas publish the same declaration, which is accepted.  Their introductions
make a delivery of exactly 262144 bytes while it is open; it is sent with `more: false`,
one byte longer, and refused. -/
theorem exact_page_is_refused :
    (Sample.replica (String.ofList (List.replicate 28975 'a'))).Checked ∧
      (Sample.replica (String.ofList (List.replicate 28975 'a'))).size ≤ maxDeclarationBytes ∧
      encodeDelivery ((@Sample.replicated Sample.blake3 (String.ofList (List.replicate 28975 'a'))
        [1, 2, 3, 4, 5, 6, 7, 8, 9]).deliver [Sample.replicaTopic] (Sample.uuid 20)
          (Sample.uuid 2) 0 fun _ => true).1 = .error (.tooLarge 262145 262144) := by
  generalize hsecret : String.ofList (List.replicate 28975 'a') = secret
  have hplain : ∀ c ∈ secret.toList, SerdeValue.IsPlain c := by
    intro c hc
    rw [← hsecret, String.toList_ofList] at hc
    rw [List.eq_of_mem_replicate hc]
    unfold SerdeValue.IsPlain
    decide
  have hlength : secret.toList.length = 28975 := by
    rw [← hsecret, String.toList_ofList, List.length_replicate]
  have hbytes : secret.utf8ByteSize ≤ maxSecretDataBytes := by
    rw [SerdeValue.utf8ByteSize_of_plain hplain, hlength]
    decide
  have hquoted : (Json.str secret).size = 28977 := by
    rw [Json.size, Json.render, SerdeValue.utf8ByteSize_quote hplain, hlength]
  have hholds := @Sample.holds_replicated Sample.blake3 secret hbytes [1, 2, 3, 4, 5, 6, 7, 8, 9]
    (by decide) (by decide)
  obtain ⟨hnine, hreplicas⟩ := @Sample.listened_replicated Sample.blake3 _ _ _ hholds
    (Sample.uuid 20) (by decide +kernel)
  refine ⟨⟨by simp [Sample.replica], ?_, by simp [Sample.replica]⟩, ?_, ?_⟩
  · intro s hs
    rw [← Option.some.inj hs]
    exact hbytes
  · rw [Sample.size_replica, hquoted]
    decide
  · unfold PresenceBoard.deliver
    generalize (@Sample.replicated Sample.blake3 secret _).listened _ _ _ = matched
      at hnine hreplicas ⊢
    have hsizes : (matched.map (introduction (Sample.uuid 2))).map Introduction.size =
        List.replicate 9 29122 := by
      rw [List.map_map, List.eq_replicate_iff]
      refine ⟨by rw [List.length_map, hnine]; rfl, fun n hn => ?_⟩
      obtain ⟨p, hp, rfl⟩ := List.mem_map.mp hn
      obtain ⟨k, rfl⟩ := hreplicas p hp
      rw [Function.comp_apply, @Sample.size_introduction_replica Sample.blake3, hquoted]
    have hopen : openSize (matched.map (introduction (Sample.uuid 2))) = maxDeliveryBytes := by
      rw [openSize_eq, messagesSize, hsizes]
      decide
    have hall := (delivered_eq_length_iff matched (Sample.uuid 2) 0).mpr
      (.inr ⟨by rw [hnine]; decide, Nat.le_of_eq hopen⟩)
    have hsize : (deliveryFromMatches matched (Sample.uuid 2) 0).1.size = 262145 := by
      rw [size_deliveryFromMatches, openSize_page_of_all _ _ hall, hopen, if_neg (by omega)]
      rfl
    rw [encodeDelivery_eq, hsize, if_neg (by decide)]
    rfl

/-! ## Rotation -/

/-- The longest text of an IP address. -/
def maxIpText : Nat := 45

/-- A presence of an accepted declaration, stamped with the text of an address if with
any. -/
structure Presence.Built [Blake3] (p : Presence) : Prop where
  address : ∀ ip ∈ p.stamp.receiverReachableIp, ip.utf8ByteSize ≤ maxIpText
  declaration : ∃ decl : Declaration, decl.Checked ∧ ∃ stamp expiresAt,
    (∃ resolved, p ∈ PresenceBoard.declared resolved stamp decl expiresAt) ∨
      ∃ capabilities ∈ decl.capabilities, p ∈ PresenceBoard.advertised stamp capabilities expiresAt

variable {p : Presence}

theorem Presence.Built.bounds [Blake3] (h : p.Built) :
    (∀ data ∈ p.data, data.size ≤ maxPublicDataBytes) ∧
      ∀ s ∈ p.secretData, s.utf8ByteSize ≤ maxSecretDataBytes := by
  obtain ⟨decl, hchecked, stamp, expiresAt, ⟨resolved, hp⟩ | ⟨capabilities, hcaps, hp⟩⟩ :=
    h.declaration
  · unfold PresenceBoard.declared at hp
    split_ifs at hp
    · obtain ⟨topic, -, rfl⟩ := List.mem_map.mp hp
      exact ⟨hchecked.data, hchecked.secret⟩
    · cases hp
  · obtain ⟨-, e, he, topic, -, rfl⟩ := PresenceBoard.exists_of_mem_advertised hp
    refine ⟨fun data hdata => ?_, fun s hs => by cases hs⟩
    obtain rfl := Option.some.inj hdata
    exact ((hchecked.capabilities capabilities hcaps).2.2 e he).2

/-- An object of some fields is at most as long as with all of them. -/
theorem size_present_le (fields : List (String × Option Json)) :
    (Json.obj (OrdMap.present fields)).size ≤
      2 + (fields.map fun f =>
        (SerdeValue.quote f.1).utf8ByteSize + 2 + (f.2.map Json.size).getD 0).sum := by
  have hsum : ((OrdMap.present fields).map Json.memberSize).sum + (OrdMap.present fields).length ≤
      (fields.map fun f =>
        (SerdeValue.quote f.1).utf8ByteSize + 2 + (f.2.map Json.size).getD 0).sum := by
    induction fields with
    | nil => exact Nat.le_refl 0
    | cons f rest ih =>
      obtain ⟨name, value⟩ := f
      cases value with
      | none =>
        have hskip : OrdMap.present ((name, none) :: rest) = OrdMap.present rest := rfl
        rw [hskip, List.map_cons, List.sum_cons]
        omega
      | some v =>
        have htake : OrdMap.present ((name, some v) :: rest) =
            (name, v) :: OrdMap.present rest := rfl
        simp only [htake, List.map_cons, List.sum_cons, List.length_cons, Json.memberSize,
          Option.map_some, Option.getD_some]
        omega
  rw [Json.size_obj, bracketed_eq, List.length_map]
  omega

theorem size_str_le (s : String) : (Json.str s).size ≤ 6 * s.utf8ByteSize + 2 :=
  SerdeValue.utf8ByteSize_quote_le s

/-- The text of a topic is bounded, also that of the self topic of another workload. -/
theorem size_applicationTopic_le (topic : CanonicalTopic) (workload : WorkloadId) :
    (Json.str (applicationTopic topic workload)).size ≤ 770 := by
  have hself : ∀ other, (selfText other).utf8ByteSize ≤ 128 := by
    intro other
    have hfront : "@self/".utf8ByteSize = 6 := by decide
    rw [selfText, String.utf8ByteSize_append, hfront,
      SerdeValue.utf8ByteSize_of_plain (plain_toHyphenated other), length_toHyphenated]
    omega
  have hlength : (applicationTopic topic workload).utf8ByteSize ≤ 128 := by
    unfold applicationTopic
    split_ifs
    · decide +kernel
    · rcases topic.canonical with ⟨other, h⟩ | ⟨-, h⟩
      · rw [h]
        exact hself other
      · exact h
  exact (size_str_le _).trans (by omega)

/-- The capability of an introduction is the data of the presence under its topic. -/
theorem size_capability_le (hdata : ∀ data ∈ p.data, data.size ≤ maxPublicDataBytes)
    (workload : WorkloadId) : ((if (introduction workload p).capabilities.size = 0 then none
      else some (Value.object (introduction workload p).capabilities).json).map Json.size).getD 0 ≤
        maxPublicDataBytes + 773 := by
  have htopic := size_applicationTopic_le p.canonicalTopic workload
  have hvalue : (p.data.getD (.object .empty)).json.size ≤ maxPublicDataBytes := by
    cases hp : p.data with
    | none => decide +kernel
    | some data => exact hdata data hp
  cases hvisible : p.directoryVisible with
  | false =>
    have hempty : (introduction workload p).capabilities = .empty := by
      simp [introduction, hvisible]
    rw [hempty, OrdMap.size_empty, if_pos rfl]
    exact Nat.zero_le _
  | true =>
    have hone : (introduction workload p).capabilities =
        .ofList [(applicationTopic p.canonicalTopic workload, p.data.getD (.object .empty))] := by
      simp [introduction, hvisible]
    have hentries : (Value.object (introduction workload p).capabilities).json =
        .obj [(applicationTopic p.canonicalTopic workload,
          (p.data.getD (.object .empty)).json)] := by
      rw [hone]
      rfl
    have hsize : (introduction workload p).capabilities.size ≠ 0 := by
      rw [hone]
      exact Nat.one_ne_zero
    rw [if_neg hsize, hentries, Option.map_some, Option.getD_some, Json.size_obj, bracketed_eq]
    simp only [List.map_cons, List.map_nil, List.sum_cons, List.sum_nil, List.length_cons,
      List.length_nil, Json.memberSize]
    simp only [Json.size, Json.render] at htopic hvalue ⊢
    omega

/-- One introduction always fits into a delivery. -/
theorem openSize_introduction_le [Blake3] (h : p.Built) (workload : WorkloadId) :
    openSize [introduction workload p] ≤ maxDeliveryBytes := by
  obtain ⟨hdata, hsecret⟩ := h.bounds
  have hnames : (SerdeValue.quote "topic").utf8ByteSize = 7 ∧
      (SerdeValue.quote "from").utf8ByteSize = 6 ∧ (SerdeValue.quote "id").utf8ByteSize = 4 ∧
      (SerdeValue.quote "attempt").utf8ByteSize = 9 ∧ (SerdeValue.quote "ip").utf8ByteSize = 4 ∧
      (SerdeValue.quote "capabilities").utf8ByteSize = 14 ∧
      (SerdeValue.quote "data").utf8ByteSize = 6 ∧
      (SerdeValue.quote "secretData").utf8ByteSize = 12 := by decide +kernel
  -- The optional fields, with nothing for the ones that are left out.
  have hip : ((p.stamp.receiverReachableIp.map Json.str).map Json.size).getD 0 ≤ 272 := by
    cases hip : p.stamp.receiverReachableIp with
    | none => exact Nat.zero_le _
    | some ip =>
      have hlength := h.address ip hip
      have hquote := size_str_le ip
      simp only [maxIpText] at hlength
      simp only [Option.map_some, Option.getD_some]
      omega
  have hpublic : ((p.data.map Value.json).map Json.size).getD 0 ≤ maxPublicDataBytes := by
    cases hvalue : p.data with
    | none => exact Nat.zero_le _
    | some data => exact hdata data hvalue
  have hsealed : ((p.secretData.map Json.str).map Json.size).getD 0 ≤
      6 * maxSecretDataBytes + 2 := by
    cases hvalue : p.secretData with
    | none => exact Nat.zero_le _
    | some s =>
      exact (size_str_le s).trans
        (Nat.add_le_add_right (Nat.mul_le_mul_left 6 (hsecret s hvalue)) 2)
  have hcapability := size_capability_le hdata workload
  obtain ⟨h₁, h₂, h₃, h₄, h₅, h₆, h₇, h₈⟩ := hnames
  have hfrom : (Json.obj p.stamp.publicFrom.members).size ≤ 400 := by
    refine (size_present_le _).trans ?_
    simp only [PlacementStamp.publicFrom, List.map_cons, List.map_nil, List.sum_cons, List.sum_nil,
      Option.map_some, Option.getD_some, size_toHyphenated, h₃, h₄, h₅]
    omega
  have hsize : (introduction workload p).size ≤ 240000 := by
    refine (size_present_le _).trans ?_
    have htopic := size_applicationTopic_le p.canonicalTopic workload
    simp only [introduction, maxPublicDataBytes, maxSecretDataBytes] at hpublic hsealed hcapability
    simp only [introduction, List.map_cons, List.map_nil, List.sum_cons, List.sum_nil,
      Option.map_some, Option.getD_some, h₁, h₂, h₆, h₇, h₈]
    omega
  rw [openSize_eq, messagesSize_eq]
  simp only [List.map_cons, List.map_nil, List.sum_cons, List.sum_nil, List.length_cons,
    List.length_nil, maxDeliveryBytes]
  omega

section Rotation

variable [Blake3] {matched : List Presence}

/-- Every page introduces somebody. -/
theorem delivered_pos (hbuilt : ∀ p ∈ matched, p.Built) (hmatched : matched ≠ [])
    (workload : WorkloadId) (offset : Nat) : 0 < delivered matched workload offset := by
  refine Nat.pos_of_ne_zero fun hzero => ?_
  have hnext := (page_spec matched workload offset).2.2.2
  have hlength := List.length_pos_iff.mpr hmatched
  obtain ⟨first, rest, hrotated⟩ := List.exists_cons_of_ne_nil
    (fun hnil => hmatched (List.rotate_eq_nil_iff.mp hnil) : matched.rotate offset ≠ [])
  have hfirst : first ∈ matched :=
    List.mem_rotate.mp (hrotated ▸ List.mem_cons_self : first ∈ matched.rotate offset)
  rw [hzero, hrotated, Nat.zero_add, List.take_succ_cons, List.take_zero] at hnext
  have hfits := openSize_introduction_le (hbuilt first hfirst) workload
  have hearly := hnext (Nat.lt_min.mpr ⟨by decide, hlength⟩)
  exact absurd hfits (Nat.not_le.mpr hearly)

/-- The offset of a later page. -/
def offsetAt (matched : List Presence) (workload : WorkloadId) (offset k : Nat) : Nat :=
  (fun o => (deliveryFromMatches matched workload o).2)^[k] offset

omit [Blake3] in
theorem offsetAt_eq (hmatched : matched ≠ []) (workload : WorkloadId) (offset k : Nat) :
    offsetAt matched workload offset k =
      (nextStart matched (delivered matched workload))^[k] offset := by
  have hnext : (fun o => (deliveryFromMatches matched workload o).2) =
      nextStart matched (delivered matched workload) := by
    funext o
    have hlength : matched.length ≠ 0 := fun h => hmatched (List.length_eq_zero_iff.mp h)
    simp only [deliveryFromMatches, hlength, if_false, nextStart, delivered, Nat.mod_add_mod]
  rw [offsetAt, hnext]

/-- From any offset on the pages introduce every match, within as many pages as there
are matches; no page is empty, and none introduces a match twice. -/
theorem rotation_reaches_everyone (matched : List Presence) (hset : matched.Nodup)
    (hbuilt : ∀ p ∈ matched, p.Built) (workload : WorkloadId) (offset : Nat) :
    (∀ k, (deliveryFromMatches matched workload (offsetAt matched workload offset k)).1.messages =
        (page matched workload (offsetAt matched workload offset k)).map (introduction workload)) ∧
      (∀ p ∈ matched, ∃ k < matched.length,
        p ∈ page matched workload (offsetAt matched workload offset k)) ∧
      (matched ≠ [] → ∀ k, page matched workload (offsetAt matched workload offset k) ≠ []) ∧
      ∀ k, (page matched workload (offsetAt matched workload offset k)).Nodup := by
  refine ⟨fun k => (page_spec matched workload _).1, fun p hp => ?_, fun hmatched k => ?_,
    fun k => nodup_rotatedPage hset _⟩
  · have hmatched : matched ≠ [] := List.ne_nil_of_mem hp
    obtain ⟨k, hk, hmem⟩ := exists_page_of_mem (delivered_pos hbuilt hmatched workload) offset hp
    exact ⟨k, hk, by rwa [offsetAt_eq hmatched]⟩
  · exact rotatedPage_ne_nil (delivered_pos hbuilt hmatched workload) hmatched _

end Rotation

/-- Two replicas, from the second one on. -/
theorem rotation_reaches_two_replicas :
    let matched := [1, 2].map (@Sample.replicaPresence Sample.blake3 "sealed")
    matched.Nodup ∧ (∀ p ∈ matched, @Presence.Built Sample.blake3 p) ∧
      ∀ p ∈ matched, ∃ k < 2,
        p ∈ page matched (Sample.uuid 2) (offsetAt matched (Sample.uuid 2) 1 k) := by
  let _ := Sample.blake3
  intro matched
  have hset : matched.Nodup := by
    refine List.nodup_cons.mpr ⟨fun h => ?_, List.nodup_singleton _⟩
    have hattempt := congrArg Presence.attempt (List.mem_singleton.mp h)
    revert hattempt
    decide
  have hchecked : (Sample.replica "sealed").Checked := by
    refine ⟨by simp [Sample.replica], fun s hs => ?_, by simp [Sample.replica]⟩
    rw [← Option.some.inj hs]
    decide +kernel
  have hbuilt : ∀ p ∈ matched, p.Built := by
    intro p hp
    obtain ⟨n, -, rfl⟩ := List.mem_map.mp hp
    refine ⟨fun ip hip => ?_, Sample.replica "sealed", hchecked, Sample.stamp 9 n, 30000,
      .inl ⟨⟨some Sample.replicaTopic, [Sample.replicaTopic]⟩, List.mem_singleton.mpr rfl⟩⟩
    rw [← Option.some.inj hip]
    decide +kernel
  exact ⟨hset, hbuilt, (rotation_reaches_everyone matched hset hbuilt (Sample.uuid 2) 1).2.1⟩

end Gump.Hiccup
