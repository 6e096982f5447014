/-
  Hiccup/Snapshot.lean --- cluster snapshots of a board
  (`gump-hiccup/src/board.rs`).

  A node exports the presences that it stamped itself, within a byte ceiling, and a
  peer merges them.  Merging first decodes and checks the whole snapshot, so a bad
  record leaves the board as it is, and is then a sequence of edits: a complete
  snapshot removes what the node no longer reports, and each reported attempt is
  replaced.

  The typed JSON reader of the snapshot is a parameter.
-/
import Gump.Foundation.Json
import Gump.Hiccup.Board

set_option autoImplicit false

namespace Gump.Hiccup

open Gump.Foundation Gump.Types Gump.Memory

def maxClusterSnapshotBytes : Nat := 192 * 1024

/-! ## The wire form -/

/-- A presence on the wire. -/
structure KeeperPresenceV1 where
  topic : String
  directoryVisible : Bool
  clusterId : String
  ns : String
  appId : String
  workloadId : String
  capsuleId : String
  executionId : String
  unitId : String
  role : Option String
  rank : Option Nat
  attemptId : String
  nodeId : String
  agentIncarnation : Nat
  placementFenceDigest : Digest
  receiverReachableIp : Option String
  data : Option Value
  secretData : Option String
  expiresAtMs : Nat

structure KeeperSnapshotV1 where
  schema : String
  nodeId : String
  complete : Bool
  records : List KeeperPresenceV1

/-- JSON null for what is absent. -/
def orNull {α : Type} (toJson : α → Json) : Option α → Json
  | none => .null
  | some a => toJson a

def KeeperPresenceV1.toJson (r : KeeperPresenceV1) : Json :=
  .obj [
    ("topic", .str r.topic),
    ("directory_visible", .bool r.directoryVisible),
    ("cluster_id", .str r.clusterId),
    ("namespace", .str r.ns),
    ("app_id", .str r.appId),
    ("workload_id", .str r.workloadId),
    ("capsule_id", .str r.capsuleId),
    ("execution_id", .str r.executionId),
    ("unit_id", .str r.unitId),
    ("role", orNull .str r.role),
    ("rank", orNull (fun n => .int n) r.rank),
    ("attempt_id", .str r.attemptId),
    ("node_id", .str r.nodeId),
    ("agent_incarnation", .int r.agentIncarnation),
    ("placement_fence_digest", .arr (r.placementFenceDigest.bytes.map fun b => .int b.toNat)),
    ("receiver_reachable_ip", orNull .str r.receiverReachableIp),
    ("data", orNull Value.json r.data),
    ("secret_data", orNull .str r.secretData),
    ("expires_at_ms", .int r.expiresAtMs)]

def KeeperSnapshotV1.toJson (s : KeeperSnapshotV1) : Json :=
  .obj [
    ("schema", .str s.schema),
    ("node_id", .str s.nodeId),
    ("complete", .bool s.complete),
    ("records", .arr (s.records.map KeeperPresenceV1.toJson))]

/-- `serde_json::to_string` of a snapshot. -/
def KeeperSnapshotV1.text (s : KeeperSnapshotV1) : String := s.toJson.render

/-- The typed reader of snapshots. -/
class KeeperReader where
  fromStr : String → Except String KeeperSnapshotV1

/-- A reader of the text of one snapshot. -/
@[reducible] def KeeperReader.reading (s : KeeperSnapshotV1) : KeeperReader where
  fromStr text := if text = s.text then .ok s else .error "expected value"

def keeperSchema : String := "gump.hiccup-keeper-snapshot/1"

namespace PresenceBoard

/-! ## Records -/

/-- The record of a presence. -/
def keeperRecord (p : Presence) : KeeperPresenceV1 where
  topic := p.canonicalTopic.asStr
  directoryVisible := p.directoryVisible
  clusterId := toHyphenated p.stamp.clusterId
  ns := p.stamp.ns
  appId := p.stamp.appId
  workloadId := toHyphenated p.stamp.workloadId
  capsuleId := toHyphenated p.stamp.capsuleId
  executionId := toHyphenated p.stamp.executionId
  unitId := toHyphenated p.stamp.unitId
  role := p.stamp.role
  rank := p.stamp.rank
  attemptId := toHyphenated p.stamp.attemptId
  nodeId := toHyphenated p.stamp.nodeId
  agentIncarnation := p.stamp.agentIncarnation
  placementFenceDigest := p.stamp.placementFenceDigest
  receiverReachableIp := p.stamp.receiverReachableIp
  data := p.data
  secretData := p.secretData
  expiresAtMs := p.expiresAt

/-! ## Merge -/

/-- What a snapshot says: its node, whether it is complete, and the presences. -/
structure Report where
  source : NodeId
  complete : Bool
  incoming : List Presence

/-- An identifier of a record. -/
def recordId [UuidParser] (text message : String) : Except String (Octets 16) :=
  match parseId text with
  | .error _ => .error message
  | .ok id => .ok id

/-- The topic of a record. -/
def recordTopic (text : String) (workload : WorkloadId) : Except String CanonicalTopic :=
  match CanonicalTopic.fromKeeper text workload with
  | .error e =>
    let message := e.display
    .error s!"invalid Hiccup keeper topic: {message}"
  | .ok topic => .ok topic

/-- The presence of a record of a source node. -/
def decodeRecord [Blake3] [UuidParser] (source : NodeId) (r : KeeperPresenceV1) :
    Except String Presence := do
  let workloadId ← recordId r.workloadId "invalid Hiccup workload id"
  let topic ← recordTopic r.topic workloadId
  let clusterId ← recordId r.clusterId "invalid cluster id"
  let capsuleId ← recordId r.capsuleId "invalid capsule id"
  let executionId ← recordId r.executionId "invalid execution id"
  let unitId ← recordId r.unitId "invalid unit id"
  let attemptId ← recordId r.attemptId "invalid attempt id"
  let nodeId ← recordId r.nodeId "invalid node id"
  let stamp : PlacementStamp := {
    clusterId, ns := r.ns, appId := r.appId, workloadId, capsuleId, executionId, unitId,
    role := r.role, rank := r.rank, attemptId, nodeId, agentIncarnation := r.agentIncarnation,
    placementFenceDigest := r.placementFenceDigest, healthEligible := true,
    receiverReachableIp := r.receiverReachableIp }
  if nodeId = source then
    return ⟨topic, stamp, r.data, r.secretData, r.expiresAtMs,
      digestPresence topic stamp r.data r.secretData, r.directoryVisible⟩
  else .error "Hiccup snapshot record/source node mismatch"

/-- The loop over the records; what has expired is not looked at. -/
def decodeRecords [Blake3] [UuidParser] (source : NodeId) (now : Nat) :
    List KeeperPresenceV1 → Except String (List Presence)
  | [] => .ok []
  | r :: rest =>
    if r.expiresAtMs ≤ now then decodeRecords source now rest
    else do
      let p ← decodeRecord source r
      let ps ← decodeRecords source now rest
      return p :: ps

/-- The snapshot, decoded and checked as a whole. -/
def decodeSnapshot [Blake3] [UuidParser] [KeeperReader] (snapshot : String) (now : Nat) :
    Except String Report :=
  if maxClusterSnapshotBytes < snapshot.utf8ByteSize then
    .error "Hiccup cluster snapshot exceeds ceiling"
  else
    match KeeperReader.fromStr snapshot with
    | .error e => .error s!"decode Hiccup snapshot: {e}"
    | .ok s =>
      if s.schema = keeperSchema then do
        let source ← recordId s.nodeId "invalid Hiccup snapshot node id"
        let incoming ← decodeRecords source now s.records
        return ⟨source, s.complete, incoming⟩
      else .error "unsupported Hiccup keeper snapshot schema"

/-- The attempts of the source that a complete snapshot no longer reports. -/
def departed (b : PresenceBoard) (r : Report) : List AttemptId :=
  if r.complete then
    b.byAttempt.keys.filter fun attempt =>
      ((b.presenceForAttempt attempt).map fun p =>
        decide (p.stamp.nodeId = r.source) &&
          !(decide (attempt ∈ r.incoming.map Presence.attempt))).getD false
  else []

/-- The loop over the incoming presences; an attempt is removed when it is first met. -/
def insertIncoming : List Presence → List AttemptId → PresenceBoard → PresenceBoard
  | [], _, b => b
  | p :: rest, refreshed, b =>
    let b := if p.attempt ∈ refreshed then b else b.removeAttempt p.attempt
    insertIncoming rest (p.attempt :: refreshed) (b.insertPresence p)

/-- The board after a report. -/
def mergeReport (b : PresenceBoard) (r : Report) : PresenceBoard :=
  insertIncoming r.incoming [] ((b.departed r).foldl removeAttempt b)

/-- `PresenceBoard::merge_cluster_snapshot`. -/
def mergeClusterSnapshot [Blake3] [UuidParser] [KeeperReader] (b : PresenceBoard)
    (snapshot : String) (now : Nat) : Except String Nat × PresenceBoard :=
  match decodeSnapshot snapshot now with
  | .error e => (.error e, b)
  | .ok r => (.ok r.incoming.length, b.mergeReport r)

/-! ## A merge as edits -/

/-- The edits of the incoming presences. -/
def incomingEdits : List Presence → List AttemptId → List Edit
  | [], _ => []
  | p :: rest, refreshed =>
    (if p.attempt ∈ refreshed then [] else [.remove p.attempt]) ++
      .insert p :: incomingEdits rest (p.attempt :: refreshed)

/-- The edits of a report. -/
def reportEdits (b : PresenceBoard) (r : Report) : List Edit :=
  (b.departed r).map .remove ++ incomingEdits r.incoming []

theorem insertIncoming_eq_edits (incoming : List Presence) :
    ∀ (refreshed : List AttemptId) (b : PresenceBoard),
      insertIncoming incoming refreshed b = b.edits (incomingEdits incoming refreshed) := by
  induction incoming with
  | nil => exact fun _ _ => rfl
  | cons p rest ih =>
    intro refreshed b
    rw [insertIncoming, incomingEdits, edits_append, edits_cons, ih]
    split_ifs <;> rfl

theorem mergeReport_eq_edits (b : PresenceBoard) (r : Report) :
    b.mergeReport r = b.edits (b.reportEdits r) := by
  rw [mergeReport, insertIncoming_eq_edits, reportEdits, edits_append, foldl_removeAttempt]

theorem offeredBytes_incomingEdits (incoming : List Presence) :
    ∀ refreshed : List AttemptId,
      offeredBytes (incomingEdits incoming refreshed) = (incoming.map Presence.size).sum := by
  induction incoming with
  | nil => exact fun _ => rfl
  | cons p rest ih =>
    intro refreshed
    have hrest := ih (p.attempt :: refreshed)
    rw [incomingEdits, offeredBytes_append, List.map_cons, List.sum_cons, ← hrest]
    split_ifs <;> simp [offeredBytes, Edit.bytes]

variable {incoming : List Presence} {refreshed : List AttemptId}

theorem mem_incomingEdits_insert {p : Presence} :
    Edit.insert p ∈ incomingEdits incoming refreshed ↔ p ∈ incoming := by
  induction incoming generalizing refreshed with
  | nil => simp [incomingEdits]
  | cons q rest ih =>
    have hhead : Edit.insert p ∉
        (if q.attempt ∈ refreshed then [] else [Edit.remove q.attempt]) := by
      split_ifs <;> simp
    rw [incomingEdits, List.mem_append, List.mem_cons, List.mem_cons, ih, Edit.insert.injEq]
    simp only [hhead, false_or]

/-- Each reported attempt is removed before it is replaced. -/
theorem mem_incomingEdits_remove {a : AttemptId} :
    Edit.remove a ∈ incomingEdits incoming refreshed ↔
      a ∈ incoming.map Presence.attempt ∧ a ∉ refreshed := by
  induction incoming generalizing refreshed with
  | nil => simp [incomingEdits]
  | cons q rest ih =>
    rw [incomingEdits, List.mem_append, List.mem_cons, ih, List.map_cons, List.mem_cons,
      List.mem_cons]
    by_cases hq : q.attempt ∈ refreshed
    · simp only [hq, if_true, List.not_mem_nil, reduceCtorEq, false_or, not_or]
      constructor
      · rintro ⟨hmem, hne, hnot⟩
        exact ⟨.inr hmem, hnot⟩
      · rintro ⟨hmem | hmem, hnot⟩
        · exact absurd (hmem ▸ hq) hnot
        · exact ⟨hmem, fun h => hnot (h ▸ hq), hnot⟩
    · simp only [hq, if_false, List.mem_singleton, Edit.remove.injEq, reduceCtorEq, false_or,
        not_or]
      constructor
      · rintro (rfl | ⟨hmem, hne, hnot⟩)
        · exact ⟨.inl rfl, hq⟩
        · exact ⟨.inr hmem, hnot⟩
      · rintro ⟨hmem, hnot⟩
        by_cases ha : a = q.attempt
        · exact .inl ha
        · exact .inr ⟨hmem.resolve_left ha, ha, hnot⟩

theorem attempt_of_mem_incomingEdits {e : Edit} (h : e ∈ incomingEdits incoming refreshed) :
    ∃ p ∈ incoming, p.attempt = e.attempt := by
  cases e with
  | remove a =>
    obtain ⟨p, hp, rfl⟩ := List.mem_map.mp (mem_incomingEdits_remove.mp h).1
    exact ⟨p, hp, rfl⟩
  | insert p => exact ⟨p, mem_incomingEdits_insert.mp h, rfl⟩

end PresenceBoard

end Gump.Hiccup
