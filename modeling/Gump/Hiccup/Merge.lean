/-
  Hiccup/Merge.lean --- what a merge does to a board.

  A merge is meant for the presences of its source node.  In a run of the board all
  presences of an attempt carry one node (`OneNode`), so a complete snapshot removes
  attempts of the source only.  An incoming record, in contrast, removes whatever the
  board holds for the attempt it names, under whichever node.
-/
import Gump.Hiccup.Keeper

set_option autoImplicit false

namespace Gump.Hiccup

open Gump.Foundation Gump.Types Gump.Memory PresenceBoard

namespace PresenceBoard

/-! ## Reports -/

section Decoding

variable [Blake3] [UuidParser]

/-- What is decoded comes from a record that has not expired. -/
theorem exists_record_of_mem {source : NodeId} {now : Nat} {p : Presence}
    {records : List KeeperPresenceV1} : ∀ {ps : List Presence},
    decodeRecords source now records = .ok ps → p ∈ ps →
      ∃ r ∈ records, now < r.expiresAtMs ∧ decodeRecord source r = .ok p := by
  induction records with
  | nil =>
    intro ps h hp
    cases h
    cases hp
  | cons r rest ih =>
    intro ps h hp
    rw [decodeRecords] at h
    split_ifs at h with hexpired
    · obtain ⟨r', hr', hrecord⟩ := ih h hp
      exact ⟨r', List.mem_cons_of_mem _ hr', hrecord⟩
    · obtain ⟨q, hq, h⟩ := except_bind_eq_ok.mp h
      obtain ⟨qs, hqs, h⟩ := except_bind_eq_ok.mp h
      cases h
      rcases List.mem_cons.mp hp with rfl | hrest
      · exact ⟨r, List.mem_cons_self, Nat.not_le.mp hexpired, hq⟩
      · obtain ⟨r', hr', hrecord⟩ := ih hqs hrest
        exact ⟨r', List.mem_cons_of_mem _ hr', hrecord⟩

/-- A record is taken for its source node only. -/
theorem nodeId_of_decodeRecord {source : NodeId} {r : KeeperPresenceV1} {p : Presence}
    (h : decodeRecord source r = .ok p) : p.stamp.nodeId = source := by
  -- the eight fields that are parsed before the node is compared
  iterate 8 obtain ⟨_, -, h⟩ := except_bind_eq_ok.mp h
  split_ifs at h with hnode
  cases h
  exact hnode

variable [KeeperReader]

theorem decodeSnapshot_eq_ok_iff {snapshot : String} {now : Nat} {r : Report} :
    decodeSnapshot snapshot now = .ok r ↔
      snapshot.utf8ByteSize ≤ maxClusterSnapshotBytes ∧
        ∃ s, KeeperReader.fromStr snapshot = .ok s ∧ s.schema = keeperSchema ∧
          recordId s.nodeId "invalid Hiccup snapshot node id" = .ok r.source ∧
          decodeRecords r.source now s.records = .ok r.incoming ∧ s.complete = r.complete := by
  unfold decodeSnapshot
  constructor
  · intro h
    split_ifs at h with hsize
    refine ⟨Nat.not_lt.mp hsize, ?_⟩
    cases hread : KeeperReader.fromStr snapshot with
    | error e => simp [hread] at h
    | ok s =>
      simp only [hread] at h
      split_ifs at h with hschema
      obtain ⟨source, hsource, h⟩ := except_bind_eq_ok.mp h
      obtain ⟨incoming, hincoming, h⟩ := except_bind_eq_ok.mp h
      cases h
      exact ⟨s, rfl, hschema, hsource, hincoming, rfl⟩
  · rintro ⟨hsize, s, hread, hschema, hsource, hincoming, hcomplete⟩
    rw [if_neg (Nat.not_lt.mpr hsize)]
    simp only [hread, hschema, if_true]
    refine except_bind_eq_ok.mpr ⟨_, hsource, except_bind_eq_ok.mpr ⟨_, hincoming, ?_⟩⟩
    rw [hcomplete]
    rfl

theorem mergeClusterSnapshot_eq (b : PresenceBoard) {snapshot : String} {now : Nat} {r : Report}
    (h : decodeSnapshot snapshot now = .ok r) :
    b.mergeClusterSnapshot snapshot now = (.ok r.incoming.length, b.edits (b.reportEdits r)) := by
  rw [← mergeReport_eq_edits, mergeClusterSnapshot, h]

theorem nodeId_of_decodeSnapshot {snapshot : String} {now : Nat} {r : Report}
    (h : decodeSnapshot snapshot now = .ok r) {p : Presence} (hp : p ∈ r.incoming) :
    p.stamp.nodeId = r.source := by
  obtain ⟨-, s, -, -, -, hrecords, -⟩ := decodeSnapshot_eq_ok_iff.mp h
  obtain ⟨record, -, -, hrecord⟩ := exists_record_of_mem hrecords hp
  exact nodeId_of_decodeRecord hrecord

end Decoding

/-! ## One node for each attempt -/

theorem exists_look_of_presenceForAttempt {b : PresenceBoard} {a : AttemptId} {p : Presence}
    (h : b.presenceForAttempt a = some p) : ∃ t, b.look t a = some p := by
  obtain ⟨t, -, ht⟩ := Option.bind_eq_some_iff.mp h
  exact ⟨t, ht⟩

/-- All presences of an attempt carry one node. -/
def OneNode (b : PresenceBoard) : Prop :=
  ∀ t t' a p p', b.look t a = some p → b.look t' a = some p' → p.stamp.nodeId = p'.stamp.nodeId

/-- An attempt that departs has its presences from the source, and is not reported. -/
theorem OneNode.of_mem_departed {b : PresenceBoard} (h : b.OneNode) {r : Report} {a : AttemptId}
    (ha : a ∈ b.departed r) : a ∉ r.incoming.map Presence.attempt ∧
      ∀ t p, b.look t a = some p → p.stamp.nodeId = r.source := by
  unfold departed at ha
  split_ifs at ha
  · rw [List.mem_filter] at ha
    cases hp : b.presenceForAttempt a with
    | none => simp [hp] at ha
    | some q =>
      simp only [hp, Option.map_some, Option.getD_some, Bool.and_eq_true, decide_eq_true_iff,
        Bool.not_eq_true', decide_eq_false_iff_not] at ha
      obtain ⟨t', ht'⟩ := exists_look_of_presenceForAttempt hp
      exact ⟨ha.2.2, fun t p hlook => (h t t' a p q hlook ht').trans ha.2.1⟩
  · cases ha

/-- A report keeps the presences of other nodes exactly when it names no attempt that the
board has under another node. -/
theorem Sound.reportEdits_touch_iff {b : PresenceBoard} (h : b.Sound) (hone : b.OneNode)
    {r : Report} (hnode : ∀ p ∈ r.incoming, p.stamp.nodeId = r.source) :
    (∀ t a p, p.stamp.nodeId ≠ r.source →
      ((b.edits (b.reportEdits r)).look t a = some p ↔ b.look t a = some p)) ↔
      ∀ q ∈ r.incoming, ∀ t p, b.look t q.attempt = some p → p.stamp.nodeId = r.source := by
  have hinsert : ∀ p, Edit.insert p ∈ b.reportEdits r ↔ p ∈ r.incoming := by
    intro p
    simp [reportEdits, mem_incomingEdits_insert]
  have hremove : ∀ q ∈ r.incoming, Edit.remove q.attempt ∈ b.reportEdits r := fun q hq =>
    List.mem_append_right _
      (mem_incomingEdits_remove.mpr ⟨List.mem_map_of_mem hq, List.not_mem_nil⟩)
  constructor
  · intro hkeeps q hq t p hlook
    by_contra hother
    rcases h.look_edits ((hkeeps t q.attempt p hother).mpr hlook) with hin | ⟨-, hkept⟩
    · exact hother (hnode p ((hinsert p).mp hin))
    · exact hkept (hremove q hq)
  · intro hclear t a p hother
    constructor
    · intro hlook
      rcases h.look_edits hlook with hin | ⟨hold, -⟩
      · exact absurd (hnode p ((hinsert p).mp hin)) hother
      · exact hold
    · intro hlook
      rw [h.look_edits_of_ne ?_]
      · exact hlook
      · intro e he
        rcases List.mem_append.mp he with hdeparted | hincoming
        · obtain ⟨a', ha', rfl⟩ := List.mem_map.mp hdeparted
          rintro rfl
          exact hother ((hone.of_mem_departed ha').2 t p hlook)
        · obtain ⟨q, hq, hattempt⟩ := attempt_of_mem_incomingEdits hincoming
          rintro rfl
          exact hother (hclear q hq t p (hattempt ▸ hlook))

section Runs

variable [Blake3] [UuidParser] [KeeperReader]

/-- What a call offers for one attempt carries one node. -/
theorem nodeId_of_offered {op : BoardOp} {p q : Presence} (hp : p ∈ offered op)
    (hq : q ∈ offered op) : p.stamp.nodeId = q.stamp.nodeId := by
  cases op with
  | upsert resolved stamp decl expiresAt =>
    rw [stamp_of_mem_declared hp, stamp_of_mem_declared hq]
  | upsertCapabilities stamp capabilities expiresAt =>
    rw [stamp_of_mem_advertised hp, stamp_of_mem_advertised hq]
  | removeAttempt attempt => cases hp
  | fenceAttempt attempt fence => cases hp
  | expire now => cases hp
  | merge snapshot now =>
    simp only [offered] at hp hq
    cases hdecode : decodeSnapshot snapshot now with
    | error e => simp [hdecode] at hp
    | ok r =>
      rw [hdecode] at hp hq
      rw [nodeId_of_decodeSnapshot hdecode hp, nodeId_of_decodeSnapshot hdecode hq]

theorem OneNode.step {b : PresenceBoard} (h : b.OneNode) (hsound : b.Sound) (op : BoardOp) :
    (b.step op).1.OneNode := by
  intro t t' a p p' hp hp'
  rcases hsound.look_step hp with ⟨hin, hd⟩ | ⟨hold, hd⟩
  · rcases hsound.look_step hp' with ⟨hin', -⟩ | ⟨-, hd'⟩
    · exact nodeId_of_offered hin hin'
    · exact absurd hd hd'
  · rcases hsound.look_step hp' with ⟨-, hd'⟩ | ⟨hold', -⟩
    · exact absurd hd' hd
    · exact h t t' a p p' hold hold'

theorem oneNode_run (ops : List BoardOp) : (runFrom PresenceBoard.step new ops).OneNode :=
  (runFrom_invariant (P := fun b : PresenceBoard => b.Sound ∧ b.OneNode)
    (fun _ op h => ⟨h.1.step op, h.2.step h.1 op⟩)
    ⟨sound_new, fun _ _ _ _ _ h => by cases h⟩ ops).2

/-- A merge that fails changes nothing.  One that succeeds keeps the presences of other
nodes exactly when none of its unexpired records names an attempt that the board has
under another node. -/
theorem merge_touches_source_iff (ops : List BoardOp) (snapshot : String) (now : Nat) :
    (∀ e, decodeSnapshot snapshot now = .error e →
      ((runFrom PresenceBoard.step new ops).mergeClusterSnapshot snapshot now).2 =
        runFrom PresenceBoard.step new ops) ∧
    ∀ r, decodeSnapshot snapshot now = .ok r →
      ((∀ t a p, p.stamp.nodeId ≠ r.source →
          (((runFrom PresenceBoard.step new ops).mergeClusterSnapshot snapshot now).2.look t a =
            some p ↔ (runFrom PresenceBoard.step new ops).look t a = some p)) ↔
        ∀ q ∈ r.incoming, ∀ t p,
          (runFrom PresenceBoard.step new ops).look t q.attempt = some p →
            p.stamp.nodeId = r.source) := by
  generalize hb : runFrom PresenceBoard.step new ops = b
  have hsound : b.Sound := hb ▸ sound_run ops
  have hone : b.OneNode := hb ▸ oneNode_run ops
  constructor
  · intro e he
    rw [mergeClusterSnapshot, he]
  · intro r hr
    rw [b.mergeClusterSnapshot_eq hr]
    exact hsound.reportEdits_touch_iff hone fun p hp => nodeId_of_decodeSnapshot hr hp

end Runs

end PresenceBoard

namespace Sample

/-- A declaration without data. -/
def plainDeclaration : Declaration := ⟨none, none, none, none, none⟩

/-- An attempt is present on the topic `a`. -/
def present (node attempt : UInt8) : BoardOp :=
  .upsert ⟨some topicA, [topicA]⟩ (stamp node attempt) plainDeclaration 60000

/-- The snapshot of node 8, which has run attempt 6. -/
def snapshotOfEight : KeeperSnapshotV1 :=
  letI := blake3
  ⟨keeperSchema, toHyphenated (uuid 8), true,
    [keeperRecord (declaredPresence topicA (stamp 8 6) plainDeclaration 60000)]⟩

theorem decode_snapshotOfEight : letI := blake3; letI := uuidParser
    letI := KeeperReader.reading snapshotOfEight
    decodeSnapshot snapshotOfEight.text 1000 = .ok ⟨uuid 8, true,
      [declaredPresence topicA (stamp 8 6) plainDeclaration 60000]⟩ :=
  (@decodeSnapshot_eq_ok_iff blake3 uuidParser (KeeperReader.reading snapshotOfEight) _ _ _).mpr
    ⟨by decide +kernel, snapshotOfEight, if_pos rfl, rfl, by decide +kernel, rfl, rfl⟩

end Sample

/-- The presence of attempt 5 on node 7 stays when node 8 reports its attempt 6 again. -/
theorem local_presence_kept : letI := Sample.blake3; letI := Sample.uuidParser
    letI := KeeperReader.reading Sample.snapshotOfEight
    let board := runFrom PresenceBoard.step new [Sample.present 7 5, Sample.present 8 6]
    let merged := board.mergeClusterSnapshot Sample.snapshotOfEight.text 1000
    merged.1 = .ok 1 ∧ ∃ p, p.stamp.nodeId = Sample.uuid 7 ∧
      board.look Sample.topicA (Sample.uuid 5) = some p ∧
      merged.2.look Sample.topicA (Sample.uuid 5) = some p := by
  let := Sample.blake3
  let := Sample.uuidParser
  let := KeeperReader.reading Sample.snapshotOfEight
  intro board merged
  have hkeeps := ((merge_touches_source_iff [Sample.present 7 5, Sample.present 8 6] _ _).2 _
    Sample.decode_snapshotOfEight).mpr fun q hq t p hlook => by
      rw [List.mem_singleton.mp hq] at hlook
      rcases (sound_run [Sample.present 7 5]).look_step hlook with ⟨hin, -⟩ | ⟨-, hnot⟩
      · rw [stamp_of_mem_declared hin]
        rfl
      · exact absurd (List.mem_singleton_self _) hnot
  have hlocal : (board.look Sample.topicA (Sample.uuid 5)).map (·.stamp.nodeId) =
      some (Sample.uuid 7) := by decide +kernel
  obtain ⟨p, hlook, hnode⟩ := Option.map_eq_some_iff.mp hlocal
  refine ⟨congrArg Prod.fst (mergeClusterSnapshot_eq board Sample.decode_snapshotOfEight), p,
    hnode, hlook, (hkeeps _ _ _ ?_).mpr hlook⟩
  rw [hnode]
  decide +kernel

/-- A snapshot of node 8 replaces the presence of the local node 7. -/
theorem foreign_record_replaces : letI := Sample.blake3; letI := Sample.uuidParser
    letI := KeeperReader.reading Sample.snapshotOfEight
    let board := runFrom PresenceBoard.step new [Sample.present 7 6]
    let merged := board.mergeClusterSnapshot Sample.snapshotOfEight.text 1000
    merged.1.isOk = true ∧
      (board.look Sample.topicA (Sample.uuid 6)).map (·.stamp.nodeId) = some (Sample.uuid 7) ∧
      (merged.2.look Sample.topicA (Sample.uuid 6)).map (·.stamp.nodeId) =
        some (Sample.uuid 8) := by
  let := Sample.blake3
  let := Sample.uuidParser
  let := KeeperReader.reading Sample.snapshotOfEight
  intro board merged
  have hmerged : merged = _ := mergeClusterSnapshot_eq board Sample.decode_snapshotOfEight
  rw [hmerged]
  refine ⟨rfl, ?_, ?_⟩
  · decide +kernel
  · decide +kernel

end Gump.Hiccup
