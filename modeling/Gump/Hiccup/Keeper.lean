/-
  Hiccup/Keeper.lean --- runs of a board.

  Each call on a board is a sequence of edits (`step_eq_edits`), so what the edits
  keep holds in every run.  `Sound` is one such property.  Two more hold in runs in
  which no step leaves a trace of what it did not take: no topic is without a
  publisher, and an attempt's presences are those of its latest accepted declaration.
-/
import Gump.Foundation.Run
import Gump.Hiccup.Snapshot

set_option autoImplicit false

namespace Gump.Hiccup

open Gump.Foundation Gump.Types Gump.Memory PresenceBoard

/-- A call on a board. -/
inductive BoardOp where
  | upsert (resolved : ResolvedTopics) (stamp : PlacementStamp) (decl : Declaration)
      (expiresAt : Nat)
  | upsertCapabilities (stamp : PlacementStamp) (capabilities : OrdMap String Value)
      (expiresAt : Nat)
  | removeAttempt (attempt : AttemptId)
  | fenceAttempt (attempt : AttemptId) (fence : Digest)
  | expire (now : Nat)
  | merge (snapshot : String) (now : Nat)

namespace PresenceBoard

section Runs

variable [Blake3] [UuidParser] [KeeperReader]

/-- One call, and whether it was accepted. -/
def step (b : PresenceBoard) : BoardOp → PresenceBoard × Bool
  | .upsert resolved stamp decl expiresAt => (b.upsert resolved stamp decl expiresAt, true)
  | .upsertCapabilities stamp capabilities expiresAt =>
    let result := b.upsertCapabilities stamp capabilities expiresAt
    (result.2, result.1.isOk)
  | .removeAttempt attempt => (b.removeAttempt attempt, true)
  | .fenceAttempt attempt fence => (b.fenceAttempt attempt fence, true)
  | .expire now => (b.expire now, true)
  | .merge snapshot now =>
    let result := b.mergeClusterSnapshot snapshot now
    (result.2, result.1.isOk)

/-- The presences that a call offers. -/
def offered : BoardOp → List Presence
  | .upsert resolved stamp decl expiresAt => declared resolved stamp decl expiresAt
  | .upsertCapabilities stamp capabilities expiresAt => advertised stamp capabilities expiresAt
  | .merge snapshot now =>
    match decodeSnapshot snapshot now with
    | .error _ => []
    | .ok r => r.incoming
  | _ => []

/-- The edits of a call. -/
def opEdits (b : PresenceBoard) : BoardOp → List Edit
  | .upsert resolved stamp decl expiresAt =>
    .remove stamp.attemptId :: (declared resolved stamp decl expiresAt).map .insert
  | .upsertCapabilities stamp capabilities expiresAt =>
    .remove stamp.attemptId :: (advertised stamp capabilities expiresAt).map .insert
  | .removeAttempt attempt => [.remove attempt]
  | .fenceAttempt attempt fence =>
    if ((b.presenceForAttempt attempt).map (·.stamp.fenceMatches fence)).getD true then
      [.remove attempt]
    else []
  | .expire now => (b.expiredAttempts now).map .remove
  | .merge snapshot now =>
    match decodeSnapshot snapshot now with
    | .error _ => []
    | .ok r => b.reportEdits r

theorem step_eq_edits (b : PresenceBoard) (op : BoardOp) :
    (b.step op).1 = b.edits (b.opEdits op) := by
  cases op with
  | upsert resolved stamp decl expiresAt => exact upsert_eq_edits ..
  | upsertCapabilities stamp capabilities expiresAt => exact upsertCapabilities_eq_edits ..
  | removeAttempt attempt => rfl
  | fenceAttempt attempt fence =>
    simp only [step, opEdits, fenceAttempt]
    split_ifs <;> rfl
  | expire now => exact foldl_removeAttempt ..
  | merge snapshot now =>
    simp only [step, opEdits, mergeClusterSnapshot]
    cases decodeSnapshot snapshot now with
    | error e => rfl
    | ok r => exact mergeReport_eq_edits ..

variable {b : PresenceBoard} {op : BoardOp} {p : Presence}

theorem mem_opEdits_insert : Edit.insert p ∈ b.opEdits op ↔ p ∈ offered op := by
  cases op with
  | upsert resolved stamp decl expiresAt => simp [opEdits, offered]
  | upsertCapabilities stamp capabilities expiresAt => simp [opEdits, offered]
  | removeAttempt attempt => simp [opEdits, offered]
  | fenceAttempt attempt fence =>
    simp only [opEdits, offered]
    split_ifs <;> simp
  | expire now => simp [opEdits, offered]
  | merge snapshot now =>
    simp only [opEdits, offered]
    cases decodeSnapshot snapshot now with
    | error e => simp
    | ok r => simp [reportEdits, mem_incomingEdits_insert]

theorem Sound.step (h : b.Sound) (op : BoardOp) : (b.step op).1.Sound := by
  rw [step_eq_edits]
  exact h.edits _

/-- Both indexes and the byte count agree in every run. -/
theorem sound_run (ops : List BoardOp) : (runFrom PresenceBoard.step new ops).Sound :=
  runFrom_invariant (fun _ op h => h.step op) sound_new ops

/-! ## Steps that leave no trace of what they do not take -/

/-- The board has the bytes for all that a call offers, or there is, on the topic of a
presence that it offers, an attempt that the call does not concern. -/
def Room (b : PresenceBoard) (op : BoardOp) : Prop :=
  ∀ p ∈ offered op, b.approxBytes + ((offered op).map Presence.size).sum ≤ maxKeeperBytes ∨
    ∃ a, (b.look p.canonicalTopic a).isSome = true ∧ ∀ e ∈ b.opEdits op, a ≠ e.attempt

/-- Each capability is a topic, or the first one is not. -/
def NamesAgree : BoardOp → Prop
  | .upsertCapabilities stamp capabilities _ =>
    (∀ e ∈ capabilities.entries, (capabilityTopic e.1 stamp.workloadId).isOk = true) ∨
      ∀ e ∈ capabilities.entries.head?, (capabilityTopic e.1 stamp.workloadId).isOk = false
  | _ => True

theorem offeredBytes_opEdits (b : PresenceBoard) (op : BoardOp) :
    offeredBytes (b.opEdits op) = ((offered op).map Presence.size).sum := by
  cases op with
  | upsert resolved stamp decl expiresAt =>
    exact (Nat.zero_add _).trans (offeredBytes_insert _)
  | upsertCapabilities stamp capabilities expiresAt =>
    exact (Nat.zero_add _).trans (offeredBytes_insert _)
  | removeAttempt attempt => rfl
  | fenceAttempt attempt fence =>
    simp only [opEdits, offered]
    split_ifs <;> rfl
  | expire now => exact offeredBytes_remove _
  | merge snapshot now =>
    simp only [opEdits, offered]
    cases decodeSnapshot snapshot now with
    | error e => rfl
    | ok r =>
      simp only [reportEdits, offeredBytes_append, offeredBytes_remove,
        offeredBytes_incomingEdits, Nat.zero_add]

theorem Peopled.step (h : b.Peopled) (hsound : b.Sound) (hroom : b.Room op) :
    (b.step op).1.Peopled := by
  rw [step_eq_edits]
  refine h.edits hsound fun p hp => ?_
  rw [offeredBytes_opEdits]
  exact hroom p (mem_opEdits_insert.mp hp)

/-! ## The latest accepted declaration -/

/-- The attempts that a call makes a declaration for. -/
def declarers : BoardOp → List AttemptId
  | .upsert _ stamp _ _ => [stamp.attemptId]
  | .upsertCapabilities stamp _ _ => [stamp.attemptId]
  | .merge snapshot now =>
    match decodeSnapshot snapshot now with
    | .error _ => []
    | .ok r => r.incoming.map Presence.attempt
  | _ => []

/-- A step of the board. -/
abbrev BoardStep : Type := Transition PresenceBoard BoardOp Bool

/-- The presences of an attempt's latest accepted declaration. -/
def latest (past : List BoardStep) (a : AttemptId) : List Presence :=
  past.foldl (fun last tr =>
    if tr.output = true ∧ a ∈ declarers tr.input then
      (offered tr.input).filter fun p => decide (p.attempt = a)
    else last) []

theorem latest_concat (past : List BoardStep) (tr : BoardStep) (a : AttemptId) :
    latest (past ++ [tr]) a =
      if tr.output = true ∧ a ∈ declarers tr.input then
        (offered tr.input).filter fun p => decide (p.attempt = a)
      else latest past a := by
  rw [latest, List.foldl_append]
  rfl

/-- Who declares is removed first. -/
theorem remove_mem_opEdits {a : AttemptId} (h : a ∈ declarers op) :
    Edit.remove a ∈ b.opEdits op := by
  cases op with
  | upsert resolved stamp decl expiresAt => exact List.mem_singleton.mp h ▸ List.mem_cons_self
  | upsertCapabilities stamp capabilities expiresAt =>
    exact List.mem_singleton.mp h ▸ List.mem_cons_self
  | removeAttempt attempt => cases h
  | fenceAttempt attempt fence => cases h
  | expire now => cases h
  | merge snapshot now =>
    simp only [declarers] at h
    simp only [opEdits]
    cases hdecode : decodeSnapshot snapshot now with
    | error e => simp [hdecode] at h
    | ok r =>
      rw [hdecode] at h
      exact List.mem_append_right _ (mem_incomingEdits_remove.mpr ⟨h, List.not_mem_nil⟩)

/-- What is offered is declared for its own attempt. -/
theorem mem_declarers_of_offered (h : p ∈ offered op) : p.attempt ∈ declarers op := by
  cases op with
  | upsert resolved stamp decl expiresAt =>
    rw [Presence.attempt, stamp_of_mem_declared h]
    exact List.mem_singleton_self _
  | upsertCapabilities stamp capabilities expiresAt =>
    rw [Presence.attempt, stamp_of_mem_advertised h]
    exact List.mem_singleton_self _
  | removeAttempt attempt => cases h
  | fenceAttempt attempt fence => cases h
  | expire now => cases h
  | merge snapshot now =>
    simp only [offered, declarers] at h ⊢
    cases hdecode : decodeSnapshot snapshot now with
    | error e => simp [hdecode] at h
    | ok r =>
      rw [hdecode] at h
      exact List.mem_map_of_mem h

/-- A call that is not accepted offers nothing, when its names agree. -/
theorem accepted_or_offers_nothing (h : NamesAgree op) :
    (b.step op).2 = true ∨ offered op = [] := by
  cases op with
  | upsert resolved stamp decl expiresAt => exact .inl rfl
  | upsertCapabilities stamp capabilities expiresAt =>
    exact upsertCapabilities_names b stamp capabilities expiresAt h
  | removeAttempt attempt => exact .inl rfl
  | fenceAttempt attempt fence => exact .inl rfl
  | expire now => exact .inl rfl
  | merge snapshot now =>
    simp only [PresenceBoard.step, offered, mergeClusterSnapshot]
    cases decodeSnapshot snapshot now with
    | error e => exact .inr rfl
    | ok r => exact .inl rfl

/-- What is on the board after a call was offered for its attempt, or was there and
the call does not declare the attempt. -/
theorem Sound.look_step (h : b.Sound) {t : CanonicalTopic} {a : AttemptId}
    (hlook : (b.step op).1.look t a = some p) :
    p ∈ offered op ∧ a ∈ declarers op ∨ b.look t a = some p ∧ a ∉ declarers op := by
  have hkey := (h.step op).keyed hlook
  rw [step_eq_edits] at hlook
  rcases h.look_edits hlook with hin | ⟨hold, hkept⟩
  · have hoffered := mem_opEdits_insert.mp hin
    exact .inl ⟨hoffered, hkey.2 ▸ mem_declarers_of_offered hoffered⟩
  · exact .inr ⟨hold, fun hd => hkept (remove_mem_opEdits hd)⟩

/-- An attempt's presences are those of its latest accepted declaration. -/
def FromLatest (past : List BoardStep) (b : PresenceBoard) : Prop :=
  ∀ t a p, b.look t a = some p → p ∈ latest past a

theorem FromLatest.step {past : List BoardStep} (h : FromLatest past b) (hsound : b.Sound)
    (hnames : NamesAgree op) :
    FromLatest (past ++ [⟨b, op, (b.step op).2, (b.step op).1⟩]) (b.step op).1 := by
  intro t a p hlook
  have hkey := (hsound.step op).keyed hlook
  rw [latest_concat]
  rcases hsound.look_step hlook with ⟨hoffered, hdeclared⟩ | ⟨hold, hnot⟩
  · have haccepted := (accepted_or_offers_nothing (b := b) hnames).resolve_right
      (List.ne_nil_of_mem hoffered)
    rw [if_pos ⟨haccepted, hdeclared⟩, List.mem_filter]
    exact ⟨hoffered, decide_eq_true hkey.2⟩
  · rw [if_neg fun hd => hnot hd.2]
    exact h t a p hold

/-- In every run both indexes and the byte count describe the same presences within the
bounds.  If each call has room for what it offers and each capability map is refused
at its first name or not at all, no topic is without a publisher and the presences of
an attempt come from its latest accepted declaration. -/
theorem board_invariant (ops : List BoardOp) :
    (runFrom PresenceBoard.step new ops).Sound ∧
    ((∀ tr ∈ transitions PresenceBoard.step new ops,
        tr.before.Room tr.input ∧ NamesAgree tr.input) →
      (runFrom PresenceBoard.step new ops).Peopled ∧
        FromLatest (transitions PresenceBoard.step new ops)
          (runFrom PresenceBoard.step new ops)) := by
  refine ⟨sound_run ops, ?_⟩
  refine (runFrom_history (P := fun (b : PresenceBoard) past => b.Sound ∧
    ((∀ tr ∈ past, tr.before.Room tr.input ∧ NamesAgree tr.input) →
      b.Peopled ∧ FromLatest past b)) ?_ ?_ ops).2
  · exact ⟨sound_new, fun _ => ⟨nofun, fun _ _ _ h => by cases h⟩⟩
  · rintro b past op ⟨hsound, hpast⟩
    refine ⟨hsound.step op, fun hclean => ?_⟩
    obtain ⟨hpeopled, hlatest⟩ := hpast fun tr htr => hclean tr (List.mem_append_left _ htr)
    obtain ⟨hroom, hnames⟩ := hclean _ (List.mem_append_right _ (List.mem_singleton_self _))
    exact ⟨hpeopled.step hsound hroom, hlatest.step hsound hnames⟩

end Runs

end PresenceBoard

namespace Sample

/-- The UUID library on the texts of the sample identifiers. -/
@[reducible] def uuidParser : UuidParser where
  parseStr text := (List.range 16).findSome? fun n =>
    if toHyphenated (uuid (UInt8.ofNat n)) = text then some (uuid (UInt8.ofNat n)) else none

/-- A snapshot without records. -/
def emptySnapshot : KeeperSnapshotV1 := ⟨keeperSchema, toHyphenated (uuid 8), true, []⟩

/-- A capability map with one name. -/
def advertiseA : BoardOp := .upsertCapabilities (stamp 7 6) (.ofList [("a", .object .empty)]) 60000

/-- A capability map whose second name is no topic. -/
def halfValid : BoardOp :=
  .upsertCapabilities (stamp 7 6)
    (.ofList [("a", .object .empty), ("b!", .object .empty)]) 60000

/-- The topic `a`. -/
def topicA : CanonicalTopic := ⟨"a", .inr ⟨by decide +kernel, by decide +kernel⟩⟩

end Sample

theorem advertised_once : letI := Sample.blake3; letI := Sample.uuidParser
    letI := KeeperReader.reading Sample.emptySnapshot
    (runFrom PresenceBoard.step PresenceBoard.new [Sample.advertiseA]).Peopled ∧
      FromLatest (transitions PresenceBoard.step PresenceBoard.new [Sample.advertiseA])
        (runFrom PresenceBoard.step PresenceBoard.new [Sample.advertiseA]) := by
  refine (@board_invariant Sample.blake3 Sample.uuidParser
    (KeeperReader.reading Sample.emptySnapshot) [Sample.advertiseA]).2 fun tr htr => ?_
  cases List.mem_singleton.mp htr
  refine ⟨fun p _ => .inl ?_, .inl ?_⟩
  · decide +kernel
  · decide +kernel

/-- A refused capability map leaves the presences before the name that was refused. -/
theorem refused_capability_stays : letI := Sample.blake3; letI := Sample.uuidParser
    letI := KeeperReader.reading Sample.emptySnapshot
    (PresenceBoard.new.step Sample.halfValid).2 = false ∧
      ¬ FromLatest (transitions PresenceBoard.step PresenceBoard.new [Sample.halfValid])
        (runFrom PresenceBoard.step PresenceBoard.new [Sample.halfValid]) := by
  let past := @transitions _ _ _ (@PresenceBoard.step Sample.blake3 Sample.uuidParser
    (KeeperReader.reading Sample.emptySnapshot)) PresenceBoard.new [Sample.halfValid]
  let board := @runFrom _ _ _ (@PresenceBoard.step Sample.blake3 Sample.uuidParser
    (KeeperReader.reading Sample.emptySnapshot)) PresenceBoard.new [Sample.halfValid]
  refine ⟨by decide +kernel, fun h => ?_⟩
  have hsome : (board.look Sample.topicA (Sample.uuid 6)).isSome = true := by decide +kernel
  have hnone : (@latest Sample.blake3 Sample.uuidParser
      (KeeperReader.reading Sample.emptySnapshot) past (Sample.uuid 6)).isEmpty = true := by
    decide +kernel
  obtain ⟨p, hp⟩ := Option.isSome_iff_exists.mp hsome
  exact List.ne_nil_of_mem (h _ _ p hp) (List.isEmpty_iff.mp hnone)

end Gump.Hiccup
