/-
  Hiccup/Introductions.lean --- who is introduced after a run of a board.

  A presence lasts from the call that offers it until a call ends it: a new
  declaration for its attempt, the removal of the attempt or an expiry.  Both kinds of
  delivery introduce lasting presences only.
-/
import Gump.Hiccup.Delivery
import Gump.Hiccup.Keeper

set_option autoImplicit false

namespace Gump.Hiccup

open Gump.Foundation Gump.Types Gump.Memory PresenceBoard

section Runs

variable [Blake3] [UuidParser] [KeeperReader]

/-- The call ends the presence. -/
def Presence.EndedBy (p : Presence) : BoardOp → Prop
  | .removeAttempt attempt => p.attempt = attempt
  | .expire now => p.expiresAt ≤ now
  | op => p.attempt ∈ declarers op

/-- The presence was offered in the run and not ended since. -/
def Presence.Lasts (p : Presence) (ops : List BoardOp) : Prop :=
  ∃ before op after, ops = before ++ op :: after ∧ p ∈ offered op ∧ ∀ op' ∈ after, ¬ p.EndedBy op'

variable {t : CanonicalTopic} {a : AttemptId} {p : Presence}

omit [Blake3] [UuidParser] [KeeperReader] in
theorem PresenceBoard.mem_expiredAttempts {b : PresenceBoard} {now : Nat}
    (hlook : b.look t a = some p) (h : p.expiresAt ≤ now) : a ∈ b.expiredAttempts now := by
  cases hbucket : b.byTopic.get t with
  | none => simp [look, bucketOf, hbucket] at hlook
  | some bucket =>
    have hget : bucket.get a = some p := by simpa [look, bucketOf, hbucket] using hlook
    refine List.mem_flatMap.mpr ⟨bucket, OrdMap.mem_values_iff.mpr ⟨t, hbucket⟩,
      List.mem_map.mpr ⟨(a, p), List.mem_filter.mpr ⟨OrdMap.mem_entries_iff.mpr hget, ?_⟩, rfl⟩⟩
    exact decide_eq_true h

/-- A call removes the attempt of a presence that it ends. -/
theorem PresenceBoard.Sound.remove_of_endedBy {b : PresenceBoard} (h : b.Sound)
    (hlook : b.look t a = some p) {op : BoardOp} (hends : p.EndedBy op) :
    Edit.remove a ∈ b.opEdits op := by
  obtain ⟨-, rfl⟩ := h.keyed hlook
  cases op with
  | removeAttempt attempt => exact List.mem_singleton.mpr (congrArg Edit.remove hends)
  | expire now => exact List.mem_map_of_mem (mem_expiredAttempts hlook hends)
  | upsert | upsertCapabilities | fenceAttempt | merge => exact remove_mem_opEdits hends

theorem lasts_of_look_run {ops : List BoardOp}
    (h : (runFrom PresenceBoard.step new ops).look t a = some p) : p.Lasts ops := by
  induction ops using List.reverseRecOn with
  | nil => cases h
  | append_singleton rest op ih =>
    rw [runFrom_concat, step_eq_edits] at h
    rcases (sound_run rest).look_edits h with hin | ⟨hold, hkept⟩
    · exact ⟨rest, op, [], rfl, mem_opEdits_insert.mp hin, by simp⟩
    · obtain ⟨before, offer, after, rfl, hp, hafter⟩ := ih hold
      refine ⟨before, offer, after ++ [op], by simp, hp, List.forall_mem_append.mpr
        ⟨hafter, List.forall_mem_singleton.mpr fun hends => ?_⟩⟩
      exact hkept ((sound_run _).remove_of_endedBy hold hends)

/-! ## Deliveries -/

omit [Blake3] [UuidParser] [KeeperReader] in
/-- A page introduces matches. -/
theorem exists_of_mem_messages {matched : List Presence} {workload : WorkloadId} {offset : Nat}
    {m : Introduction} (h : m ∈ (deliveryFromMatches matched workload offset).1.messages) :
    ∃ p ∈ matched, m = introduction workload p := by
  rw [messages_eq_fillPage] at h
  obtain ⟨k, -, hpage, -⟩ := fillPage_spec workload
    ((matched.rotate offset).take maxIntroductionsPerPost) []
  rw [hpage, List.nil_append] at h
  obtain ⟨p, hp, rfl⟩ := List.mem_map.mp h
  exact ⟨p, List.mem_rotate.mp (List.mem_of_mem_take (List.mem_of_mem_take hp)), rfl⟩

/-- After any calls on a board, a listener is introduced to other attempts, by
presences that last.  To a listener to topics they are on a topic that it listens to
and is authorized for; the directory has those that are visible in it. -/
theorem introductions_last (ops : List BoardOp) (listen : List CanonicalTopic)
    (listener : AttemptId) (workload : WorkloadId) (offset : Nat)
    (authorize : CanonicalTopic → Bool) :
    let b := runFrom PresenceBoard.step new ops
    (∀ m ∈ (b.deliver listen listener workload offset authorize).1.messages,
      ∃ p, m = introduction workload p ∧ p.Lasts ops ∧ p.attempt ≠ listener ∧
        p.canonicalTopic ∈ listen ∧ authorize p.canonicalTopic = true) ∧
    ∀ m ∈ (b.deliverDirectory listener workload offset).1.messages,
      ∃ p, m = introduction workload p ∧ p.Lasts ops ∧ p.attempt ≠ listener ∧
        p.directoryVisible = true := by
  intro b
  refine ⟨fun m hm => ?_, fun m hm => ?_⟩
  · obtain ⟨p, hp, rfl⟩ := exists_of_mem_messages hm
    obtain ⟨topic, htopic, hp⟩ := List.mem_flatMap.mp (List.mem_mergeSort.mp hp)
    obtain ⟨hin, hauthorized⟩ := List.mem_filter.mp htopic
    obtain ⟨hp, hother⟩ := List.mem_filter.mp hp
    obtain ⟨a, hlook⟩ := OrdMap.mem_values_iff.mp hp
    obtain ⟨rfl, -⟩ := (sound_run ops).keyed hlook
    exact ⟨p, rfl, lasts_of_look_run hlook, bne_iff_ne.mp hother, hin, hauthorized⟩
  · obtain ⟨p, hp, rfl⟩ := exists_of_mem_messages hm
    obtain ⟨hp, hshown⟩ := List.mem_filter.mp (List.mem_mergeSort.mp hp)
    obtain ⟨bucket, hbucket, hp⟩ := List.mem_flatMap.mp hp
    obtain ⟨t, hbucket⟩ := OrdMap.mem_values_iff.mp hbucket
    obtain ⟨a, hp⟩ := OrdMap.mem_values_iff.mp hp
    have hlook : b.look t a = some p := by simpa [look, bucketOf, hbucket] using hp
    obtain ⟨hvisible, hother⟩ := Bool.and_eq_true_iff.mp hshown
    exact ⟨p, rfl, lasts_of_look_run hlook, bne_iff_ne.mp hother, hvisible⟩

end Runs

namespace Sample

/-- What a listener in the directory is sent after the sample attempt has advertised. -/
def directory : List Introduction :=
  letI := blake3; letI := uuidParser; letI := KeeperReader.reading emptySnapshot
  ((runFrom PresenceBoard.step new [advertiseA]).deliverDirectory (uuid 9) (uuid 2) 0).1.messages

end Sample

/-- The sample attempt is introduced. -/
theorem advertised_introduced : ∃ m ∈ Sample.directory, ∃ p, m = introduction (Sample.uuid 2) p ∧
    p.attempt ≠ Sample.uuid 9 ∧ p.directoryVisible = true := by
  obtain ⟨m, hm⟩ := List.exists_mem_of_ne_nil Sample.directory (by decide +kernel)
  obtain ⟨p, hp, -, hshown⟩ := (@introductions_last Sample.blake3 Sample.uuidParser
    (KeeperReader.reading Sample.emptySnapshot) [Sample.advertiseA] [] (Sample.uuid 9)
    (Sample.uuid 2) 0 fun _ => true).2 m hm
  exact ⟨m, hm, p, hp, hshown⟩

end Gump.Hiccup
