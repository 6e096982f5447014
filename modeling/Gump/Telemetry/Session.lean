/-
  Telemetry/Session.lean --- what a subscriber is told of the records of a topic.

  A session is a ring with one subscriber that was opened at some moment.  It keeps the
  log of all records that were pushed and the events that the polls returned.  The ring
  holds the log from the number of dropped records on, and the cursor stands at the sum
  of the generation that the subscriber has seen and its index.

  When records have been dropped, the next poll puts the cursor at the front of the ring.
  The run lemma, `Consistent.run`, shows what this preserves: each record of a topic is
  told of once, or lies in one exact gap, as long as no cursor is put back before records
  that were read and none is put past records of a topic that was not told of before.
-/
import Gump.Foundation.Account
import Gump.Foundation.Run
import Gump.Telemetry.Ring
import Mathlib.Data.List.Chain

set_option autoImplicit false

namespace Gump.Telemetry

open Gump.Foundation

/-! ## Topics -/

/-- The stream sequences of the records of a topic. -/
def sequences (topic : String) (records : List StreamRecord) : List Nat :=
  (records.filter (·.topic = topic)).map StreamRecord.streamSequence

/-- What an event tells of its topic. -/
def RingEvent.notice : RingEvent → Notice
  | .record r => .item r.streamSequence
  | .gap g => .gap g.fromSequence g.toSequence

/-- What the events tell of a topic. -/
def notices (topic : String) (events : List RingEvent) : List Notice :=
  (events.filter (·.topic = topic)).map RingEvent.notice

/-- Each topic has consecutive sequences, and all of them are 64-bit words. -/
structure Consecutive (records : List StreamRecord) : Prop where
  words : ∀ r ∈ records, r.streamSequence ≤ u64Max
  chain : ∀ topic, (sequences topic records).IsChain (fun a b => b = a + 1)

theorem sequences_append (topic : String) (xs ys : List StreamRecord) :
    sequences topic (xs ++ ys) = sequences topic xs ++ sequences topic ys := by
  simp [sequences]

variable {topic : String}

theorem sequences_cons_of_eq {r : StreamRecord} (h : r.topic = topic) (rest : List StreamRecord) :
    sequences topic (r :: rest) = r.streamSequence :: sequences topic rest := by
  simp [sequences, h]

variable {records : List StreamRecord}

theorem sequences_eq_nil (h : ∀ r ∈ records, r.topic ≠ topic) : sequences topic records = [] := by
  rw [sequences, List.map_eq_nil_iff, List.filter_eq_nil_iff]
  intro r hr
  simpa using h r hr

theorem mem_sequences {n : Nat} (h : n ∈ sequences topic records) :
    ∃ r ∈ records, r.topic = topic ∧ r.streamSequence = n := by
  obtain ⟨r, hr, heq⟩ := List.mem_map.mp h
  obtain ⟨hmem, htopic⟩ := List.mem_filter.mp hr
  exact ⟨r, hmem, of_decide_eq_true htopic, heq⟩

theorem Consecutive.increasing (h : Consecutive records) (topic : String) :
    (sequences topic records).Pairwise (· < ·) := by
  refine List.isChain_iff_pairwise.mp ((h.chain topic).imp ?_)
  intro a b hab
  exact hab ▸ Nat.lt_succ_self a

theorem Consecutive.of_append {xs ys : List StreamRecord} (h : Consecutive (xs ++ ys)) :
    Consecutive xs := by
  refine ⟨fun r hr => h.words r (List.mem_append_left _ hr), fun topic => ?_⟩
  have hchain := h.chain topic
  rw [sequences_append] at hchain
  exact hchain.left_of_append

theorem notices_concat_of_eq {e : RingEvent} (h : e.topic = topic) (events : List RingEvent) :
    notices topic (events ++ [e]) = notices topic events ++ [e.notice] := by
  simp [notices, h]

theorem notices_concat_of_ne {e : RingEvent} (h : e.topic ≠ topic) (events : List RingEvent) :
    notices topic (events ++ [e]) = notices topic events := by
  simp [notices, h]

/-! ## One topic -/

/-- How a topic stands: `since` are its sequences since the subscriber was opened,
`read` and `unread` those before the cursor and from it on, and `last` is the one the
subscriber remembers. -/
inductive Told (since read unread : List Nat) : Option Nat → List Notice → Prop where
  | nothing (hunread : unread = since) : Told since read unread none []
  | upTo {start last : Nat} {told : List Notice} (hstart : since.head? = some start)
      (hread : last ∈ read) (htold : (Account.upTo start).noteAll told = some (.upTo (last + 1))) :
      Told since read unread (some last) told
  | announced {start last : Nat} {told : List Notice} (hstart : since.head? = some start)
      (hunread : unread.head? = some last)
      (htold : (Account.upTo start).noteAll told = some (.announced last)) :
      Told since read unread (some last) told

namespace Told

variable {since read unread : List Nat} {last : Option Nat} {told : List Notice}

theorem explained (h : Told since read unread last told) {start : Nat}
    (hstart : since.head? = some start) : Explained start told := by
  cases h with
  | nothing => exact explained_of_noteAll (a := .upTo start) rfl
  | upTo hstart' _ htold =>
    cases hstart.symm.trans hstart'
    exact explained_of_noteAll htold
  | announced hstart' _ htold =>
    cases hstart.symm.trans hstart'
    exact explained_of_noteAll htold

/-- More records. -/
theorem push (h : Told since read unread last told) (more : List Nat) :
    Told (since ++ more) read (unread ++ more) last told := by
  have hhead : ∀ {xs : List Nat} {n : Nat}, xs.head? = some n → (xs ++ more).head? = some n := by
    intro xs n hn
    rw [List.head?_append, hn]
    rfl
  cases h with
  | nothing hunread => exact .nothing (hunread ▸ rfl)
  | upTo hstart hread htold => exact .upTo (hhead hstart) hread htold
  | announced hstart hunread htold => exact .announced (hhead hstart) (hhead hunread) htold

/-- The cursor passes records that are behind the last one told of. -/
theorem skip {passed : List Nat} (h : Told since read (passed ++ unread) last told)
    (hpassed : ∀ n ∈ passed, ∃ l ∈ last, l < n) : Told since (read ++ passed) unread last told := by
  cases h with
  | nothing hunread =>
    have hnone : passed = [] := List.eq_nil_iff_forall_not_mem.mpr fun n hn => by
      obtain ⟨l, hl, -⟩ := hpassed n hn
      cases hl
    rw [hnone, List.nil_append] at hunread
    exact .nothing hunread
  | upTo hstart hread htold => exact .upTo hstart (List.mem_append_left _ hread) htold
  | announced hstart hunread htold =>
    cases passed with
    | nil => exact .announced hstart hunread htold
    | cons n rest =>
      obtain ⟨l, hl, hlt⟩ := hpassed n List.mem_cons_self
      cases hl
      cases hunread
      exact absurd hlt (Nat.lt_irrefl _)

/-- An empty gap tells nothing. -/
theorem lag (h : Told since read unread last told) {l : Nat} (hlast : last = some l) (n : Nat) :
    Told since read unread last (told ++ [.gap n n]) := by
  have hnote : ∀ {start : Nat} {a : Account}, (Account.upTo start).noteAll told = some a →
      (Account.upTo start).noteAll (told ++ [.gap n n]) = some a :=
    fun htold => (Account.noteAll_concat _ htold).trans (Account.note_empty _ n)
  cases h with
  | nothing => cases hlast
  | upTo hstart hread htold => exact .upTo hstart hread (hnote htold)
  | announced hstart hunread htold => exact .announced hstart hunread (hnote htold)

/-- The record under the cursor is delivered, if none is missing before it. -/
theorem item {n : Nat} (h : Told since read (n :: unread) last told)
    (hread : ∀ l ∈ read, l < n) (hnext : ∀ l ∈ last, ¬ n > saturatingAdd l 1) :
    Told since (read ++ [n]) unread (some n) (told ++ [.item n]) := by
  have hmem : n ∈ read ++ [n] := List.mem_append_right _ List.mem_cons_self
  cases h with
  | nothing hunread =>
    subst hunread
    have hnone : ∀ a : Account, a.noteAll [] = some a := fun _ => rfl
    exact .upTo rfl hmem ((Account.noteAll_concat _ (hnone _)).trans (if_pos rfl))
  | @upTo start l _ hstart hl htold =>
    have hlt := hread l hl
    have hle := hnext l rfl
    have hsat := saturatingAdd_le_add l 1
    have heq : n = l + 1 := by omega
    exact .upTo hstart hmem ((Account.noteAll_concat _ htold).trans (if_pos heq))
  | announced hstart hunread htold =>
    cases hunread
    exact .upTo hstart hmem ((Account.noteAll_concat _ htold).trans (if_pos rfl))

/-- The gap before the record under the cursor is told of. -/
theorem gap {n l : Nat} (h : Told since read (n :: unread) (some l) told)
    (hread : ∀ l ∈ read, l < n) (hword : n ≤ u64Max) (hmissing : n > saturatingAdd l 1) :
    Told since read (n :: unread) (some n) (told ++ [.gap (saturatingAdd l 1) n]) := by
  cases h with
  | upTo hstart hl htold =>
    have hlt := hread l hl
    have hsat : saturatingAdd l 1 = l + 1 := saturatingAdd_eq (by omega)
    refine .announced hstart rfl ((Account.noteAll_concat _ htold).trans ?_)
    rw [hsat] at hmissing ⊢
    exact (if_neg (Nat.not_le.mpr hmissing)).trans (if_pos rfl)
  | announced _ hunread _ =>
    cases hunread
    exact absurd (le_saturatingAdd 1 hword) (Nat.not_le.mpr hmissing)

end Told

/-! ## Sessions -/

/-- A ring with a subscriber, all records pushed so far, how many of them had been dropped
when the subscriber was opened, and the events returned so far. -/
structure Session where
  ring : LocalRing
  subscriber : Subscriber
  log : List StreamRecord
  opened : Nat
  events : List RingEvent

inductive Input where
  | push (record : StreamRecord) (now : Nat)
  | poll
  deriving DecidableEq, Repr

namespace Session

/-- A subscriber is opened on a ring after some pushes. -/
def start (config : RingConfig) (before : List (StreamRecord × Nat)) (filter : TopicFilter) :
    Session :=
  let ring := before.foldl (fun ring p => (ring.push p.1 p.2).1) (.new config)
  let log := before.map Prod.fst
  ⟨ring, ring.subscribe filter, log, log.length - ring.entries.length, []⟩

def step (s : Session) : Input → Session × Unit
  | .push record now =>
    ({ s with ring := (s.ring.push record now).1, log := s.log ++ [record] }, ())
  | .poll =>
    let (event, subscriber) := s.subscriber.poll s.ring
    ({ s with subscriber := subscriber, events := s.events ++ event.toList }, ())

/-- How many of the records pushed so far the ring has dropped.  The counter of the ring
itself wraps. -/
def dropped (s : Session) : Nat := s.log.length - s.ring.entries.length

/-- Where the cursor stands in the log. -/
def cursor (s : Session) : Nat := s.subscriber.seenGeneration + s.subscriber.nextIndex

/-- The first record of a topic that the ring held when the subscriber was opened or that
came later. -/
def subscriptionPoint (s : Session) (topic : String) : Option Nat :=
  (sequences topic (s.log.drop s.opened)).head?

/-- If records were dropped since the last poll, none that was read is still held, and
every unread one that was dropped comes after a delivered one of its topic. -/
def InStep (s : Session) : Prop :=
  s.ring.generation ≠ s.subscriber.seenGeneration →
    (∀ r ∈ (s.log.take s.cursor).drop s.dropped, s.subscriber.filter.allows r.topic = false) ∧
    ∀ r ∈ (s.log.take s.dropped).drop s.cursor,
      s.subscriber.filter.allows r.topic = true →
        ∃ last ∈ s.subscriber.lastStreamSeqByTopic.get r.topic, last < r.streamSequence

instance (s : Session) : Decidable s.InStep :=
  inferInstanceAs (Decidable (_ → _ ∧ _))

/-- The standing of a topic in a session, with the cursor at `position`. -/
def Stands (s : Session) (position : Nat) (topic : String) : Prop :=
  Told (sequences topic (s.log.drop s.opened)) (sequences topic (s.log.take position))
    (sequences topic (s.log.drop position)) (s.subscriber.lastStreamSeqByTopic.get topic)
    (notices topic s.events)

/-- The window is the log from the dropped records on. -/
structure Windowed (ring : LocalRing) (log : List StreamRecord) : Prop where
  window : ring.entries.map RingEntry.record = log.drop (log.length - ring.entries.length)
  held_le : ring.entries.length ≤ log.length
  generation : ring.generation = min (log.length - ring.entries.length) u64Max

structure Consistent (s : Session) : Prop where
  windowed : Windowed s.ring s.log
  opened_le : s.opened ≤ s.log.length
  cursor_le : s.cursor ≤ s.log.length
  pending : s.subscriber.pendingGap = none
  silent : ∀ topic, s.subscriber.filter.allows topic = false →
    s.subscriber.lastStreamSeqByTopic.get topic = none ∧ notices topic s.events = []
  stands : ∀ topic, s.subscriber.filter.allows topic = true → s.Stands s.cursor topic

/-! ## Pushes -/

theorem Windowed.new (config : RingConfig) : Windowed (.new config) [] :=
  ⟨rfl, Nat.le_refl _, rfl⟩

theorem Windowed.push {ring : LocalRing} {log : List StreamRecord} (h : Windowed ring log)
    (record : StreamRecord) (now : Nat) :
    Windowed (ring.push record now).1 (log ++ [record]) := by
  have hgeneration : ring.generation ≤ u64Max := h.generation ▸ Nat.min_le_right _ _
  obtain ⟨k, room, entry, hdrops, hrecord, hentries, hgen⟩ :=
    LocalRing.push_drops hgeneration record now
  have hlength : (ring.push record now).1.entries.length = ring.entries.length - k + 1 := by
    rw [hentries, hdrops.entries, List.length_append, List.length_drop, List.length_singleton]
  have hk := hdrops.le
  have hle := h.held_le
  -- What is dropped of the longer log is what was dropped before and the `k` records.
  have hdropped : (log ++ [record]).length - (ring.push record now).1.entries.length =
      log.length - ring.entries.length + k := by
    rw [hlength, List.length_append, List.length_singleton]
    omega
  refine ⟨?_, ?_, ?_⟩
  · rw [hdropped, hentries, hdrops.entries, List.map_append, List.map_drop, h.window,
      List.drop_drop, List.drop_append_of_le_length (by omega)]
    exact congrArg (_ ++ [·]) hrecord
  · rw [hlength, List.length_append, List.length_singleton]
    omega
  · rw [hdropped, hgen, hdrops.generation, h.generation]
    omega

theorem Windowed.pushAll (config : RingConfig) (before : List (StreamRecord × Nat)) :
    Windowed (before.foldl (fun ring p => (ring.push p.1 p.2).1) (.new config))
      (before.map Prod.fst) := by
  induction before using List.reverseRecOn with
  | nil => exact .new config
  | append_singleton before p ih =>
    rw [List.foldl_append, List.map_append]
    exact ih.push p.1 p.2

theorem entries_push_le {ring : LocalRing} {log : List StreamRecord} (h : Windowed ring log)
    (record : StreamRecord) (now : Nat) :
    (ring.push record now).1.entries.length ≤ ring.entries.length + 1 := by
  obtain ⟨k, room, entry, hdrops, -, hentries, -⟩ :=
    LocalRing.push_drops (h.generation ▸ Nat.min_le_right _ _) record now
  rw [hentries, hdrops.entries, List.length_append, List.length_drop, List.length_singleton]
  omega

theorem consistent_start (config : RingConfig) (before : List (StreamRecord × Nat))
    (filter : TopicFilter) (hroom : (start config before filter).dropped < u64Max) :
    (start config before filter).Consistent := by
  have hwindowed := Windowed.pushAll config before
  have hcursor : (start config before filter).cursor = (start config before filter).opened := by
    refine (Nat.add_zero _).trans (hwindowed.generation.trans ?_)
    exact Nat.min_eq_left (Nat.le_of_lt hroom)
  have hopened : (start config before filter).opened ≤ (before.map Prod.fst).length :=
    Nat.sub_le _ _
  refine ⟨hwindowed, hopened, ?_, rfl, fun _ _ => ⟨rfl, rfl⟩, fun _ _ => ?_⟩
  · rw [hcursor]
    exact hopened
  · exact .nothing (by rw [hcursor])

variable {s : Session}

theorem Consistent.push (h : s.Consistent) (record : StreamRecord) (now : Nat) :
    (s.step (.push record now)).1.Consistent := by
  have hlength : (s.log ++ [record]).length = s.log.length + 1 := List.length_append
  refine ⟨h.windowed.push record now, ?_, ?_, h.pending, h.silent, fun topic hallowed => ?_⟩
  · exact Nat.le_trans h.opened_le (hlength ▸ Nat.le_succ _)
  · exact Nat.le_trans h.cursor_le (hlength ▸ Nat.le_succ _)
  · have hstands := (h.stands topic hallowed).push (sequences topic [record])
    have hread : (s.log ++ [record]).take s.cursor = s.log.take s.cursor :=
      List.take_append_of_le_length h.cursor_le
    rw [← sequences_append, ← sequences_append, ← List.drop_append_of_le_length h.opened_le,
      ← List.drop_append_of_le_length h.cursor_le, ← hread] at hstands
    exact hstands

/-! ## Moves of the cursor -/

section Moves

variable {s : Session} {topic : String} {a b : Nat}

theorem drop_split (log : List StreamRecord) (hab : a ≤ b) (hb : b ≤ log.length) :
    log.drop a = (log.take b).drop a ++ log.drop b := by
  have hle : a ≤ (log.take b).length := by
    rw [List.length_take]
    omega
  rw [← List.drop_append_of_le_length hle, List.take_append_drop]

theorem take_split (log : List StreamRecord) (hab : a ≤ b) :
    log.take b = log.take a ++ (log.take b).drop a := by
  have htake : log.take a = (log.take b).take a := by
    rw [List.take_take, Nat.min_eq_left hab]
  rw [htake, List.take_append_drop]

/-- The cursor passes records that come after the one told of last. -/
theorem Stands.forward (h : s.Stands a topic) (hab : a ≤ b) (hb : b ≤ s.log.length)
    (hpassed : ∀ r ∈ (s.log.take b).drop a, r.topic = topic →
      ∃ last ∈ s.subscriber.lastStreamSeqByTopic.get topic, last < r.streamSequence) :
    s.Stands b topic := by
  unfold Stands at h ⊢
  rw [drop_split s.log hab hb, sequences_append] at h
  rw [take_split s.log hab, sequences_append]
  refine h.skip fun n hn => ?_
  obtain ⟨r, hr, htopic, rfl⟩ := mem_sequences hn
  exact hpassed r hr htopic

/-- The cursor goes back over records of other topics. -/
theorem Stands.back (h : s.Stands b topic) (hab : a ≤ b) (hb : b ≤ s.log.length)
    (hnone : ∀ r ∈ (s.log.take b).drop a, r.topic ≠ topic) : s.Stands a topic := by
  unfold Stands at h ⊢
  rw [take_split s.log hab, sequences_append, sequences_eq_nil hnone, List.append_nil] at h
  rw [drop_split s.log hab hb, sequences_append, sequences_eq_nil hnone, List.nil_append]
  exact h

end Moves

/-- The session with the cursor synced. -/
def sync (s : Session) : Session := { s with subscriber := s.subscriber.synced s.ring }

theorem Consistent.generation_eq (h : s.Consistent) (hroom : s.dropped < u64Max) :
    s.ring.generation = s.dropped := by
  rw [h.windowed.generation]
  exact Nat.min_eq_left (Nat.le_of_lt hroom)

theorem synced_seenGeneration (s : Subscriber) (ring : LocalRing) :
    (s.synced ring).seenGeneration = ring.generation := by
  unfold Subscriber.synced
  split_ifs with h
  · exact h.symm
  · rfl

theorem Consistent.sync (h : s.Consistent) (hroom : s.dropped < u64Max) (hstep : s.InStep) :
    s.sync.Consistent := by
  unfold Session.sync Subscriber.synced
  split_ifs with hseen
  · exact h
  · obtain ⟨hread, hlost⟩ := hstep hseen
    have hgeneration := h.generation_eq hroom
    have hle : s.dropped ≤ s.log.length := Nat.sub_le _ _
    refine ⟨h.windowed, h.opened_le, ?_, h.pending, h.silent, fun topic hallowed => ?_⟩
    · exact hgeneration ▸ hle
    · have hstands : s.Stands s.dropped topic := by
        rcases Nat.le_total s.dropped s.cursor with hback | hforward
        · refine (h.stands topic hallowed).back hback h.cursor_le fun r hr htopic => ?_
          rw [← htopic, hread r hr] at hallowed
          cases hallowed
        · refine (h.stands topic hallowed).forward hforward hle fun r hr htopic => ?_
          rw [← htopic] at hallowed ⊢
          exact hlost r hr hallowed
      rw [← hgeneration] at hstands
      exact hstands

/-- The cursor passes records that the filter does not allow. -/
theorem Consistent.pass (h : s.Consistent) {n : Nat} (hn : s.cursor + n ≤ s.log.length)
    (hpassed : ∀ r ∈ (s.log.take (s.cursor + n)).drop s.cursor,
      s.subscriber.filter.allows r.topic = false) (replayDone : Bool) :
    Consistent { s with subscriber := { s.subscriber with
      nextIndex := s.subscriber.nextIndex + n, replayDone := replayDone } } := by
  refine ⟨h.windowed, h.opened_le, ?_, h.pending, h.silent, fun topic hallowed => ?_⟩
  · rw [cursor, Nat.add_assoc] at hn
    exact hn
  · have hstands := (h.stands topic hallowed).forward (Nat.le_add_right _ n) hn
      fun r hr htopic => absurd (htopic ▸ hallowed) (by rw [hpassed r hr]; exact Bool.false_ne_true)
    rw [cursor, Nat.add_assoc] at hstands
    exact hstands

/-! ## Events -/

/-- An event of one allowed topic leaves the others as they are. -/
theorem Consistent.tell (h : s.Consistent) (e : RingEvent) {after : Subscriber} {last : Nat}
    (position : Nat) (hfilter : after.filter = s.subscriber.filter)
    (hpending : after.pendingGap = none)
    (hlast : after.lastStreamSeqByTopic = s.subscriber.lastStreamSeqByTopic.insert e.topic last)
    (hposition : after.seenGeneration + after.nextIndex = position) (hle : position ≤ s.log.length)
    (hallowed : s.subscriber.filter.allows e.topic = true)
    (hothers : ∀ topic, e.topic ≠ topic → s.Stands s.cursor topic → s.Stands position topic)
    (hown : Told (sequences e.topic (s.log.drop s.opened)) (sequences e.topic (s.log.take position))
      (sequences e.topic (s.log.drop position)) (some last)
      (notices e.topic s.events ++ [e.notice])) :
    Consistent { s with subscriber := after, events := s.events ++ [e] } := by
  have hget : ∀ {topic}, e.topic ≠ topic → after.lastStreamSeqByTopic.get topic =
      s.subscriber.lastStreamSeqByTopic.get topic := fun hne => by
    rw [hlast, OrdMap.get_insert_of_ne _ _ (Ne.symm hne)]
  refine ⟨h.windowed, h.opened_le, ?_, hpending, fun topic hsilent => ?_, fun topic hallows => ?_⟩
  · exact Nat.le_trans (Nat.le_of_eq hposition) hle
  · rw [hfilter] at hsilent
    have hne : e.topic ≠ topic := by
      rintro rfl
      rw [hallowed] at hsilent
      cases hsilent
    rw [hget hne, notices_concat_of_ne hne]
    exact h.silent topic hsilent
  · rw [hfilter] at hallows
    unfold Stands cursor
    rw [hposition]
    by_cases heq : e.topic = topic
    · subst heq
      rw [hlast, OrdMap.get_insert_self, notices_concat_of_eq rfl]
      exact hown
    · rw [hget heq, notices_concat_of_ne heq]
      exact hothers topic heq (h.stands topic hallows)

/-- The entry under the cursor is offered. -/
theorem Consistent.offer (h : s.Consistent) (hlog : Consecutive s.log) {r : StreamRecord}
    {later : List StreamRecord} (hunder : s.log.drop s.cursor = r :: later)
    (hallowed : s.subscriber.filter.allows r.topic = true) : Consistent { s with
      subscriber := (s.subscriber.offer r).2
      events := s.events ++ (s.subscriber.offer r).1.toList } := by
  have hlt : s.cursor < s.log.length := by
    have hlength := congrArg List.length hunder
    rw [List.length_drop, List.length_cons] at hlength
    omega
  have htake : s.log.take (s.cursor + 1) = s.log.take s.cursor ++ [r] := by
    rw [List.take_add, hunder]
    rfl
  have hdrop : s.log.drop (s.cursor + 1) = later := by
    rw [← List.drop_drop, hunder]
    rfl
  have hbefore : ∀ l ∈ sequences r.topic (s.log.take s.cursor), l < r.streamSequence := by
    have hincreasing := hlog.increasing r.topic
    rw [← List.take_append_drop s.cursor s.log, sequences_append, hunder,
      sequences_cons_of_eq rfl] at hincreasing
    exact fun l hl => (List.pairwise_append.mp hincreasing).2.2 l hl _ List.mem_cons_self
  have hstands := h.stands r.topic hallowed
  unfold Stands at hstands
  rw [hunder, sequences_cons_of_eq rfl] at hstands
  have hrecord : (∀ l ∈ s.subscriber.lastStreamSeqByTopic.get r.topic,
      ¬ r.streamSequence > saturatingAdd l 1) →
      Consistent { s with
        subscriber := { s.subscriber with
          nextIndex := s.subscriber.nextIndex + 1
          lastStreamSeqByTopic := s.subscriber.lastStreamSeqByTopic.insert r.topic r.streamSequence
          replayDone := true }
        events := s.events ++ [.record r] } := by
    intro hnext
    have hown := hstands.item hbefore hnext
    have hone : sequences r.topic [r] = [r.streamSequence] := sequences_cons_of_eq rfl []
    rw [← hone, ← sequences_append, ← htake, ← hdrop] at hown
    refine h.tell (.record r) (s.cursor + 1) rfl h.pending rfl (Nat.add_assoc _ _ _).symm hlt
      hallowed (fun topic hne hother => ?_) hown
    refine hother.forward (Nat.le_succ _) hlt fun r' hr' htopic => ?_
    rw [List.drop_take, Nat.add_sub_cancel_left, hunder] at hr'
    exact absurd (List.mem_singleton.mp hr' ▸ htopic) hne
  unfold Subscriber.offer
  cases hlast : s.subscriber.lastStreamSeqByTopic.get r.topic with
  | none => exact hrecord (fun l hl => by rw [hlast] at hl; cases hl)
  | some prev =>
    simp only
    split_ifs with hmissing
    · have hword : r.streamSequence ≤ u64Max :=
        hlog.words r (List.mem_of_mem_drop (hunder ▸ List.mem_cons_self))
      rw [hlast] at hstands
      have hown := hstands.gap hbefore hword hmissing
      rw [← sequences_cons_of_eq rfl, ← hunder] at hown
      exact h.tell (.gap ⟨r.topic, saturatingAdd prev 1, r.streamSequence, .overflowDropOldest⟩)
        s.cursor rfl rfl rfl rfl h.cursor_le hallowed (fun _ _ hother => hother) hown
    · exact hrecord (fun l hl => by rw [hlast] at hl; cases hl; exact hmissing)

/-- A poll keeps a session consistent. -/
theorem Consistent.poll (h : s.Consistent) (hlog : Consecutive s.log) (hroom : s.dropped < u64Max)
    (hstep : s.InStep) : (s.step .poll).1.Consistent := by
  have hsync := h.sync hroom hstep
  have hseen : s.sync.subscriber.seenGeneration = s.dropped :=
    (synced_seenGeneration _ _).trans (h.generation_eq hroom)
  have hheld : (s.ring.entries.drop s.sync.subscriber.nextIndex).map RingEntry.record =
      s.log.drop s.sync.cursor := by
    rw [List.map_drop, h.windowed.window, List.drop_drop, cursor, hseen, dropped]
  have hpassed : ∀ {n : Nat} {r : StreamRecord},
      r ∈ (s.sync.log.take (s.sync.cursor + n)).drop s.sync.cursor →
      ∃ entry ∈ (s.ring.entries.drop s.sync.subscriber.nextIndex).take n, entry.record = r := by
    intro n r hr
    rw [List.drop_take, Nat.add_sub_cancel_left] at hr
    exact List.mem_map.mp (List.map_take ▸ hheld.symm ▸ hr)
  have hlength := congrArg List.length hheld
  rw [List.length_map, List.length_drop (i := s.sync.cursor)] at hlength
  have hcursor : s.sync.cursor ≤ s.log.length := hsync.cursor_le
  simp only [step]
  rcases Subscriber.poll_cases h.pending s.ring with ⟨topic, last, hlast, hpoll⟩ | hpoll
  · rw [hpoll]
    have hallowed : s.sync.subscriber.filter.allows topic = true := by
      by_contra hnot
      have hsilent := (hsync.silent topic (Bool.not_eq_true _ ▸ hnot)).1
      exact Option.some_ne_none last (hlast.symm.trans hsilent)
    have hown := (hsync.stands topic hallowed).lag hlast (saturatingAdd last 1)
    rw [show s.sync.subscriber.lastStreamSeqByTopic.get topic = some last from hlast] at hown
    exact hsync.tell (.gap ⟨topic, saturatingAdd last 1, saturatingAdd last 1, .subscriberLag⟩)
      s.sync.cursor rfl hsync.pending (OrdMap.insert_of_get hlast).symm rfl hcursor hallowed
      (fun _ _ hother => hother) hown
  · rcases Subscriber.scan_cases s.sync.subscriber
      (s.ring.entries.drop s.sync.subscriber.nextIndex) with
      ⟨hnone, hscan⟩ | ⟨passed, entry, rest, hentries, hnone, hallowed, hscan⟩
    · have hend : s.sync.cursor + (s.ring.entries.drop s.sync.subscriber.nextIndex).length ≤
          s.log.length := by omega
      rw [hpoll.trans hscan, Option.toList_none, List.append_nil]
      refine hsync.pass hend (fun r hr => ?_) true
      obtain ⟨entry, hentry, rfl⟩ := hpassed hr
      exact hnone entry (List.mem_of_mem_take hentry)
    · rw [hentries] at hlength hheld hpassed
      rw [List.length_append, List.length_cons] at hlength
      have hend : s.sync.cursor + passed.length ≤ s.log.length := by omega
      have hmoved := hsync.pass hend (fun r hr => by
        obtain ⟨e, he, rfl⟩ := hpassed hr
        rw [List.take_left] at he
        exact hnone e he) s.sync.subscriber.replayDone
      have hrecords : passed.length = (passed.map RingEntry.record).length :=
        (List.length_map _).symm
      have hunder : s.log.drop (s.sync.cursor + passed.length) =
          entry.record :: rest.map RingEntry.record := by
        rw [← List.drop_drop, ← hheld, List.map_append, hrecords, List.drop_left]
        rfl
      rw [cursor, Nat.add_assoc] at hunder
      rw [hpoll.trans hscan]
      exact hmoved.offer hlog hunder hallowed

/-! ## Runs -/

theorem Windowed.step (h : Windowed s.ring s.log) (i : Input) :
    Windowed (s.step i).1.ring (s.step i).1.log := by
  cases i with
  | push record now => exact h.push record now
  | poll => exact h

theorem step_monotone (h : Windowed s.ring s.log) (i : Input) :
    s.dropped ≤ (s.step i).1.dropped ∧ ∃ more, (s.step i).1.log = s.log ++ more := by
  cases i with
  | push record now =>
    refine ⟨?_, [record], rfl⟩
    have hheld := entries_push_le h record now
    show s.log.length - _ ≤ (s.log ++ [record]).length - (s.ring.push record now).1.entries.length
    rw [List.length_append, List.length_singleton]
    omega
  | poll => exact ⟨Nat.le_refl _, [], (List.append_nil _).symm⟩

/-- A session whose polls are in step is consistent. -/
theorem Consistent.run {config : RingConfig} {before : List (StreamRecord × Nat)}
    {filter : TopicFilter} {inputs : List Input}
    (hs : runFrom step (start config before filter) inputs = s) (hlog : Consecutive s.log)
    (hroom : s.dropped < u64Max)
    (hpolls : ∀ t ∈ transitions step (start config before filter) inputs,
      t.input = .poll → t.before.InStep) : s.Consistent := by
  subst hs
  refine (runFrom_history
    (P := fun (s : Session) past => Windowed s.ring s.log ∧ (Consecutive s.log →
    s.dropped < u64Max → (∀ t ∈ past, t.input = .poll → t.before.InStep) →
      s.Consistent)) ?_ ?_ inputs).2 hlog hroom hpolls
  · exact ⟨Windowed.pushAll config before, fun _ hroom _ =>
      consistent_start config before filter hroom⟩
  · rintro s past i ⟨hwindowed, ih⟩
    refine ⟨hwindowed.step i, fun hlog hroom hpolls => ?_⟩
    obtain ⟨hdropped, more, hmore⟩ := step_monotone hwindowed i
    rw [hmore] at hlog
    have hbefore := Nat.lt_of_le_of_lt hdropped hroom
    have hconsistent := ih hlog.of_append hbefore fun t ht =>
      hpolls t (List.mem_append_left _ ht)
    cases i with
    | push record now => exact hconsistent.push record now
    | poll =>
      have hinstep := hpolls _ (List.mem_append_right _ List.mem_cons_self) rfl
      exact hconsistent.poll hlog.of_append hbefore hinstep

end Session

/-- Each record of a topic is told of once or lies in one exact gap, in every session whose
polls are in step. -/
theorem each_record_once_or_in_gap {config : RingConfig} {before : List (StreamRecord × Nat)}
    {filter : TopicFilter} {inputs : List Input} {s : Session}
    (hs : runFrom Session.step (.start config before filter) inputs = s)
    (hlog : Consecutive s.log) (hroom : s.dropped < u64Max)
    (hpolls : ∀ t ∈ transitions Session.step (.start config before filter) inputs,
      t.input = .poll → t.before.InStep)
    {topic : String} {start : Nat} (hstart : s.subscriptionPoint topic = some start) :
    Explained start (notices topic s.events) := by
  have hconsistent := Session.Consistent.run hs hlog hroom hpolls
  cases hallowed : s.subscriber.filter.allows topic with
  | true => exact (hconsistent.stands topic hallowed).explained hstart
  | false =>
    rw [(hconsistent.silent topic hallowed).2]
    exact explained_of_noteAll (a := .upTo start) rfl

namespace Sample

/-- A record of one byte of standard output. -/
def chunk (n : Nat) : StreamRecord := ⟨"app/stdout", n, 5, [10], true, n⟩

/-- A ring of two records that are never too old. -/
def two : RingConfig := ⟨1024, 60, some 2⟩

theorem sequences_chunks (topic : String) (ns : List Nat) :
    sequences topic (ns.map chunk) = if "app/stdout" = topic then ns else [] := by
  split_ifs with h
  · simp [sequences, List.filter_map, Function.comp_def, chunk, h]
  · simp [sequences, List.filter_map, Function.comp_def, chunk, h]

theorem consecutive_chunks {ns : List Nat} (hwords : ∀ n ∈ ns, n ≤ u64Max)
    (hchain : ns.IsChain fun a b => b = a + 1) : Consecutive (ns.map chunk) := by
  refine ⟨List.forall_mem_map.mpr hwords, fun topic => ?_⟩
  rw [sequences_chunks]
  split_ifs
  · exact hchain
  · exact .nil

end Sample

/-- A subscriber that has read everything and lags by more than the ring holds is told of
the gap and of the record after it. -/
theorem lagging_subscriber_told :
    Explained 0 (notices "app/stdout" (runFrom Session.step
      (.start Sample.two [(Sample.chunk 0, 0)] ⟨[]⟩)
      [.poll, .push (Sample.chunk 1) 0, .push (Sample.chunk 2) 0, .push (Sample.chunk 3) 0,
        .poll, .poll, .poll]).events) := by
  refine each_record_once_or_in_gap rfl ?_ ?_ ?_ rfl
  · have hlog : Consecutive ([0, 1, 2, 3].map Sample.chunk) :=
      Sample.consecutive_chunks (by decide) (by decide)
    exact hlog
  · decide
  · decide

/-- Dropping one record that was read makes the subscriber deliver the next one again. -/
theorem record_delivered_twice :
    ∃ s, runFrom Session.step (.start Sample.two [(Sample.chunk 0, 0), (Sample.chunk 1, 0)] ⟨[]⟩)
        [.poll, .poll, .push (Sample.chunk 2) 0, .poll, .poll] = s ∧
      Consecutive s.log ∧ s.subscriptionPoint "app/stdout" = some 0 ∧
      ¬ Explained 0 (notices "app/stdout" s.events) := by
  have hlog : Consecutive ([0, 1, 2].map Sample.chunk) :=
    Sample.consecutive_chunks (by decide) (by decide)
  refine ⟨_, rfl, hlog, rfl, fun h => ?_⟩
  exact absurd h.increasing (by decide)

end Gump.Telemetry
