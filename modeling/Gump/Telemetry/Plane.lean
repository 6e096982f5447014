/-
  Telemetry/Plane.lean --- the telemetry plane of a node (`plane.rs`).

  Captured streams and supervisor events go into one ring.  A query replays the ring from
  its front and stops when it has enough events.  What a replay delivers is a function of
  the entries, `replay`; a query returns the first of its events that match, and says that
  it has caught up if there were fewer than it was asked for (`query_eq`).  The gap markers
  of the replay count as events, and no record is too old for it.
-/
import Gump.Foundation.Run
import Gump.Telemetry.Stream

set_option autoImplicit false

namespace Gump.Telemetry

open Gump.Foundation Gump.Types

def topicGumpLifecycle : String := "gump/lifecycle"

structure TelemetryPlane where
  ring : LocalRing
  supervisorSeq : Nat
  deriving DecidableEq, Repr

namespace TelemetryPlane

def new (config : RingConfig) : TelemetryPlane := ⟨LocalRing.new config, 0⟩

def ingestStream (plane : TelemetryPlane) (record : StreamRecord) (now : Nat) :
    TelemetryPlane × EmitOutcome :=
  let (ring, outcome) := plane.ring.push record now
  ({ plane with ring := ring }, outcome)

/-- An event of the supervisor itself. -/
def emitSupervisor (plane : TelemetryPlane) (message : List UInt8) (now : Nat) :
    TelemetryPlane × EmitOutcome :=
  let seq := plane.supervisorSeq
  { plane with supervisorSeq := saturatingAdd seq 1 }.ingestStream
    { topic := topicGumpLifecycle
      streamSequence := seq
      flags := chunkBegin ||| chunkEnd
      bytes := message
      utf8Hint := (String.fromUTF8? ⟨message.toArray⟩).isSome
      receiveOffset := saturatingMul seq message.length } now

/-- Whether a topic is under the reserved ones. -/
def reserved (topic : String) : Bool := decide ("gump/".toList <+: topic.toList)

/-- A chunk from an application; the reserved topics are refused. -/
def ingestApplicationTopic (plane : TelemetryPlane) (topic : String) (bytes : List UInt8)
    (streamSequence now : Nat) : Except TopicError (TelemetryPlane × EmitOutcome) := do
  validateTopic topic
  if topic = topicGumpLifecycle ∨ reserved topic then
    .error .reservedImpersonation
  else if topic = topicStdout ∨ topic = topicStderr then
    pure (plane.ingestStream
      { topic := topic
        streamSequence := streamSequence
        flags := chunkBegin ||| chunkEnd
        bytes := bytes
        utf8Hint := (String.fromUTF8? ⟨bytes.toArray⟩).isSome
        receiveOffset := 0 } now)
  else .error .reservedImpersonation

end TelemetryPlane

/-- What a plane is given: a captured record, a supervisor event, or a chunk from an
application. -/
inductive PlaneInput where
  | stream (record : StreamRecord)
  | supervisor (message : List UInt8)
  | application (topic : String) (bytes : List UInt8) (streamSequence : Nat)
  deriving DecidableEq, Repr

/-- One input at a time; a chunk that is refused changes nothing. -/
def TelemetryPlane.step (plane : TelemetryPlane) (input : PlaneInput × Nat) :
    TelemetryPlane × Except TopicError EmitOutcome :=
  match input.1 with
  | .stream record =>
    let (plane, outcome) := plane.ingestStream record input.2
    (plane, .ok outcome)
  | .supervisor message =>
    let (plane, outcome) := plane.emitSupervisor message input.2
    (plane, .ok outcome)
  | .application topic bytes streamSequence =>
    match plane.ingestApplicationTopic topic bytes streamSequence input.2 with
    | .ok (plane, outcome) => (plane, .ok outcome)
    | .error e => (plane, .error e)

/-- The sequence that an input brings along is a word. -/
def PlaneInput.Word : PlaneInput → Prop
  | .stream record => record.streamSequence ≤ u64Max
  | .supervisor _ => True
  | .application _ _ streamSequence => streamSequence ≤ u64Max

/-! ## Queries -/

inductive TelemetryEventView where
  | record (topic : String) (streamSequence : Nat) (utf8Hint : Bool) (bytesHex : String)
      (text : Option String)
  | gap (topic : String) (fromSequence toSequence : Nat) (reason : String)
  deriving DecidableEq, Repr

/-- An empty filter allows everything, one that ends with a star allows what starts with the
rest of it. -/
def topicMatchesFilter (topic : String) (filter : Option String) : Bool :=
  match (filter.map trimText).filter (fun f => f ≠ "") with
  | none => true
  | some f =>
    if f.toList.getLast? = some '*' then decide (f.toList.dropLast <+: topic.toList)
    else topic == f

def eventMatchesFilter (ev : RingEvent) (filter : Option String) : Bool :=
  topicMatchesFilter ev.topic filter

def hexEncode (bytes : List UInt8) : String := String.join (bytes.map hexByte)

def GapReason.name : GapReason → String
  | .overflowDropOldest => "overflow_drop_oldest"
  | .subscriberLag => "subscriber_lag"

def viewRecord (r : StreamRecord) : TelemetryEventView :=
  .record r.topic r.streamSequence r.utf8Hint (hexEncode r.bytes)
    (if r.utf8Hint then String.fromUTF8? ⟨r.bytes.toArray⟩ else none)

def viewEvent : RingEvent → TelemetryEventView
  | .record r => viewRecord r
  | .gap g => .gap g.topic g.fromSequence g.toSequence g.reason.name

def TopicFilter.all : TopicFilter := ⟨[]⟩

/-- The loop of `query`, with the events so far and whether it caught up. -/
def pollLoop (ring : LocalRing) (filter : Option String) (maxEvents : Nat) :
    Nat → Subscriber → List TelemetryEventView → List TelemetryEventView × Bool
  | 0, _, events => (events, true)
  | fuel + 1, sub, events =>
    match sub.poll ring with
    | (none, _) => (events, true)
    | (some ev, next) =>
      if eventMatchesFilter ev filter then
        if (events ++ [viewEvent ev]).length ≥ maxEvents then (events ++ [viewEvent ev], false)
        else pollLoop ring filter maxEvents fuel next (events ++ [viewEvent ev])
      else pollLoop ring filter maxEvents fuel next events

structure TelemetrySnapshot where
  pushed : Nat
  droppedOldest : Nat
  filter : Option String
  events : List TelemetryEventView
  caughtUp : Bool
  deriving DecidableEq, Repr

/-- The number of events that a query asks for. -/
def clampEvents (maxEvents : Nat) : Nat := min (max maxEvents 1) 4096

/-- Replay the window.  Every entry is polled twice at most, for a gap and for itself. -/
def TelemetryPlane.query (plane : TelemetryPlane) (filter : Option String) (maxEvents : Nat) :
    TelemetrySnapshot :=
  let (events, caughtUp) := pollLoop plane.ring filter (clampEvents maxEvents)
    (2 * plane.ring.entries.length + 1) (plane.ring.subscribe .all) []
  { pushed := plane.ring.pushed
    droppedOldest := plane.ring.droppedOldest
    filter := filter
    events := events
    caughtUp := caughtUp }

/-! ## What a replay delivers -/

/-- The gap between the last sequence of a topic and the next one, if there is one. -/
def gapBefore (last : OrdMap String Nat) (r : StreamRecord) : List RingEvent :=
  match last.get r.topic with
  | some prev =>
    if r.streamSequence > saturatingAdd prev 1 then
      [.gap ⟨r.topic, saturatingAdd prev 1, r.streamSequence, .overflowDropOldest⟩]
    else []
  | none => []

/-- The events of a replay of some entries, with the last sequences of their topics. -/
def replay (last : OrdMap String Nat) : List RingEntry → List RingEvent
  | [] => []
  | e :: rest =>
    gapBefore last e.record ++ .record e.record ::
      replay (last.insert e.record.topic e.record.streamSequence) rest

theorem length_gapBefore_le (last : OrdMap String Nat) (r : StreamRecord) :
    (gapBefore last r).length ≤ 1 := by
  unfold gapBefore
  split
  · split <;> simp
  · simp

theorem length_replay_le (last : OrdMap String Nat) (entries : List RingEntry) :
    (replay last entries).length ≤ 2 * entries.length := by
  induction entries generalizing last with
  | nil => exact Nat.le_refl 0
  | cons e rest ih =>
    have hgap := length_gapBefore_le last e.record
    have hrest := ih (last.insert e.record.topic e.record.streamSequence)
    simp only [replay, List.length_append, List.length_cons]
    omega

/-- A subscriber that replays a ring: the entries that are left, and the last sequences. -/
structure Subscriber.Replays (s : Subscriber) (ring : LocalRing) (rest : List RingEntry)
    (last : OrdMap String Nat) : Prop where
  rest : ring.entries.drop s.nextIndex = rest
  generation : ring.generation = s.seenGeneration
  pending : s.pendingGap = none
  filter : s.filter = .all
  last : s.lastStreamSeqByTopic = last

namespace Subscriber

variable {s : Subscriber} {ring : LocalRing} {rest : List RingEntry} {last : OrdMap String Nat}

theorem Replays.poll_eq (h : s.Replays ring rest last) : s.poll ring = s.scan rest := by
  unfold poll
  rw [h.pending]
  simp only [h.generation, ne_eq, not_true_eq_false, if_false, h.rest]

/-- A poll tells of the gap before the next record. -/
theorem Replays.poll_gap {e : RingEntry} {gap : RingEvent} (h : s.Replays ring (e :: rest) last)
    (hgap : gapBefore last e.record = [gap]) :
    ∃ next, s.poll ring = (some gap, next) ∧
      next.Replays ring (e :: rest) (last.insert e.record.topic e.record.streamSequence) := by
  have hallowed : s.filter.allows e.record.topic = true := by
    rw [h.filter]
    rfl
  rw [h.poll_eq, scan, if_pos hallowed, offer, h.last]
  unfold gapBefore at hgap
  cases hprev : last.get e.record.topic with
  | none =>
    rw [hprev] at hgap
    cases hgap
  | some prev =>
    rw [hprev] at hgap
    by_cases hjump : e.record.streamSequence > saturatingAdd prev 1
    · simp only [if_pos hjump] at hgap ⊢
      cases hgap
      exact ⟨_, rfl, h.rest, h.generation, rfl, h.filter, rfl⟩
    · simp only [if_neg hjump] at hgap
      cases hgap

/-- A poll delivers the next record where there is no gap before it. -/
theorem Replays.poll_record {e : RingEntry} (h : s.Replays ring (e :: rest) last)
    (hgap : gapBefore last e.record = []) :
    ∃ next, s.poll ring = (some (.record e.record), next) ∧
      next.Replays ring rest (last.insert e.record.topic e.record.streamSequence) := by
  have hallowed : s.filter.allows e.record.topic = true := by
    rw [h.filter]
    rfl
  have hdrop : ring.entries.drop (s.nextIndex + 1) = rest := by
    rw [← List.drop_drop, h.rest]
    rfl
  rw [h.poll_eq, scan, if_pos hallowed, offer, h.last]
  unfold gapBefore at hgap
  cases hprev : last.get e.record.topic with
  | none => exact ⟨_, rfl, hdrop, h.generation, h.pending, h.filter, rfl⟩
  | some prev =>
    rw [hprev] at hgap
    by_cases hjump : e.record.streamSequence > saturatingAdd prev 1
    · simp only [if_pos hjump] at hgap
      cases hgap
    · simp only [if_neg hjump]
      exact ⟨_, rfl, hdrop, h.generation, h.pending, h.filter, rfl⟩

end Subscriber

/-- The loop of `query` over the events of a replay. -/
def collect (filter : Option String) (maxEvents : Nat) :
    List RingEvent → List TelemetryEventView → List TelemetryEventView × Bool
  | [], events => (events, true)
  | ev :: rest, events =>
    if eventMatchesFilter ev filter then
      if (events ++ [viewEvent ev]).length ≥ maxEvents then (events ++ [viewEvent ev], false)
      else collect filter maxEvents rest (events ++ [viewEvent ev])
    else collect filter maxEvents rest events

/-- One poll of the loop takes the first event of the replay. -/
theorem pollLoop_step {ring : LocalRing} {filter : Option String} {maxEvents fuel : Nat}
    {s next : Subscriber} {ev : RingEvent} {evs : List RingEvent}
    (hpoll : s.poll ring = (some ev, next))
    (hnext : ∀ events, pollLoop ring filter maxEvents fuel next events =
      collect filter maxEvents evs events) (events : List TelemetryEventView) :
    pollLoop ring filter maxEvents (fuel + 1) s events =
      collect filter maxEvents (ev :: evs) events := by
  simp only [pollLoop, hpoll, collect, hnext]

theorem gapBefore_insert (last : OrdMap String Nat) {r : StreamRecord}
    (hword : r.streamSequence ≤ u64Max) :
    gapBefore (last.insert r.topic r.streamSequence) r = [] := by
  simp only [gapBefore, OrdMap.get_insert_self]
  exact if_neg (Nat.not_lt.mpr (le_saturatingAdd 1 hword))

variable {last : OrdMap String Nat}

variable (filter : Option String)

/-- The loop polls the events of the replay. -/
theorem pollLoop_eq_collect {ring : LocalRing} (maxEvents : Nat) {rest : List RingEntry}
    (hwords : ∀ e ∈ rest, e.record.streamSequence ≤ u64Max) {s : Subscriber}
    (h : s.Replays ring rest last) {fuel : Nat} (hfuel : (replay last rest).length < fuel)
    (events : List TelemetryEventView) : pollLoop ring filter maxEvents fuel s events =
      collect filter maxEvents (replay last rest) events := by
  induction rest generalizing s last fuel events with
  | nil =>
    obtain ⟨fuel, rfl⟩ := Nat.exists_eq_succ_of_ne_zero (Nat.ne_of_gt hfuel)
    rw [pollLoop, h.poll_eq]
    rfl
  | cons e rest ih =>
    rw [List.forall_mem_cons] at hwords
    rw [replay] at hfuel ⊢
    rcases hgap : gapBefore last e.record with _ | ⟨gap, none_left⟩
    · rw [hgap, List.nil_append, List.length_cons] at hfuel
      obtain ⟨fuel, rfl⟩ : ∃ k, fuel = k + 1 := ⟨fuel - 1, by omega⟩
      obtain ⟨next, hpoll, hnext⟩ := h.poll_record hgap
      exact pollLoop_step hpoll (ih hwords.2 hnext (by omega)) events
    · have hone := length_gapBefore_le last e.record
      rw [hgap, List.length_cons] at hone
      obtain rfl : none_left = [] := List.length_eq_zero_iff.mp (by omega)
      rw [hgap, List.singleton_append, List.length_cons, List.length_cons] at hfuel
      obtain ⟨fuel, rfl⟩ : ∃ k, fuel = k + 2 := ⟨fuel - 2, by omega⟩
      obtain ⟨told, hpoll, htold⟩ := h.poll_gap hgap
      obtain ⟨next, hpoll', hnext⟩ := htold.poll_record (gapBefore_insert last hwords.1)
      rw [OrdMap.insert_insert_self] at hnext
      exact pollLoop_step hpoll (pollLoop_step hpoll' (ih hwords.2 hnext (by omega))) events

/-- The loop keeps the first events that match, and has caught up if there are fewer than
it may return. -/
theorem collect_eq {maxEvents : Nat} (evs : List RingEvent) {events : List TelemetryEventView}
    (hroom : events.length < maxEvents) : collect filter maxEvents evs events =
      (events ++ ((evs.filter (eventMatchesFilter · filter)).map viewEvent).take
          (maxEvents - events.length),
        decide (events.length + (evs.filter (eventMatchesFilter · filter)).length <
          maxEvents)) := by
  induction evs generalizing events with
  | nil => simp [collect, hroom]
  | cons ev evs ih =>
    rw [collect]
    by_cases hmatch : eventMatchesFilter ev filter
    · have htake : maxEvents - events.length = (maxEvents - (events.length + 1)) + 1 := by omega
      simp only [hmatch, if_true, List.filter_cons, List.map_cons, htake, List.take_succ_cons,
        List.length_append, List.length_cons, List.length_nil, Nat.zero_add]
      by_cases hfull : events.length + 1 ≥ maxEvents
      · have hzero : maxEvents - (events.length + 1) = 0 := by omega
        rw [if_pos hfull, hzero, List.take_zero, decide_eq_false (by omega)]
      · rw [if_neg hfull, ih (by simp; omega), List.length_append, List.length_singleton,
          List.append_assoc, List.singleton_append]
        simp only [Nat.add_assoc, Nat.add_comm 1]
    · simp only [hmatch, List.filter_cons, Bool.false_eq_true, if_false, ih hroom]

/-- The events of a replay of the ring that match a filter. -/
def matchingEvents (ring : LocalRing) (filter : Option String) : List RingEvent :=
  (replay .empty ring.entries).filter (eventMatchesFilter · filter)

/-- The entries of the ring whose records match a filter. -/
def matchingEntries (ring : LocalRing) (filter : Option String) : List RingEntry :=
  ring.entries.filter (topicMatchesFilter ·.record.topic filter)

theorem one_le_clampEvents (maxEvents : Nat) : 1 ≤ clampEvents maxEvents := by
  unfold clampEvents
  omega

variable {plane : TelemetryPlane}

theorem query_eq (hwords : ∀ e ∈ plane.ring.entries, e.record.streamSequence ≤ u64Max)
    (filter : Option String) (maxEvents : Nat) : (plane.query filter maxEvents).events =
        ((matchingEvents plane.ring filter).take (clampEvents maxEvents)).map viewEvent ∧
      (plane.query filter maxEvents).caughtUp =
        decide ((matchingEvents plane.ring filter).length < clampEvents maxEvents) := by
  have hreplays : (plane.ring.subscribe .all).Replays plane.ring plane.ring.entries .empty :=
    ⟨rfl, rfl, rfl, rfl, rfl⟩
  have hfuel : (replay .empty plane.ring.entries).length < 2 * plane.ring.entries.length + 1 :=
    Nat.lt_succ_of_le (length_replay_le _ _)
  have hloop := pollLoop_eq_collect filter (clampEvents maxEvents) hwords hreplays hfuel []
  rw [collect_eq filter _ (one_le_clampEvents maxEvents)] at hloop
  refine ⟨(congrArg Prod.fst hloop).trans ?_, (congrArg Prod.snd hloop).trans ?_⟩
  · simp only [List.nil_append, List.length_nil, Nat.sub_zero, List.map_take, matchingEvents]
  · refine decide_eq_decide.mpr ?_
    rw [List.length_nil, Nat.zero_add]
    rfl

/-! ## Honest queries -/

def RingEvent.isRecord : RingEvent → Bool
  | .record _ => true
  | .gap _ => false

def TelemetryEventView.isRecord : TelemetryEventView → Bool
  | .record .. => true
  | .gap .. => false

/-- The records that a query returns. -/
def TelemetrySnapshot.records (snapshot : TelemetrySnapshot) : List TelemetryEventView :=
  snapshot.events.filter TelemetryEventView.isRecord

/-- A query returns the first records that match, none of them older than the window, and
says that it has caught up exactly if it withholds no other. -/
def Honest (plane : TelemetryPlane) (filter : Option String) (maxEvents now : Nat) : Prop :=
  let wanted := (matchingEntries plane.ring filter).take (clampEvents maxEvents)
  let snapshot := plane.query filter maxEvents
  snapshot.records = wanted.map (viewRecord ·.record) ∧
    (∀ e ∈ wanted, now - e.insertedAt ≤ plane.ring.config.maxAge) ∧
    (snapshot.caughtUp = true ↔
      snapshot.records.length = (matchingEntries plane.ring filter).length)

theorem isRecord_viewEvent (ev : RingEvent) : (viewEvent ev).isRecord = ev.isRecord := by
  cases ev <;> rfl

theorem isRecord_gapBefore {r : StreamRecord} {ev : RingEvent} (h : ev ∈ gapBefore last r) :
    ev.isRecord = false ∧ ev.topic = r.topic := by
  unfold gapBefore at h
  split at h
  · split at h
    · rw [List.mem_singleton.mp h]
      exact ⟨rfl, rfl⟩
    · cases h
  · cases h

/-- The records of a replay that match are those of the entries that match. -/
theorem filter_isRecord_replay (last : OrdMap String Nat) (entries : List RingEntry) :
    ((replay last entries).filter (eventMatchesFilter · filter)).filter RingEvent.isRecord =
      (entries.filter (topicMatchesFilter ·.record.topic filter)).map (.record ·.record) := by
  induction entries generalizing last with
  | nil => rfl
  | cons e rest ih =>
    have hgaps : ((gapBefore last e.record).filter (eventMatchesFilter · filter)).filter
        RingEvent.isRecord = [] := by
      rw [List.filter_filter, List.filter_eq_nil_iff]
      intro ev hev
      simp [(isRecord_gapBefore hev).1]
    rw [replay, List.filter_append, List.filter_append, hgaps, List.nil_append]
    by_cases hmatch : topicMatchesFilter e.record.topic filter
    · simp only [List.filter_cons, eventMatchesFilter, RingEvent.topic, hmatch, if_true,
        RingEvent.isRecord, List.map_cons]
      exact congrArg _ (ih _)
    · simp only [List.filter_cons, eventMatchesFilter, RingEvent.topic, hmatch,
        Bool.false_eq_true, if_false]
      exact ih _

/-- After every event of a replay that matches there is a record: a gap has the topic of
the record after it. -/
theorem exists_record_of_lt {entries : List RingEntry} {n : Nat}
    (h : n < ((replay last entries).filter (eventMatchesFilter · filter)).length) :
    ∃ ev ∈ ((replay last entries).filter (eventMatchesFilter · filter)).drop n,
      ev.isRecord = true := by
  induction entries generalizing last n with
  | nil => exact absurd h (Nat.not_lt_zero n)
  | cons e rest ih =>
    rw [replay, List.filter_append] at h ⊢
    by_cases hmatch : topicMatchesFilter e.record.topic filter
    · rw [List.filter_cons_of_pos (by exact hmatch)] at h ⊢
      generalize (gapBefore last e.record).filter (eventMatchesFilter · filter) = gaps at h ⊢
      by_cases hn : n ≤ gaps.length
      · refine ⟨.record e.record, ?_, rfl⟩
        rw [List.drop_append_of_le_length hn]
        exact List.mem_append_right _ List.mem_cons_self
      · obtain ⟨m, rfl⟩ : ∃ m, n = gaps.length + (m + 1) := ⟨n - gaps.length - 1, by omega⟩
        rw [List.length_append, List.length_cons] at h
        rw [← List.drop_drop, List.drop_left, List.drop_succ_cons]
        exact ih (by omega)
    · have hnone : (gapBefore last e.record).filter (eventMatchesFilter · filter) = [] := by
        rw [List.filter_eq_nil_iff]
        intro ev hev
        rw [eventMatchesFilter, (isRecord_gapBefore hev).2]
        exact hmatch
      rw [hnone, List.nil_append, List.filter_cons_of_neg (by exact hmatch)] at h ⊢
      exact ih h

section Lists

variable {α : Type} {p : α → Bool} {l : List α} {n : Nat}

/-- What is kept of the front is less than what is kept of all, if something behind is. -/
theorem length_filter_take_lt (h : ∃ a ∈ l.drop n, p a) :
    ((l.take n).filter p).length < (l.filter p).length := by
  obtain ⟨a, ha, hp⟩ := h
  have hpos : 0 < ((l.drop n).filter p).length :=
    List.length_pos_of_mem (List.mem_filter.mpr ⟨ha, hp⟩)
  rw [← List.take_append_drop n l, List.filter_append, List.length_append, List.take_append_drop]
  omega

/-- A front that is kept whole is the front of what is kept. -/
theorem filter_take_of_forall (hle : n ≤ l.length) (h : ∀ a ∈ l.take n, p a) :
    (l.take n).filter p = (l.filter p).take n := by
  have hlen : (l.take n).length = n := by rw [List.length_take, Nat.min_eq_left hle]
  have hsplit : l.filter p = l.take n ++ (l.drop n).filter p := by
    rw [← List.filter_eq_self.mpr h, ← List.filter_append, List.take_append_drop]
  rw [hsplit, List.filter_eq_self.mpr h, List.take_append_of_le_length (by omega), List.take_take,
    Nat.min_self]

end Lists

/-- None of the records that a query is asked for has aged out, and the events that match,
gap markers among them, are fewer than it may return, or more with no marker among those it
returns. -/
def Answerable (plane : TelemetryPlane) (filter : Option String) (maxEvents now : Nat) : Prop :=
  (∀ e ∈ (matchingEntries plane.ring filter).take (clampEvents maxEvents),
    now - e.insertedAt ≤ plane.ring.config.maxAge) ∧
  ((matchingEvents plane.ring filter).length < clampEvents maxEvents ∨
    clampEvents maxEvents < (matchingEvents plane.ring filter).length ∧
      ∀ ev ∈ (matchingEvents plane.ring filter).take (clampEvents maxEvents), ev.isRecord)

/-- A query is honest exactly if it is answerable, where all sequences are words. -/
theorem honest_iff_of_words (hwords : ∀ e ∈ plane.ring.entries, e.record.streamSequence ≤ u64Max)
    (filter : Option String) (maxEvents now : Nat) :
    Honest plane filter maxEvents now ↔ Answerable plane filter maxEvents now := by
  obtain ⟨hevents, hcaught⟩ := query_eq hwords filter maxEvents
  have hall : (matchingEvents plane.ring filter).filter RingEvent.isRecord =
      (matchingEntries plane.ring filter).map (.record ·.record) :=
    filter_isRecord_replay filter .empty plane.ring.entries
  have hbehind : clampEvents maxEvents < (matchingEvents plane.ring filter).length →
      ∃ ev ∈ (matchingEvents plane.ring filter).drop (clampEvents maxEvents), ev.isRecord = true :=
    exists_record_of_lt filter
  have hrecords : (plane.query filter maxEvents).records =
      (((matchingEvents plane.ring filter).take (clampEvents maxEvents)).filter
        RingEvent.isRecord).map viewEvent := by
    rw [TelemetrySnapshot.records, hevents, List.filter_map]
    exact congrArg _ (List.filter_congr fun ev _ => isRecord_viewEvent ev)
  unfold Honest Answerable
  simp only [hrecords, hcaught, decide_eq_true_eq, List.length_map]
  generalize matchingEvents plane.ring filter = events at *
  generalize matchingEntries plane.ring filter = entries at *
  generalize clampEvents maxEvents = n at *
  have hcount : (events.filter RingEvent.isRecord).length = entries.length := by
    rw [hall, List.length_map]
  have hview : ∀ k, ((events.filter RingEvent.isRecord).take k).map viewEvent =
      (entries.take k).map (viewRecord ·.record) := by
    intro k
    rw [hall, ← List.map_take, List.map_map]
    rfl
  rcases Nat.lt_trichotomy events.length n with hfewer | hequal | hmore
  · -- Everything is returned, and the query has caught up.
    have htake : events.take n = events := List.take_of_length_le (Nat.le_of_lt hfewer)
    have hshort : (events.filter RingEvent.isRecord).take n = events.filter RingEvent.isRecord :=
      List.take_of_length_le (Nat.le_trans (List.length_filter_le _ _) (Nat.le_of_lt hfewer))
    rw [htake, ← hview n, hshort]
    exact ⟨fun h => ⟨h.2.1, .inl hfewer⟩, fun h => ⟨rfl, h.1, iff_of_true hfewer hcount⟩⟩
  · -- Everything is returned, and the query says that it has not caught up.
    have htake : events.take n = events := List.take_of_length_le (Nat.le_of_eq hequal)
    rw [htake]
    constructor
    · rintro ⟨-, -, hcaught⟩
      exact absurd (hcaught.mpr hcount) (by omega)
    · rintro ⟨-, hfewer | ⟨hmore, -⟩⟩
      · omega
      · omega
  · -- A record is withheld; what is returned is right if no marker takes its place.
    have hlt := length_filter_take_lt (hbehind hmore)
    have hne : ¬ events.length < n := by omega
    have hwithheld : (events.length < n ↔
        ((events.take n).filter RingEvent.isRecord).length = entries.length) :=
      iff_of_false hne (by omega)
    constructor
    · rintro ⟨hsame, hfresh, -⟩
      refine ⟨hfresh, .inr ⟨hmore, ?_⟩⟩
      have hlen := congrArg List.length hsame
      rw [List.length_map, List.length_map, List.length_take] at hlen
      refine List.filter_eq_self.mp (List.filter_sublist.eq_of_length_le ?_)
      rw [List.length_take]
      omega
    · rintro ⟨hfresh, hfewer | ⟨-, hplain⟩⟩
      · omega
      · refine ⟨?_, hfresh, hwithheld⟩
        rw [filter_take_of_forall (Nat.le_of_lt hmore) hplain, hview]

/-- A chunk that is accepted is a record of its topic, which is not reserved. -/
theorem TelemetryPlane.ingestApplicationTopic_ok {topic : String} {bytes : List UInt8}
    {streamSequence now : Nat} {result : TelemetryPlane × EmitOutcome}
    (h : plane.ingestApplicationTopic topic bytes streamSequence now = .ok result) :
    reserved topic = false ∧ ∃ record : StreamRecord, record.topic = topic ∧
      record.streamSequence = streamSequence ∧ result = plane.ingestStream record now := by
  unfold ingestApplicationTopic at h
  cases hvalid : validateTopic topic with
  | error e =>
    rw [hvalid] at h
    cases h
  | ok valid =>
    rw [hvalid] at h
    simp only [bind, Except.bind] at h
    split at h
    · cases h
    · next hfree =>
      split at h
      · cases h
        exact ⟨by simpa using (not_or.mp hfree).2, _, rfl, rfl, rfl⟩
      · cases h

/-- The counters of a plane and the sequences of its entries are words. -/
structure TelemetryPlane.Words (plane : TelemetryPlane) : Prop where
  generation : plane.ring.generation ≤ u64Max
  supervisor : plane.supervisorSeq ≤ u64Max
  entries : ∀ e ∈ plane.ring.entries, e.record.streamSequence ≤ u64Max

theorem TelemetryPlane.Words.ingestStream (h : plane.Words) {record : StreamRecord}
    (hrecord : record.streamSequence ≤ u64Max) (now : Nat) :
    (plane.ingestStream record now).1.Words := by
  obtain ⟨k, room, entry, hdrops, rfl, hentries, hgeneration⟩ :=
    LocalRing.push_drops h.generation record now
  refine ⟨hgeneration.trans_le hdrops.generation_le, h.supervisor, fun e he => ?_⟩
  have hmem : e ∈ room.entries ++ [entry] := hentries ▸ he
  rcases List.mem_append.mp hmem with hold | hnew
  · exact h.entries e (List.mem_of_mem_drop (hdrops.entries ▸ hold))
  · rw [List.mem_singleton.mp hnew]
    exact hrecord

theorem TelemetryPlane.Words.step (h : plane.Words) {input : PlaneInput × Nat}
    (hinput : input.1.Word) : (plane.step input).1.Words := by
  obtain ⟨given, now⟩ := input
  cases given with
  | stream record => exact h.ingestStream hinput now
  | supervisor message =>
    have hnext : { plane with supervisorSeq := saturatingAdd plane.supervisorSeq 1 }.Words :=
      ⟨h.generation, saturatingAdd_le _ _, h.entries⟩
    exact hnext.ingestStream h.supervisor now
  | application topic bytes streamSequence =>
    simp only [TelemetryPlane.step]
    split
    · next next_plane outcome hok =>
      obtain ⟨-, record, -, rfl, heq⟩ := ingestApplicationTopic_ok hok
      rw [show next_plane = (plane.ingestStream record now).1 from congrArg Prod.fst heq]
      exact h.ingestStream hinput now
    · exact h

theorem TelemetryPlane.run_words (config : RingConfig) {inputs : List (PlaneInput × Nat)}
    (h : ∀ input ∈ inputs, input.1.Word) : (runFrom step (new config) inputs).Words := by
  have hrun : (runFrom step (new config) inputs).Words ∧
      ∀ input ∈ ([] : List (PlaneInput × Nat)), input.1.Word :=
    runFrom_of_inputs
      (P := fun (plane : TelemetryPlane) (rest : List (PlaneInput × Nat)) =>
        plane.Words ∧ ∀ input ∈ rest, input.1.Word)
      (fun plane input rest hplane =>
        ⟨hplane.1.step (hplane.2 input List.mem_cons_self),
          fun later hlater => hplane.2 later (List.mem_cons_of_mem _ hlater)⟩)
      ⟨⟨Nat.zero_le _, Nat.zero_le _, fun _ he => absurd he List.not_mem_nil⟩, h⟩
  exact hrun.1

/-- After every history of a plane, a query is honest exactly if it is answerable: none of
the records it is asked for has aged out since, and the events that match, gap markers
among them, are fewer than it may return, or more with no marker among those it returns. -/
theorem query_honest_iff (config : RingConfig) (inputs : List (PlaneInput × Nat))
    (filter : Option String) (maxEvents now : Nat) (h : ∀ input ∈ inputs, input.1.Word) :
    Honest (runFrom TelemetryPlane.step (.new config) inputs) filter maxEvents now ↔
      Answerable (runFrom TelemetryPlane.step (.new config) inputs) filter maxEvents now :=
  honest_iff_of_words (TelemetryPlane.run_words config h).entries filter maxEvents now

/-- Two lines of an output; the one between them is missing. -/
def sampleHistory : List (PlaneInput × Nat) :=
  [(.stream ⟨topicStdout, 0, 0b101, [10], true, 0⟩, 0),
    (.stream ⟨topicStdout, 2, 0b101, [10], true, 2⟩, 0)]

/-- A query for ten events returns both records and the marker between them. -/
theorem query_honest_ten_events :
    Honest (runFrom TelemetryPlane.step (.new ⟨1000, 60, none⟩) sampleHistory) (some "app/*") 10
      0 := by
  refine (query_honest_iff _ sampleHistory _ _ _
    (by simp [sampleHistory, PlaneInput.Word, u64Max])).mpr ?_
  exact ⟨by decide +kernel, .inl (by decide +kernel)⟩

/-- A query for three events returns all there are and says that it has not caught up; one
for two returns one record for the marker; and one after the window returns records that
are too old. -/
theorem dishonest_queries :
    let plane := runFrom TelemetryPlane.step (.new ⟨1000, 60, none⟩) sampleHistory
    ¬ Honest plane none 3 0 ∧ ¬ Honest plane none 2 0 ∧ ¬ Honest plane none 10 61 := by
  unfold Honest
  decide +kernel

end Gump.Telemetry
