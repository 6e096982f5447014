/-
  Telemetry/Ring.lean --- the recent window of an attempt and its subscribers.

  Models `gump-telemetry/src/ring.rs`.  The ring keeps the records of the captured
  streams within bounds of bytes, age and number; a push drops the oldest ones.  A
  subscriber is a cursor into the ring.  It learns from the ring's generation that
  records have been dropped, and from the stream sequences that some are missing.

  What a push does to the window is one statement, `push_drops`; what a poll does to the
  cursor is `poll_cases` together with `scan_cases`.
-/
import Gump.Foundation.OrdMap
import Gump.Foundation.Words
import Mathlib.Data.String.Basic

set_option autoImplicit false

namespace Gump.Telemetry

open Gump.Foundation

/-! ## Records -/

/-- A chunk of a captured stream.  `flags` are the framing bits of the chunk. -/
structure StreamRecord where
  topic : String
  streamSequence : Nat
  flags : UInt8
  bytes : List UInt8
  utf8Hint : Bool
  receiveOffset : Nat
  deriving DecidableEq, Repr

inductive EmitOutcome where
  | accepted
  | droppedOldest
  deriving DecidableEq, Repr

/-! ## The ring -/

structure RingConfig where
  maxBytes : Nat
  maxAge : Nat
  maxRecords : Option Nat
  deriving DecidableEq, Repr

inductive GapReason where
  | overflowDropOldest
  | subscriberLag
  deriving DecidableEq, Repr

/-- The sequences from `fromSequence` on and below `toSequence` are missing. -/
structure GapMarker where
  topic : String
  fromSequence : Nat
  toSequence : Nat
  reason : GapReason
  deriving DecidableEq, Repr

inductive RingEvent where
  | record (record : StreamRecord)
  | gap (marker : GapMarker)
  deriving DecidableEq, Repr

/-- The topic of an event. -/
def RingEvent.topic : RingEvent → String
  | .record r => r.topic
  | .gap g => g.topic

/-- A record of the window with the time it came at and its size in the byte budget. -/
structure RingEntry where
  record : StreamRecord
  insertedAt : Nat
  bytes : Nat
  deriving DecidableEq, Repr

structure LocalRing where
  config : RingConfig
  entries : List RingEntry
  totalBytes : Nat
  generation : Nat
  ringSequence : Nat
  pushed : Nat
  droppedOldest : Nat
  deriving DecidableEq, Repr

namespace LocalRing

/-- An empty ring; the bounds are at least one byte and one record. -/
def new (config : RingConfig) : LocalRing where
  config := {
    maxBytes := max config.maxBytes 1
    maxAge := config.maxAge
    maxRecords := config.maxRecords.map (max · 1) }
  entries := []
  totalBytes := 0
  generation := 0
  ringSequence := 0
  pushed := 0
  droppedOldest := 0

def recomputeBytes (ring : LocalRing) : LocalRing :=
  { ring with totalBytes := (ring.entries.map RingEntry.bytes).sum }

def needsEvict (ring : LocalRing) (incoming : Nat) : Bool :=
  if ring.entries.isEmpty then false
  else if saturatingAdd ring.totalBytes incoming > ring.config.maxBytes then true
  else
    match ring.config.maxRecords with
    | some max => decide (ring.entries.length ≥ max)
    | none => false

/-- The oldest record is older than the window. -/
def frontExpired (ring : LocalRing) (now : Nat) : Bool :=
  match ring.entries with
  | [] => false
  | front :: _ => decide (now - front.insertedAt > ring.config.maxAge)

/-- A loop of `push` over the entries: drop the oldest record as long as there is one and
`goes` holds; `settle` is what the loop does after each. -/
def dropOldestWhile (goes : LocalRing → Bool) (settle : LocalRing → LocalRing) :
    List RingEntry → LocalRing × EmitOutcome → LocalRing × EmitOutcome
  | [], state => state
  | _ :: rest, (ring, outcome) =>
    if goes ring then
      dropOldestWhile goes settle rest (settle { ring with
        entries := rest
        droppedOldest := (ring.droppedOldest + 1) % 2 ^ 64
        generation := saturatingAdd ring.generation 1 }, .droppedOldest)
    else (ring, outcome)

def evict (ring : LocalRing) (goes : LocalRing → Bool) (settle : LocalRing → LocalRing)
    (outcome : EmitOutcome) : LocalRing × EmitOutcome :=
  dropOldestWhile goes settle ring.entries (ring, outcome)

def expireByAge (ring : LocalRing) (now : Nat) : LocalRing :=
  (ring.evict (frontExpired · now) recomputeBytes .accepted).1

/-- Drop the oldest records until one of `bytes` bytes fits.  A record that is too large
for the ring is kept alone. -/
def makeRoom (ring : LocalRing) (bytes : Nat) : LocalRing × EmitOutcome :=
  let (fitted, outcome) := ring.evict (needsEvict · bytes) recomputeBytes .accepted
  if bytes > fitted.config.maxBytes ∧ fitted.entries ≠ [] then
    let (emptied, outcome) := fitted.evict (fun _ => true) id outcome
    ({ emptied with totalBytes := 0 }, outcome)
  else (fitted, outcome)

/-- Push a record, dropping the oldest ones as the bounds need. -/
def push (ring : LocalRing) (record : StreamRecord) (now : Nat) : LocalRing × EmitOutcome :=
  let bytes := saturatingAdd record.bytes.length 64
  let (room, outcome) := (ring.expireByAge now).makeRoom bytes
  ({ room with
      entries := room.entries ++ [⟨record, now, bytes⟩]
      totalBytes := saturatingAdd room.totalBytes bytes
      ringSequence := saturatingAdd room.ringSequence 1
      pushed := saturatingAdd room.pushed 1 }, outcome)

end LocalRing

/-! ## Subscribers -/

structure TopicFilter where
  topics : List String
  deriving DecidableEq, Repr

def TopicFilter.allows (filter : TopicFilter) (topic : String) : Bool :=
  filter.topics.isEmpty || filter.topics.any (· == topic)

structure Subscriber where
  filter : TopicFilter
  nextIndex : Nat
  seenGeneration : Nat
  replayDone : Bool
  lastStreamSeqByTopic : OrdMap String Nat
  pendingGap : Option GapMarker

/-- Open a subscriber that replays the window first. -/
def LocalRing.subscribe (ring : LocalRing) (filter : TopicFilter) : Subscriber where
  filter := filter
  nextIndex := 0
  seenGeneration := ring.generation
  replayDone := false
  lastStreamSeqByTopic := .empty
  pendingGap := none

namespace Subscriber

/-- Deliver the entry under the cursor, or the gap before it; the gap leaves the cursor
where it is. -/
def offer (s : Subscriber) (record : StreamRecord) : Option RingEvent × Subscriber :=
  let seq := record.streamSequence
  let delivered := { s with
    nextIndex := s.nextIndex + 1
    lastStreamSeqByTopic := s.lastStreamSeqByTopic.insert record.topic seq
    replayDone := true }
  match s.lastStreamSeqByTopic.get record.topic with
  | some prev =>
    if seq > saturatingAdd prev 1 then
      (some (.gap ⟨record.topic, saturatingAdd prev 1, seq, .overflowDropOldest⟩),
        { s with
          lastStreamSeqByTopic := s.lastStreamSeqByTopic.insert record.topic seq
          pendingGap := none })
    else (some (.record record), delivered)
  | none => (some (.record record), delivered)

/-- The loop over the entries from the cursor on. -/
def scan : Subscriber → List RingEntry → Option RingEvent × Subscriber
  | s, [] => (none, { s with replayDone := true })
  | s, entry :: rest =>
    if s.filter.allows entry.record.topic then s.offer entry.record
    else scan { s with nextIndex := s.nextIndex + 1 } rest

/-- Pull the next event. -/
def poll (s : Subscriber) (ring : LocalRing) : Option RingEvent × Subscriber :=
  match s.pendingGap with
  | some gap => (some (.gap gap), { s with pendingGap := none })
  | none =>
    if ring.generation ≠ s.seenGeneration then
      let seen := { s with seenGeneration := ring.generation }
      if seen.nextIndex > 0 ∨ seen.replayDone then
        let clamped := { seen with nextIndex := 0 }
        match clamped.lastStreamSeqByTopic.entries with
        | (topic, last) :: _ =>
          (some (.gap ⟨topic, saturatingAdd last 1, saturatingAdd last 1, .subscriberLag⟩), clamped)
        | [] => clamped.scan (ring.entries.drop clamped.nextIndex)
      else seen.scan (ring.entries.drop seen.nextIndex)
    else s.scan (ring.entries.drop s.nextIndex)

end Subscriber

/-! ## What a push does -/

namespace LocalRing

/-- Only the `k` oldest records of a ring have been dropped. -/
structure Drops (ring after : LocalRing) (k : Nat) : Prop where
  le : k ≤ ring.entries.length
  entries : after.entries = ring.entries.drop k
  droppedOldest : ring.droppedOldest < 2 ^ 64 →
    after.droppedOldest = (ring.droppedOldest + k) % 2 ^ 64
  generation : after.generation = min (ring.generation + k) u64Max

variable {ring : LocalRing}

theorem Drops.refl (hgeneration : ring.generation ≤ u64Max) : ring.Drops ring 0 :=
  ⟨Nat.zero_le _, rfl, fun h => (Nat.mod_eq_of_lt h).symm, (Nat.min_eq_left hgeneration).symm⟩

variable {after : LocalRing} {k : Nat}

theorem Drops.trans {middle : LocalRing} {j : Nat} (h : ring.Drops middle k)
    (h' : middle.Drops after j) : ring.Drops after (k + j) := by
  have hlength := h'.le
  rw [h.entries, List.length_drop] at hlength
  refine ⟨?_, ?_, ?_, ?_⟩
  · have := h.le
    omega
  · rw [h'.entries, h.entries, List.drop_drop]
  · intro hword
    have hmiddle := h.droppedOldest hword
    rw [h'.droppedOldest (hmiddle ▸ Nat.mod_lt _ (by decide)), hmiddle, Nat.mod_add_mod,
      Nat.add_assoc]
  · rw [h'.generation, h.generation]
    omega

theorem Drops.settle (h : ring.Drops after k) (n : Nat) :
    ring.Drops { after with totalBytes := n } k :=
  ⟨h.le, h.entries, h.droppedOldest, h.generation⟩

theorem drops_one {front : RingEntry} {rest : List RingEntry} (h : ring.entries = front :: rest) :
    ring.Drops { ring with
      entries := rest
      droppedOldest := (ring.droppedOldest + 1) % 2 ^ 64
      generation := saturatingAdd ring.generation 1 } 1 := by
  refine ⟨?_, ?_, fun _ => rfl, rfl⟩
  · rw [h, List.length_cons]
    exact Nat.succ_le_succ (Nat.zero_le _)
  · rw [h]
    rfl

theorem Drops.generation_le (h : ring.Drops after k) : after.generation ≤ u64Max := by
  rw [h.generation]
  exact Nat.min_le_right _ _

/-- A loop over the entries drops some of the oldest ones. -/
theorem evict_drops (goes : LocalRing → Bool) {settle : LocalRing → LocalRing}
    (hsettle : ∀ ring, ∃ n, settle ring = { ring with totalBytes := n })
    (hgeneration : ring.generation ≤ u64Max) (outcome : EmitOutcome) :
    ∃ k, ring.Drops (ring.evict goes settle outcome).1 k := by
  unfold evict
  generalize hentries : ring.entries = entries
  induction entries generalizing ring outcome with
  | nil => exact ⟨0, .refl hgeneration⟩
  | cons front rest ih =>
    unfold dropOldestWhile
    split_ifs
    · obtain ⟨n, hn⟩ := hsettle { ring with
        entries := rest
        droppedOldest := (ring.droppedOldest + 1) % 2 ^ 64
        generation := saturatingAdd ring.generation 1 }
      rw [hn]
      have hone := (drops_one hentries).settle n
      obtain ⟨k, hk⟩ := ih hone.generation_le .droppedOldest rfl
      exact ⟨1 + k, hone.trans hk⟩
    · exact ⟨0, .refl hgeneration⟩

theorem makeRoom_drops (hgeneration : ring.generation ≤ u64Max) (bytes : Nat) :
    ∃ k, ring.Drops (ring.makeRoom bytes).1 k := by
  obtain ⟨k, hk⟩ := evict_drops (needsEvict · bytes) (fun _ => ⟨_, rfl⟩) hgeneration .accepted
  unfold makeRoom
  dsimp only
  split_ifs
  · obtain ⟨j, hj⟩ := evict_drops (fun _ => true) (fun _ => ⟨_, rfl⟩) hk.generation_le
      (ring.evict (needsEvict · bytes) recomputeBytes .accepted).2
    exact ⟨k + j, (hk.trans hj).settle 0⟩
  · exact ⟨k, hk⟩

/-- A push drops some of the oldest records and appends the new one. -/
theorem push_drops (hgeneration : ring.generation ≤ u64Max) (record : StreamRecord) (now : Nat) :
    ∃ k room entry, ring.Drops room k ∧ entry.record = record ∧
      (ring.push record now).1.entries = room.entries ++ [entry] ∧
      (ring.push record now).1.generation = room.generation := by
  obtain ⟨k, hk⟩ := evict_drops (frontExpired · now) (fun _ => ⟨_, rfl⟩) hgeneration .accepted
  obtain ⟨j, hj⟩ := makeRoom_drops hk.generation_le (saturatingAdd record.bytes.length 64)
  exact ⟨k + j, _, _, hk.trans hj, rfl, rfl, rfl⟩

end LocalRing

/-! ## What a poll does -/

namespace Subscriber

/-- The loop passes over records that the filter does not allow, to the end or to one that
it offers. -/
theorem scan_cases (s : Subscriber) (entries : List RingEntry) :
    ((∀ entry ∈ entries, s.filter.allows entry.record.topic = false) ∧
      s.scan entries =
        (none, { s with nextIndex := s.nextIndex + entries.length, replayDone := true })) ∨
    ∃ passed entry rest, entries = passed ++ entry :: rest ∧
      (∀ e ∈ passed, s.filter.allows e.record.topic = false) ∧
      s.filter.allows entry.record.topic = true ∧
      s.scan entries = { s with nextIndex := s.nextIndex + passed.length }.offer entry.record := by
  induction entries generalizing s with
  | nil => exact .inl ⟨fun _ h => absurd h List.not_mem_nil, rfl⟩
  | cons entry rest ih =>
    by_cases hallowed : s.filter.allows entry.record.topic = true
    · exact .inr ⟨[], entry, rest, rfl, fun _ h => absurd h List.not_mem_nil, hallowed,
        if_pos hallowed⟩
    · have hscan : s.scan (entry :: rest) = { s with nextIndex := s.nextIndex + 1 }.scan rest :=
        if_neg hallowed
      have hpassed : s.filter.allows entry.record.topic = false := Bool.not_eq_true _ ▸ hallowed
      rw [hscan]
      rcases ih { s with nextIndex := s.nextIndex + 1 } with
        ⟨hnone, hend⟩ | ⟨passed, found, later, rfl, hnone, hfound, hend⟩
      · refine .inl ⟨List.forall_mem_cons.mpr ⟨hpassed, hnone⟩, hend.trans ?_⟩
        rw [List.length_cons, Nat.add_comm rest.length, ← Nat.add_assoc]
      · refine .inr ⟨entry :: passed, found, later, rfl,
          List.forall_mem_cons.mpr ⟨hpassed, hnone⟩, hfound, hend.trans ?_⟩
        rw [List.length_cons, Nat.add_comm passed.length, ← Nat.add_assoc]

/-- The cursor of a subscriber that has seen the generation of the ring: at the front,
if the generation is new. -/
def synced (s : Subscriber) (ring : LocalRing) : Subscriber :=
  if ring.generation = s.seenGeneration then s
  else { s with seenGeneration := ring.generation, nextIndex := 0 }

/-- A poll without a stashed gap syncs the cursor, and then tells of the lag of some topic
or scans the entries. -/
theorem poll_cases {s : Subscriber} (hpending : s.pendingGap = none) (ring : LocalRing) :
    (∃ topic last, (s.synced ring).lastStreamSeqByTopic.get topic = some last ∧
      s.poll ring =
        (some (.gap ⟨topic, saturatingAdd last 1, saturatingAdd last 1, .subscriberLag⟩),
        s.synced ring)) ∨
    s.poll ring = (s.synced ring).scan (ring.entries.drop (s.synced ring).nextIndex) := by
  unfold poll synced
  rw [hpending]
  by_cases hseen : ring.generation = s.seenGeneration
  · refine .inr ?_
    simp only [hseen, ne_eq, not_true_eq_false, if_false, if_true]
  · simp only [hseen, ne_eq, not_false_eq_true, if_true, if_false]
    split_ifs with hmoved
    · cases hlast : s.lastStreamSeqByTopic.entries with
      | nil => exact .inr rfl
      | cons first _ =>
        refine .inl ⟨first.1, first.2, ?_, rfl⟩
        exact OrdMap.mem_entries_iff.mp (hlast ▸ List.mem_cons_self)
    · have hfront : s.nextIndex = 0 := by omega
      rw [hfront]
      exact .inr rfl

end Subscriber

end Gump.Telemetry
