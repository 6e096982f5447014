/-
  Telemetry/Sinks.lean --- the sinks of the attempts of a node.

  Models the `TelemetrySink` of `gump-server/src/runtime.rs`.  Every sink numbers the chunks
  of each stream from zero, and all of them feed two topics of one plane.  A query reports a
  gap exactly where a record jumps ahead of the one before it in its topic (`Jumps`).  That
  this is a gap of one attempt is only known if the two records are of one sink.
-/
import Gump.Telemetry.Plane

set_option autoImplicit false

namespace Gump.Telemetry

open Gump.Foundation Gump.Types

/-! ## Sinks -/

/-- The sink and the number of the chunk that a record of the ring is from. -/
structure Origin where
  sink : Nat
  number : Nat
  deriving DecidableEq, Repr

/-- A plane, the number of chunks that each sink has seen of its streams, and the origins of
the records in the ring, which the code does not keep. -/
structure Node where
  plane : TelemetryPlane
  seen : Nat → StreamKind → Nat
  origins : List Origin

/-- A chunk of a sink; `locked` if the plane could be locked. -/
structure Chunk where
  sink : Nat
  kind : StreamKind
  bytes : List UInt8
  locked : Bool
  now : Nat
  deriving DecidableEq, Repr

namespace Node

def start (config : RingConfig) : Node := ⟨.new config, fun _ _ => 0, []⟩

/-- `on_chunk`: the chunk has its number whether or not it is stored. -/
def onChunk (n : Node) (c : Chunk) : Node :=
  let number := n.seen c.sink c.kind
  let seen := fun sink kind =>
    if sink = c.sink ∧ kind = c.kind then number + 1 else n.seen sink kind
  if c.locked then
    match n.plane.ingestApplicationTopic c.kind.topic c.bytes (number % 2 ^ 64) c.now with
    | .ok (plane, _) =>
      { plane := plane
        seen := seen
        origins := (n.origins ++ [Origin.mk c.sink number]).drop
          (n.origins.length + 1 - plane.ring.entries.length) }
    | .error _ => { n with seen := seen }
  else { n with seen := seen }

def step (n : Node) (c : Chunk) : Node × Unit := (n.onChunk c, ())

end Node

/-! ## What a query reports -/

/-- A record jumps ahead of the one before it in its topic, and the marker names what is
between them. -/
structure Jumps (entries : List RingEntry) (marker : GapMarker) : Prop where
  exists_pair : ∃ before p between q after, entries = before ++ p :: (between ++ q :: after) ∧
    p.record.topic = marker.topic ∧ q.record.topic = marker.topic ∧
    (∀ e ∈ between, e.record.topic ≠ marker.topic) ∧
    marker.fromSequence = saturatingAdd p.record.streamSequence 1 ∧
    marker.toSequence = q.record.streamSequence ∧ marker.fromSequence < marker.toSequence

/-- The sequence that a topic had last in some entries. -/
def lastSequence (topic : String) (entries : List RingEntry) : Option Nat :=
  ((entries.filter fun e => e.record.topic == topic).getLast?).map fun e => e.record.streamSequence

theorem lastSequence_concat (topic : String) (entries : List RingEntry) (e : RingEntry) :
    lastSequence topic (entries ++ [e]) =
      if e.record.topic = topic then some e.record.streamSequence
      else lastSequence topic entries := by
  unfold lastSequence
  rw [List.filter_append]
  split_ifs with htopic
  · rw [List.filter_cons_of_pos (by simp [htopic]), List.filter_nil, List.getLast?_concat]
    rfl
  · rw [List.filter_cons_of_neg (by simp [htopic]), List.filter_nil, List.append_nil]

/-- The entry that a topic had last. -/
theorem exists_of_lastSequence {topic : String} {entries : List RingEntry} {prev : Nat}
    (h : lastSequence topic entries = some prev) :
    ∃ before p between, entries = before ++ p :: between ∧ p.record.topic = topic ∧
      p.record.streamSequence = prev ∧ ∀ e ∈ between, e.record.topic ≠ topic := by
  induction entries using List.reverseRecOn with
  | nil => cases h
  | append_singleton entries e ih =>
    rw [lastSequence_concat] at h
    split_ifs at h with htopic
    · exact ⟨entries, e, [], rfl, htopic, Option.some.inj h, fun _ he => absurd he List.not_mem_nil⟩
    · obtain ⟨before, p, between, rfl, hp, hprev, hbetween⟩ := ih h
      refine ⟨before, p, between ++ [e], ?_, hp, hprev, fun e' he' => ?_⟩
      · rw [List.append_assoc, List.cons_append]
      · rcases List.mem_append.mp he' with hmem | hmem
        · exact hbetween e' hmem
        · rw [List.mem_singleton.mp hmem]
          exact htopic

/-- A gap in a replay of the rest of some entries is a jump. -/
theorem jumps_of_mem_replay {marker : GapMarker} {rest : List RingEntry} :
    ∀ (passed : List RingEntry) (last : OrdMap String Nat),
      (∀ topic, last.get topic = lastSequence topic passed) → .gap marker ∈ replay last rest →
        Jumps (passed ++ rest) marker := by
  induction rest with
  | nil => exact fun _ _ _ h => absurd h List.not_mem_nil
  | cons e rest ih =>
    intro passed last hlast h
    rcases List.mem_append.mp h with hgap | hlater
    · unfold gapBefore at hgap
      cases hprev : last.get e.record.topic with
      | none =>
        rw [hprev] at hgap
        exact absurd hgap List.not_mem_nil
      | some prev =>
        rw [hprev] at hgap
        dsimp only at hgap
        split_ifs at hgap with hjump
        · obtain ⟨before, p, between, rfl, hp, rfl, hbetween⟩ :=
            exists_of_lastSequence ((hlast _).symm.trans hprev)
          cases List.mem_singleton.mp hgap
          refine ⟨before, p, between, e, rest, ?_, hp, rfl, hbetween, rfl, rfl, hjump⟩
          rw [List.append_assoc, List.cons_append]
        · exact absurd hgap List.not_mem_nil
    · have hrest := ih (passed ++ [e]) _ (fun topic => ?_)
        ((List.mem_cons.mp hlater).resolve_left nofun)
      · rwa [List.append_assoc, List.singleton_append] at hrest
      · rw [OrdMap.get_insert, lastSequence_concat, hlast]
        simp only [eq_comm]

/-- A query reports a gap only where a record jumps ahead in its topic. -/
theorem queried_gaps {plane : TelemetryPlane}
    (hwords : ∀ e ∈ plane.ring.entries, e.record.streamSequence ≤ u64Max) {filter : Option String}
    {maxEvents : Nat} {topic reason : String} {low high : Nat}
    (hgap : .gap topic low high reason ∈ (plane.query filter maxEvents).events) :
    ∃ why, Jumps plane.ring.entries ⟨topic, low, high, why⟩ := by
  rw [(query_eq hwords filter maxEvents).1] at hgap
  obtain ⟨ev, hev, hview⟩ := List.mem_map.mp hgap
  have hreplay : ev ∈ replay .empty plane.ring.entries :=
    List.mem_of_mem_filter (List.mem_of_mem_take hev)
  cases ev with
  | record r => cases hview
  | gap marker =>
    cases hview
    exact ⟨marker.reason, jumps_of_mem_replay [] _ (fun _ => rfl) hreplay⟩

/-! ## The records of several sinks -/

namespace Node

/-- The records of the ring with their origins. -/
def window (n : Node) : List (Origin × RingEntry) := n.origins.zip n.plane.ring.entries

/-- The newest record of a topic. -/
def newest (n : Node) (topic : String) : Option (Origin × RingEntry) :=
  (n.window.filter fun x => x.2.record.topic == topic).getLast?

/-- A chunk that is stored does not jump ahead of the newest record of its topic, if that is
one of another sink. -/
def Follows (n : Node) (c : Chunk) : Prop :=
  c.locked = true → ∀ x ∈ n.newest c.kind.topic,
    x.1.sink = c.sink ∨ n.seen c.sink c.kind % 2 ^ 64 ≤ saturatingAdd x.2.record.streamSequence 1

instance (n : Node) (c : Chunk) : Decidable (n.Follows c) :=
  inferInstanceAs (Decidable (_ → ∀ x ∈ n.newest c.kind.topic, _))

/-- A record is the chunk of its origin. -/
def Genuine (n : Node) (x : Origin × RingEntry) : Prop :=
  ∃ kind : StreamKind, x.2.record.topic = kind.topic ∧
    x.2.record.streamSequence = x.1.number % 2 ^ 64 ∧ x.1.number < n.seen x.1.sink kind

/-- The chunks of a sink are stored in their order. -/
def Ordered (x y : Origin × RingEntry) : Prop :=
  x.1.sink = y.1.sink → x.2.record.topic = y.2.record.topic → x.1.number < y.1.number

/-- Neighbours in a topic are of one sink, or the second does not jump ahead. -/
def Neighbours (window : List (Origin × RingEntry)) : Prop :=
  ∀ before x between y after, window = before ++ x :: (between ++ y :: after) →
    x.2.record.topic = y.2.record.topic →
    (∀ z ∈ between, z.2.record.topic ≠ y.2.record.topic) →
    x.1.sink = y.1.sink ∨ y.2.record.streamSequence ≤ saturatingAdd x.2.record.streamSequence 1

structure Sound (n : Node) : Prop where
  length : n.origins.length = n.plane.ring.entries.length
  generation : n.plane.ring.generation ≤ u64Max
  genuine : ∀ x ∈ n.window, n.Genuine x
  ordered : n.window.Pairwise Ordered
  neighbours : Neighbours n.window

theorem ingest_eq (plane : TelemetryPlane) (kind : StreamKind) (bytes : List UInt8)
    (sequence now : Nat) :
    ∃ record : StreamRecord, record.topic = kind.topic ∧ record.streamSequence = sequence ∧
      plane.ingestApplicationTopic kind.topic bytes sequence now =
        .ok (plane.ingestStream record now) := by
  have hvalid : ∀ kind : StreamKind, validateTopic kind.topic = .ok () ∧
      ¬ (kind.topic = topicGumpLifecycle ∨ TelemetryPlane.reserved kind.topic = true) ∧
      (kind.topic = topicStdout ∨ kind.topic = topicStderr) := by
    intro kind
    cases kind with
    | stdout => decide +kernel
    | stderr => decide +kernel
  obtain ⟨htopic, hfree, hknown⟩ := hvalid kind
  refine ⟨⟨kind.topic, sequence, 0b101, bytes, (String.fromUTF8? ⟨bytes.toArray⟩).isSome, 0⟩,
    rfl, rfl, ?_⟩
  rw [TelemetryPlane.ingestApplicationTopic, htopic]
  exact (if_neg hfree).trans (if_pos hknown)

variable {n : Node}

/-- What a chunk does to the window: some of the oldest records go, and the chunk comes if
the plane could be locked. -/
theorem window_onChunk (h : n.Sound) (c : Chunk) :
    ((n.onChunk c).window = n.window ∧ (n.onChunk c).plane = n.plane ∧
      (n.onChunk c).origins = n.origins ∧ c.locked = false) ∨
    ∃ k entry, (n.onChunk c).window =
        (n.window ++ [(Origin.mk c.sink (n.seen c.sink c.kind), entry)]).drop k ∧
      entry.record.topic = c.kind.topic ∧
      entry.record.streamSequence = n.seen c.sink c.kind % 2 ^ 64 ∧
      (n.onChunk c).origins.length = (n.onChunk c).plane.ring.entries.length ∧
      (n.onChunk c).plane.ring.generation ≤ u64Max ∧ c.locked = true := by
  cases hlocked : c.locked with
  | false =>
    have hsame : n.onChunk c = { n with seen := (n.onChunk c).seen } := by
      unfold onChunk
      rw [hlocked]
      rfl
    refine .inl ⟨?_, ?_, ?_, rfl⟩
    · rw [hsame]
      rfl
    · rw [hsame]
    · rw [hsame]
  | true =>
    obtain ⟨record, htopic, hsequence, hingest⟩ := ingest_eq n.plane c.kind c.bytes
      (n.seen c.sink c.kind % 2 ^ 64) c.now
    obtain ⟨k, room, entry, hdrops, rfl, hentries, hgeneration⟩ :=
      LocalRing.push_drops h.generation record c.now
    rw [hdrops.entries] at hentries
    have hlength := congrArg List.length hentries
    rw [List.length_append, List.length_drop, List.length_singleton] at hlength
    have hle := hdrops.le
    have hlen := h.length
    have hk :
        n.origins.length + 1 - (n.plane.ring.push entry.record c.now).1.entries.length = k := by
      omega
    have hplane : (n.onChunk c).plane =
        { n.plane with ring := (n.plane.ring.push entry.record c.now).1 } := by
      unfold onChunk
      rw [hlocked]
      dsimp only
      rw [if_pos rfl, hingest]
      rfl
    have horigins : (n.onChunk c).origins =
        (n.origins ++ [Origin.mk c.sink (n.seen c.sink c.kind)]).drop k := by
      unfold onChunk
      rw [hlocked]
      dsimp only
      rw [if_pos rfl, hingest]
      exact congrArg (fun j => (n.origins ++ [Origin.mk c.sink (n.seen c.sink c.kind)]).drop j) hk
    refine .inr ⟨k, entry, ?_, htopic, hsequence, ?_, ?_, rfl⟩
    · have happend :
          (n.plane.ring.entries ++ [entry]).drop k = n.plane.ring.entries.drop k ++ [entry] :=
        List.drop_append_of_le_length hle
      rw [window, hplane, horigins, hentries, ← happend, List.zip_eq_zipWith, ← List.drop_zipWith,
        ← List.zip_eq_zipWith, List.zip_append hlen]
      rfl
    · rw [hplane, horigins, List.length_drop, List.length_append, List.length_singleton]
      dsimp only
      omega
    · rw [hplane]
      dsimp only
      rw [hgeneration]
      exact hdrops.generation_le

theorem seen_onChunk (n : Node) (c : Chunk) (sink : Nat) (kind : StreamKind) :
    (n.onChunk c).seen sink kind =
      if sink = c.sink ∧ kind = c.kind then n.seen c.sink c.kind + 1 else n.seen sink kind := by
  unfold onChunk
  dsimp only
  split
  · split
    · rfl
    · rfl
  · rfl

theorem seen_le_onChunk (n : Node) (c : Chunk) (sink : Nat) (kind : StreamKind) :
    n.seen sink kind ≤ (n.onChunk c).seen sink kind := by
  rw [seen_onChunk]
  split_ifs with heq
  · rw [heq.1, heq.2]
    exact Nat.le_succ _
  · exact Nat.le_refl _

theorem topic_injective {kind kind' : StreamKind} (h : kind.topic = kind'.topic) :
    kind = kind' := by
  revert kind kind'
  have hne : topicStdout ≠ topicStderr := by decide
  intro kind kind' h
  cases kind with
  | stdout =>
    cases kind' with
    | stdout => rfl
    | stderr => exact absurd h hne
  | stderr =>
    cases kind' with
    | stdout => exact absurd h.symm hne
    | stderr => rfl

theorem newest_of_split {topic : String} {before between : List (Origin × RingEntry)}
    {x : Origin × RingEntry} (h : n.window = before ++ x :: between) (hx : x.2.record.topic = topic)
    (hbetween : ∀ z ∈ between, z.2.record.topic ≠ topic) : n.newest topic = some x := by
  have hnone : between.filter (fun z => z.2.record.topic == topic) = [] :=
    List.filter_eq_nil_iff.mpr fun z hz => by simp [hbetween z hz]
  rw [newest, h, List.filter_append, List.filter_cons_of_pos (by simp [hx]), hnone,
    List.getLast?_concat]

theorem Neighbours.drop {window : List (Origin × RingEntry)} (h : Neighbours window) (k : Nat) :
    Neighbours (window.drop k) := by
  intro before x between y after heq
  refine h (window.take k ++ before) x between y after ?_
  rw [List.append_assoc, ← heq, List.take_append_drop]

/-- One more record keeps neighbours apart if it follows the newest one of its topic. -/
theorem Neighbours.concat (h : Neighbours n.window) {new : Origin × RingEntry}
    (hnew : ∀ x ∈ n.newest new.2.record.topic, x.1.sink = new.1.sink ∨
      new.2.record.streamSequence ≤ saturatingAdd x.2.record.streamSequence 1) :
    Neighbours (n.window ++ [new]) := by
  intro before x between y after heq htopic hbetween
  rcases List.eq_nil_or_concat after with rfl | ⟨after, last, rfl⟩
  · have hsplit : n.window ++ [new] = (before ++ x :: between) ++ [y] := by
      rw [heq, List.append_assoc, List.cons_append]
    obtain ⟨hwindow, hy⟩ := List.append_inj' hsplit rfl
    obtain rfl := List.singleton_inj.mp hy
    exact hnew x (newest_of_split hwindow htopic hbetween)
  · have hsplit : n.window ++ [new] = (before ++ x :: (between ++ y :: after)) ++ [last] := by
      rw [heq]
      simp only [List.append_assoc, List.cons_append, List.concat_eq_append]
    obtain ⟨hwindow, -⟩ := List.append_inj' hsplit rfl
    exact h before x between y after hwindow htopic hbetween

theorem Genuine.onChunk {x : Origin × RingEntry} (h : n.Genuine x) (c : Chunk) :
    (n.onChunk c).Genuine x := by
  obtain ⟨kind, htopic, hsequence, hnumber⟩ := h
  exact ⟨kind, htopic, hsequence, Nat.lt_of_lt_of_le hnumber (seen_le_onChunk n c _ _)⟩

theorem Sound.onChunk (h : n.Sound) {c : Chunk} (hfollows : n.Follows c) : (n.onChunk c).Sound := by
  rcases window_onChunk h c with ⟨hwindow, hplane, horigins, -⟩ |
    ⟨k, entry, hwindow, htopic, hsequence, hlength, hgeneration, hlocked⟩
  · refine ⟨?_, ?_, ?_, ?_, ?_⟩
    · rw [hplane, horigins]
      exact h.length
    · rw [hplane]
      exact h.generation
    · rw [hwindow]
      exact fun x hx => (h.genuine x hx).onChunk c
    · rw [hwindow]
      exact h.ordered
    · rw [hwindow]
      exact h.neighbours
  · have hnew : (n.onChunk c).Genuine (⟨c.sink, n.seen c.sink c.kind⟩, entry) := by
      refine ⟨c.kind, htopic, hsequence, ?_⟩
      rw [seen_onChunk, if_pos ⟨rfl, rfl⟩]
      exact Nat.lt_succ_self _
    refine ⟨hlength, hgeneration, fun x hx => ?_, ?_, ?_⟩
    · rw [hwindow] at hx
      rcases List.mem_append.mp (List.mem_of_mem_drop hx) with hold | hlast
      · exact (h.genuine x hold).onChunk c
      · rw [List.mem_singleton.mp hlast]
        exact hnew
    · rw [hwindow]
      refine List.Pairwise.sublist (List.drop_sublist _ _) (List.pairwise_append.mpr
        ⟨h.ordered, List.pairwise_singleton _ _, fun x hx y hy => ?_⟩)
      rw [List.mem_singleton.mp hy]
      intro hsink hsame
      obtain ⟨kind, hkind, -, hnumber⟩ := h.genuine x hx
      have hkinds : kind = c.kind := topic_injective (hkind.symm.trans (hsame.trans htopic))
      rw [hsink, hkinds] at hnumber
      exact hnumber
    · rw [hwindow]
      refine (h.neighbours.concat fun x hx => ?_).drop k
      dsimp only at hx ⊢
      rw [htopic] at hx
      rw [hsequence]
      exact hfollows hlocked x hx

theorem sound_start (config : RingConfig) : (start config).Sound := by
  refine ⟨rfl, Nat.zero_le _, fun x hx => absurd hx List.not_mem_nil, .nil, ?_⟩
  intro before x between y after heq
  have hlength := congrArg List.length heq
  simp [window, start] at hlength

theorem sound_run {config : RingConfig} {chunks : List Chunk}
    (hsteps : ∀ t ∈ transitions step (start config) chunks, t.before.Follows t.input) :
    (runFrom step (start config) chunks).Sound := by
  refine runFrom_of_transitions (fun t ht hsound => ?_) (sound_start config)
  obtain ⟨pre, post, -, -, -, hafter⟩ := exists_split_of_mem_transitions ht
  rw [hafter]
  exact Sound.onChunk hsound (hsteps t ht)

/-! ## Gaps -/

/-- A chunk of a topic that its sink has produced and that is not in the ring, although two
neighbouring records of the sink are, one from before and one from after it. -/
structure Missing (n : Node) (topic : String) (low high : Nat) : Prop where
  exists_chunk : ∃ (sink : Nat) (kind : StreamKind) (number : Nat)
    (before : List (Origin × RingEntry)) (x : Origin × RingEntry)
    (between : List (Origin × RingEntry)) (y : Origin × RingEntry)
    (after : List (Origin × RingEntry)),
    kind.topic = topic ∧ number < n.seen sink kind ∧
    low ≤ number % 2 ^ 64 ∧ number % 2 ^ 64 < high ∧
    n.window = before ++ x :: (between ++ y :: after) ∧
    x.1.sink = sink ∧ y.1.sink = sink ∧ x.2.record.topic = topic ∧ y.2.record.topic = topic ∧
    (∀ z ∈ between, ¬ (z.1.sink = sink ∧ z.2.record.topic = topic)) ∧
    x.1.number < number ∧ number < y.1.number ∧
    ∀ z ∈ n.window, ¬ (z.1 = ⟨sink, number⟩ ∧ z.2.record.topic = topic)

theorem map_snd_window (h : n.Sound) : n.window.map Prod.snd = n.plane.ring.entries :=
  List.map_snd_zip (Nat.le_of_eq h.length.symm)

/-- A jump in the ring of a sound node is a missing chunk. -/
theorem Sound.missing (h : n.Sound) {topic : String} {low high : Nat} {why : GapReason}
    (hjumps : Jumps n.plane.ring.entries ⟨topic, low, high, why⟩) : n.Missing topic low high := by
  obtain ⟨before, p, between, q, after, hentries, hp, hq, hbetween, hlow, hhigh, hlt⟩ :=
    hjumps.exists_pair
  rw [← map_snd_window h] at hentries
  obtain ⟨wbefore, wrest, hwindow, -, hrest⟩ := List.map_eq_append_iff.mp hentries
  obtain ⟨x, wtail, rfl, rfl, hwtail⟩ := List.map_eq_cons_iff.mp hrest
  obtain ⟨wbetween, wlast, rfl, hmiddle, hlast⟩ := List.map_eq_append_iff.mp hwtail
  obtain ⟨y, wafter, rfl, rfl, -⟩ := List.map_eq_cons_iff.mp hlast
  dsimp only at hp hq hlow hhigh hlt hbetween
  have hfree : ∀ z ∈ wbetween, z.2.record.topic ≠ topic := fun z hz =>
    hbetween z.2 (hmiddle ▸ List.mem_map_of_mem hz)
  have hx : x ∈ n.window := by
    rw [hwindow]
    exact List.mem_append_right _ List.mem_cons_self
  have hy : y ∈ n.window := by
    rw [hwindow]
    exact List.mem_append_right _ (List.mem_cons_of_mem _
      (List.mem_append_right _ List.mem_cons_self))
  obtain ⟨-, -, hxsequence, -⟩ := h.genuine x hx
  obtain ⟨kind, hkind, hysequence, hproduced⟩ := h.genuine y hy
  -- neighbours that jump are of one sink
  have hsink : x.1.sink = y.1.sink := by
    refine (h.neighbours wbefore x wbetween y wafter hwindow (hp.trans hq.symm) ?_).resolve_right ?_
    · rw [hq]
      exact hfree
    · rw [← hlow, ← hhigh]
      exact Nat.not_le.mpr hlt
  have hordered := h.ordered
  rw [hwindow] at hordered
  obtain ⟨-, hfrom, hacross⟩ := List.pairwise_append.mp hordered
  obtain ⟨hfromx, htail⟩ := List.pairwise_cons.mp hfrom
  obtain ⟨-, hfromq, -⟩ := List.pairwise_append.mp htail
  obtain ⟨hfromy, -⟩ := List.pairwise_cons.mp hfromq
  have hnumbers : x.1.number < y.1.number :=
    hfromx y (List.mem_append_right _ List.mem_cons_self) hsink (hp.trans hq.symm)
  -- the first chunk of the range: it has the number of `y` up to its sequence
  obtain ⟨number, hnumber⟩ : ∃ k, k = y.1.number - (high - low) := ⟨_, rfl⟩
  have hfacts : number % 2 ^ 64 = low ∧ x.1.number < number ∧ number < y.1.number := by
    unfold saturatingAdd u64Max at hlow
    omega
  obtain ⟨hmod, hafterx, hbeforey⟩ := hfacts
  refine ⟨y.1.sink, kind, number, wbefore, x, wbetween, y, wafter, hkind.symm.trans hq,
    Nat.lt_trans hbeforey hproduced, Nat.le_of_eq hmod.symm, hmod.symm ▸ hlt, hwindow, hsink,
    rfl, hp, hq, fun z hz hboth => hfree z hz hboth.2, hafterx, hbeforey, ?_⟩
  rintro z hz ⟨horigin, htopic⟩
  have hzsink : z.1.sink = y.1.sink := by rw [horigin]
  have hznumber : z.1.number = number := by rw [horigin]
  rw [hwindow] at hz
  rcases List.mem_append.mp hz with hz | hz
  · have hlt' := hacross z hz x List.mem_cons_self (hzsink.trans hsink.symm) (htopic.trans hp.symm)
    omega
  rcases List.mem_cons.mp hz with rfl | hz
  · omega
  rcases List.mem_append.mp hz with hz | hz
  · exact hfree z hz htopic
  rcases List.mem_cons.mp hz with rfl | hz
  · omega
  · have hlt' := hfromy z hz hzsink.symm (hq.trans htopic.symm)
    omega

theorem Sound.words (h : n.Sound) :
    ∀ e ∈ n.plane.ring.entries, e.record.streamSequence ≤ u64Max := by
  intro e he
  rw [← map_snd_window h] at he
  obtain ⟨x, hx, rfl⟩ := List.mem_map.mp he
  obtain ⟨-, -, hsequence, -⟩ := h.genuine x hx
  rw [hsequence]
  unfold u64Max
  omega

/-- While no chunk that is stored jumps ahead of a newest record of another sink, every gap
that a query reports is a chunk that is missing, and none is reported while none is
missing. -/
theorem reported_gaps_are_real {config : RingConfig} {chunks : List Chunk}
    (hsteps : ∀ t ∈ transitions step (start config) chunks, t.before.Follows t.input)
    (filter : Option String) (maxEvents : Nat) :
    (∀ topic low high reason,
      .gap topic low high reason ∈
        ((runFrom step (start config) chunks).plane.query filter maxEvents).events →
      (runFrom step (start config) chunks).Missing topic low high) ∧
    ((∀ (sink : Nat) (kind : StreamKind) (number : Nat),
        number < (runFrom step (start config) chunks).seen sink kind →
        ∃ z ∈ (runFrom step (start config) chunks).window,
          z.1 = ⟨sink, number⟩ ∧ z.2.record.topic = kind.topic) →
      ∀ topic low high reason, .gap topic low high reason ∉
        ((runFrom step (start config) chunks).plane.query filter maxEvents).events) := by
  have hsound := sound_run hsteps
  generalize runFrom step (start config) chunks = n at hsound ⊢
  have hreal : ∀ topic low high reason,
      .gap topic low high reason ∈ (n.plane.query filter maxEvents).events →
      n.Missing topic low high := by
    intro topic low high reason hgap
    obtain ⟨why, hjumps⟩ := queried_gaps hsound.words hgap
    exact hsound.missing hjumps
  refine ⟨hreal, fun hall topic low high reason hgap => ?_⟩
  obtain ⟨sink, kind, number, -, -, -, -, -, rfl, hseen, -, -, -, -, -, -, -, -, -, -, hmissing⟩ :=
    (hreal topic low high reason hgap).exists_chunk
  obtain ⟨z, hz, horigin, htopic⟩ := hall sink kind number hseen
  exact hmissing z hz ⟨horigin, htopic⟩

end Node

namespace Sample

def ringConfig : RingConfig := ⟨65536, 60000, none⟩

/-- A chunk of the standard output of a sink. -/
def stdoutChunk (sink : Nat) (locked : Bool) : Chunk := ⟨sink, .stdout, [0x61], locked, 0⟩

/-- Three chunks of one attempt, the first one of another, and the next one of the first. -/
def twoAttempts : List Chunk :=
  [stdoutChunk 0 true, stdoutChunk 0 true, stdoutChunk 0 true, stdoutChunk 1 true,
    stdoutChunk 0 true]

/-- Nothing is dropped, and a gap is reported. -/
theorem gap_without_loss :
    (∀ c ∈ twoAttempts, c.locked = true) ∧
      ((runFrom Node.step (.start ringConfig) twoAttempts).plane.query none 100).droppedOldest = 0 ∧
      .gap "app/stdout" 1 3 "overflow_drop_oldest" ∈
        ((runFrom Node.step (.start ringConfig) twoAttempts).plane.query none 100).events := by
  decide +kernel

/-- Two attempts take turns.  A chunk of the first is not stored because the plane is locked,
and the gap tells of it. -/
theorem dropped_chunk_reported :
    (runFrom Node.step (.start ringConfig) [stdoutChunk 0 true, stdoutChunk 1 true,
      stdoutChunk 0 true, stdoutChunk 0 false, stdoutChunk 0 true, stdoutChunk 1 true]).Missing
      "app/stdout" 2 3 :=
  (Node.reported_gaps_are_real (by decide +kernel) none 100).1 "app/stdout" 2 3
    "overflow_drop_oldest" (by decide +kernel)

end Sample

end Gump.Telemetry
