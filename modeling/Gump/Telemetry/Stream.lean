/-
  Telemetry/Stream.lean --- the capture of an attempt's output (`stream.rs`, `topic.rs`).

  A drain takes the output in pipe reads.  It cuts at every newline, and where 65,536
  bytes have come without one, and marks the pieces of a long line.  How the output was
  cut into reads does not matter: a read does what its bytes do one after another
  (`push_eq_feed`), and `feed` is the machine that the results are about.
-/
import Gump.Telemetry.Ring
import Gump.Types.Label
import Mathlib.Data.List.TakeWhile

set_option autoImplicit false

namespace Gump.Telemetry

open Gump.Foundation Gump.Types

/-! ## Topics -/

inductive TopicError where
  | empty
  | tooLong (len : Nat)
  | invalidByte (index : Nat) (byte : UInt8)
  | emptySegment
  | reservedImpersonation
  deriving DecidableEq, Repr

def maxTopicLen : Nat := 128

/-- The bytes that may stand in a topic: `a-z`, `0-9` and `/_-:*`. -/
def isTopicByte (b : UInt8) : Bool :=
  (0x61 ≤ b && b ≤ 0x7a) || (0x30 ≤ b && b ≤ 0x39) || b == 0x2f || b == 0x5f || b == 0x2d ||
    b == 0x3a || b == 0x2a

def validateTopic (topic : String) : Except TopicError Unit :=
  let bytes := utf8 topic
  if bytes = [] then .error .empty
  else if bytes.length > maxTopicLen then .error (.tooLong bytes.length)
  else if bytes.head? = some 0x2f ∨ bytes.getLast? = some 0x2f ∨ [0x2f, 0x2f] <:+: bytes then
    .error .emptySegment
  else
    match bytes.findIdx? (fun b => !isTopicByte b) with
    | some index => .error (.invalidByte index (bytes.getD index 0))
    | none => .ok ()

def topicStdout : String := "app/stdout"
def topicStderr : String := "app/stderr"

/-! ## The drain -/

/-- Maximum size of a pipe read. -/
def maxReadChunk : Nat := 32 * 1024

/-- Maximum size of a record. -/
def maxStreamRecordBytes : Nat := 64 * 1024

inductive StreamKind where
  | stdout
  | stderr
  deriving DecidableEq, Repr

def StreamKind.topic : StreamKind → String
  | .stdout => topicStdout
  | .stderr => topicStderr

/-- Framing bits: a record begins a line, is a piece of a longer one, or ends it. -/
def chunkBegin : UInt8 := 0b001
def chunkContinue : UInt8 := 0b010
def chunkEnd : UInt8 := 0b100

def newline : UInt8 := 10

/-- The state of a drain, and the records that its emitter has been given. -/
structure StreamDrain where
  kind : StreamKind
  streamSequence : Nat := 0
  receiveOffset : Nat := 0
  pending : List UInt8 := []
  inSplit : Bool := false
  emitted : List StreamRecord := []
  deriving DecidableEq, Repr

namespace StreamDrain

/-- Emit the first `nbytes` pending bytes. -/
def emitChunk (d : StreamDrain) (nbytes : Nat) (flags : UInt8) : StreamDrain :=
  let bytes := d.pending.take nbytes
  { d with
    pending := d.pending.drop nbytes
    receiveOffset := saturatingAdd d.receiveOffset nbytes
    streamSequence := saturatingAdd d.streamSequence 1
    emitted := d.emitted ++ [{
      topic := d.kind.topic
      streamSequence := d.streamSequence
      flags := flags
      bytes := bytes
      utf8Hint := (String.fromUTF8? ⟨bytes.toArray⟩).isSome
      receiveOffset := d.receiveOffset }] }

/-- Emit full records as long as the pending bytes fill one. -/
def spillOversized (d : StreamDrain) : StreamDrain :=
  if d.pending.length ≥ maxStreamRecordBytes then
    let flags := if d.inSplit then chunkContinue else chunkBegin ||| chunkContinue
    spillOversized { d.emitChunk maxStreamRecordBytes flags with inSplit := true }
  else d
termination_by d.pending.length
decreasing_by
  simp only [emitChunk, List.length_drop, maxStreamRecordBytes] at *
  omega

/-- The loop of `flushCompleteLine`: emit full records as long as more bytes follow. -/
def flushFull (d : StreamDrain) : StreamDrain :=
  if d.pending.length > maxStreamRecordBytes then
    flushFull (d.emitChunk maxStreamRecordBytes chunkContinue)
  else d
termination_by d.pending.length
decreasing_by
  simp only [emitChunk, List.length_drop, maxStreamRecordBytes] at *
  omega

/-- The end of `flushCompleteLine`: the later pieces of a line. -/
def flushSplit (d : StreamDrain) : StreamDrain :=
  let last := d.flushFull
  if last.pending ≠ [] then
    { last.emitChunk last.pending.length (chunkContinue ||| chunkEnd) with inSplit := false }
  else last

/-- Emit the pending bytes, which end with a newline. -/
def flushCompleteLine (d : StreamDrain) : StreamDrain :=
  if d.pending.length ≤ maxStreamRecordBytes ∧ d.inSplit = false then
    d.emitChunk d.pending.length (chunkBegin ||| chunkEnd)
  else if d.inSplit = false then
    let take := min maxStreamRecordBytes d.pending.length
    let more := decide (d.pending.length > take)
    let flags := if more then chunkBegin ||| chunkContinue else chunkBegin ||| chunkEnd
    flushSplit { d.emitChunk take flags with inSplit := more }
  else flushSplit d

/-- The loop of `push` over what is left of a read. -/
def pushLoop (d : StreamDrain) (data : List UInt8) : StreamDrain :=
  if data = [] then d
  else
    match _h : data.dropWhile (· ≠ newline) with
    | b :: rest =>
      pushLoop (flushCompleteLine
        { d with pending := d.pending ++ (data.takeWhile (· ≠ newline) ++ [b]) }) rest
    | [] => spillOversized { d with pending := d.pending ++ data }
termination_by data.length
decreasing_by
  have hle := (List.dropWhile_suffix (l := data) (· ≠ newline)).length_le
  rw [_h, List.length_cons] at hle
  omega

/-- Take a pipe read; what is over the maximum is left out. -/
def push (d : StreamDrain) (data : List UInt8) : StreamDrain := d.pushLoop (data.take maxReadChunk)

/-- The end of the output. -/
def finish (d : StreamDrain) : StreamDrain :=
  if d.pending = [] then { d with inSplit := false }
  else
    let d := d.spillOversized
    if d.pending = [] then { d with inSplit := false }
    else
      let flags := if d.inSplit then chunkContinue ||| chunkEnd else chunkBegin ||| chunkEnd
      { d.emitChunk d.pending.length flags with inSplit := false }

/-- The records of an output that comes in the given reads. -/
def capture (kind : StreamKind) (chunks : List (List UInt8)) : List StreamRecord :=
  (finish (chunks.foldl push { kind := kind })).emitted

/-! ## One byte at a time -/

/-- Emit all pending bytes; `whole` is the flag of a record that begins its line, `piece`
the one of a later piece. -/
def emitAll (d : StreamDrain) (whole piece : UInt8) (inSplit : Bool) : StreamDrain :=
  { d.emitChunk d.pending.length (if d.inSplit then piece else whole) with inSplit := inSplit }

/-- Take one byte: a newline ends the record, and so does the byte that fills it. -/
def feed (d : StreamDrain) (b : UInt8) : StreamDrain :=
  let d := { d with pending := d.pending ++ [b] }
  if b = newline then d.emitAll (chunkBegin ||| chunkEnd) (chunkContinue ||| chunkEnd) false
  else if d.pending.length < maxStreamRecordBytes then d
  else d.emitAll (chunkBegin ||| chunkContinue) chunkContinue true

/-- There is room for a byte in the record. -/
def Open (d : StreamDrain) : Prop := d.pending.length < maxStreamRecordBytes

/-- What one byte can do. -/
theorem feed_cases (d : StreamDrain) (b : UInt8) :
    (b = newline ∧ d.feed b = { d with pending := d.pending ++ [b] }.emitAll
      (chunkBegin ||| chunkEnd) (chunkContinue ||| chunkEnd) false) ∨
    (b ≠ newline ∧ (d.pending ++ [b]).length < maxStreamRecordBytes ∧
      d.feed b = { d with pending := d.pending ++ [b] }) ∨
    (b ≠ newline ∧ maxStreamRecordBytes ≤ (d.pending ++ [b]).length ∧
      d.feed b = { d with pending := d.pending ++ [b] }.emitAll
        (chunkBegin ||| chunkContinue) chunkContinue true) := by
  by_cases hline : b = newline
  · exact .inl ⟨hline, if_pos hline⟩
  · by_cases hroom : (d.pending ++ [b]).length < maxStreamRecordBytes
    · exact .inr (.inl ⟨hline, hroom, (if_neg hline).trans (if_pos hroom)⟩)
    · exact .inr (.inr ⟨hline, Nat.le_of_not_lt hroom, (if_neg hline).trans (if_neg hroom)⟩)

@[simp] theorem pending_emitAll (d : StreamDrain) (whole piece : UInt8) (inSplit : Bool) :
    (d.emitAll whole piece inSplit).pending = [] := by
  simp [emitAll, emitChunk]

theorem feed_open (d : StreamDrain) (b : UInt8) : (d.feed b).Open := by
  have hpos : 0 < maxStreamRecordBytes := by decide
  rcases d.feed_cases b with ⟨-, heq⟩ | ⟨-, hroom, heq⟩ | ⟨-, -, heq⟩
  · rw [heq, Open, pending_emitAll]
    exact hpos
  · rw [heq]
    exact hroom
  · rw [heq, Open, pending_emitAll]
    exact hpos

/-- The first record of more bytes is the record of the first bytes. -/
theorem emitChunk_append (d : StreamDrain) (p s : List UInt8) (flags : UInt8) :
    { d with pending := p ++ s }.emitChunk p.length flags =
      { { d with pending := p }.emitChunk p.length flags with pending := s } := by
  simp [emitChunk]

variable {d : StreamDrain}

/-- A byte that leaves no room completes a full piece. -/
theorem Open.filled (h : d.Open) {b : UInt8}
    (hfull : maxStreamRecordBytes ≤ (d.pending ++ [b]).length) :
    (d.pending ++ [b]).length = maxStreamRecordBytes := by
  unfold Open at h
  rw [List.length_append, List.length_singleton] at hfull ⊢
  omega

theorem spillOversized_open (h : d.Open) : d.spillOversized = d := by
  rw [spillOversized, if_neg (Nat.not_le.mpr h)]

variable {p : List UInt8}

/-- A full record is spilled off the front. -/
theorem spillOversized_full (d : StreamDrain) (s : List UInt8)
    (hp : p.length = maxStreamRecordBytes) : { d with pending := p ++ s }.spillOversized =
      { { d with pending := p }.emitAll (chunkBegin ||| chunkContinue) chunkContinue true with
        pending := s }.spillOversized := by
  rw [spillOversized, if_pos (by simp [hp]), ← hp]
  dsimp only
  rw [emitChunk_append]
  rfl

variable {s : List UInt8}

/-- Bytes without a newline are spilled as they come. -/
theorem spillOversized_eq_feed (hs : newline ∉ s) (h : d.Open) :
    { d with pending := d.pending ++ s }.spillOversized = s.foldl feed d := by
  induction s generalizing d with
  | nil =>
    rw [List.append_nil]
    exact spillOversized_open h
  | cons b s ih =>
    rw [List.mem_cons, not_or] at hs
    have hcons : d.pending ++ b :: s = (d.pending ++ [b]) ++ s := by simp
    rw [List.foldl_cons, ← ih hs.2 (d.feed_open b), hcons]
    rcases d.feed_cases b with ⟨hline, -⟩ | ⟨-, -, heq⟩ | ⟨-, hfull, heq⟩
    · exact absurd hline.symm hs.1
    · rw [heq]
    · rw [spillOversized_full d s (h.filled hfull), heq, pending_emitAll, List.nil_append]

/-- A full piece of a line that goes on is flushed off the front. -/
theorem flushSplit_full (d : StreamDrain) (hp : p.length = maxStreamRecordBytes) (hs : s ≠ []) :
    { d with pending := p ++ s }.flushSplit =
      { { d with pending := p }.emitChunk p.length chunkContinue with
        pending := s }.flushSplit := by
  have hpos : 0 < s.length := List.length_pos_of_ne_nil hs
  have hfull : { d with pending := p ++ s }.flushFull =
      { { d with pending := p }.emitChunk p.length chunkContinue with pending := s }.flushFull := by
    rw [flushFull, if_pos (by simp; omega), ← hp, emitChunk_append]
  rw [flushSplit, hfull]
  rfl

/-- A full record of a line that goes on is flushed off the front. -/
theorem flushCompleteLine_full (d : StreamDrain) (hp : p.length = maxStreamRecordBytes)
    (hs : s ≠ []) : { d with pending := p ++ s }.flushCompleteLine =
      { { d with pending := p }.emitAll (chunkBegin ||| chunkContinue) chunkContinue true with
        pending := s }.flushCompleteLine := by
  have hpos : 0 < s.length := List.length_pos_of_ne_nil hs
  have hlong : ¬ (p ++ s).length ≤ maxStreamRecordBytes := by
    rw [List.length_append]
    omega
  have hmore : (p ++ s).length > p.length := by
    rw [List.length_append]
    omega
  have htake : min maxStreamRecordBytes (p ++ s).length = p.length := by omega
  rw [flushCompleteLine, if_neg (fun h => hlong h.1)]
  cases hsplit : d.inSplit with
  | false =>
    rw [if_pos rfl]
    simp only [htake, decide_eq_true hmore, if_true]
    simp [flushCompleteLine, emitAll, emitChunk]
  | true =>
    rw [if_neg (by decide)]
    have hrest := flushSplit_full d hp hs
    rw [hsplit] at hrest
    rw [hrest]
    simp [flushCompleteLine, emitAll, emitChunk]

/-- A line that fits its record is emitted as its newline is fed. -/
theorem flushCompleteLine_open (h : d.Open) :
    { d with pending := d.pending ++ [newline] }.flushCompleteLine = d.feed newline := by
  have hle : (d.pending ++ [newline]).length ≤ maxStreamRecordBytes := by
    rw [List.length_append, List.length_singleton]
    exact h
  have hfeed : d.feed newline = { d with pending := d.pending ++ [newline] }.emitAll
      (chunkBegin ||| chunkEnd) (chunkContinue ||| chunkEnd) false := rfl
  rw [hfeed, flushCompleteLine]
  cases hsplit : d.inSplit with
  | false =>
    rw [if_pos ⟨hle, rfl⟩]
    simp [emitAll, emitChunk]
  | true =>
    have hstop : ∀ e : StreamDrain, e.pending.length ≤ maxStreamRecordBytes → e.flushFull = e :=
      fun e he => by rw [flushFull, if_neg (Nat.not_lt.mpr he)]
    rw [if_neg (by simp), if_neg (by simp), flushSplit, hstop _ hle]
    simp [emitAll]

/-- A line is flushed as its bytes come. -/
theorem flushCompleteLine_eq_feed (hs : newline ∉ s) (h : d.Open) :
    { d with pending := d.pending ++ (s ++ [newline]) }.flushCompleteLine =
      (s ++ [newline]).foldl feed d := by
  induction s generalizing d with
  | nil => exact flushCompleteLine_open h
  | cons b s ih =>
    rw [List.mem_cons, not_or] at hs
    have hcons : d.pending ++ (b :: s ++ [newline]) = (d.pending ++ [b]) ++ (s ++ [newline]) := by
      simp
    rw [List.cons_append, List.foldl_cons, ← ih hs.2 (d.feed_open b), ← List.cons_append, hcons]
    rcases d.feed_cases b with ⟨hline, -⟩ | ⟨-, -, heq⟩ | ⟨-, hfull, heq⟩
    · exact absurd hline.symm hs.1
    · rw [heq]
    · rw [flushCompleteLine_full d (h.filled hfull) (by simp), heq, pending_emitAll,
        List.nil_append]

theorem foldl_feed_open (data : List UInt8) (h : d.Open) : (data.foldl feed d).Open := by
  induction data generalizing d with
  | nil => exact h
  | cons b data ih => exact ih (d.feed_open b)

theorem pushLoop_eq_feed (data : List UInt8) (h : d.Open) :
    d.pushLoop data = data.foldl feed d := by
  induction hn : data.length using Nat.strongRecOn generalizing data d with
  | ind n ih =>
    rw [pushLoop]
    have hbefore : newline ∉ data.takeWhile (· ≠ newline) := fun hmem => by
      simpa using List.mem_takeWhile_imp hmem
    have hsplit := List.takeWhile_append_dropWhile (p := (· ≠ newline)) (l := data)
    split
    · next hempty => rw [hempty]; rfl
    · split
      · next b rest hrest =>
        have hb : b = newline := by
          have hhead := List.head?_dropWhile_not (· ≠ newline) data
          rw [hrest] at hhead
          simpa using hhead
        rw [hrest, hb] at hsplit
        have hshorter : rest.length < n := by
          rw [← hn, ← hsplit, List.length_append, List.length_cons]
          omega
        rw [hb, flushCompleteLine_eq_feed hbefore h,
          ih rest.length hshorter rest (foldl_feed_open _ h) rfl, ← List.foldl_append,
          List.append_assoc, List.singleton_append, hsplit]
      · next hnone =>
        rw [hnone, List.append_nil] at hsplit
        rw [hsplit] at hbefore
        exact spillOversized_eq_feed hbefore h

/-- A read does what its bytes do. -/
theorem push_eq_feed (h : d.Open) (data : List UInt8) :
    d.push data = (data.take maxReadChunk).foldl feed d :=
  pushLoop_eq_feed _ h

/-- The bytes of the reads that a drain looks at. -/
def kept (chunks : List (List UInt8)) : List UInt8 := (chunks.map (·.take maxReadChunk)).flatten

theorem foldl_push_eq_feed (chunks : List (List UInt8)) (h : d.Open) :
    chunks.foldl push d = (kept chunks).foldl feed d := by
  induction chunks generalizing d with
  | nil => rfl
  | cons data chunks ih =>
    rw [List.foldl_cons, push_eq_feed h, ih (foldl_feed_open _ h), kept, kept, List.map_cons,
      List.flatten_cons, List.foldl_append]

/-- The state of a drain that has taken the bytes of an output. -/
def fed (kind : StreamKind) (input : List UInt8) : StreamDrain := input.foldl feed { kind := kind }

variable (kind : StreamKind)

theorem fed_concat (input : List UInt8) (b : UInt8) :
    fed kind (input ++ [b]) = (fed kind input).feed b := by
  rw [fed, List.foldl_append]
  rfl

theorem start_open : ({ kind := kind } : StreamDrain).Open :=
  (by decide : 0 < maxStreamRecordBytes)

theorem fed_open (input : List UInt8) : (fed kind input).Open :=
  foldl_feed_open input (start_open kind)

/-- The end of an output emits what is pending. -/
theorem finish_open (h : d.Open) : d.finish = if d.pending = [] then { d with inSplit := false }
      else d.emitAll (chunkBegin ||| chunkEnd) (chunkContinue ||| chunkEnd) false := by
  unfold finish
  rw [spillOversized_open h]
  by_cases hempty : d.pending = []
  · rw [if_pos hempty, if_pos hempty]
  · simp only [if_neg hempty]
    rfl

/-- The records depend on the bytes only. -/
theorem capture_eq (chunks : List (List UInt8)) :
    capture kind chunks = (fed kind (kept chunks)).finish.emitted := by
  rw [capture, foldl_push_eq_feed chunks (start_open kind), fed]

theorem kept_eq_flatten {chunks : List (List UInt8)} (h : ∀ c ∈ chunks, c.length ≤ maxReadChunk) :
    kept chunks = chunks.flatten := by
  have hall : chunks.map (·.take maxReadChunk) = chunks.map id :=
    List.map_congr_left fun c hc => List.take_of_length_le (h c hc)
  rw [kept, hall, List.map_id]

/-! ## The bytes of the output -/

/-- The bytes of some records. -/
def recordBytes (records : List StreamRecord) : List UInt8 := records.flatMap StreamRecord.bytes

/-- What holds of a drain and the bytes it has taken: they are in its records, which are
numbered in order and carry their offsets, and in what is pending. -/
structure Carries (d : StreamDrain) (input : List UInt8) : Prop where
  bytes : recordBytes d.emitted ++ d.pending = input
  sizes : ∀ r ∈ d.emitted, 1 ≤ r.bytes.length ∧ r.bytes.length ≤ maxStreamRecordBytes
  sequence : d.streamSequence = min d.emitted.length u64Max
  offset : d.receiveOffset = min (recordBytes d.emitted).length u64Max
  numbered : ∀ i r, d.emitted[i]? = some r →
    r.streamSequence = min i u64Max ∧
      r.receiveOffset = min (recordBytes (d.emitted.take i)).length u64Max

variable {input : List UInt8}

/-- Emitting all that is pending keeps the account. -/
theorem Carries.emitAll (h : d.Carries input) (hne : d.pending ≠ [])
    (hle : d.pending.length ≤ maxStreamRecordBytes) (whole piece : UInt8) (inSplit : Bool) :
    (d.emitAll whole piece inSplit).Carries input := by
  obtain ⟨r, heq, hbytes, hseq, hoff⟩ :
      ∃ r, (d.emitAll whole piece inSplit).emitted = d.emitted ++ [r] ∧
      r.bytes = d.pending ∧ r.streamSequence = d.streamSequence ∧
      r.receiveOffset = d.receiveOffset := ⟨_, rfl, List.take_length, rfl, rfl⟩
  have hall : recordBytes (d.emitted ++ [r]) = input := by
    rw [← h.bytes, recordBytes, List.flatMap_append, List.flatMap_singleton, hbytes]
    rfl
  refine ⟨?_, ?_, ?_, ?_, ?_⟩
  · rw [heq, pending_emitAll, List.append_nil, hall]
  · rw [heq, List.forall_mem_append, List.forall_mem_singleton, hbytes]
    exact ⟨h.sizes, List.length_pos_of_ne_nil hne, hle⟩
  · rw [heq, List.length_append, List.length_singleton, ← saturatingAdd_min_one, ← h.sequence]
    rfl
  · show saturatingAdd d.receiveOffset d.pending.length = _
    rw [heq, hall, ← h.bytes, List.length_append, h.offset]
    simp only [saturatingAdd]
    generalize u64Max = top
    omega
  · rw [heq]
    intro i r' hr'
    rcases Nat.lt_trichotomy i d.emitted.length with hlt | hat | hgt
    · rw [List.getElem?_append_left hlt] at hr'
      rw [List.take_append_of_le_length (Nat.le_of_lt hlt)]
      exact h.numbered i r' hr'
    · subst hat
      rw [List.getElem?_concat_length] at hr'
      cases hr'
      rw [List.take_left, hseq, hoff]
      exact ⟨h.sequence, h.offset⟩
    · rw [List.getElem?_eq_none (by rw [List.length_append, List.length_singleton]; exact hgt)]
      at hr'
      cases hr'

theorem feed_carries (h : d.Carries input) (hopen : d.Open) (b : UInt8) :
    (d.feed b).Carries (input ++ [b]) := by
  have hgrown : { d with pending := d.pending ++ [b] }.Carries (input ++ [b]) :=
    ⟨by rw [← h.bytes, List.append_assoc], h.sizes, h.sequence, h.offset, h.numbered⟩
  have hle : (d.pending ++ [b]).length ≤ maxStreamRecordBytes := by
    rw [List.length_append, List.length_singleton]
    exact hopen
  rcases d.feed_cases b with ⟨-, heq⟩ | ⟨-, -, heq⟩ | ⟨-, -, heq⟩
  · rw [heq]
    exact hgrown.emitAll (by simp) hle _ _ _
  · rw [heq]
    exact hgrown
  · rw [heq]
    exact hgrown.emitAll (by simp) hle _ _ _

theorem fed_carries (input : List UInt8) : (fed kind input).Carries input := by
  induction input using List.reverseRecOn with
  | nil =>
    exact ⟨rfl, fun _ h => absurd h List.not_mem_nil, rfl, rfl, fun _ _ h => by simp [fed] at h⟩
  | append_singleton input b ih =>
    rw [fed_concat]
    exact feed_carries ih (fed_open kind input) b

/-- At the end nothing is pending. -/
theorem finish_carries (h : d.Carries input) (hopen : d.Open) :
    d.finish.Carries input ∧ d.finish.pending = [] := by
  rw [finish_open hopen]
  split
  · next hempty => exact ⟨⟨h.bytes, h.sizes, h.sequence, h.offset, h.numbered⟩, hempty⟩
  · next hne => exact ⟨h.emitAll hne (Nat.le_of_lt hopen) _ _ _, pending_emitAll _ _ _ _⟩

/-- However an output is cut into reads of at most 32 KiB, its records are the same; their
bytes are the output, each has from one byte to 65,536, and they carry their number and
offset, as far as a word counts them. -/
theorem capture_exact (kind : StreamKind) (chunks : List (List UInt8))
    (h : ∀ c ∈ chunks, c.length ≤ maxReadChunk) :
    (∀ cut : List (List UInt8), (∀ c ∈ cut, c.length ≤ maxReadChunk) →
      cut.flatten = chunks.flatten → capture kind cut = capture kind chunks) ∧
    recordBytes (capture kind chunks) = chunks.flatten ∧
    (∀ r ∈ capture kind chunks, 1 ≤ r.bytes.length ∧ r.bytes.length ≤ maxStreamRecordBytes) ∧
    ∀ i r, (capture kind chunks)[i]? = some r →
      r.streamSequence = min i u64Max ∧
        r.receiveOffset = min (recordBytes ((capture kind chunks).take i)).length u64Max := by
  obtain ⟨hcarries, hempty⟩ := finish_carries (fed_carries kind (kept chunks)) (fed_open _ _)
  have hbytes := hcarries.bytes
  rw [hempty, List.append_nil, kept_eq_flatten h] at hbytes
  refine ⟨fun cut hcut hsame => ?_, ?_, ?_, ?_⟩
  · rw [capture_eq, capture_eq, kept_eq_flatten h, kept_eq_flatten hcut, hsame]
  · rw [capture_eq, kept_eq_flatten h]
    exact hbytes
  · rw [capture_eq]
    exact hcarries.sizes
  · rw [capture_eq]
    exact hcarries.numbered

/-- A line that comes in two reads. -/
theorem capture_exact_two_reads :
    capture .stdout [[104, 105], [10]] = capture .stdout [[104, 105, 10]] ∧
      recordBytes (capture .stdout [[104, 105, 10]]) = [104, 105, 10] := by
  have h := capture_exact .stdout [[104, 105, 10]] (by decide)
  exact ⟨h.1 [[104, 105], [10]] (by decide) rfl, h.2.1⟩

/-- Every newline of an output of newlines is a record. -/
theorem length_emitted_newlines (n : Nat) :
    (fed kind (List.replicate n newline)).emitted.length = n ∧
      (fed kind (List.replicate n newline)).pending = [] := by
  induction n with
  | zero => exact ⟨rfl, rfl⟩
  | succ n ih =>
    rw [List.replicate_succ', fed_concat]
    rcases (fed kind (List.replicate n newline)).feed_cases newline with
      ⟨-, heq⟩ | ⟨hne, -⟩ | ⟨hne, -⟩
    · rw [heq, pending_emitAll]
      refine ⟨?_, rfl⟩
      show ((fed kind (List.replicate n newline)).emitted ++ [_]).length = n + 1
      rw [List.length_append, List.length_singleton, ih.1]
    · exact absurd rfl hne
    · exact absurd rfl hne

theorem capture_newlines {n i : Nat} (h : i < n) :
    ∃ r, (capture kind (List.replicate n [newline]))[i]? = some r ∧
      r.streamSequence = min i u64Max := by
  have htake : [newline].take maxReadChunk = [newline] := rfl
  have hkept : kept (List.replicate n [newline]) = List.replicate n newline := by
    rw [kept, List.map_replicate, htake, List.flatten_replicate_singleton]
  obtain ⟨hlength, hempty⟩ := length_emitted_newlines kind n
  rw [capture_eq, hkept, finish_open (fed_open _ _), if_pos hempty]
  have hat : i < (fed kind (List.replicate n newline)).emitted.length := hlength.symm ▸ h
  exact ⟨_, List.getElem?_eq_getElem hat,
    ((fed_carries kind _).numbered i _ (List.getElem?_eq_getElem hat)).1⟩

/-- The record after `2 ^ 64` others has the number of the one before it. -/
theorem sequence_stops_counting :
    ∃ r, (capture .stdout (List.replicate (2 ^ 64 + 1) [newline]))[2 ^ 64]? = some r ∧
      r.streamSequence = 2 ^ 64 - 1 := by
  obtain ⟨r, hr, hseq⟩ := capture_newlines .stdout (Nat.lt_succ_self (2 ^ 64))
  exact ⟨r, hr, hseq.trans (by decide)⟩

/-! ## The frames of the lines -/

/-- Take one byte of an output: the lines with their newline, and what follows the last. -/
def lineStep (s : List (List UInt8) × List UInt8) (b : UInt8) : List (List UInt8) × List UInt8 :=
  if b = newline then (s.1 ++ [s.2 ++ [b]], []) else (s.1, s.2 ++ [b])

/-- The lines of an output, each with its newline. -/
def lines (input : List UInt8) : List (List UInt8) := (input.foldl lineStep ([], [])).1

/-- The bytes after the last newline. -/
def tail (input : List UInt8) : List UInt8 := (input.foldl lineStep ([], [])).2

theorem lines_concat (input : List UInt8) (b : UInt8) :
    lines (input ++ [b]) =
      if b = newline then lines input ++ [tail input ++ [b]] else lines input := by
  simp only [lines, tail, List.foldl_append, List.foldl_cons, List.foldl_nil, lineStep]
  split <;> rfl

theorem tail_concat (input : List UInt8) (b : UInt8) :
    tail (input ++ [b]) = if b = newline then [] else tail input ++ [b] := by
  simp only [tail, List.foldl_append, List.foldl_cons, List.foldl_nil, lineStep]
  split <;> rfl

/-- The records of one line: a single one, or a first piece, more pieces and a last one. -/
def IsGroup (g : List StreamRecord) : Prop :=
  g.map StreamRecord.flags = [chunkBegin ||| chunkEnd] ∨
    ∃ n, g.map StreamRecord.flags = (chunkBegin ||| chunkContinue) ::
      List.replicate n chunkContinue ++ [chunkContinue ||| chunkEnd]

/-- The pieces of a line that has not ended: none, or a first piece and more. -/
def IsOpened (inSplit : Bool) (opened : List StreamRecord) : Prop :=
  (inSplit = false ∧ opened = []) ∨
    (inSplit = true ∧ ∃ n, opened.map StreamRecord.flags =
      (chunkBegin ||| chunkContinue) :: List.replicate n chunkContinue)

/-- Every record belongs to the group of one line, in order, or of the bytes after the
last newline. -/
def WellFramed (records : List StreamRecord) (input : List UInt8) : Prop :=
  ∃ groups : List (List StreamRecord), records = groups.flatten ∧ (∀ g ∈ groups, IsGroup g) ∧
    groups.map recordBytes = lines input ++ if tail input = [] then [] else [tail input]

/-- What holds of a drain and the bytes it has taken: a group for every line, and full
pieces of the bytes after the last newline. -/
structure Frames (d : StreamDrain) (input : List UInt8) (groups : List (List StreamRecord))
    (opened : List StreamRecord) : Prop where
  emitted : d.emitted = groups.flatten ++ opened
  isGroup : ∀ g ∈ groups, IsGroup g
  lines : groups.map recordBytes = StreamDrain.lines input
  tail : recordBytes opened ++ d.pending = StreamDrain.tail input
  full : ∀ r ∈ opened, r.bytes.length = maxStreamRecordBytes
  isOpened : IsOpened d.inSplit opened

/-- The record that `emitAll` emits. -/
theorem emitted_emitAll (d : StreamDrain) (whole piece : UInt8) (inSplit : Bool) :
    ∃ r, (d.emitAll whole piece inSplit).emitted = d.emitted ++ [r] ∧ r.bytes = d.pending ∧
      r.flags = if d.inSplit then piece else whole :=
  ⟨_, rfl, List.take_length, rfl⟩

variable {opened : List StreamRecord} {r : StreamRecord}

/-- A last record closes the group. -/
theorem IsOpened.close {inSplit : Bool} (h : IsOpened inSplit opened)
    (hr : r.flags = if inSplit then chunkContinue ||| chunkEnd else chunkBegin ||| chunkEnd) :
    IsGroup (opened ++ [r]) := by
  rcases h with ⟨rfl, rfl⟩ | ⟨rfl, n, hflags⟩
  · exact .inl (by simpa using hr)
  · exact .inr ⟨n, by simpa [hflags] using hr⟩

/-- A full record is one more piece. -/
theorem IsOpened.more {inSplit : Bool} (h : IsOpened inSplit opened)
    (hr : r.flags = if inSplit then chunkContinue else chunkBegin ||| chunkContinue) :
    IsOpened true (opened ++ [r]) := by
  rcases h with ⟨rfl, rfl⟩ | ⟨rfl, n, hflags⟩
  · exact .inr ⟨rfl, 0, by simpa using hr⟩
  · refine .inr ⟨rfl, n + 1, ?_⟩
    rw [List.map_append, hflags, List.replicate_succ', List.cons_append, List.map_singleton, hr]
    rfl

theorem recordBytes_concat (records : List StreamRecord) (r : StreamRecord) :
    recordBytes (records ++ [r]) = recordBytes records ++ r.bytes := by
  simp [recordBytes]

variable {groups : List (List StreamRecord)}

theorem feed_frames (h : d.Frames input groups opened) (hopen : d.Open) (b : UInt8) :
    ∃ groups opened, (d.feed b).Frames (input ++ [b]) groups opened := by
  have htail : recordBytes opened ++ (d.pending ++ [b]) = tail input ++ [b] := by
    rw [← h.tail, List.append_assoc]
  rcases d.feed_cases b with ⟨hline, heq⟩ | ⟨hline, -, heq⟩ | ⟨hline, hfull, heq⟩
  · obtain ⟨r, hr, hbytes, hflags⟩ := emitted_emitAll { d with pending := d.pending ++ [b] }
      (chunkBegin ||| chunkEnd) (chunkContinue ||| chunkEnd) false
    refine ⟨groups ++ [opened ++ [r]], [], ?_⟩
    rw [heq]
    refine ⟨?_, ?_, ?_, ?_, fun _ h => absurd h List.not_mem_nil, .inl ⟨rfl, rfl⟩⟩
    · rw [hr]
      simp [h.emitted]
    · rw [List.forall_mem_append, List.forall_mem_singleton]
      exact ⟨h.isGroup, h.isOpened.close hflags⟩
    · rw [List.map_append, h.lines, List.map_singleton, recordBytes_concat, hbytes, htail,
        lines_concat, if_pos hline]
    · rw [pending_emitAll, tail_concat, if_pos hline]
      rfl
  · refine ⟨groups, opened, ?_⟩
    rw [heq]
    refine ⟨h.emitted, h.isGroup, ?_, ?_, h.full, h.isOpened⟩
    · rw [lines_concat, if_neg hline, h.lines]
    · rw [tail_concat, if_neg hline, htail]
  · obtain ⟨r, hr, hbytes, hflags⟩ := emitted_emitAll { d with pending := d.pending ++ [b] }
      (chunkBegin ||| chunkContinue) chunkContinue true
    refine ⟨groups, opened ++ [r], ?_⟩
    rw [heq]
    refine ⟨?_, h.isGroup, ?_, ?_, ?_, h.isOpened.more hflags⟩
    · rw [hr]
      simp [h.emitted]
    · rw [lines_concat, if_neg hline, h.lines]
    · rw [pending_emitAll, List.append_nil, recordBytes_concat, hbytes, tail_concat, if_neg hline,
        htail]
    · rw [List.forall_mem_append, List.forall_mem_singleton, hbytes]
      exact ⟨h.full, hopen.filled hfull⟩

theorem fed_frames (input : List UInt8) :
    ∃ groups opened, (fed kind input).Frames input groups opened := by
  induction input using List.reverseRecOn with
  | nil => exact ⟨[], [], rfl, by simp, rfl, rfl, by simp, .inl ⟨rfl, rfl⟩⟩
  | append_singleton input b ih =>
    obtain ⟨groups, opened, h⟩ := ih
    rw [fed_concat]
    exact feed_frames h (fed_open kind input) b

/-- The pieces that are out of an unterminated line make up full records. -/
theorem Frames.length_tail (h : d.Frames input groups opened) :
    (StreamDrain.tail input).length = maxStreamRecordBytes * opened.length + d.pending.length := by
  have hsum : (recordBytes opened).length = maxStreamRecordBytes * opened.length := by
    have hfull := h.full
    clear h
    induction opened with
    | nil => rfl
    | cons r opened ih =>
      rw [List.forall_mem_cons] at hfull
      have hcons : recordBytes (r :: opened) = r.bytes ++ recordBytes opened := rfl
      rw [hcons, List.length_append, hfull.1, ih hfull.2, List.length_cons, Nat.mul_succ,
        Nat.add_comm]
  rw [← h.tail, List.length_append, hsum]

/-- The last record of groups has the bit of an end. -/
theorem flags_last_of_groups (h : ∀ g ∈ groups, IsGroup g) {records : List StreamRecord}
    (heq : groups.flatten = records ++ [r]) :
    r.flags = chunkBegin ||| chunkEnd ∨ r.flags = chunkContinue ||| chunkEnd := by
  induction groups using List.reverseRecOn with
  | nil => simp at heq
  | append_singleton groups g ih =>
    rw [List.forall_mem_append, List.forall_mem_singleton] at h
    have hlast : ∀ front flag, g.map StreamRecord.flags = front ++ [flag] → r.flags = flag := by
      intro front flag hg
      have hmap := congrArg (List.map StreamRecord.flags) heq
      rw [List.flatten_append, List.flatten_singleton, List.map_append, hg, List.map_append,
        List.map_singleton, ← List.append_assoc] at hmap
      exact (List.singleton_inj.mp (List.append_inj' hmap rfl).2).symm
    rcases h.2 with hone | ⟨n, hmany⟩
    · exact .inl (hlast [] _ hone)
    · exact .inr (hlast _ _ hmany)

/-- Where the unterminated bytes fill their records, the last of them has no end. -/
theorem not_wellFramed_of_dvd (chunks : List (List UInt8)) (hne : tail (kept chunks) ≠ [])
    (hdvd : maxStreamRecordBytes ∣ (tail (kept chunks)).length) :
    ¬ WellFramed (capture kind chunks) (kept chunks) := by
  rintro ⟨groups', heq', hgroups', -⟩
  obtain ⟨groups, opened, h⟩ := fed_frames kind (kept chunks)
  have hopen : (fed kind (kept chunks)).pending.length < maxStreamRecordBytes := fed_open _ _
  have hlen := h.length_tail
  have hempty : (fed kind (kept chunks)).pending = [] := by
    rw [hlen, Nat.dvd_add_right (Nat.dvd_mul_right _ _)] at hdvd
    exact List.length_eq_zero_iff.mp (Nat.eq_zero_of_dvd_of_lt hdvd hopen)
  have hsome : opened ≠ [] := by
    rintro rfl
    rw [hempty] at hlen
    exact hne (List.length_eq_zero_iff.mp hlen)
  obtain ⟨front, r, rfl⟩ := List.eq_nil_or_concat' opened |>.resolve_left hsome
  rw [capture_eq, finish_open (fed_open _ _), if_pos hempty] at heq'
  have hrecords : groups'.flatten = (groups.flatten ++ front) ++ [r] := by
    rw [← heq', List.append_assoc]
    exact h.emitted
  rcases h.isOpened with ⟨-, hnone⟩ | ⟨-, n, hflags⟩
  · exact hsome hnone
  · have hr : r.flags = chunkBegin ||| chunkContinue ∨ r.flags = chunkContinue := by
      have hmem : r.flags ∈ (chunkBegin ||| chunkContinue) :: List.replicate n chunkContinue := by
        rw [← hflags, List.map_append]
        simp
      exact (List.mem_cons.mp hmem).imp_right List.eq_of_mem_replicate
    rcases flags_last_of_groups hgroups' hrecords with hend | hend
    · rw [hend] at hr
      exact absurd hr (by decide)
    · rw [hend] at hr
      exact absurd hr (by decide)

/-- For every output and every way it is read, the records are groups of whole lines and
of the bytes after the last newline, exactly if those bytes do not fill their records. -/
theorem wellFramed_iff (kind : StreamKind) (chunks : List (List UInt8)) :
    WellFramed (capture kind chunks) (kept chunks) ↔
      tail (kept chunks) = [] ∨ ¬ maxStreamRecordBytes ∣ (tail (kept chunks)).length := by
  constructor
  · intro hframed
    by_contra hfills
    rw [not_or, not_not] at hfills
    exact not_wellFramed_of_dvd kind chunks hfills.1 hfills.2 hframed
  · intro hends
    obtain ⟨groups, opened, h⟩ := fed_frames kind (kept chunks)
    have htail := h.tail
    have hlen := h.length_tail
    rw [capture_eq, finish_open (fed_open _ _)]
    split
    · next hempty =>
      -- Nothing is pending: no piece is out either, or the pieces fill the records.
      rw [hempty, List.length_nil, Nat.add_zero] at hlen
      have hnone : tail (kept chunks) = [] := hends.resolve_right fun hnot =>
        hnot (hlen ▸ Nat.dvd_mul_right _ _)
      have hopened : opened = [] := by
        rw [hnone, List.length_nil] at hlen
        exact List.length_eq_zero_iff.mp ((Nat.mul_eq_zero.mp hlen.symm).resolve_left (by decide))
      refine ⟨groups, ?_, h.isGroup, ?_⟩
      · simpa [hopened] using h.emitted
      · rw [h.lines, if_pos hnone, List.append_nil]
    · next hne =>
      obtain ⟨r, hr, hbytes, hflags⟩ := emitted_emitAll (fed kind (kept chunks))
        (chunkBegin ||| chunkEnd) (chunkContinue ||| chunkEnd) false
      have hsome : tail (kept chunks) ≠ [] := by
        rw [← htail]
        simp [hne]
      refine ⟨groups ++ [opened ++ [r]], ?_, ?_, ?_⟩
      · rw [hr]
        simp [h.emitted]
      · rw [List.forall_mem_append, List.forall_mem_singleton]
        exact ⟨h.isGroup, h.isOpened.close hflags⟩
      · rw [List.map_append, h.lines, List.map_singleton, recordBytes_concat, hbytes, htail,
          if_neg hsome]

theorem tail_of_no_newline (h : newline ∉ input) : tail input = input := by
  induction input using List.reverseRecOn with
  | nil => rfl
  | append_singleton input b ih =>
    rw [List.mem_append, not_or, List.mem_singleton] at h
    rw [tail_concat, if_neg (fun hb => h.2 hb.symm), ih h.1]

/-- An output of 65,536 bytes without a newline, in two reads, ends without an end. -/
theorem full_record_has_no_end :
    ¬ WellFramed (capture .stdout (List.replicate 2 (List.replicate maxReadChunk 97)))
      (kept (List.replicate 2 (List.replicate maxReadChunk 97))) := by
  have hkept : kept (List.replicate 2 (List.replicate maxReadChunk 97)) =
      List.replicate (2 * maxReadChunk) 97 := by
    rw [kept, List.map_replicate, List.take_replicate, Nat.min_self,
      List.flatten_replicate_replicate]
  have htail : tail (List.replicate (2 * maxReadChunk) 97) = List.replicate (2 * maxReadChunk) 97 :=
    tail_of_no_newline fun hmem => absurd (List.eq_of_mem_replicate hmem) (by decide)
  apply not_wellFramed_of_dvd
  · rw [hkept, htail]
    exact List.ne_nil_of_length_pos (by rw [List.length_replicate]; decide)
  · rw [hkept, htail, List.length_replicate]
    exact ⟨1, by decide⟩

end StreamDrain

end Gump.Telemetry
