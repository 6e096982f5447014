/-
  Telemetry/Adapter.lean --- the bounded adapter for lines of an application (`adapter.rs`).

  A line is JSON or a topic and a text.  The adapter stamps its own identity on the record,
  whatever the line says of its producer, and keeps a window within bounds of bytes, age
  and number.  Its topics are checked by `validateTopic`, which does not know the reserved
  ones; `ingestApplicationTopic` of the plane does.
-/
import Gump.Telemetry.Plane

set_option autoImplicit false

namespace Gump.Telemetry

open Gump.Foundation Gump.Types

/-- Maximum size of a line. -/
def maxRecordBytes : Nat := 64 * 1024

/-- An element of `args`: a string, or another value with its text. -/
inductive ArgValue where
  | string (s : String)
  | other (text : String)
  deriving DecidableEq, Repr

/-- What an application says of itself. -/
structure ProducerHint where
  app : Option String := none
  place : Option String := none
  instanceName : Option String := none
  deriving DecidableEq, Repr

structure NdjsonLine where
  topic : Option String := none
  seq : Option Nat := none
  args : Option (List ArgValue) := none
  msg : Option String := none
  message : Option String := none
  src : Option ProducerHint := none
  source : Option ProducerHint := none
  deriving DecidableEq, Repr

/-- The decoder of JSON lines, `serde_json::from_str`. -/
class NdjsonDecoder where
  fromStr : String → Option NdjsonLine

inductive ParsedLine where
  | ndjson (topic : String) (seq : Option Nat) (message : String) (producer : ProducerHint)
  | text (topic message : String)
  | unusable
  deriving DecidableEq, Repr

def ArgValue.render : ArgValue → String
  | .string s => s
  | .other text => text

/-- A JSON line, or a topic and a text after the first white space. -/
def parseLine [NdjsonDecoder] (line : String) : ParsedLine :=
  match NdjsonDecoder.fromStr line with
  | some parsed =>
    match parsed.topic.filter (fun t => t ≠ "") with
    | none => .unusable
    | some topic =>
      let message :=
        match parsed.message.orElse (fun _ => parsed.msg) with
        | some m => m
        | none =>
          match parsed.args with
          | some args => " ".intercalate (args.map ArgValue.render)
          | none => ""
      let producer := (parsed.src.orElse (fun _ => parsed.source)).getD {}
      .ndjson topic parsed.seq message producer
  | none =>
    let topic := String.ofList (line.toList.takeWhile (fun c => !isTrimmed c))
    if topic = "" then .unusable
    else .text topic (String.ofList ((line.toList.dropWhile (fun c => !isTrimmed c)).drop 1))

/-- The parts of a parsed line that a record takes. -/
def ParsedLine.fields : ParsedLine → Option (String × Option Nat × String × ProducerHint)
  | .ndjson topic seq message producer => some (topic, seq, message, producer)
  | .text topic message => some (topic, none, message, {})
  | .unusable => none

/-- The identity that the placement gives.  Its numbers and ids are not looked at. -/
structure CanonicalIdentity (Ids : Type) where
  ids : Ids
  namespaceName : String
  appId : String
  role : Option String
  deriving DecidableEq, Repr

structure NormalizedRecord (Ids : Type) where
  topic : String
  topicSequence : Option Nat
  message : String
  identity : CanonicalIdentity Ids
  producer : ProducerHint
  localSequence : Nat
  deriving DecidableEq, Repr

inductive RecordOutcome where
  | accepted
  | acceptedDropOldest
  | rejectedOversize
  | rejectedTopic
  deriving DecidableEq, Repr

def optionalBytes (s : Option String) : Nat := (s.map (fun t => (utf8 t).length)).getD 0

/-- The bytes that a record is charged with. -/
def recordRetainedBytes {Ids : Type} (rec : NormalizedRecord Ids) : Nat :=
  let n := saturatingAdd (utf8 rec.topic).length (utf8 rec.message).length
  let n := saturatingAdd n (optionalBytes rec.producer.app)
  let n := saturatingAdd n (optionalBytes rec.producer.place)
  let n := saturatingAdd n (optionalBytes rec.producer.instanceName)
  let n := saturatingAdd n (utf8 rec.identity.namespaceName).length
  let n := saturatingAdd n (utf8 rec.identity.appId).length
  saturatingAdd n (optionalBytes rec.identity.role)

structure BoundedCallbackAdapter (Ids : Type) where
  identity : CanonicalIdentity Ids
  localSequence : Nat
  records : List (NormalizedRecord Ids)
  insertedAt : List Nat
  totalBytes : Nat
  maxBytes : Nat
  maxAge : Nat
  maxRecords : Option Nat
  accepted : Nat
  droppedOldest : Nat
  rejectedOversize : Nat
  rejectedTopic : Nat
  deriving DecidableEq, Repr

namespace BoundedCallbackAdapter

variable {Ids : Type}

def withConfig (identity : CanonicalIdentity Ids) (config : RingConfig) :
    BoundedCallbackAdapter Ids where
  identity := identity
  localSequence := 0
  records := []
  insertedAt := []
  totalBytes := 0
  maxBytes := max config.maxBytes 1
  maxAge := config.maxAge
  maxRecords := config.maxRecords.map (max · 1)
  accepted := 0
  droppedOldest := 0
  rejectedOversize := 0
  rejectedTopic := 0

def needsEvict (a : BoundedCallbackAdapter Ids) (incoming : Nat) : Bool :=
  if a.records.isEmpty then false
  else if saturatingAdd a.totalBytes incoming > a.maxBytes then true
  else
    match a.maxRecords with
    | some max => decide (a.records.length ≥ max)
    | none => false

/-- Drop the oldest record and its time. -/
def dropFront (a : BoundedCallbackAdapter Ids) (old : NormalizedRecord Ids)
    (rest : List (NormalizedRecord Ids)) : BoundedCallbackAdapter Ids :=
  { a with
    records := rest
    insertedAt := a.insertedAt.drop 1
    totalBytes := a.totalBytes - recordRetainedBytes old
    droppedOldest := saturatingAdd a.droppedOldest 1 }

/-- The loop of `expireByAge` over the times of the records. -/
def expireLoop (now : Nat) : List Nat → BoundedCallbackAdapter Ids → BoundedCallbackAdapter Ids
  | [], a => a
  | frontAt :: times, a =>
    if now - frontAt ≤ a.maxAge then a
    else
      match a.records with
      | old :: rest => expireLoop now times (a.dropFront old rest)
      | [] => expireLoop now times { a with insertedAt := times }

def expireByAge (a : BoundedCallbackAdapter Ids) (now : Nat) : BoundedCallbackAdapter Ids :=
  expireLoop now a.insertedAt a

/-- The loop that makes room, over the records; whether a record was dropped. -/
def evictLoop (incoming : Nat) :
    List (NormalizedRecord Ids) → BoundedCallbackAdapter Ids × Bool →
      BoundedCallbackAdapter Ids × Bool
  | [], state => state
  | old :: rest, (a, dropped) =>
    if a.needsEvict incoming then evictLoop incoming rest (a.dropFront old rest, true)
    else (a, dropped)

/-- Take a line. -/
def ingestLine [NdjsonDecoder] (a : BoundedCallbackAdapter Ids) (line : String) (now : Nat) :
    BoundedCallbackAdapter Ids × RecordOutcome :=
  if (utf8 line).length > maxRecordBytes then
    ({ a with rejectedOversize := saturatingAdd a.rejectedOversize 1 }, .rejectedOversize)
  else
    match (parseLine line).fields with
    | none => ({ a with rejectedTopic := saturatingAdd a.rejectedTopic 1 }, .rejectedTopic)
    | some (topic, topicSequence, message, producer) =>
      match validateTopic topic with
      | .error _ => ({ a with rejectedTopic := saturatingAdd a.rejectedTopic 1 }, .rejectedTopic)
      | .ok () =>
        let record : NormalizedRecord Ids :=
          { topic := topic
            topicSequence := topicSequence
            message := message
            identity := a.identity
            producer := producer
            localSequence := saturatingAdd a.localSequence 1 }
        let incoming := recordRetainedBytes record
        let a := a.expireByAge now
        if incoming > a.maxBytes then
          ({ a with rejectedOversize := saturatingAdd a.rejectedOversize 1 }, .rejectedOversize)
        else
          let (a, dropped) := evictLoop incoming a.records (a, false)
          if saturatingAdd a.totalBytes incoming > a.maxBytes then
            ({ a with rejectedOversize := saturatingAdd a.rejectedOversize 1 }, .rejectedOversize)
          else
            ({ a with
                localSequence := record.localSequence
                records := a.records ++ [record]
                insertedAt := a.insertedAt ++ [now]
                totalBytes := saturatingAdd a.totalBytes incoming
                accepted := saturatingAdd a.accepted 1 },
              if dropped then .acceptedDropOldest else .accepted)

/-- A line as a step of a run. -/
def step [NdjsonDecoder] (a : BoundedCallbackAdapter Ids) (input : String × Nat) :
    BoundedCallbackAdapter Ids × RecordOutcome :=
  a.ingestLine input.1 input.2

/-! ## What a line does to the window -/

/-- The charges of the records together. -/
def heldBytes (a : BoundedCallbackAdapter Ids) : Nat := (a.records.map recordRetainedBytes).sum

/-- Some of the oldest records have been dropped. -/
structure Drops (a after : BoundedCallbackAdapter Ids) : Prop where
  records : after.records <:+ a.records
  identity : after.identity = a.identity
  maxBytes : after.maxBytes = a.maxBytes
  le : after.totalBytes ≤ a.totalBytes
  exact_of_exact : a.totalBytes = a.heldBytes → after.totalBytes = after.heldBytes

theorem Drops.refl (a : BoundedCallbackAdapter Ids) : a.Drops a :=
  ⟨List.suffix_rfl, rfl, rfl, Nat.le_refl _, id⟩

variable {a : BoundedCallbackAdapter Ids}

theorem Drops.trans {b c : BoundedCallbackAdapter Ids} (h : a.Drops b) (h' : b.Drops c) :
    a.Drops c :=
  ⟨h'.records.trans h.records, h'.identity.trans h.identity, h'.maxBytes.trans h.maxBytes,
    Nat.le_trans h'.le h.le, h'.exact_of_exact ∘ h.exact_of_exact⟩

theorem drops_dropFront {old : NormalizedRecord Ids} {rest : List (NormalizedRecord Ids)}
    (h : a.records = old :: rest) : a.Drops (a.dropFront old rest) := by
  refine ⟨h ▸ List.suffix_cons old rest, rfl, rfl, Nat.sub_le _ _, fun hexact => ?_⟩
  have hsum : a.heldBytes = recordRetainedBytes old + (rest.map recordRetainedBytes).sum := by
    rw [heldBytes, h, List.map_cons, List.sum_cons]
  show a.totalBytes - recordRetainedBytes old = (rest.map recordRetainedBytes).sum
  omega

theorem expireLoop_drops (now : Nat) (times : List Nat) (a : BoundedCallbackAdapter Ids) :
    a.Drops (expireLoop now times a) := by
  induction times generalizing a with
  | nil => exact .refl a
  | cons frontAt times ih =>
    rw [expireLoop]
    split
    · exact .refl a
    · split
      · next old rest hrecords => exact (drops_dropFront hrecords).trans (ih _)
      · have hpopped : a.Drops { a with insertedAt := times } :=
          ⟨List.suffix_rfl, rfl, rfl, Nat.le_refl _, id⟩
        exact hpopped.trans (ih _)

theorem evictLoop_drops (incoming : Nat) (a : BoundedCallbackAdapter Ids) (dropped : Bool) :
    a.Drops (evictLoop incoming a.records (a, dropped)).1 := by
  generalize hrecords : a.records = records
  induction records generalizing a dropped with
  | nil => exact .refl a
  | cons old rest ih =>
    rw [evictLoop]
    split
    · exact (drops_dropFront hrecords).trans (ih (a.dropFront old rest) true rfl)
    · exact .refl a

/-- A line leaves what was there, but for the oldest records, or appends its record where
there is room for it. -/
theorem ingestLine_cases [NdjsonDecoder] (a : BoundedCallbackAdapter Ids) (line : String)
    (now : Nat) :
    a.Drops (a.ingestLine line now).1 ∨
      ∃ room record, a.Drops room ∧ record.identity = a.identity ∧
        (∃ rest, (parseLine line).fields = some (record.topic, rest)) ∧
        saturatingAdd room.totalBytes (recordRetainedBytes record) ≤ room.maxBytes ∧
        (a.ingestLine line now).1.records = room.records ++ [record] ∧
        (a.ingestLine line now).1.identity = room.identity ∧
        (a.ingestLine line now).1.maxBytes = room.maxBytes ∧
        (a.ingestLine line now).1.totalBytes =
          saturatingAdd room.totalBytes (recordRetainedBytes record) := by
  have hsame : ∀ b : BoundedCallbackAdapter Ids, ∀ n, a.Drops b →
      a.Drops { b with rejectedOversize := n } := fun b n h =>
    ⟨h.records, h.identity, h.maxBytes, h.le, h.exact_of_exact⟩
  have hrefused : ∀ n, a.Drops { a with rejectedTopic := n } := fun n =>
    ⟨List.suffix_rfl, rfl, rfl, Nat.le_refl _, id⟩
  unfold ingestLine
  split
  · exact .inl (hsame a _ (.refl a))
  · split
    · exact .inl (hrefused _)
    · next topic topicSequence message producer hfields =>
      split
      · exact .inl (hrefused _)
      · have haged : a.Drops (a.expireByAge now) := expireLoop_drops now a.insertedAt a
        have hroom : ∀ incoming, a.Drops
            (evictLoop incoming (a.expireByAge now).records (a.expireByAge now, false)).1 :=
          fun incoming => haged.trans (evictLoop_drops incoming _ false)
        dsimp only
        split
        · exact .inl (hsame _ _ haged)
        · split
          · exact .inl (hsame _ _ (hroom _))
          · next hfits =>
            exact .inr ⟨_, _, hroom _, rfl, ⟨_, hfields⟩, Nat.le_of_not_lt hfits, rfl, rfl, rfl,
              rfl⟩

/-! ## Whole runs -/

/-- The topic of a line is not a reserved one. -/
def Unreserved [NdjsonDecoder] (line : String) : Prop :=
  ∀ topic rest, (parseLine line).fields = some (topic, rest) → TelemetryPlane.reserved topic = false

/-- What holds of an adapter after any lines: the records are its own, and within its
budget; `allowed` holds of their topics. -/
structure Owns (identity : CanonicalIdentity Ids) (allowed : String → Prop)
    (a : BoundedCallbackAdapter Ids) : Prop where
  stamp : a.identity = identity
  owned : ∀ r ∈ a.records, r.identity = identity
  topics : ∀ r ∈ a.records, allowed r.topic
  within : a.totalBytes ≤ a.maxBytes

theorem Owns.drops {identity : CanonicalIdentity Ids} {allowed : String → Prop}
    {after : BoundedCallbackAdapter Ids} (h : Owns identity allowed a) (hdrops : a.Drops after) :
    Owns identity allowed after :=
  ⟨hdrops.identity.trans h.stamp, fun r hr => h.owned r (hdrops.records.mem hr),
    fun r hr => h.topics r (hdrops.records.mem hr),
    hdrops.maxBytes ▸ Nat.le_trans hdrops.le h.within⟩

theorem Owns.step [NdjsonDecoder] {identity : CanonicalIdentity Ids} {allowed : String → Prop}
    (h : Owns identity allowed a) {input : String × Nat}
    (hinput : ∀ topic rest, (parseLine input.1).fields = some (topic, rest) → allowed topic) :
    Owns identity allowed (a.step input).1 := by
  rcases a.ingestLine_cases input.1 input.2 with
    hdrops | ⟨room, record, hdrops, hown, ⟨rest, hfields⟩, hfits, hrecords, hident, hmax, htotal⟩
  · exact h.drops hdrops
  · have hroom := h.drops hdrops
    refine ⟨hident.trans hroom.stamp, ?_, ?_, ?_⟩
    · rw [BoundedCallbackAdapter.step, hrecords, List.forall_mem_append, List.forall_mem_singleton]
      exact ⟨hroom.owned, hown.trans h.stamp⟩
    · rw [BoundedCallbackAdapter.step, hrecords, List.forall_mem_append, List.forall_mem_singleton]
      exact ⟨hroom.topics, hinput _ _ hfields⟩
    · rw [BoundedCallbackAdapter.step, htotal, hmax]
      exact hfits

/-- The byte count stays exact as long as it fits a word. -/
theorem step_exact [NdjsonDecoder] (h : a.totalBytes = a.heldBytes) (input : String × Nat)
    (hword : (a.step input).1.heldBytes ≤ u64Max) :
    (a.step input).1.totalBytes = (a.step input).1.heldBytes := by
  rcases a.ingestLine_cases input.1 input.2 with
    hdrops | ⟨room, record, hdrops, -, -, -, hrecords, -, -, htotal⟩
  · exact hdrops.exact_of_exact h
  · have hsum : (a.step input).1.heldBytes = room.heldBytes + recordRetainedBytes record := by
      rw [BoundedCallbackAdapter.step, heldBytes, hrecords]
      simp [heldBytes]
    rw [hsum] at hword ⊢
    rw [BoundedCallbackAdapter.step, htotal, hdrops.exact_of_exact h, saturatingAdd_eq hword]

theorem run_exact [NdjsonDecoder] (identity : CanonicalIdentity Ids) (config : RingConfig)
    (inputs : List (String × Nat))
    (hwords : ∀ front, front <+: inputs →
      (runFrom step (withConfig identity config) front).heldBytes ≤ u64Max) :
    (runFrom step (withConfig identity config) inputs).totalBytes =
      (runFrom step (withConfig identity config) inputs).heldBytes := by
  induction inputs using List.reverseRecOn with
  | nil => rfl
  | append_singleton inputs input ih =>
    have hlast := hwords _ (List.prefix_refl _)
    rw [runFrom_concat] at hlast ⊢
    exact step_exact (ih fun front hfront =>
      hwords front (hfront.trans (List.prefix_append _ _))) input hlast

/-- After any lines without a reserved topic, no record has one.  Whatever the lines say,
every record has the identity of the adapter, and the records are charged within its
budget and exactly, as far as a word counts them.  The plane takes no reserved topic from
an application. -/
theorem application_records_owned [NdjsonDecoder] (identity : CanonicalIdentity Ids)
    (config : RingConfig) (inputs : List (String × Nat)) :
    let a := runFrom step (withConfig identity config) inputs
    ((∀ input ∈ inputs, Unreserved input.1) →
        ∀ r ∈ a.records, TelemetryPlane.reserved r.topic = false) ∧
      (∀ r ∈ a.records, r.identity = identity) ∧ a.totalBytes ≤ a.maxBytes ∧
      ((∀ front, front <+: inputs →
          (runFrom step (withConfig identity config) front).heldBytes ≤ u64Max) →
        a.totalBytes = a.heldBytes) ∧
      ∀ (plane : TelemetryPlane) topic bytes streamSequence now result,
        plane.ingestApplicationTopic topic bytes streamSequence now = .ok result →
          TelemetryPlane.reserved topic = false := by
  intro a
  -- The topics are those that the condition on all lines allows.
  have hrun : Owns identity (fun topic => (∀ input ∈ inputs, Unreserved input.1) →
      TelemetryPlane.reserved topic = false) a ∧ [] ⊆ inputs :=
    runFrom_of_inputs
      (P := fun (a : BoundedCallbackAdapter Ids) (rest : List (String × Nat)) =>
        Owns identity _ a ∧ rest ⊆ inputs)
      (fun a input rest ha =>
        ⟨ha.1.step fun topic fields hfields h =>
            h input (ha.2 List.mem_cons_self) topic fields hfields,
          fun _ hlater => ha.2 (List.mem_cons_of_mem _ hlater)⟩)
      ⟨⟨rfl, fun _ hr => absurd hr List.not_mem_nil, fun _ hr => absurd hr List.not_mem_nil,
        Nat.zero_le _⟩, List.Subset.refl _⟩
  exact ⟨fun h r hr => hrun.1.topics r hr h, hrun.1.owned, hrun.1.within,
    run_exact identity config inputs,
    fun plane topic bytes streamSequence now result hok =>
      (TelemetryPlane.ingestApplicationTopic_ok hok).1⟩

end BoundedCallbackAdapter

/-- The identity of a sample placement. -/
def sampleIdentity : CanonicalIdentity Unit := ⟨(), "default", "shop", none⟩

/-- A line of a topic of the application. -/
theorem application_records_owned_hello :
    letI : NdjsonDecoder := ⟨fun _ => none⟩
    let a := runFrom BoundedCallbackAdapter.step
      (BoundedCallbackAdapter.withConfig sampleIdentity ⟨1000, 60, none⟩) [("app/log hello", 0)]
    a.records.length = 1 ∧ a.records.all (fun r => !TelemetryPlane.reserved r.topic) = true := by
  let _ : NdjsonDecoder := ⟨fun _ => none⟩
  have hline : ∀ input ∈ [("app/log hello", 0)], BoundedCallbackAdapter.Unreserved input.1 := by
    intro input hinput topic rest hfields
    rw [List.mem_singleton.mp hinput] at hfields
    cases hfields
    decide +kernel
  refine ⟨by decide +kernel, List.all_eq_true.mpr fun r hr => ?_⟩
  rw [(BoundedCallbackAdapter.application_records_owned sampleIdentity ⟨1000, 60, none⟩
    [("app/log hello", 0)]).1 hline r hr]
  rfl

/-- A line of an application is kept under a topic of the supervisor. -/
theorem supervisor_topic_is_forged :
    letI : NdjsonDecoder := ⟨fun _ => none⟩
    let a := (BoundedCallbackAdapter.withConfig sampleIdentity ⟨1000, 60, none⟩).ingestLine
      "gump/lifecycle stopped" 0
    a.2 = .accepted ∧ a.1.records.map (·.topic) = ["gump/lifecycle"] ∧
      TelemetryPlane.reserved "gump/lifecycle" = true := by
  decide +kernel

end Gump.Telemetry
