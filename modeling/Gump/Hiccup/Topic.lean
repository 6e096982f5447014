/-
  Hiccup/Topic.lean --- topic validation and `@self` (`gump-hiccup/src/topic.rs`,
  `gump-hiccup/src/limits.rs`).

  A topic token is checked as it is spelled and stored without its leading `#`.  The
  stored form, `CanonicalTopic`, is either the self topic of a workload or a named
  topic.  A keeper that receives a topic takes the self topic of the workload as it is
  and checks everything else as a token again.
-/
import Gump.Types.Id
import Mathlib.Data.List.Infix
import Mathlib.Data.String.Basic

set_option autoImplicit false

namespace Gump.Hiccup

open Gump.Foundation Gump.Types

def maxListenTopics : Nat := 32

/-- Why a topic was refused (`TopicError`). -/
inductive TopicError where
  | empty
  | tooLong (len : Nat)
  | invalidShape
  | reservedGumpPrefix
  | listenWithoutPublishRequiresListen
  | tooManyListen (count : Nat)
  | duplicateListen
  | crossWorkloadSelf
  deriving DecidableEq, Repr

/-- The text of a topic error. -/
def TopicError.display : TopicError → String
  | .empty => "topic is empty"
  | .tooLong len => s!"topic length {len} exceeds 128"
  | .invalidShape => "topic must be @self or lowercase slash-separated ASCII"
  | .reservedGumpPrefix => "gump/ topics are reserved"
  | .listenWithoutPublishRequiresListen => "topic null requires non-empty listen"
  | .tooManyListen count => s!"listen has {count} topics; max {maxListenTopics}"
  | .duplicateListen => "listen topics must be unique"
  | .crossWorkloadSelf => "@self cannot cross workload identity"

/-! ## Named topics -/

/-- The characters a segment may start and end with. -/
def isEdge (c : Char) : Bool := c.isLower || c.isDigit

/-- The characters a segment may contain. -/
def isSegmentChar (c : Char) : Bool := isEdge c || c == '.' || c == '_' || c == '-'

def segmentOk (seg : List Char) : Bool :=
  !seg.isEmpty && decide ((String.ofList seg).utf8ByteSize ≤ 64)
    && seg.head?.any isEdge && seg.getLast?.any isEdge && seg.all isSegmentChar

/-- Slash-separated segments. -/
def namedShape (t : List Char) : Bool :=
  !(t.isEmpty || ['/'].isPrefixOf t || ['/'].isSuffixOf t || decide (['/', '/'] <:+: t))
    && (t.splitOn '/').all segmentOk

/-- Whether a text lies under `gump/`. -/
def isReserved (text : String) : Bool := "gump/".toList.isPrefixOf text.toList

/-- A token without its leading `#`. -/
def stripHash (raw : String) : String :=
  match raw.toList with
  | '#' :: t => String.ofList t
  | _ => raw

/-! ## Canonical topics -/

/-- The text of the self topic of a workload. -/
def selfText (workload : WorkloadId) : String := "@self/" ++ toHyphenated workload

/-- The texts that are stored: never with a leading `#`. -/
def CanonicalText (text : String) : Prop :=
  (∃ workload, text = selfText workload) ∨ namedShape text.toList = true ∧ text.utf8ByteSize ≤ 128

/-- A topic as the board stores it. -/
structure CanonicalTopic where
  asStr : String
  canonical : CanonicalText asStr

namespace CanonicalTopic

theorem asStr_injective : Function.Injective asStr := by
  rintro ⟨a, ha⟩ ⟨b, hb⟩ h
  simp only at h
  subst h
  rfl

instance : LinearOrder CanonicalTopic := LinearOrder.lift' asStr asStr_injective

/-- The `@self` topic of a workload. -/
def selfFor (workload : WorkloadId) : CanonicalTopic :=
  ⟨selfText workload, .inl ⟨workload, rfl⟩⟩

end CanonicalTopic

theorem toList_selfText (workload : WorkloadId) :
    (selfText workload).toList = '@' :: "self/".toList ++ (toHyphenated workload).toList := by
  rw [selfText, String.toList_append]
  rfl

/-! ## Tokens -/

/-- `validate_topic_token`. -/
def validateTopicToken (raw : String) : Except TopicError Unit :=
  if raw = "@self" then .ok ()
  else if raw.isEmpty then .error .empty
  else if 128 < raw.utf8ByteSize then .error (.tooLong raw.utf8ByteSize)
  else if isReserved raw then .error .reservedGumpPrefix
  else if namedShape (stripHash raw).toList then .ok ()
  else .error .invalidShape

/-- What a named token has to be. -/
structure NamedToken (raw : String) : Prop where
  length : raw.utf8ByteSize ≤ 128
  unreserved : isReserved raw = false
  shape : namedShape (stripHash raw).toList = true

theorem stripHash_utf8ByteSize_le (raw : String) :
    (stripHash raw).utf8ByteSize ≤ raw.utf8ByteSize := by
  unfold stripHash
  split
  · rename_i t ht
    have hraw : raw = String.ofList ['#'] ++ String.ofList t := by
      rw [← String.ofList_append, List.singleton_append, ← ht, String.ofList_toList]
    rw [hraw, String.utf8ByteSize_append]
    exact Nat.le_add_left _ _
  · exact Nat.le_refl _

theorem validateTopicToken_eq_ok_iff {raw : String} :
    validateTopicToken raw = .ok () ↔ raw = "@self" ∨ NamedToken raw := by
  have hempty : raw.isEmpty = true → ¬ NamedToken raw := by
    intro h htoken
    have hraw : raw = "" := by simpa using h
    have hshape := htoken.shape
    rw [hraw] at hshape
    exact absurd hshape (by decide)
  constructor
  · intro h
    unfold validateTopicToken at h
    split at h
    · exact .inl ‹_›
    · split_ifs at h with h1 h2 h3 h4
      exact .inr ⟨Nat.not_lt.mp h2, Bool.eq_false_iff.mpr h3, h4⟩
  · rintro (rfl | htoken)
    · rfl
    · have h1 : ¬ raw.isEmpty = true := fun h => hempty h htoken
      unfold validateTopicToken
      split
      · rfl
      · rw [if_neg (Nat.not_lt.mpr htoken.length), if_neg (by simp [htoken.unreserved]),
          if_pos htoken.shape]

/-- `canonicalize_topic`. -/
def canonicalizeTopic (raw : String) (workload : WorkloadId) : Except TopicError CanonicalTopic :=
  match h : validateTopicToken raw with
  | .error e => .error e
  | .ok () =>
    if hself : raw = "@self" then .ok (.selfFor workload)
    else .ok ⟨stripHash raw, .inr (by
      have htoken := (validateTopicToken_eq_ok_iff.mp h).resolve_left hself
      exact ⟨htoken.shape, (stripHash_utf8ByteSize_le raw).trans htoken.length⟩)⟩

/-- `CanonicalTopic::from_keeper`. -/
def CanonicalTopic.fromKeeper (raw : String) (workload : WorkloadId) :
    Except TopicError CanonicalTopic :=
  if raw = (selfFor workload).asStr then .ok (selfFor workload)
  else if "@self/".toList.isPrefixOf raw.toList then .error .crossWorkloadSelf
  else canonicalizeTopic raw workload

/-! ## Declared topics -/

/-- The topics of a declaration (`ResolvedTopics`). -/
structure ResolvedTopics where
  /-- Absent for a declaration that only listens. -/
  publish : Option CanonicalTopic
  listen : List CanonicalTopic

end Gump.Hiccup
