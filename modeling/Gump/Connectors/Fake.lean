/-
  Connectors/Fake.lean --- the object store in memory.

  The store of the developer mode and of the tests.  Uploads are numbered from one
  on; an upload is finished into an object under its quarantine key, and an object
  keeps the length and the digest of its bytes.  Three faults can be injected.
-/
import Mathlib.Algebra.GroupWithZero.Nat
import Gump.Connectors.Object

set_option autoImplicit false

namespace Gump.Connectors

open Gump.Foundation Gump.Memory Gump.Types

/-- An object with its evidence. -/
structure StoredObject [Blake3] where
  bytes : List UInt8
  length : Nat
  digest : Digest
  length_eq : length = bytes.length
  digest_eq : digest = Blake3.hash bytes

/-- The object that bytes make. -/
def StoredObject.of [Blake3] (bytes : List UInt8) : StoredObject :=
  ⟨bytes, bytes.length, Blake3.hash bytes, rfl, rfl⟩

structure OpenUpload where
  expectedLen : Nat
  /-- What was written so far. -/
  data : List UInt8
  quarantine : ObjectKey
  deriving DecidableEq, Repr

/-- Faults that the next operations report. -/
structure FakeFaults where
  failNextWrite : Bool := false
  failNextPublish : Bool := false
  failNextHead : Bool := false
  deriving DecidableEq, Repr

structure FakeObjectStore [Blake3] where
  objects : OrdMap ObjectKey StoredObject
  uploads : OrdMap Nat OpenUpload
  nextUpload : Nat
  faults : FakeFaults

namespace FakeObjectStore

variable [Blake3]

def new : FakeObjectStore := ⟨.empty, .empty, 0, {}⟩

/-- An operation on the store. -/
abbrev Op (α : Type) : Type := StateM FakeObjectStore (StoreResult α)

/-- The number that the next upload gets. -/
def nextId (s : FakeObjectStore) : Nat := saturatingAdd s.nextUpload 1

def beginQuarantine (cluster : ClusterId) (capsule : CapsuleId) (expectedLen : Nat) : Op Nat :=
  fun s =>
    if expectedLen = 0 then
      (.error ⟨.invalidArgument, "expected_len must be non-zero"⟩, s)
    else
      let upload : OpenUpload := ⟨expectedLen, [], quarantineKey cluster capsule s.nextId⟩
      (.ok s.nextId,
        { s with
          nextUpload := s.nextId
          uploads := s.uploads.insert s.nextId upload })

def write (upload : Nat) (chunk : List UInt8) : Op UploadProgress := fun s =>
  if s.faults.failNextWrite then
    (.error ⟨.faultInjected, "injected write fault"⟩,
      { s with faults := { s.faults with failNextWrite := false } })
  else
    match s.uploads.get upload with
    | none => (.error ⟨.notFound, "unknown upload"⟩, s)
    | some entry =>
      if entry.data.length + chunk.length > entry.expectedLen then
        (.error ⟨.invalidArgument, "write would exceed expected_len"⟩, s)
      else
        let grown := { entry with data := entry.data ++ chunk }
        (.ok ⟨grown.data.length, grown.expectedLen⟩,
          { s with uploads := s.uploads.insert upload grown })

/-- Finish an upload into an object under its quarantine key.  The upload is closed
whatever comes of it. -/
def finishQuarantine (upload : Nat) (digest : Digest) : Op ObjectEvidence := fun s =>
  match s.uploads.get upload with
  | none => (.error ⟨.notFound, "unknown upload"⟩, s)
  | some entry =>
    let closed := { s with uploads := s.uploads.erase upload }
    let written := entry.data.length
    let expected := entry.expectedLen
    if hlength : expected = written then
      if hdigest : digest = Blake3.hash entry.data then
        let obj : StoredObject := ⟨entry.data, expected, digest, hlength, hdigest⟩
        (.ok ⟨entry.quarantine, expected, digest⟩,
          { closed with objects := s.objects.insert entry.quarantine obj })
      else (.error ⟨.preconditionFailed, "quarantine digest mismatch"⟩, closed)
    else
      (.error ⟨.preconditionFailed, s!"length {written} != expected {expected}"⟩, closed)

def abort (upload : Nat) : Op Unit := fun s =>
  match s.uploads.get upload with
  | none => (.error ⟨.notFound, "unknown upload"⟩, s)
  | some _ => (.ok (), { s with uploads := s.uploads.erase upload })

def head (key : ObjectKey) : Op ObjectEvidence := fun s =>
  if s.faults.failNextHead then (.error ⟨.faultInjected, "injected head fault"⟩, s)
  else
    match s.objects.get key with
    | none => (.error ⟨.notFound, "object not found"⟩, s)
    | some obj => (.ok ⟨key, obj.length, obj.digest⟩, s)

/-- The bytes of an object in a range. -/
def rangeOf (obj : StoredObject) : Option ByteRange → StoreResult ByteStream
  | none => .ok ⟨slice obj.bytes 0 obj.length, none⟩
  | some range =>
    if range.start > obj.length then .error ⟨.invalidArgument, "range start past EOF"⟩
    else
      let stop := range.stop.getD obj.length
      if stop < range.start ∨ stop > obj.length then
        .error ⟨.invalidArgument, "invalid byte range"⟩
      else .ok ⟨slice obj.bytes range.start (stop - range.start), none⟩

def getReader (key : ObjectKey) (range : Option ByteRange) : Op ByteStream := fun s =>
  match s.objects.get key with
  | none => (.error ⟨.notFound, "object not found"⟩, s)
  | some obj => (rangeOf obj range, s)

def copyIfAbsent (source dest : ObjectKey) (digest : Digest) (len : Nat) : Op ObjectEvidence :=
  fun s =>
    if s.faults.failNextPublish then
      (.error ⟨.faultInjected, "injected publish fault"⟩,
        { s with faults := { s.faults with failNextPublish := false } })
    else
      match s.objects.get source with
      | none => (.error ⟨.notFound, "quarantine object missing"⟩, s)
      | some q =>
        if q.digest ≠ digest ∨ q.length ≠ len then
          (.error ⟨.preconditionFailed, "quarantine evidence does not match publish args"⟩, s)
        else
          match s.objects.get dest with
          | some existing =>
            if existing.digest = digest ∧ existing.length = len then
              (.ok ⟨dest, len, digest⟩, s)
            else (.error ⟨.conflict, "final key occupied by different object"⟩, s)
          | none => (.ok ⟨dest, len, digest⟩, { s with objects := s.objects.insert dest q })

def delete (key : ObjectKey) : Op Unit := fun s =>
  match s.objects.get key with
  | none => (.error ⟨.notFound, "object not found"⟩, s)
  | some _ => (.ok (), { s with objects := s.objects.erase key })

/-- The store as a connector. -/
def store : ObjectStore (StateM FakeObjectStore) where
  beginQuarantine := beginQuarantine
  write := write
  finishQuarantine := finishQuarantine
  abort := abort
  publishIfAbsent := copyIfAbsent
  head := head
  getReader := getReader
  delete := delete

end FakeObjectStore

end Gump.Connectors
