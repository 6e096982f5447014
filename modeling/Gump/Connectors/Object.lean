/-
  Connectors/Object.lean --- the contract of an object store.

  A Capsule lives under its final key.  Before that it lives under a quarantine
  key, which names its upload.  The operations of a store run in a monad, so that
  the same client code runs against a store in memory and against a bucket that
  several servers share.
-/
import Mathlib.Algebra.GroupWithZero.Nat
import Gump.Foundation.ByteStream
import Gump.Foundation.OrdMap
import Gump.Memory.Records.Record
import Gump.Types.Id

set_option autoImplicit false

namespace Gump.Connectors

open Gump.Foundation Gump.Memory Gump.Types

/-! ## Keys -/

/-- An object key under the prefix of a cluster.  Both forms pass the checks on
keys: they are not empty, short, and without a zero byte. -/
inductive ObjectKey where
  /-- The immutable Capsule. -/
  | final (cluster : ClusterId) (capsule : CapsuleId)
  /-- An upload that is not published. -/
  | quarantine (cluster : ClusterId) (capsule : CapsuleId) (upload : Nat)
  deriving DecidableEq, Repr

namespace ObjectKey

/-- The key as the store sees it. -/
def text : ObjectKey → String
  | final cluster capsule =>
    "clusters/" ++ toHyphenated cluster ++ "/capsules/" ++ toHyphenated capsule ++ ".capsule"
  | quarantine cluster capsule upload =>
    "clusters/" ++ toHyphenated cluster ++ "/quarantine/" ++ toHyphenated capsule ++ "/" ++
      upload.repr ++ ".capsule"

/-- The components of a key; quarantine keys come after the final ones. -/
def components : ObjectKey → Lex (Octets 16 × Lex (Octets 16 × Nat))
  | final cluster capsule => toLex (cluster, toLex (capsule, 0))
  | quarantine cluster capsule upload => toLex (cluster, toLex (capsule, upload + 1))

instance : LinearOrder ObjectKey :=
  LinearOrder.lift' components (by
    intro a b h
    cases a <;> cases b <;> simp_all [components])

end ObjectKey

def finalCapsuleKey (cluster : ClusterId) (capsule : CapsuleId) : ObjectKey :=
  .final cluster capsule

def quarantineKey (cluster : ClusterId) (capsule : CapsuleId) (upload : Nat) : ObjectKey :=
  .quarantine cluster capsule upload

theorem finalCapsuleKey_ne_quarantineKey {cluster cluster' : ClusterId}
    {capsule capsule' : CapsuleId} {upload : Nat} :
    finalCapsuleKey cluster capsule ≠ quarantineKey cluster' capsule' upload := by
  intro h
  cases h

/-! ## Operations -/

inductive ObjectStoreErrorKind where
  | invalidKey
  | invalidArgument
  | notFound
  | conflict
  | preconditionFailed
  | faultInjected
  | closed
  deriving DecidableEq, Repr

structure ObjectStoreError where
  kind : ObjectStoreErrorKind
  message : String
  deriving DecidableEq, Repr

/-- A range of bytes; without an end it reaches to the end of the object. -/
structure ByteRange where
  start : Nat
  stop : Option Nat
  deriving DecidableEq, Repr

structure ObjectEvidence where
  key : ObjectKey
  length : Nat
  digest : Digest
  deriving DecidableEq, Repr

structure UploadProgress where
  bytesWritten : Nat
  expectedLen : Nat
  deriving DecidableEq, Repr

/-- The result of an operation. -/
abbrev StoreResult (α : Type) : Type := Except ObjectStoreError α

/-- A connector to an object store, with its effects in a monad. -/
structure ObjectStore (m : Type → Type) where
  beginQuarantine : ClusterId → CapsuleId → Nat → m (StoreResult Nat)
  write : Nat → List UInt8 → m (StoreResult UploadProgress)
  finishQuarantine : Nat → Digest → m (StoreResult ObjectEvidence)
  abort : Nat → m (StoreResult Unit)
  /-- Write-if-absent promotion of a quarantined object. -/
  publishIfAbsent : ObjectKey → ObjectKey → Digest → Nat → m (StoreResult ObjectEvidence)
  head : ObjectKey → m (StoreResult ObjectEvidence)
  getReader : ObjectKey → Option ByteRange → m (StoreResult ByteStream)
  delete : ObjectKey → m (StoreResult Unit)

/-- A buffered read. -/
def ObjectStore.get {m : Type → Type} [Monad m] (store : ObjectStore m) (key : ObjectKey)
    (range : Option ByteRange) : m (StoreResult (List UInt8)) := do
  match ← store.getReader key range with
  | .error e => pure (.error e)
  | .ok stream =>
    match stream.readToEnd with
    | .ok bytes => pure (.ok bytes)
    | .error e => pure (.error ⟨.faultInjected, e⟩)

end Gump.Connectors
