/-
  Server/Orphans.lean --- which orphans a deployment reports.

  A deployment that published its Capsule without leaving a desired declaration for
  it should report an orphan, and only then.  It reports one exactly when its write
  is not answered, or answered by a rejection that is no idempotency conflict.
  Whether that is right depends on what the final key and the replicated state had
  before.
-/
import Mathlib.Algebra.GroupWithZero.Nat
import Gump.Server.DeployExits

set_option autoImplicit false

namespace Gump.Server

open Gump.Foundation Gump.Types Gump.Memory Gump.Crypto Gump.Connectors
open Gump.Capsule (Crc32)

/-! ## Rejections -/

/-- A reply for which the transaction reports an orphan. -/
def reports : Except String RaftResponse → Bool
  | .ok (.rejected message) => !containsText message "idempotency conflict"
  | .ok (.applied _) => false
  | .ok (.replay _) => false
  | .error _ => true

section Settle

variable (req : DeployTxnRequest) (object : ObjectLocator)

end Settle

/-! ## The write -/

section Write

variable [Blake3]

/-- The payload that a deployment commits. -/
def DeployTxnRequest.payload [SerdeJson] (req : DeployTxnRequest) : List UInt8 :=
  (SerdeJson.toVec req.binding.serialize).toOption.getD []

/-- The replicated state that the write of a deployment meets, without the receipts
that are due. -/
def meets (fate : WriteFate) (s : ClusterState) : ClusterState :=
  (fate.met s).expireIdempotencyTtl

variable [SerdeJson]

/-- A state accepts the declaration of a request. -/
def Takes (req : DeployTxnRequest) (s : ClusterState) : Prop :=
  (s.putDesired req.ns req.app req.expectedGeneration req.payload req.contentDigest).2.isApplied =
    true

end Write

/-! ## The reports -/

section Orphans

variable [Blake3] {σ : Type} {store : ObjectStore (StateM σ)} (C : store.Contract)

variable [SerdeJson] [Crc32] [Ed25519] [ReleaseCodec]

variable {C} {fate : WriteFate} {call : DeployCall} {reads : Reads} {w : DeployWorld σ}

end Orphans

end Gump.Server
