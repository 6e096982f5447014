/-
  Crypto/Trust.lean --- which release signers a cluster trusts.

  A signer is enrolled under the fingerprint of its key, with the namespaces it
  may sign for, an expiry and capabilities.  The key in a Capsule proves a
  signature; trust comes from the enrollment alone.
-/
import Mathlib.Algebra.GroupWithZero.Nat
import Gump.Foundation.OrdMap
import Gump.Crypto.Transcript

set_option autoImplicit false

namespace Gump.Crypto

open Gump.Foundation Gump.Memory

/-- The bytes of `gump.ed25519-pub/1` and a zero byte. -/
def ed25519FpDomain : List UInt8 := "gump.ed25519-pub/1".toUTF8.toList ++ [0]

/-- A digest as `blake3:` and lower-case hexadecimal digits. -/
def formatBlake3Hex (digest : Digest) : String :=
  "blake3:" ++ String.join (digest.bytes.map hexByte)

/-- The fingerprint of a public key. -/
def ed25519Fingerprint [Blake3] (key : VerifyingKeyBytes) : String :=
  formatBlake3Hex (Blake3.hash (ed25519FpDomain ++ key.bytes))

/-- What a check is made for. -/
inductive TrustCheck where
  | publication
  | declaration
  deriving DecidableEq, Repr

structure SignerEnrollment where
  publicKey : VerifyingKeyBytes
  /-- Namespaces; `*` stands for all of them. -/
  namespaces : OrdSet String
  expiresAtMs : Option Nat
  capabilities : OrdSet String
  deriving DecidableEq

structure SignerRecord where
  enrollment : SignerEnrollment
  fingerprint : String
  revoked : Bool
  deriving DecidableEq

inductive TrustError where
  | notEnrolled (fingerprint : String)
  | revoked (fingerprint : String)
  | expired (fingerprint : String)
  | namespaceDenied (fingerprint ns : String)
  | capabilityDenied (fingerprint capability : String)
  | alreadyEnrolled (fingerprint : String)
  deriving DecidableEq, Repr

structure TrustDecision where
  fingerprint : String
  policyRevision : Nat
  check : TrustCheck
  deriving DecidableEq, Repr

/-- The authorized release signers. -/
structure SignerTrustPolicy where
  revision : Nat
  byFingerprint : OrdMap String SignerRecord

/-- Whether a set of scopes names a scope or all of them. -/
def scopeAllowed (scopes : OrdSet String) (scope : String) : Bool :=
  scopes.keys.any fun s => s = "*" || s = scope

/-- No capabilities stand for all of them. -/
def capabilityAllowed (capabilities : OrdSet String) (required : String) : Bool :=
  capabilities.keys.isEmpty || scopeAllowed capabilities required

namespace SignerTrustPolicy

def new : SignerTrustPolicy := ⟨0, .empty⟩

variable [Blake3]

/-- Enroll a verifying key under its fingerprint. -/
def enroll (t : SignerTrustPolicy) (enrollment : SignerEnrollment) :
    Except TrustError String × SignerTrustPolicy :=
  let fingerprint := ed25519Fingerprint enrollment.publicKey
  if t.byFingerprint.contains fingerprint then (.error (.alreadyEnrolled fingerprint), t)
  else
    (.ok fingerprint,
      { revision := saturatingAdd t.revision 1
        byFingerprint := t.byFingerprint.insert fingerprint ⟨enrollment, fingerprint, false⟩ })

/-- The check before a publication or a declaration; both use the same signers. -/
def check (t : SignerTrustPolicy) (key : VerifyingKeyBytes) (ns : String) (nowMs : Nat)
    (purpose : TrustCheck) (requiredCapability : Option String) :
    Except TrustError TrustDecision :=
  let fingerprint := ed25519Fingerprint key
  match t.byFingerprint.get fingerprint with
  | none => .error (.notEnrolled fingerprint)
  | some signer =>
    if signer.revoked then .error (.revoked fingerprint)
    else if signer.enrollment.expiresAtMs.any fun expiry => decide (nowMs ≥ expiry) then
      .error (.expired fingerprint)
    else if !scopeAllowed signer.enrollment.namespaces ns then
      .error (.namespaceDenied fingerprint ns)
    else
      match requiredCapability.filter fun c =>
          !capabilityAllowed signer.enrollment.capabilities c with
      | some c => .error (.capabilityDenied fingerprint c)
      | none => .ok ⟨fingerprint, t.revision, purpose⟩

/-- What a check is made for does not change its answer. -/
theorem check_purpose {t : SignerTrustPolicy} {key : VerifyingKeyBytes} {ns : String} {nowMs : Nat}
    {purpose : TrustCheck} (other : TrustCheck) {cap : Option String} {d : TrustDecision}
    (h : t.check key ns nowMs purpose cap = .ok d) :
    t.check key ns nowMs other cap = .ok { d with check := other } := by
  unfold check at h ⊢
  cases hget : t.byFingerprint.get (ed25519Fingerprint key) with
  | none => simp [hget] at h
  | some signer =>
    simp only [hget] at h ⊢
    split at h
    · cases h
    · split at h
      · cases h
      · split at h
        · cases h
        · split at h
          · cases h
          · obtain rfl := Except.ok.inj h
            simp_all

end SignerTrustPolicy

end Gump.Crypto
