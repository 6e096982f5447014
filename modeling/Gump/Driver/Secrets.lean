/-
  Driver/Secrets.lean --- scoped delivery of runtime values
  (`gump-driver/src/secrets.rs`).

  A plan carries the declared values of an attempt, each for the environment or for an
  inherited descriptor.  A value for a descriptor is written to an anonymous file whose
  descriptor number the operating system chooses.
-/
import Gump.Foundation.Descriptors
import Gump.Types.Id
import Gump.Types.Label

set_option autoImplicit false

namespace Gump.Driver

open Gump.Foundation Gump.Types

/-! ## Errors -/

inductive DriverErrorKind where
  | probe
  | prepare
  | admission
  | start
  | observe
  | signal
  | terminate
  | cleanup
  | policy
  | io
  | notFound
  | state
  deriving DecidableEq, Repr

structure DriverError where
  kind : DriverErrorKind
  message : String
  deriving DecidableEq, Repr

/-! ## Plans -/

/-- Exact authorization scope for one delivery. -/
structure DeliveryScope where
  clusterId : ClusterId
  workloadId : WorkloadId
  releaseId : CapsuleId
  unit : Nat
  attemptId : AttemptId
  nodeId : Nat
  controllerEpoch : Nat
  placementFence : Nat
  deriving DecidableEq

inductive FdReferenceValue where
  /-- `/proc/self/fd/N`. -/
  | procPath
  /-- `N`. -/
  | descriptorNumber
  deriving DecidableEq, Repr

inductive InjectForm where
  | env
  | fd (fd : Nat) (referenceEnv : Option String) (referenceValue : FdReferenceValue)
  deriving DecidableEq, Repr

/-- One declared runtime value ready for injection. -/
structure SecretValue where
  logicalName : String
  form : InjectForm
  bytes : List UInt8
  deriving DecidableEq, Repr

/-- The plan passed from admission to start. -/
structure SecretPlan where
  deferred : Bool
  scope : Option DeliveryScope
  values : List SecretValue

/-- A name that the environment cannot carry. -/
def badEnvName (name : String) : Bool := name.isEmpty || (utf8 name).any fun b => b == 0 || b == 61

/-- `validate_value`. -/
def validateValue (v : SecretValue) : Except DriverError Unit :=
  match v.form with
  | .env =>
    if badEnvName v.logicalName then .error ⟨.policy, "invalid env injection name"⟩
    else if (0 : UInt8) ∈ v.bytes then .error ⟨.policy, "env injection forbids NUL bytes"⟩
    else if (String.fromUTF8? ⟨v.bytes.toArray⟩).isNone then
      .error ⟨.policy, "env injection requires UTF-8"⟩
    else .ok ()
  | .fd fd referenceEnv _ =>
    if fd < 3 then .error ⟨.policy, "fd injection must use fd >= 3"⟩
    else if referenceEnv.any badEnvName then .error ⟨.policy, "invalid fd reference_env name"⟩
    else .ok ()

/-- `validate_for_admit`. -/
def validateForAdmit (plan : SecretPlan) (attempt : AttemptId) : Except DriverError Unit :=
  if plan.deferred then
    if plan.values ≠ [] ∨ plan.scope.isSome then
      .error ⟨.policy, "deferred SecretPlan must not carry scope or values"⟩
    else .ok ()
  else
    match plan.scope with
    | none => .error ⟨.policy, "non-deferred SecretPlan requires DeliveryScope"⟩
    | some scope =>
      if scope.attemptId ≠ attempt then
        .error ⟨.policy, "secret delivery attempt_id mismatch"⟩
      else plan.values.forM validateValue

/-- `validate_for_start`. -/
def validateForStart (plan : SecretPlan) (fenceGeneration : Nat) : Except DriverError Unit :=
  if plan.deferred then .ok ()
  else
    match plan.scope with
    | none => .error ⟨.policy, "non-deferred SecretPlan requires DeliveryScope at start"⟩
    | some scope =>
      if scope.placementFence ≠ fenceGeneration then
        .error ⟨.policy, "secret delivery placement fence mismatch"⟩
      else .ok ()

/-! ## Anonymous files -/

/-- What a descriptor refers to. -/
inductive OpenFile where
  /-- The anonymous file of a value, by the position of the value among those for
  descriptors. -/
  | secret (index : Nat) (bytes : List UInt8)
  | other (id : Nat)
  deriving DecidableEq, Repr

/-- Anonymous memory-backed file holding the bytes of a value. -/
structure PreparedFd where
  targetFd : Nat
  /-- The descriptor number of the file. -/
  srcFd : Nat
  file : OpenFile
  referenceEnv : Option (String × String)
  deriving DecidableEq, Repr

/-- What the environment variable of a descriptor says. -/
def referenceText (fd : Nat) : FdReferenceValue → String
  | .procPath => s!"/proc/self/fd/{fd}"
  | .descriptorNumber => toString fd

/-- The loop over the values.  The operating system answers the request for the
anonymous file of each position. -/
def prepareLoop (anonymousFile : Nat → Except DriverError Nat) :
    Nat → List SecretValue → Except DriverError (List PreparedFd)
  | _, [] => .ok []
  | n, v :: rest =>
    match v.form with
    | .env => prepareLoop anonymousFile n rest
    | .fd fd referenceEnv referenceValue => do
      let srcFd ← anonymousFile n
      let later ← prepareLoop anonymousFile (n + 1) rest
      return ⟨fd, srcFd, .secret n v.bytes,
        referenceEnv.map fun name => (name, referenceText fd referenceValue)⟩ :: later

/-- `prepare_fds`. -/
def prepareFds (anonymousFile : Nat → Except DriverError Nat) (plan : SecretPlan) :
    Except DriverError (List PreparedFd) :=
  if plan.deferred then .ok [] else prepareLoop anonymousFile 0 plan.values

theorem prepareLoop_fd {anonymousFile : Nat → Except DriverError Nat} {v : SecretValue}
    {rest : List SecretValue} {n fd : Nat} {referenceEnv : Option String}
    {referenceValue : FdReferenceValue} (hform : v.form = .fd fd referenceEnv referenceValue)
    {fds : List PreparedFd} (h : prepareLoop anonymousFile n (v :: rest) = .ok fds) :
    ∃ srcFd later, anonymousFile n = .ok srcFd ∧
      prepareLoop anonymousFile (n + 1) rest = .ok later ∧
      fds = ⟨fd, srcFd, .secret n v.bytes,
        referenceEnv.map fun name => (name, referenceText fd referenceValue)⟩ :: later := by
  rw [prepareLoop, hform] at h
  obtain ⟨srcFd, hsrc, h⟩ := except_bind_eq_ok.mp h
  obtain ⟨later, hlater, h⟩ := except_bind_eq_ok.mp h
  cases h
  exact ⟨srcFd, later, hsrc, hlater, rfl⟩

/-- The values for descriptors: the declared number and the bytes. -/
def fdValues (values : List SecretValue) : List (Nat × List UInt8) :=
  values.filterMap fun v =>
    match v.form with
    | .env => none
    | .fd fd _ _ => some (fd, v.bytes)

/-- The prepared files are those of the values for descriptors, each at the number that
the operating system chose for its position. -/
theorem prepareLoop_spec {anonymousFile : Nat → Except DriverError Nat}
    {values : List SecretValue} : ∀ {n : Nat} {fds : List PreparedFd},
    prepareLoop anonymousFile n values = .ok fds →
      fds.length = (fdValues values).length ∧ ∀ i f, fds[i]? = some f →
        ∃ bytes, (fdValues values)[i]? = some (f.targetFd, bytes) ∧
          f.file = .secret (n + i) bytes ∧ anonymousFile (n + i) = .ok f.srcFd := by
  induction values with
  | nil =>
    intro n fds h
    cases h
    exact ⟨rfl, nofun⟩
  | cons v rest ih =>
    intro n fds h
    cases hform : v.form with
    | env =>
      have hvalues : fdValues (v :: rest) = fdValues rest := by simp [fdValues, hform]
      rw [prepareLoop, hform] at h
      rw [hvalues]
      exact ih h
    | fd fd referenceEnv referenceValue =>
      have hvalues : fdValues (v :: rest) = (fd, v.bytes) :: fdValues rest := by
        simp [fdValues, hform]
      obtain ⟨srcFd, later, hsrc, hlater, rfl⟩ := prepareLoop_fd hform h
      obtain ⟨hlength, hlater⟩ := ih hlater
      rw [hvalues]
      refine ⟨by rw [List.length_cons, List.length_cons, hlength], fun i f hf => ?_⟩
      cases i with
      | zero =>
        cases Option.some.inj hf
        exact ⟨v.bytes, rfl, rfl, hsrc⟩
      | succ i =>
        obtain ⟨bytes, hvalue, hfile, hi⟩ := hlater i f hf
        rw [Nat.add_right_comm] at hfile hi
        exact ⟨bytes, hvalue, hfile, hi⟩

end Gump.Driver
