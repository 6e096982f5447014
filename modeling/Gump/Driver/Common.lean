/-
  Driver/Common.lean --- starting an attempt (`gump-driver/src/common.rs`).

  The child starts with an environment that the driver builds from nothing and with the
  descriptors that its plan declares.  Between fork and exec the anonymous files are
  duplicated onto the declared numbers one after another.  Each declared descriptor then
  refers to its own file exactly when the numbers that the operating system chose do not
  collide with the declared ones (`own_descriptors_iff`).
-/
import Gump.Driver.Secrets
import Gump.Foundation.OrdMap
import Mathlib.Data.String.Basic

set_option autoImplicit false

namespace Gump.Driver

open Gump.Foundation Gump.Types FdTable

/-! ## Handles -/

/-- A prepared attempt. -/
structure PreparedHandle where
  attemptId : AttemptId
  attemptRoot : String
  releaseRoot : String
  argv : List String
  workdir : String
  admitted : Bool

structure Admission where
  prepared : PreparedHandle
  maxProcesses : Option Nat
  secrets : SecretPlan

/-- What the operating system answers while an attempt is started. -/
structure Host where
  /-- `revalidate_prepared_paths`. -/
  revalidate : PreparedHandle → Except DriverError Unit
  /-- The search path of the agent. -/
  path : Option String
  /-- The descriptor number of the anonymous file of a position. -/
  anonymousFile : Nat → Except DriverError Nat
  /-- The open files of the agent beside the anonymous files. -/
  table : FdTable OpenFile
  dup2Refuses : Nat → Nat → Bool
  /-- Whether the process is otherwise spawned. -/
  spawn : Except String Unit

/-- The started child: its environment, and the descriptors that it keeps. -/
structure Child where
  env : OrdMap String String
  descriptor : Nat → Option OpenFile

/-! ## Admission -/

/-- `CommonDriver::admit`. -/
def admission (prepared : PreparedHandle) (maxProcesses : Option Nat) (secrets : SecretPlan) :
    Except DriverError Admission :=
  if prepared.admitted then .error ⟨.state, "already admitted"⟩
  else do
    validateForAdmit secrets prepared.attemptId
    return ⟨{ prepared with admitted := true }, maxProcesses, secrets⟩

/-! ## Start -/

/-- The entries that Gump itself provides. -/
def ownEnv (host : Host) (a : Admission) : OrdMap String String :=
  let env := OrdMap.empty.insert "GUMP_ATTEMPT_ID" (toHyphenated a.prepared.attemptId)
  let env := env.insert "GUMP_RELEASE_ROOT" a.prepared.releaseRoot
  let env := env.insert "GUMP_ATTEMPT_ROOT" a.prepared.attemptRoot
  let env := match a.maxProcesses with
    | some n => env.insert "GUMP_MAX_PROCESSES" (toString n)
    | none => env
  match host.path with
  | some path => env.insert "PATH" path
  | none => env

/-- The loop over the values for the environment. -/
def envValues : List SecretValue → OrdMap String String → Except DriverError (OrdMap String String)
  | [], env => .ok env
  | v :: rest, env =>
    match v.form with
    | .env =>
      match String.fromUTF8? ⟨v.bytes.toArray⟩ with
      | none => .error ⟨.policy, "env value not UTF-8 at start"⟩
      | some s => envValues rest (env.insert v.logicalName s)
    | .fd .. => envValues rest env

/-- The entries that refer to descriptors. -/
def referenceEnvs (fds : List PreparedFd) (env : OrdMap String String) : OrdMap String String :=
  fds.foldl (fun env f =>
    match f.referenceEnv with
    | some (name, value) => env.insert name value
    | none => env) env

/-- The table of the child after fork: the anonymous files are open, close-on-exec. -/
def forked (table : FdTable OpenFile) (fds : List PreparedFd) : FdTable OpenFile :=
  fds.foldl (fun t f => Function.update t f.srcFd (some ⟨f.file, true⟩)) table

/-- The duplications of the child, in the order of the plan. -/
def dups (fds : List PreparedFd) : List (Dup OpenFile) :=
  fds.map fun f => ⟨f.targetFd, f.srcFd, f.file⟩

/-- The environment before the entries that refer to descriptors. -/
def declaredEnv (host : Host) (a : Admission) : Except DriverError (OrdMap String String) :=
  if a.secrets.deferred then .ok (ownEnv host a) else envValues a.secrets.values (ownEnv host a)

/-- Fork, the duplications in the child, and exec. -/
def spawn (host : Host) (fds : List PreparedFd) (env : OrdMap String String) :
    Except DriverError Child :=
  match dupAll host.dup2Refuses (dups fds) (forked host.table fds) with
  | none => .error ⟨.start, "spawn failed: dup2"⟩
  | some table =>
    match host.spawn with
    | .error e => .error ⟨.start, s!"spawn failed: {e}"⟩
    | .ok () => .ok ⟨env, table.afterExec⟩

/-- `CommonDriver::start`. -/
def start (host : Host) (a : Admission) (fenceGeneration : Nat) : Except DriverError Child :=
  if !a.prepared.admitted then .error ⟨.state, "start without admission"⟩
  else do
    validateForStart a.secrets fenceGeneration
    host.revalidate a.prepared
    let env ← declaredEnv host a
    let fds ← prepareFds host.anonymousFile a.secrets
    spawn host fds (referenceEnvs fds env)

/-! ## Descriptors of the child -/

/-- What the operating system may answer: numbers from 3 on, another one for each file. -/
structure Host.Assigns (host : Host) : Prop where
  high : ∀ i fd, host.anonymousFile i = .ok fd → 3 ≤ fd
  distinct : ∀ i j fd, host.anonymousFile i = .ok fd → host.anonymousFile j = .ok fd → i = j

/-- The declared descriptors and the anonymous files of later values do not collide, and
no file is already where it shall be. -/
def NoCollision (host : Host) (plan : SecretPlan) : Prop :=
  ∀ i fd bytes, (fdValues plan.values)[i]? = some (fd, bytes) →
    host.anonymousFile i ≠ .ok fd ∧
      ∀ j fd' bytes', i < j → (fdValues plan.values)[j]? = some (fd', bytes') →
        fd ≠ fd' ∧ host.anonymousFile j ≠ .ok fd

/-- Each declared descriptor refers to its own file. -/
def OwnDescriptors (child : Child) (plan : SecretPlan) : Prop :=
  ∀ i fd bytes, (fdValues plan.values)[i]? = some (fd, bytes) →
    child.descriptor fd = some (.secret i bytes)

variable {fds : List PreparedFd}

theorem forked_of_ne {fd : Nat} (h : ∀ f ∈ fds, f.srcFd ≠ fd) :
    ∀ table : FdTable OpenFile, forked table fds fd = table fd := by
  induction fds with
  | nil => exact fun _ => rfl
  | cons f rest ih =>
    intro table
    rw [List.forall_mem_cons] at h
    rw [forked, List.foldl_cons, ← forked, ih h.2, Function.update_of_ne h.1.symm]

/-- Each anonymous file is open under its own number. -/
theorem forked_srcFd (hdistinct : fds.Pairwise fun f g => f.srcFd ≠ g.srcFd) :
    ∀ table : FdTable OpenFile, ∀ f ∈ fds, forked table fds f.srcFd = some ⟨f.file, true⟩ := by
  induction fds with
  | nil => nofun
  | cons f rest ih =>
    intro table g hg
    rw [List.pairwise_cons] at hdistinct
    rw [forked, List.foldl_cons, ← forked]
    rcases List.mem_cons.mp hg with rfl | hg
    · rw [forked_of_ne fun g' hg' => (hdistinct.1 g' hg').symm, Function.update_self]
    · exact ih hdistinct.2 _ g hg

/-- What a successful start has done. -/
theorem start_eq_ok {host : Host} {a : Admission} {fence : Nat} {child : Child}
    (h : start host a fence = .ok child) :
    ∃ env fds table, declaredEnv host a = .ok env ∧
      prepareFds host.anonymousFile a.secrets = .ok fds ∧
      dupAll host.dup2Refuses (dups fds) (forked host.table fds) = some table ∧
      child = ⟨referenceEnvs fds env, table.afterExec⟩ := by
  unfold start at h
  split_ifs at h
  obtain ⟨-, -, h⟩ := except_bind_eq_ok.mp h
  obtain ⟨-, -, h⟩ := except_bind_eq_ok.mp h
  obtain ⟨env, henv, h⟩ := except_bind_eq_ok.mp h
  obtain ⟨fds, hfds, h⟩ := except_bind_eq_ok.mp h
  unfold spawn at h
  split at h
  · cases h
  · rename_i table htable
    split at h
    · cases h
    · cases h
      exact ⟨env, fds, table, henv, hfds, htable, rfl⟩

variable {plan : SecretPlan}

/-- A deferred plan that was admitted has no values. -/
theorem values_of_deferred {attempt : AttemptId} (h : validateForAdmit plan attempt = .ok ())
    (hdeferred : plan.deferred = true) : plan.values = [] := by
  unfold validateForAdmit at h
  rw [if_pos hdeferred] at h
  split_ifs at h with hcarries
  exact not_not.mp (not_or.mp hcarries).1

/-- The prepared files of an admitted plan are those of its values for descriptors. -/
theorem prepareFds_spec {host : Host} {attempt : AttemptId}
    (hadmission : validateForAdmit plan attempt = .ok ())
    (h : prepareFds host.anonymousFile plan = .ok fds) :
    fds.length = (fdValues plan.values).length ∧ ∀ i f, fds[i]? = some f →
      ∃ bytes, (fdValues plan.values)[i]? = some (f.targetFd, bytes) ∧
        f.file = .secret i bytes ∧ host.anonymousFile i = .ok f.srcFd := by
  unfold prepareFds at h
  split_ifs at h with hdeferred
  · cases h
    rw [values_of_deferred hadmission hdeferred]
    exact ⟨rfl, nofun⟩
  · simpa only [Nat.zero_add] using prepareLoop_spec h

theorem admission_eq_ok {prepared : PreparedHandle} {grant : Option Nat} {a : Admission}
    (h : admission prepared grant plan = .ok a) :
    validateForAdmit plan prepared.attemptId = .ok () ∧ a.secrets = plan := by
  unfold admission at h
  split_ifs at h
  obtain ⟨hvalid, h⟩ := except_check_eq_ok.mp h
  cases h
  exact ⟨hvalid, rfl⟩

/-- In a started child every declared descriptor refers to the file of its own value,
across exec, exactly when the numbers of the files and the declared numbers do not
collide: the declared numbers differ, no file has its own declared number, and no
declared number is that of the file of a later value. -/
theorem own_descriptors_iff {host : Host} (hassigns : host.Assigns) {prepared : PreparedHandle}
    {grant : Option Nat} {plan : SecretPlan} {a : Admission} {fence : Nat} {child : Child}
    (hadmission : admission prepared grant plan = .ok a) (hstart : start host a fence = .ok child) :
    OwnDescriptors child plan ↔ NoCollision host plan := by
  obtain ⟨hvalid, rfl⟩ := admission_eq_ok hadmission
  obtain ⟨env, fds, table, -, hfds, htable, rfl⟩ := start_eq_ok hstart
  obtain ⟨hlength, hspec⟩ := prepareFds_spec hvalid hfds
  have hat : ∀ i (hi : i < fds.length), fds[i]? = some fds[i] := fun i hi =>
    List.getElem?_eq_getElem hi
  have hopen : Open (forked host.table fds) (dups fds) := by
    refine ⟨?_, ?_⟩
    · refine List.forall_mem_map.mpr (forked_srcFd ?_ host.table)
      refine List.pairwise_iff_getElem.mpr fun i j hi hj hij heq => ?_
      obtain ⟨-, -, -, hsrc⟩ := hspec i _ (hat i hi)
      obtain ⟨-, -, -, hsrc'⟩ := hspec j _ (hat j hj)
      exact Nat.ne_of_lt hij (hassigns.distinct i j _ hsrc (heq ▸ hsrc'))
    · refine List.pairwise_map.mpr (List.pairwise_iff_getElem.mpr fun i j hi hj hij heq => ?_)
      obtain ⟨bytes, -, hfile, -⟩ := hspec i _ (hat i hi)
      obtain ⟨bytes', -, hfile', -⟩ := hspec j _ (hat j hj)
      simp only [hfile, hfile', OpenFile.secret.injEq] at heq
      exact Nat.ne_of_lt hij heq.1
  have hvalue : ∀ {i fd bytes}, (fdValues a.secrets.values)[i]? = some (fd, bytes) →
      ∃ f, fds[i]? = some f ∧ f.targetFd = fd ∧ f.file = .secret i bytes ∧
        host.anonymousFile i = .ok f.srcFd := by
    intro i fd bytes hi
    have hlt : i < fds.length := hlength ▸ (List.getElem?_eq_some_iff.mp hi).1
    obtain ⟨bytes', hvalue, hfile, hsrc⟩ := hspec i _ (hat i hlt)
    rw [hi, Option.some.injEq, Prod.mk.injEq] at hvalue
    exact ⟨_, hat i hlt, hvalue.1.symm, hvalue.2 ▸ hfile, hsrc⟩
  have howned : OwnDescriptors ⟨referenceEnvs fds env, table.afterExec⟩ a.secrets ↔
      table.Inherited (dups fds) := by
    constructor
    · intro h
      refine List.forall_mem_map.mpr fun f hf => ?_
      obtain ⟨i, hi⟩ := List.mem_iff_getElem?.mp hf
      obtain ⟨bytes, hdeclared, hfile, -⟩ := hspec i f hi
      rw [hfile]
      exact h i _ bytes hdeclared
    · intro h i fd bytes hi
      obtain ⟨f, hf, rfl, hfile, -⟩ := hvalue hi
      rw [← hfile]
      exact List.forall_mem_map.mp h f (List.mem_of_getElem? hf)
  have hapart : NoCollision host a.secrets ↔ Apart (dups fds) := by
    rw [Apart, dups, List.forall_mem_map, List.pairwise_map, List.pairwise_iff_getElem]
    constructor
    · intro h
      refine ⟨fun f hf heq => ?_, fun i j hi hj hij => ?_⟩
      · obtain ⟨i, hi⟩ := List.mem_iff_getElem?.mp hf
        obtain ⟨bytes, hdeclared, -, hsrc⟩ := hspec i f hi
        exact (h i _ bytes hdeclared).1 (hsrc.trans (congrArg Except.ok heq))
      · obtain ⟨bytes, hdeclared, -, -⟩ := hspec i _ (hat i hi)
        obtain ⟨bytes', hdeclared', -, hsrc'⟩ := hspec j _ (hat j hj)
        have hlater := (h i _ bytes hdeclared).2 j _ bytes' hij hdeclared'
        exact ⟨hlater.1, fun heq => hlater.2 (hsrc'.trans (congrArg Except.ok heq.symm))⟩
    · rintro ⟨hself, hlater⟩ i fd bytes hi
      obtain ⟨f, hf, rfl, -, hsrc⟩ := hvalue hi
      refine ⟨fun heq => ?_, fun j fd' bytes' hij hj => ?_⟩
      · rw [hsrc, Except.ok.injEq] at heq
        exact hself f (List.mem_of_getElem? hf) heq
      · obtain ⟨g, hg, rfl, -, hsrc'⟩ := hvalue hj
        obtain ⟨hilt, rfl⟩ := List.getElem?_eq_some_iff.mp hf
        obtain ⟨hjlt, rfl⟩ := List.getElem?_eq_some_iff.mp hg
        have hapart := hlater i j hilt hjlt hij
        refine ⟨hapart.1, fun heq => ?_⟩
        rw [hsrc', Except.ok.injEq] at heq
        exact hapart.2 heq.symm
  rw [howned, hapart]
  exact inherited_iff hopen htable

/-! ## Samples -/

namespace Sample

def attempt : AttemptId := ⟨[1, 144, 0, 0, 0, 0, 112, 0, 128, 0, 0, 0, 0, 0, 0, 6], rfl⟩

def scope : DeliveryScope := ⟨attempt, attempt, attempt, 0, attempt, 1, 1, 1⟩

/-- Two values for descriptors. -/
def twoValues (fd fd' : Nat) : SecretPlan :=
  ⟨false, some scope, [⟨"A", .fd fd none .procPath, [97]⟩, ⟨"B", .fd fd' none .procPath, [98]⟩]⟩

def prepared : PreparedHandle :=
  ⟨attempt, "/attempt", "/release", ["/release/run"], "/release", false⟩

/-- A system that gives the anonymous files the numbers from 3 on. -/
def host : Host where
  revalidate _ := .ok ()
  path := some "/usr/bin"
  anonymousFile i := .ok (3 + i)
  table _ := none
  dup2Refuses _ _ := false
  spawn := .ok ()

theorem assigns_host : host.Assigns where
  high i fd h := by
    cases h
    exact Nat.le_add_right 3 i
  distinct i j fd h h' := by
    cases h
    exact (Nat.add_left_cancel (Except.ok.inj h')).symm

/-- The plan after admission. -/
def admitted (plan : SecretPlan) : Admission := ⟨{ prepared with admitted := true }, none, plan⟩

end Sample

/-- Declared numbers far from the chosen ones get their own files. -/
theorem high_descriptors_own :
    (start Sample.host (Sample.admitted (Sample.twoValues 40 41)) 1).isOk = true ∧
      ∀ child, start Sample.host (Sample.admitted (Sample.twoValues 40 41)) 1 = .ok child →
        OwnDescriptors child (Sample.twoValues 40 41) := by
  have hclear : NoCollision Sample.host (Sample.twoValues 40 41) := by
    have hchosen : ∀ i fd, Sample.host.anonymousFile i = .ok fd → fd = 3 + i := by
      rintro i _ ⟨⟩
      rfl
    rintro (_ | _ | i) fd bytes ⟨⟩
    · refine ⟨fun h => absurd (hchosen _ _ h) (by decide), ?_⟩
      rintro (_ | _ | j) fd' bytes' hlt ⟨⟩
      · cases hlt
      · exact ⟨by decide, fun h => absurd (hchosen _ _ h) (by decide)⟩
    · refine ⟨fun h => absurd (hchosen _ _ h) (by decide), ?_⟩
      rintro (_ | _ | j) fd' bytes' hlt ⟨⟩
      · cases hlt
      · exact absurd hlt (by decide)
  refine ⟨by decide +kernel, fun child hchild => ?_⟩
  have hadmission : admission Sample.prepared none (Sample.twoValues 40 41) =
      .ok (Sample.admitted (Sample.twoValues 40 41)) := rfl
  exact (own_descriptors_iff Sample.assigns_host hadmission hchild).mpr hclear

/-- The file of the second value is at the declared number of the first: both declared
descriptors read the first value. -/
theorem second_value_replaced :
    Sample.host.Assigns ∧
      (admission Sample.prepared none (Sample.twoValues 4 5)).isOk = true ∧
      ((start Sample.host (Sample.admitted (Sample.twoValues 4 5)) 1).toOption.map fun child =>
        (child.descriptor 4, child.descriptor 5)) =
          some (some (.secret 0 [97]), some (.secret 0 [97])) :=
  ⟨Sample.assigns_host, rfl, by decide +kernel⟩

end Gump.Driver
