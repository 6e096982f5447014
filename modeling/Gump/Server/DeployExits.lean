/-
  Server/DeployExits.lean --- how a verified deployment ends.

  On any store a deployment stops before its write and reports nothing, or it makes
  its one replicated write and the reply decides.  On a store that keeps its
  contract the final key is free, or it has a Capsule with the digest of the body
  from the time on that ingress accepts it.
-/
import Mathlib.Algebra.GroupWithZero.Nat
import Gump.Connectors.Contract
import Gump.Server.DeployTxn

set_option autoImplicit false

namespace Gump.Server

open Gump.Foundation Gump.Types Gump.Memory Gump.Crypto Gump.Connectors
open Gump.Capsule (SegmentType Crc32 CapsuleDialectError verify)

/-! ## Any store -/

section AnyStore

variable {σ α : Type}

theorem onStore_run {op : StateM σ α} {w : DeployWorld σ} {a : α} {t : σ}
    (h : op.run w.store = (a, t)) : (onStore op).run w = (a, { w with store := t }) := by
  change ((op.run w.store).1, { w with store := (op.run w.store).2 }) = _
  rw [h]

/-- A binding is always encoded. -/
theorem binding_encodes [SerdeJson] (b : DesiredCapsuleBinding) :
    ∃ payload, SerdeJson.toVec b.serialize = .ok payload := by
  have hok : (SerdeJson.toVec b.serialize).isOk = true := (SerdeJson.ok_iff _).mpr rfl
  cases hvec : SerdeJson.toVec b.serialize with
  | ok payload => exact ⟨payload, rfl⟩
  | error e =>
    rw [hvec] at hok
    cases hok

/-- An outcome that failed without an orphan. -/
def FailsPlainly (outcome : DeployTxnOutcome) : Prop :=
  ∃ phase reason, outcome = .failed phase reason none

/-- What a publication returns: the locator of the final key, or a failed outcome. -/
def PublishesAs (req : DeployTxnRequest) : Except DeployTxnOutcome ObjectLocator → Prop
  | .ok object => object = locatorOf req.key
  | .error outcome => FailsPlainly outcome

theorem publishCapsule_returns (store : ObjectStore (StateM σ)) (req : DeployTxnRequest) (s : σ) :
    Ensures (publishCapsule store req) s fun r _ => PublishesAs req r := by
  have hfailed : ∀ phase reason (t : σ), Ensures (pure (.error (.failed phase reason none)))
      t fun r _ => PublishesAs req r := fun phase reason t => .pure ⟨phase, reason, rfl⟩
  have hok : ∀ t : σ, Ensures (pure (.ok (locatorOf req.key))) t fun r _ => PublishesAs req r :=
    fun t => .pure rfl
  refine .next fun head t => ?_
  cases head with
  | ok ev =>
    simp only
    split
    · exact hok t
    · exact hfailed _ _ t
  | error _ =>
    cases req.capsuleBytes with
    | none => exact hfailed _ _ t
    | some bytes =>
      refine .next fun begun t => ?_
      cases begun with
      | error e => exact hfailed _ _ t
      | ok upload =>
        refine .next fun wrote t => ?_
        cases wrote with
        | error e => exact .next fun _ t => hfailed _ _ t
        | ok _ =>
          refine .next fun finished t => ?_
          cases finished with
          | error e => exact hfailed _ _ t
          | ok quarantine =>
            refine .next fun published t => ?_
            cases published with
            | ok _ => exact hok t
            | error e =>
              simp only
              split
              · refine .next fun found t => ?_
                cases found with
                | error _ => exact hfailed _ _ t
                | ok ev =>
                  simp only
                  split
                  · exact hok t
                  · exact hfailed _ _ t
              · exact hfailed _ _ t

variable [Blake3] [Crc32] [Ed25519] [ReleaseCodec]

/-- Ingress accepts the body of a deployment on a store. -/
def DeployCall.accepts (store : ObjectStore (StateM σ)) (call : DeployCall) (reads : Reads)
    (s : σ) : Bool :=
  ((call.ingress.acceptKnownLength store reads).run s).1.isOk

/-- The steps of a deployment on a store up to its write, and whether they all
succeed. -/
def DeployCall.prepare (store : ObjectStore (StateM σ)) (call : DeployCall) (reads : Reads) :
    StateM σ Bool := do
  match ← call.ingress.acceptKnownLength store reads with
  | .error _ => pure false
  | .ok receipt =>
    if receipt.stats.digest ≠ call.req.contentDigest then pure false
    else do
      match ← verifyRequestedApplication store call.req with
      | .error _ => pure false
      | .ok () => do
        match ← publishCapsule store call.req with
        | .error _ => pure false
        | .ok _ => pure true

/-- A deployment on a store comes to its write. -/
def DeployCall.publishes (store : ObjectStore (StateM σ)) (call : DeployCall) (reads : Reads)
    (s : σ) : Bool :=
  ((call.prepare store reads).run s).1

variable [SerdeJson]

/-- How a verified deployment ends on any store. -/
inductive Concluded (store : ObjectStore (StateM σ)) (fate : WriteFate) (call : DeployCall)
    (reads : Reads) (w : DeployWorld σ) : DeployResult → DeployWorld σ → Prop
  | stopped (r : DeployResult) (t : σ)
      (hprepared : (call.prepare store reads).run w.store = (false, t))
      (hfails : ∀ ended, r = .ok ended → FailsPlainly ended.1 ∧ ended.2 = []) :
      Concluded store fate call reads w r { w with store := t }
  | written (payload : List UInt8) (t : σ)
      (hprepared : (call.prepare store reads).run w.store = (true, t))
      (hpayload : SerdeJson.toVec call.req.binding.serialize = .ok payload) :
      Concluded store fate call reads w
        (.ok (call.req.settle (locatorOf call.req.key)
          (fate.reply (call.req.command payload) w.cluster)))
        ⟨t, fate.left (call.req.command payload) w.cluster⟩

theorem runVerifiedDeployReader_concludes (store : ObjectStore (StateM σ)) (fate : WriteFate)
    (call : DeployCall) (reads : Reads) (w : DeployWorld σ) :
    Concluded store fate call reads w
      ((runVerifiedDeployReader store fate call reads).run w).1
      ((runVerifiedDeployReader store fate call reads).run w).2 := by
  have hplain : ∀ phase reason ended,
      (.ok (.failed phase reason none, []) : DeployResult) = .ok ended →
        FailsPlainly ended.1 ∧ ended.2 = [] := by
    rintro phase reason _ ⟨⟩
    exact ⟨⟨phase, reason, rfl⟩, rfl⟩
  obtain ⟨⟨received, t⟩, hreceive⟩ : ∃ ended,
      (call.ingress.acceptKnownLength store reads).run w.store = ended := ⟨_, rfl⟩
  have hprepare : (call.prepare store reads).run w.store = _ := stateM_run_bind hreceive
  rw [runVerifiedDeployReader, stateM_run_bind (onStore_run hreceive)]
  cases received with
  | error halt =>
    cases halt with
    | panic message => exact .stopped _ t hprepare fun _ h => by cases h
    | error e => exact .stopped _ t hprepare (hplain _ _)
  | ok receipt =>
    simp only at hprepare ⊢
    split
    · rename_i hdiffers
      rw [if_pos hdiffers] at hprepare
      exact .stopped _ t hprepare (hplain _ _)
    · rename_i hsame
      obtain ⟨⟨checked, t'⟩, hcheck⟩ : ∃ ended,
          (verifyRequestedApplication store call.req).run t = ended := ⟨_, rfl⟩
      rw [if_neg hsame, stateM_run_bind hcheck] at hprepare
      rw [stateM_run_bind (onStore_run (w := { w with store := t }) hcheck)]
      cases checked with
      | error halt =>
        cases halt with
        | panic message => exact .stopped _ t' hprepare fun _ h => by cases h
        | error e => exact .stopped _ t' hprepare (hplain _ _)
      | ok _ =>
        have hreturns := publishCapsule_returns store call.req t'
        obtain ⟨⟨published, t''⟩, hpublish⟩ : ∃ ended,
            (publishCapsule store call.req).run t' = ended := ⟨_, rfl⟩
        obtain ⟨payload, hpayload⟩ := binding_encodes call.req.binding
        have hrun := onStore_run (w := { w with store := t' }) hpublish
        rw [Ensures, hpublish] at hreturns
        simp only at hprepare ⊢
        rw [stateM_run_bind hpublish] at hprepare
        rw [runDeployTxn, bind_assoc, stateM_run_bind hrun]
        cases published with
        | error outcome =>
          refine .stopped _ t'' hprepare ?_
          rintro _ ⟨⟩
          exact ⟨hreturns, rfl⟩
        | ok object =>
          obtain rfl : object = _ := hreturns
          simp only [hpayload]
          exact .written payload t'' hprepare hpayload

end AnyStore

/-! ## Stores that keep their contract -/

section Metadata

variable [Blake3] [Crc32] [ReleaseCodec]

/-- The release metadata in the bytes of a Capsule. -/
def metadataOf (bytes : List UInt8) : Option ReleaseMetadata :=
  match verify ⟨bytes, none⟩ with
  | .error _ => none
  | .ok capsuleMeta =>
    match capsuleMeta.table.descriptors.find? fun d => d.segmentType = .publicMetadata with
    | none => none
    | some d =>
      (ReleaseCodec.decode (ByteRange.cut bytes (some (segmentRange capsuleMeta d)))).toOption

/-- The signed metadata of a Capsule name an application. -/
def NamesApplication (bytes : List UInt8) (ns app : String) : Prop :=
  ∃ release, metadataOf bytes = some release ∧ release.application = some ⟨ns, app⟩

end Metadata

section Contract

variable [Blake3] {σ : Type} {store : ObjectStore (StateM σ)} (C : store.Contract)

/-- A buffered read gives the bytes of the object. -/
theorem get_ensures (s : σ) (key : ObjectKey) (range : Option ByteRange) :
    Ensures (store.get key range) s fun r t => C.object t = C.object s ∧
      ∀ bytes, r = .ok bytes →
        (C.object s key).map (fun o => ByteRange.cut o.bytes range) = some bytes := by
  refine .seq (C.reads s key range) fun r t ⟨hobjects, hread⟩ => ?_
  cases r with
  | error e => exact .pure ⟨hobjects, fun _ h => by cases h⟩
  | ok stream =>
    obtain ⟨bytes, fault⟩ := stream
    cases fault with
    | some e => exact .pure ⟨hobjects, fun _ h => by cases h⟩
    | none =>
      refine .pure ⟨hobjects, ?_⟩
      rintro _ ⟨⟩
      exact hread _ rfl rfl

/-- Publishing again leaves the object at the final key. -/
theorem publishCapsule_keeps (req : DeployTxnRequest) {s : σ} {o : RecordedObject}
    (ho : C.object s req.key = some o) :
    Ensures (publishCapsule store req) s fun _ t => C.object t req.key = some o := by
  refine .seq (C.heads s req.key) fun head t ⟨hobjects, _⟩ => ?_
  have ht : C.object t req.key = some o := (congrFun hobjects _).trans ho
  cases head with
  | ok ev =>
    simp only
    split <;> exact .pure ht
  | error _ =>
    cases req.capsuleBytes with
    | none => exact .pure ht
    | some bytes =>
      refine .seq (C.begins t _ _ _) fun begun u ⟨hbegun, hopen⟩ => ?_
      have hu : C.object u req.key = some o := (hbegun _ rfl).trans ht
      cases begun with
      | error e => exact .pure hu
      | ok upload =>
        refine .seq (C.writes u upload [] bytes (hopen _ rfl)) fun wrote v ⟨hsame, hgot⟩ => ?_
        have hv : C.object v req.key = some o := (hsame _ rfl).trans hu
        cases wrote with
        | error e =>
          exact .seq (C.aborts v upload) fun _ _ h => .pure ((h _ rfl).trans hv)
        | ok _ =>
          refine .seq (C.finishes v upload bytes req.contentDigest (hgot _ rfl))
            fun finished x ⟨hfinished, _⟩ => ?_
          have hx : C.object x req.key = some o := (hfinished _ rfl).trans hv
          cases finished with
          | error e => exact .pure hx
          | ok quarantine =>
            refine .seq (C.publishes x quarantine.key req.key req.contentDigest
              bytes.length) fun published y ⟨hkept, _⟩ => ?_
            have hy := hkept o hx
            cases published with
            | ok _ => exact .pure hy
            | error e =>
              simp only
              split
              · refine .seq (C.heads y req.key) fun found z ⟨hlast, _⟩ => ?_
                have hz : C.object z req.key = some o := (congrFun hlast _).trans hy
                cases found with
                | error _ => exact .pure hz
                | ok ev =>
                  simp only
                  split <;> exact .pure hz
              · exact .pure hy

variable [Crc32] [ReleaseCodec]

/-- The application check passes for a Capsule that names the application. -/
theorem verifyRequestedApplication_ensures (req : DeployTxnRequest) (s : σ) :
    Ensures (verifyRequestedApplication store req) s fun r t => C.object t = C.object s ∧
      (r = .ok () → ∀ o, C.object s req.key = some o →
        NamesApplication o.bytes req.ns req.app) := by
  refine .seq (C.reads s req.key none) fun r t ⟨hobjects, hread⟩ => ?_
  cases r with
  | error e => exact .pure ⟨hobjects, fun h => by cases h⟩
  | ok stream =>
    simp only
    cases hverify : verify stream with
    | error halt => exact .pure ⟨hobjects, fun h => by cases h⟩
    | ok capsuleMeta =>
      simp only
      cases hfind : capsuleMeta.table.descriptors.find?
          fun d => d.segmentType = .publicMetadata with
      | none => exact .pure ⟨hobjects, fun h => by cases h⟩
      | some d =>
        refine .seq (get_ensures C t req.key (some (segmentRange capsuleMeta d)))
          fun r u ⟨hsame, hcut⟩ => ?_
        have hu : C.object u = C.object s := hsame.trans hobjects
        cases r with
        | error e => exact .pure ⟨hu, fun h => by cases h⟩
        | ok bytes =>
          simp only
          cases hdecode : ReleaseCodec.decode bytes with
          | error e => exact .pure ⟨hu, fun h => by cases h⟩
          | ok release =>
            refine .pure ⟨hu, fun h o ho => ?_⟩
            have hmatch : matchApplication req.ns req.app release.application = .ok () := by
              cases hm : matchApplication req.ns req.app release.application with
              | error e =>
                rw [hm] at h
                cases h
              | ok _ => rfl
            refine ⟨release, ?_, matchApplication_eq_ok_iff.mp hmatch⟩
            -- the check read the stream to its end, so it is the object
            have hfault := Capsule.fault_of_verify hverify
            have hwhole := hread stream rfl hfault
            have hrange := hcut bytes rfl
            rw [ho] at hwhole
            rw [hobjects, ho, Option.map_some] at hrange
            have hstream : stream = ⟨o.bytes, none⟩ := by
              rw [← hfault]
              exact congrArg (ByteStream.mk · stream.fault) (Option.some.inj hwhole).symm
            rw [metadataOf, ← hstream, hverify]
            simp only [hfind]
            rw [Option.some.inj hrange, hdecode]
            rfl

variable [Ed25519]

/-- What the steps of a deployment leave at its final key, if they start on the
store `s` and end on `t`, and come to the write or not. -/
structure Prepared (call : DeployCall) (reads : Reads) (s : σ) (published : Bool) (t : σ) :
    Prop where
  refused : call.accepts store reads s = false → C.Atomic →
    C.object t call.req.key = C.object s call.req.key
  accepted : call.accepts store reads s = true →
    (∃ inspected, call.ingress.verdict reads.body = .ok inspected) ∧
    ∃ o, C.object t call.req.key = some o ∧ o.digest = Blake3.hash reads.body ∧
      (C.object s call.req.key = none → o.bytes = reads.body) ∧
      ∀ old, C.object s call.req.key = some old → o = old
  written : published = true → call.accepts store reads s = true ∧
    Blake3.hash reads.body = call.req.contentDigest ∧
    ∀ o, C.object t call.req.key = some o → NamesApplication o.bytes call.req.ns call.req.app

theorem prepare_ensures (call : DeployCall) (reads : Reads) (s : σ) :
    Ensures (call.prepare store reads) s (Prepared C call reads s) := by
  refine .seq ((C.accept_ensures call.ingress reads s).and .self) fun r t ⟨hreceived, hrun⟩ => ?_
  have haccepts : call.accepts store reads s = r.isOk := by rw [DeployCall.accepts, hrun]
  cases r with
  | error halt =>
    refine .pure ⟨fun _ hatomic => hreceived.failed hatomic rfl, fun h => ?_, fun h => ?_⟩
    · cases haccepts.symm.trans h
    · cases h
  | ok receipt =>
    obtain ⟨hdigest, hverdict, o, ho, hhash, hcopy⟩ := hreceived.accepted receipt rfl
    have hold : ∀ old, C.object s call.req.key = some old → o = old :=
      fun old h => Option.some.inj (ho.symm.trans (hreceived.kept old h))
    -- from here on the object stays
    have hleaves : ∀ (published : Bool) (u : σ), C.object u call.req.key = some o →
        (published = true → Blake3.hash reads.body = call.req.contentDigest ∧
          NamesApplication o.bytes call.req.ns call.req.app) →
        Prepared C call reads s published u := by
      intro published u hu hwritten
      refine ⟨fun h => ?_, fun _ => ⟨hverdict, o, hu, hhash, hcopy, hold⟩, fun h => ?_⟩
      · cases haccepts.symm.trans h
      · refine ⟨haccepts, (hwritten h).1, fun o' ho' => ?_⟩
        obtain rfl := Option.some.inj (hu.symm.trans ho')
        exact (hwritten h).2
    simp only
    split
    · exact .pure (hleaves false t ho fun h => by cases h)
    · rename_i hsame
      refine .seq (verifyRequestedApplication_ensures C call.req t)
        fun checked u ⟨hobjects, hnames⟩ => ?_
      have hu : C.object u call.req.key = some o := (congrFun hobjects _).trans ho
      cases checked with
      | error halt => exact .pure (hleaves false u hu fun h => by cases h)
      | ok _ =>
        refine .seq (publishCapsule_keeps C call.req hu) fun published v hv => ?_
        cases published with
        | error outcome => exact .pure (hleaves false v hv fun h => by cases h)
        | ok object =>
          exact .pure (hleaves true v hv fun _ =>
            ⟨hdigest.symm.trans (not_not.mp hsame), hnames rfl o ho⟩)

end Contract

end Gump.Server
