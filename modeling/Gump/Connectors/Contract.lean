/-
  Connectors/Contract.lean --- what the clients of an object store rely on.

  The same client code runs against the store in memory and against a bucket.  The
  contract says, for each operation, what it leaves under the final keys and what a
  successful answer tells.  It does not say that the digest that a store reports
  for an object is the digest of its bytes: the store in memory computes it, a
  bucket keeps it as metadata beside the object.  Ingress is then followed on every
  store that keeps the contract.
-/
import Mathlib.Algebra.GroupWithZero.Nat
import Gump.Connectors.Accept

set_option autoImplicit false

namespace Gump.Connectors

open Gump.Foundation Gump.Memory Gump.Types Gump.Capsule Gump.Crypto

/-! ## The contract -/

/-- An object, with the digest that its store reports for it. -/
structure RecordedObject where
  bytes : List UInt8
  digest : Digest
  deriving DecidableEq, Repr

/-- `is_final_capsule_key`. -/
def ObjectKey.isFinal : ObjectKey → Bool
  | final _ _ => true
  | quarantine _ _ _ => false

/-- The bytes that a read covers. -/
def ByteRange.cut (bytes : List UInt8) : Option ByteRange → List UInt8
  | none => bytes
  | some range => slice bytes range.start (range.stop.getD bytes.length - range.start)

section Contract

variable {σ : Type}

/-- The objects under final keys are the same in both states. -/
def FinalsSame (object : σ → ObjectKey → Option RecordedObject) (s t : σ) : Prop :=
  ∀ key, key.isFinal = true → object t key = object s key

theorem FinalsSame.trans {object : σ → ObjectKey → Option RecordedObject} {s t u : σ}
    (hst : FinalsSame object s t) (htu : FinalsSame object t u) : FinalsSame object s u :=
  fun key hkey => (htu key hkey).trans (hst key hkey)

/-- What a publication leaves under its key.  An object that was there stays; on success
there is one that is reported with the given digest, a copy if the key was free. -/
structure Published (object : σ → ObjectKey → Option RecordedObject) (source key : ObjectKey)
    (digest : Digest) (s : σ) (r : StoreResult ObjectEvidence) (t : σ) : Prop where
  kept : ∀ o, object s key = some o → object t key = some o
  done : ∀ ev, r = .ok ev → ∃ o, object t key = some o ∧ o.digest = digest ∧
    (object s key = none → (object s source).map RecordedObject.bytes = some o.bytes)

/-- A store in which objects and open uploads can be observed. -/
structure ObjectStore.Contract [Blake3] (store : ObjectStore (StateM σ)) where
  object : σ → ObjectKey → Option RecordedObject
  /-- What was written to an open upload. -/
  upload : σ → Nat → Option (List UInt8)
  begins : ∀ s cluster capsule len, Ensures (store.beginQuarantine cluster capsule len) s
    fun r t => FinalsSame object s t ∧ ∀ id, r = .ok id → upload t id = some []
  writes : ∀ s id got chunk, upload s id = some got → Ensures (store.write id chunk) s
    fun r t => FinalsSame object s t ∧ ∀ progress, r = .ok progress →
      upload t id = some (got ++ chunk)
  /-- An upload is finished under a quarantine key, if its digest is the given one. -/
  finishes : ∀ s id got digest, upload s id = some got →
    Ensures (store.finishQuarantine id digest) s fun r t => FinalsSame object s t ∧
      ∀ ev, r = .ok ev → ev.key.isFinal = false ∧ Blake3.hash got = digest ∧
        (object t ev.key).map RecordedObject.bytes = some got
  aborts : ∀ s id, Ensures (store.abort id) s fun _ t => FinalsSame object s t
  publishes : ∀ s source key digest len, Ensures (store.publishIfAbsent source key digest len) s
    (Published object source key digest s)
  heads : ∀ s key, Ensures (store.head key) s fun r t => object t = object s ∧
    ∀ ev, r = .ok ev → (object s key).map RecordedObject.digest = some ev.digest
  /-- A reader that reports no fault reads the bytes of the object. -/
  reads : ∀ s key range, Ensures (store.getReader key range) s fun r t => object t = object s ∧
    ∀ stream, r = .ok stream → stream.fault = none →
      (object s key).map (fun o => ByteRange.cut o.bytes range) = some stream.bytes
  deletes : ∀ s key, key.isFinal = false →
    Ensures (store.delete key) s fun _ t => FinalsSame object s t

/-- A publication that fails leaves the final key as it was. -/
def ObjectStore.Contract.Atomic [Blake3] {store : ObjectStore (StateM σ)} (C : store.Contract) :
    Prop :=
  ∀ s source key digest len, Ensures (store.publishIfAbsent source key digest len) s
    fun r t => r.isOk = false → C.object t key = C.object s key

end Contract

/-! ## The store in memory -/

namespace FakeObjectStore

variable [Blake3]

/-- The objects as the store in memory reports them. -/
def recorded (s : FakeObjectStore) (key : ObjectKey) : Option RecordedObject :=
  (s.objects.get key).map fun o => ⟨o.bytes, o.digest⟩

variable {s : FakeObjectStore}

/-- The store in memory reports the digests of the bytes. -/
theorem recorded_digest {key : ObjectKey} {o : RecordedObject} (h : s.recorded key = some o) :
    Blake3.hash o.bytes = o.digest := by
  obtain ⟨stored, _, rfl⟩ := Option.map_eq_some_iff.mp h
  exact stored.digest_eq.symm

/-- The uploads of the store in memory that go to a quarantine key. -/
def uploading (s : FakeObjectStore) (id : Nat) : Option (List UInt8) :=
  ((s.uploads.get id).filter fun u => !u.quarantine.isFinal).map OpenUpload.data

theorem uploading_eq_some {id : Nat} {got : List UInt8} : s.uploading id = some got ↔
      ∃ u, s.uploads.get id = some u ∧ u.quarantine.isFinal = false ∧ u.data = got := by
  simp [uploading, Option.filter_eq_some_iff, and_assoc]

theorem finalsSame_of_objects {t : FakeObjectStore} (h : t.objects = s.objects) :
    FinalsSame recorded s t := fun key _ => by rw [recorded, h, recorded]

omit [Blake3] in
theorem ne_of_isFinal {key q : ObjectKey} (hkey : key.isFinal = true) (hq : q.isFinal = false) :
    key ≠ q := by
  rintro rfl
  rw [hkey] at hq
  cases hq

theorem copyIfAbsent_ensures (s : FakeObjectStore) (source key : ObjectKey) (digest : Digest)
    (len : Nat) :
    Ensures (copyIfAbsent source key digest len) s fun r t =>
      Published recorded source key digest s r t ∧
        (r.isOk = false → t.recorded key = s.recorded key) := by
  simp only [Ensures, StateT.run, copyIfAbsent]
  have hfailed : ∀ t : FakeObjectStore, t.objects = s.objects → ∀ e : ObjectStoreError,
      Published recorded source key digest s (.error e) t ∧
        ((.error e : StoreResult ObjectEvidence).isOk = false →
          t.recorded key = s.recorded key) := by
    intro t ht e
    have hsame : t.recorded key = s.recorded key := by rw [recorded, ht, recorded]
    exact ⟨⟨fun o ho => hsame.trans ho, fun _ h => by cases h⟩, fun _ => hsame⟩
  split
  · refine hfailed _ ?_ _
    rfl
  · split
    · exact hfailed _ rfl _
    · rename_i q hq
      split
      · exact hfailed _ rfl _
      · rename_i hevidence
        obtain ⟨hdigest, _⟩ := not_or.mp hevidence
        split
        · rename_i existing hkey
          split
          · rename_i hsame
            refine ⟨⟨fun _ h => h, fun _ _ => ?_⟩, fun _ => rfl⟩
            exact ⟨⟨existing.bytes, existing.digest⟩, by simp [recorded, hkey], hsame.1,
              fun hfree => by simp [recorded, hkey] at hfree⟩
          · exact hfailed _ rfl _
        · rename_i hkey
          refine ⟨⟨fun o ho => by simp [recorded, hkey] at ho, fun _ _ => ?_⟩, fun h => by cases h⟩
          exact ⟨⟨q.bytes, q.digest⟩, by simp [recorded], not_not.mp hdigest,
            fun _ => by simp [recorded, hq]⟩

theorem rangeOf_bytes {o : StoredObject} {range : Option ByteRange} {stream : ByteStream}
    (h : rangeOf o range = .ok stream) : ByteRange.cut o.bytes range = stream.bytes := by
  cases range with
  | none =>
    obtain rfl := Except.ok.inj h
    simp [ByteRange.cut, slice, o.length_eq]
  | some range =>
    simp only [rangeOf, o.length_eq] at h
    split at h
    · cases h
    · split at h
      · cases h
      · obtain rfl := Except.ok.inj h
        rfl

/-- The store in memory keeps the contract. -/
def contract : store.Contract where
  object := recorded
  upload := uploading
  begins s cluster capsule len := by
    simp only [Ensures, StateT.run, store, beginQuarantine]
    split
    · exact ⟨finalsSame_of_objects rfl, fun _ h => by cases h⟩
    · refine ⟨finalsSame_of_objects rfl, ?_⟩
      rintro _ ⟨⟩
      exact uploading_eq_some.mpr ⟨_, OrdMap.get_insert_self _ _ _, rfl, rfl⟩
  writes s id got chunk h := by
    obtain ⟨u, hu, hquarantine, rfl⟩ := uploading_eq_some.mp h
    simp only [Ensures, StateT.run, store, write, hu]
    split
    · exact ⟨finalsSame_of_objects rfl, fun _ h => by cases h⟩
    · split
      · exact ⟨finalsSame_of_objects rfl, fun _ h => by cases h⟩
      · refine ⟨finalsSame_of_objects rfl, ?_⟩
        rintro _ ⟨⟩
        exact uploading_eq_some.mpr ⟨_, OrdMap.get_insert_self _ _ _, hquarantine, rfl⟩
  finishes s id got digest h := by
    obtain ⟨u, hu, hquarantine, rfl⟩ := uploading_eq_some.mp h
    simp only [Ensures, StateT.run, store, finishQuarantine, hu]
    split
    · split
      · rename_i hdigest
        refine ⟨fun key hkey => ?_, ?_⟩
        · simp only [recorded, OrdMap.get_insert_of_ne _ _ (ne_of_isFinal hkey hquarantine)]
        · rintro _ ⟨⟩
          exact ⟨hquarantine, hdigest.symm, by simp [recorded]⟩
      · exact ⟨finalsSame_of_objects rfl, fun _ h => by cases h⟩
    · exact ⟨finalsSame_of_objects rfl, fun _ h => by cases h⟩
  aborts s id := by
    simp only [Ensures, StateT.run, store, abort]
    split <;> exact finalsSame_of_objects rfl
  publishes s source key digest len :=
    (copyIfAbsent_ensures s source key digest len).mono fun _ _ h => h.1
  heads s key := by
    simp only [Ensures, StateT.run, store, head]
    split
    · exact ⟨rfl, fun _ h => by cases h⟩
    · split
      · exact ⟨rfl, fun _ h => by cases h⟩
      · rename_i o ho
        refine ⟨rfl, ?_⟩
        rintro _ ⟨⟩
        simp [recorded, ho]
  reads s key range := by
    simp only [Ensures, StateT.run, store, getReader]
    split
    · exact ⟨rfl, fun _ h => by cases h⟩
    · rename_i o ho
      refine ⟨rfl, fun stream hstream _ => ?_⟩
      simp [recorded, ho, rangeOf_bytes hstream]
  deletes s q hq := by
    simp only [Ensures, StateT.run, store, delete]
    split
    · exact finalsSame_of_objects rfl
    · intro key hkey
      simp only [recorded, OrdMap.get_erase_of_ne _ (ne_of_isFinal hkey hq)]

end FakeObjectStore

/-! ## Ingress -/

namespace ObjectStore.Contract

variable [Blake3] {σ : Type} {store : ObjectStore (StateM σ)} (C : store.Contract) {s : σ}

/-- A body was received into an upload. -/
def Collected (id : Nat) (body : List UInt8) (s : σ) (r : Except IngressError (List UInt8 × Nat))
    (t : σ) : Prop :=
  FinalsSame C.object s t ∧ ∀ received, r = .ok received →
    received.1 = body ∧ C.upload t id = some received.1

/-- A stream that is received to its end is what the upload holds. -/
theorem receive_ensures (id len : Nat) (fault : Option String) :
    ∀ (chunks : List (List UInt8)) (got : List UInt8) (peak : Nat) (s : σ),
      C.upload s id = some got →
      Ensures (receive store id len fault chunks got peak) s
        (C.Collected id (got ++ (arriving chunks).flatten) s)
  | [], got, peak, s, hupload => by
    cases fault with
    | none =>
      refine .pure ⟨fun _ _ => rfl, ?_⟩
      rintro _ ⟨⟩
      exact ⟨by simp, hupload⟩
    | some e => exact .pure ⟨fun _ _ => rfl, fun _ h => by cases h⟩
  | chunk :: rest, got, peak, s, hupload => by
    have habort : ∀ (t : σ) (e : IngressError), FinalsSame C.object s t →
        Ensures (abortWith store id e) t
          (C.Collected id (got ++ (arriving (chunk :: rest)).flatten) s) := by
      intro t e hsame
      exact .seq (C.aborts t id) fun _ u hu =>
        .pure ⟨hsame.trans hu, fun _ h => by cases h⟩
    unfold receive
    split
    · rename_i hempty
      refine .pure ⟨fun _ _ => rfl, ?_⟩
      rintro _ ⟨⟩
      exact ⟨by simp [hempty], hupload⟩
    · rename_i hne
      simp only
      split
      · exact habort s _ fun _ _ => rfl
      · refine .seq (C.writes s id got chunk hupload) fun r t ⟨hsame, hwritten⟩ => ?_
        cases r with
        | error e => exact habort t _ hsame
        | ok progress =>
          refine (receive_ensures id len fault rest (got ++ chunk) (max peak chunk.length) t
            (hwritten _ rfl)).mono fun r u ⟨hrest, hreceived⟩ => ?_
          refine ⟨hsame.trans hrest, fun received h => ?_⟩
          rw [arriving_cons hne, List.flatten_cons, ← List.append_assoc]
          exact hreceived received h

variable [Crc32] [Ed25519]

/-- What a call leaves that returns `r` for a body. -/
structure Received (c : IngressCall) (body : List UInt8) (s : σ)
    (r : Checked IngressError IngressReceipt) (t : σ) : Prop where
  kept : ∀ o, C.object s (finalCapsuleKey c.cluster c.capsule) = some o →
    C.object t (finalCapsuleKey c.cluster c.capsule) = some o
  failed : C.Atomic → r.isOk = false →
    C.object t (finalCapsuleKey c.cluster c.capsule) =
      C.object s (finalCapsuleKey c.cluster c.capsule)
  accepted : ∀ receipt, r = .ok receipt → receipt.stats.digest = Blake3.hash body ∧
    (∃ inspected, c.verdict body = .ok inspected) ∧
    ∃ o, C.object t (finalCapsuleKey c.cluster c.capsule) = some o ∧
      o.digest = Blake3.hash body ∧
      (C.object s (finalCapsuleKey c.cluster c.capsule) = none → o.bytes = body)

variable {C}

variable {body : List UInt8}

theorem received_of_error {c : IngressCall} {t : σ} {halt : Halt IngressError}
    (h : FinalsSame C.object s t) : C.Received c body s (.error halt) t where
  kept o ho := (h _ rfl).trans ho
  failed _ _ := h _ rfl
  accepted _ hreceipt := by cases hreceipt

/-- Steps before and after a call that leave the final keys. -/
theorem Received.between {c : IngressCall} {s₀ t t' : σ} {r : Checked IngressError IngressReceipt}
    (h : C.Received c body s r t) (hbefore : FinalsSame C.object s₀ s)
    (hafter : FinalsSame C.object t t') : C.Received c body s₀ r t' := by
  have hs := hbefore (finalCapsuleKey c.cluster c.capsule) rfl
  have ht := hafter (finalCapsuleKey c.cluster c.capsule) rfl
  refine ⟨?_, ?_, ?_⟩
  · rw [← hs, ht]
    exact h.kept
  · rw [← hs, ht]
    exact h.failed
  · rw [← hs, ht]
    exact h.accepted

variable (C)

/-- A body in quarantine is checked and published. -/
theorem promote_ensures (c : IngressCall) {q : ObjectKey} (hkey : q.isFinal = false)
    (hq : (C.object s q).map RecordedObject.bytes = some body) (received peak : Nat) :
    Ensures (c.promote store q (Blake3.hash body) received peak) s (C.Received c body s) := by
  refine .seq (C.reads s q none) fun r t ⟨hobjects, hread⟩ => ?_
  have hsame : FinalsSame C.object s t := fun key _ => congrFun hobjects key
  have hfinal := hsame (finalCapsuleKey c.cluster c.capsule) rfl
  cases r with
  | error e => exact .pure (received_of_error hsame)
  | ok stream =>
    simp only
    cases hverdict : c.inspect stream with
    | error refusal =>
      simp only
      split
      · exact .seq (C.deletes t q hkey) fun _ u hu =>
          .pure (received_of_error (hsame.trans hu))
      · exact .pure (received_of_error hsame)
    | ok inspected =>
      -- the checks read the stream to its end, so it is the body
      have hfault := fault_of_verify (IngressCall.passes_of_inspect hverdict).framed
      have hbytes : stream.bytes = body := by
        have h := hread stream rfl hfault
        exact Option.some.inj (h.symm.trans hq)
      have hstream : stream = ⟨body, none⟩ := by
        rw [← hbytes, ← hfault]
      have hundone : Ensures (store.publishIfAbsent q (finalCapsuleKey c.cluster c.capsule)
          (Blake3.hash body) received) t fun r u => C.Atomic → r.isOk = false →
            C.object u (finalCapsuleKey c.cluster c.capsule) =
              C.object t (finalCapsuleKey c.cluster c.capsule) :=
        fun hatomic => hatomic t q _ (Blake3.hash body) received
      refine .seq ((C.publishes t q _ (Blake3.hash body) received).and hundone)
        fun r u ⟨⟨hkept, hpublished⟩, hleft⟩ => ?_
      cases r with
      | error e =>
        exact .pure ⟨fun o ho => hkept o (hfinal.trans ho),
          fun hatomic _ => (hleft hatomic rfl).trans hfinal, fun _ h => by cases h⟩
      | ok ev =>
        refine .seq (C.deletes u q hkey) fun _ v hv => .pure ⟨fun o ho => ?_, ?_, ?_⟩
        · exact (hv _ rfl).trans (hkept o (hfinal.trans ho))
        · intro _ h
          cases h
        · rintro _ ⟨⟩
          obtain ⟨o, ho, hdigest, hcopy⟩ := hpublished ev rfl
          refine ⟨rfl, ⟨inspected, by rw [IngressCall.verdict, ← hstream, hverdict]⟩, o,
            (hv _ rfl).trans ho, hdigest, ?_⟩
          intro hfree
          have hbody := hcopy (hfinal.trans hfree)
          rw [hobjects, hq] at hbody
          exact (Option.some.inj hbody).symm

theorem accept_ensures (c : IngressCall) (reads : Reads) (s : σ) :
    Ensures (c.acceptKnownLength store reads) s (C.Received c reads.body s) := by
  unfold IngressCall.acceptKnownLength
  split
  · exact .pure (received_of_error fun _ _ => rfl)
  split
  · exact .pure (received_of_error fun _ _ => rfl)
  refine .seq (C.begins s _ _ _) fun r t hbegins => ?_
  obtain ⟨hbegun, hopen⟩ := hbegins
  cases r with
  | error e => exact .pure (received_of_error hbegun)
  | ok upload =>
    refine .seq (C.receive_ensures upload _ _ _ [] 0 t (hopen _ rfl)) fun r u hreceives => ?_
    obtain ⟨hsame, hreceived⟩ := hreceives
    have hbefore := hbegun.trans hsame
    cases r with
    | error e => exact .pure (received_of_error hbefore)
    | ok received =>
      obtain ⟨hbody, hupload⟩ := hreceived _ rfl
      obtain ⟨body, peak⟩ := received
      obtain rfl : body = reads.body := hbody
      simp only [IngressCall.conclude]
      split
      · refine .bind (.seq (C.aborts u upload) fun _ v hv => ?_)
        exact .pure (.pure (received_of_error (hbefore.trans hv)))
      · refine .seq (C.finishes u upload _ (Blake3.hash reads.body) hupload)
          fun r v hfinishes => ?_
        obtain ⟨hfinished, hquarantined⟩ := hfinishes
        cases r with
        | error e => exact .pure (received_of_error (hbefore.trans hfinished))
        | ok q =>
          obtain ⟨hkey, _, hq⟩ := hquarantined q rfl
          exact (C.promote_ensures c hkey hq _ peak).mono fun _ _ h =>
            h.between (hbefore.trans hfinished) fun _ _ => rfl

end ObjectStore.Contract

end Gump.Connectors
