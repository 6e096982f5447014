/-
  Connectors/Accept.lean --- what ingress does to the store in memory.

  A call of `acceptKnownLength` has some fifteen exits.  `Ended` lists them by what
  they leave in the store, each with the condition under which it is taken; every
  call ends in one of them.
-/
import Mathlib.Algebra.GroupWithZero.Nat
import Gump.Connectors.Fake
import Gump.Connectors.Ingress
import Gump.Foundation.Effects

set_option autoImplicit false

namespace Gump.Connectors

open Gump.Foundation Gump.Memory Gump.Types Gump.Capsule Gump.Crypto

/-! ## The body -/

/-- What arrives before the source ends: an empty chunk is the end of it. -/
def arriving (chunks : List (List UInt8)) : List (List UInt8) :=
  chunks.takeWhile (fun chunk => decide (chunk ≠ []))

@[simp] theorem arriving_nil : arriving [] = [] := rfl

@[simp] theorem arriving_cons_nil (rest : List (List UInt8)) : arriving ([] :: rest) = [] := rfl

theorem arriving_cons {chunk : List UInt8} (h : chunk ≠ []) (rest : List (List UInt8)) :
    arriving (chunk :: rest) = chunk :: arriving rest := by
  simp [arriving, h]

/-- The bytes that arrive. -/
def Reads.body (reads : Reads) : List UInt8 := (arriving reads.chunks).flatten

/-- The fault that ends the stream, if the source did not end before it. -/
def faultAfter (fault : Option String) (chunks : List (List UInt8)) : Option String :=
  if [] ∈ chunks then none else fault

@[simp] theorem faultAfter_nil (fault : Option String) : faultAfter fault [] = fault := rfl

@[simp] theorem faultAfter_cons_nil (fault : Option String) (rest : List (List UInt8)) :
    faultAfter fault ([] :: rest) = none := by
  simp [faultAfter]

theorem faultAfter_cons {chunk : List UInt8} (h : chunk ≠ []) (fault : Option String)
    (rest : List (List UInt8)) : faultAfter fault (chunk :: rest) = faultAfter fault rest := by
  simp [faultAfter, Ne.symm h]

/-- The fault that ends the stream. -/
def Reads.interruption (reads : Reads) : Option String := faultAfter reads.fault reads.chunks

namespace FakeObjectStore

variable [Blake3]

/-- The store with an upload open. -/
def opened (s : FakeObjectStore) (id : Nat) (upload : OpenUpload) : FakeObjectStore :=
  { s with uploads := s.uploads.insert id upload }

/-- The store with an upload closed. -/
def closed (s : FakeObjectStore) (id : Nat) : FakeObjectStore :=
  { s with uploads := s.uploads.erase id }

/-- The store once the number of the next upload is given out. -/
def numbered (s : FakeObjectStore) : FakeObjectStore := { s with nextUpload := s.nextId }

/-- Whether every chunk is written to an upload of a length after the bytes `got`. -/
def Takes (s : FakeObjectStore) (len : Nat) (got : List UInt8) (chunks : List (List UInt8)) :
    Prop :=
  (s.faults.failNextWrite = true → arriving chunks = []) ∧
    got.length + (arriving chunks).flatten.length ≤ len

instance (s : FakeObjectStore) (len : Nat) (got : List UInt8) (chunks : List (List UInt8)) :
    Decidable (s.Takes len got chunks) := by
  unfold Takes
  infer_instance

variable {s : FakeObjectStore}

theorem takes_cons {len : Nat} {got chunk : List UInt8} {rest : List (List UInt8)}
    (hne : chunk ≠ []) : s.Takes len got (chunk :: rest) ↔
      s.faults.failNextWrite = false ∧ got.length + chunk.length ≤ len ∧
        s.Takes len (got ++ chunk) rest := by
  simp only [Takes, arriving_cons hne, List.flatten_cons, List.length_append, reduceCtorEq,
    imp_false, Bool.not_eq_true]
  constructor
  · rintro ⟨hfault, hlen⟩
    exact ⟨hfault, by omega, by simp [hfault], by omega⟩
  · rintro ⟨hfault, _, _, hlen⟩
    exact ⟨hfault, by omega⟩

/-! ## Receiving -/

section Receive

variable {s : FakeObjectStore} {n len : Nat} {q : ObjectKey}

theorem abortWith_run {α : Type} (upload : OpenUpload) (e : IngressError) :
    (abortWith store n e : StateM FakeObjectStore (Except IngressError α)).run
        (s.opened n upload) = (.error e, s.closed n) := by
  have habort : (store.abort n).run (s.opened n upload) = (.ok (), s.closed n) := by
    change abort n (s.opened n upload) = _
    simp [abort, opened, closed]
  rw [abortWith, stateM_run_bind habort]
  rfl

/-- A chunk that fits is written. -/
theorem write_run {got chunk : List UInt8} (hfault : s.faults.failNextWrite = false)
    (hfits : got.length + chunk.length ≤ len) :
    (store.write n chunk).run (s.opened n ⟨len, got, q⟩) =
      (.ok ⟨(got ++ chunk).length, len⟩, s.opened n ⟨len, got ++ chunk, q⟩) := by
  change write n chunk (s.opened n ⟨len, got, q⟩) = _
  simp [write, opened, hfault, Nat.not_lt.mpr hfits]

/-- A chunk that is not written leaves the upload as it is. -/
theorem write_run_error {got chunk : List UInt8}
    (h : s.faults.failNextWrite = true ∨ len < got.length + chunk.length) :
    ∃ e faults, (store.write n chunk).run (s.opened n ⟨len, got, q⟩) =
      (.error e, { s with faults := faults }.opened n ⟨len, got, q⟩) := by
  change ∃ e faults, write n chunk (s.opened n ⟨len, got, q⟩) = _
  cases hfault : s.faults.failNextWrite with
  | true => exact ⟨_, _, by simp only [write, opened, hfault]; rfl⟩
  | false =>
    have hlong : len < got.length + chunk.length := by simpa [hfault] using h
    exact ⟨_, s.faults, by simp only [write, opened, hfault, OrdMap.get_insert_self, hlong]; rfl⟩

variable (fault : Option String)

/-- A stream that fits is received to its end, or to its fault. -/
theorem receive_run : ∀ (chunks : List (List UInt8)) (got : List UInt8) (peak : Nat),
    s.Takes len got chunks →
    ∃ peak', (receive store n len fault chunks got peak).run (s.opened n ⟨len, got, q⟩) =
      (match faultAfter fault chunks with
        | none => .ok (got ++ (arriving chunks).flatten, peak')
        | some e => .error (.io e),
        s.opened n ⟨len, got ++ (arriving chunks).flatten, q⟩)
  | [], got, peak, _ => by
    refine ⟨peak, ?_⟩
    cases fault <;> simp [receive] <;> rfl
  | chunk :: rest, got, peak, htakes => by
    by_cases hne : chunk = []
    · subst hne
      exact ⟨peak, by simp [receive]; rfl⟩
    · obtain ⟨hfault, hfits, hrest⟩ := (takes_cons hne).mp htakes
      obtain ⟨peak', hrun⟩ := receive_run rest (got ++ chunk) (max peak chunk.length) hrest
      refine ⟨peak', ?_⟩
      have hnext : ¬saturatingAdd got.length chunk.length > len :=
        fun h => absurd (Nat.lt_of_lt_of_le h (Nat.min_le_left _ _)) (Nat.not_lt.mpr hfits)
      rw [receive, if_neg hne, if_neg hnext, stateM_run_bind (write_run hfault hfits), hrun,
        faultAfter_cons hne, arriving_cons hne, List.flatten_cons, List.append_assoc]

/-- A stream that does not fit has its upload aborted. -/
theorem receive_run_abort : ∀ (chunks : List (List UInt8)) (got : List UInt8) (peak : Nat),
    got.length ≤ len → ¬s.Takes len got chunks →
    ∃ e faults, (receive store n len fault chunks got peak).run (s.opened n ⟨len, got, q⟩) =
      (.error e, { s with faults := faults }.closed n)
  | [], got, peak, hgot, htakes => absurd ⟨fun _ => rfl, by simpa using hgot⟩ htakes
  | chunk :: rest, got, peak, hgot, htakes => by
    by_cases hne : chunk = []
    · subst hne
      exact absurd ⟨fun _ => rfl, by simpa using hgot⟩ htakes
    · by_cases hnext : saturatingAdd got.length chunk.length > len
      · rw [receive, if_neg hne, if_pos hnext, abortWith_run]
        exact ⟨_, _, rfl⟩
      · rw [takes_cons hne] at htakes
        by_cases hwritten : s.faults.failNextWrite = false ∧ got.length + chunk.length ≤ len
        · obtain ⟨hfault, hfits⟩ := hwritten
          obtain ⟨e, faults, hrun⟩ := receive_run_abort rest (got ++ chunk)
            (max peak chunk.length) (by simpa using hfits)
            (fun hrest => htakes ⟨hfault, hfits, hrest⟩)
          rw [receive, if_neg hne, if_neg hnext, stateM_run_bind (write_run hfault hfits), hrun]
          exact ⟨_, _, rfl⟩
        · have herror : s.faults.failNextWrite = true ∨ len < got.length + chunk.length := by
            by_contra hcontra
            simp only [not_or, Bool.not_eq_true, Nat.not_lt] at hcontra
            exact hwritten hcontra
          obtain ⟨e, faults, hwrite⟩ := write_run_error herror
          rw [receive, if_neg hne, if_neg hnext, stateM_run_bind hwrite]
          exact ⟨_, _, abortWith_run _ _⟩

end Receive

/-- The store with a finished upload under its quarantine key. -/
def quarantined (s : FakeObjectStore) (id : Nat) (q : ObjectKey) (body : List UInt8) :
    FakeObjectStore :=
  { s.closed id with objects := s.objects.insert q (.of body) }

theorem finishQuarantine_run {id : Nat} {q : ObjectKey} (body : List UInt8) :
    (store.finishQuarantine id (Blake3.hash body)).run (s.opened id ⟨body.length, body, q⟩) =
      (.ok ⟨q, body.length, Blake3.hash body⟩, s.quarantined id q body) := by
  change finishQuarantine id (Blake3.hash body) (s.opened id ⟨body.length, body, q⟩) = _
  simp only [finishQuarantine, opened, OrdMap.get_insert_self, dite_true, OrdMap.erase_insert_self]
  rfl

/-- The final key cannot take a body: a publication fault is due, or another object
occupies it. -/
def Blocked (s : FakeObjectStore) (key : ObjectKey) (body : List UInt8) : Prop :=
  s.faults.failNextPublish = true ∨
    ∃ o, s.objects.get key = some o ∧ ¬(o.digest = Blake3.hash body ∧ o.length = body.length)

theorem delete_run (s : FakeObjectStore) (key : ObjectKey) :
    ∃ r, (store.delete key).run s = (r, { s with objects := s.objects.erase key }) := by
  change ∃ r, delete key s = _
  unfold delete
  cases hget : s.objects.get key with
  | none => exact ⟨_, by rw [OrdMap.erase_of_get_none hget]⟩
  | some o => exact ⟨_, rfl⟩

section Publish

variable {s : FakeObjectStore} {q key : ObjectKey} {body : List UInt8}

/-- Another object occupies the final key. -/
theorem copyIfAbsent_run_conflict (hq : s.objects.get q = some (.of body))
    (hfault : s.faults.failNextPublish = false) {o : StoredObject} (ho : s.objects.get key = some o)
    (hdiffer : ¬(o.digest = Blake3.hash body ∧ o.length = body.length)) :
    (store.publishIfAbsent q key (Blake3.hash body) body.length).run s =
      (.error ⟨.conflict, "final key occupied by different object"⟩, s) := by
  change copyIfAbsent q key (Blake3.hash body) body.length s = _
  simp [copyIfAbsent, hfault, hq, StoredObject.of, ho, hdiffer]

theorem copyIfAbsent_run_blocked (hq : s.objects.get q = some (.of body)) (h : s.Blocked key body) :
    ∃ e faults, (store.publishIfAbsent q key (Blake3.hash body) body.length).run s =
      (.error e, { s with faults := faults }) := by
  cases hfault : s.faults.failNextPublish with
  | true =>
    change ∃ e faults, copyIfAbsent q key (Blake3.hash body) body.length s = _
    exact ⟨_, _, by simp only [copyIfAbsent, hfault]; rfl⟩
  | false =>
    obtain ⟨o, ho, hdiffer⟩ := h.resolve_left (by simp [hfault])
    exact ⟨_, s.faults, copyIfAbsent_run_conflict hq hfault ho hdiffer⟩

theorem copyIfAbsent_run (hq : s.objects.get q = some (.of body)) (h : ¬s.Blocked key body) :
    (store.publishIfAbsent q key (Blake3.hash body) body.length).run s =
      (.ok ⟨key, body.length, Blake3.hash body⟩,
        { s with objects := s.objects.insertAbsent key (.of body) }) := by
  change copyIfAbsent q key (Blake3.hash body) body.length s = _
  have hfault : s.faults.failNextPublish = false := by
    by_contra hcontra
    exact h (Or.inl (by simpa using hcontra))
  cases hdest : s.objects.get key with
  | none => simp [copyIfAbsent, OrdMap.insertAbsent, hfault, hq, hdest, StoredObject.of]
  | some o =>
    have hsame : o.digest = Blake3.hash body ∧ o.length = body.length := by
      by_contra hcontra
      exact h (Or.inr ⟨o, hdest, hcontra⟩)
    simp [copyIfAbsent, OrdMap.insertAbsent, hfault, hq, hdest, StoredObject.of, hsame]

end Publish

theorem getReader_run {q : ObjectKey} {body : List UInt8} (hq : s.objects.get q = some (.of body)) :
    (store.getReader q none).run s = (.ok ⟨body, none⟩, s) := by
  change getReader q none s = _
  simp [getReader, hq, rangeOf, StoredObject.of, slice]

end FakeObjectStore

/-! ## The exits -/

section Exits

open FakeObjectStore (store)

variable [Blake3] [Crc32] [Ed25519]

/-- The result of the checks of a body. -/
def IngressCall.verdict (c : IngressCall) (body : List UInt8) : Except Refusal Inspected :=
  c.inspect ⟨body, none⟩

/-- How the checks and the publication of a quarantined body end. -/
inductive Promoted (c : IngressCall) (q : ObjectKey) (body : List UInt8) (s : FakeObjectStore) :
    Checked IngressError IngressReceipt → FakeObjectStore → Prop
  | discarded (refusal : Refusal) (hverdict : c.verdict body = .error refusal)
      (hdeletes : refusal.deletes = true) :
      Promoted c q body s (.error refusal.halt) { s with objects := s.objects.erase q }
  | left (refusal : Refusal) (hverdict : c.verdict body = .error refusal)
      (hdeletes : refusal.deletes = false) : Promoted c q body s (.error refusal.halt) s
  | blocked (e : ObjectStoreError) (faults : FakeFaults) (inspected : Inspected)
      (hverdict : c.verdict body = .ok inspected)
      (hblocked : s.Blocked (finalCapsuleKey c.cluster c.capsule) body) :
      Promoted c q body s (.error (.error (.object e))) { s with faults := faults }
  | published (peak : Nat) (inspected : Inspected) (hverdict : c.verdict body = .ok inspected)
      (hfree : ¬s.Blocked (finalCapsuleKey c.cluster c.capsule) body) :
      Promoted c q body s
        (.ok
          { evidence := ⟨finalCapsuleKey c.cluster c.capsule, body.length, Blake3.hash body⟩
            stats := ⟨body.length, peak, Blake3.hash body⟩
            signerFingerprint := inspected.decision.fingerprint
            trustRevision := inspected.decision.policyRevision })
        { s with
          objects :=
            (s.objects.insertAbsent (finalCapsuleKey c.cluster c.capsule) (.of body)).erase q }

theorem promote_ends (c : IngressCall) {q : ObjectKey} {body : List UInt8} {s : FakeObjectStore}
    (hq : s.objects.get q = some (.of body)) (peak : Nat) :
    Promoted c q body s
      ((c.promote store q (Blake3.hash body) body.length peak).run s).1
      ((c.promote store q (Blake3.hash body) body.length peak).run s).2 := by
  rw [IngressCall.promote, stateM_run_bind (FakeObjectStore.getReader_run hq)]
  simp only
  cases hverdict : c.inspect ⟨body, none⟩ with
  | error refusal =>
    simp only
    cases hdeletes : refusal.deletes with
    | true =>
      obtain ⟨r, hdelete⟩ := FakeObjectStore.delete_run s q
      rw [if_pos rfl, stateM_run_bind hdelete]
      exact .discarded refusal hverdict hdeletes
    | false =>
      rw [if_neg (by decide)]
      exact .left refusal hverdict hdeletes
  | ok inspected =>
    simp only
    by_cases hblocked : s.Blocked (finalCapsuleKey c.cluster c.capsule) body
    · obtain ⟨e, faults, hpublish⟩ := FakeObjectStore.copyIfAbsent_run_blocked hq hblocked
      rw [stateM_run_bind hpublish]
      exact .blocked e faults inspected hverdict hblocked
    · obtain ⟨r, hdelete⟩ := FakeObjectStore.delete_run
        { s with
          objects := s.objects.insertAbsent (finalCapsuleKey c.cluster c.capsule) (.of body) } q
      rw [stateM_run_bind (FakeObjectStore.copyIfAbsent_run hq hblocked)]
      simp only
      rw [stateM_run_bind hdelete]
      exact .published _ inspected hverdict hblocked

/-- The content length is one that the call admits. -/
def IngressCall.Admissible (c : IngressCall) : Prop :=
  c.contentLength ≠ 0 ∧ c.contentLength ≤ c.limits.maxCapsuleBytes

/-- The key that a call quarantines its upload under. -/
def IngressCall.quarantine (c : IngressCall) (s : FakeObjectStore) : ObjectKey :=
  quarantineKey c.cluster c.capsule s.nextId

/-- How a call ends, and what it leaves in the store. -/
inductive Ended (c : IngressCall) (reads : Reads) (s : FakeObjectStore) :
    Checked IngressError IngressReceipt → FakeObjectStore → Prop
  | refused (e : IngressError) (hrefused : ¬c.Admissible) : Ended c reads s (.error (.error e)) s
  | aborted (e : IngressError) (faults : FakeFaults) (hadmissible : c.Admissible)
      (hlost : ¬s.Takes c.contentLength [] reads.chunks ∨
        reads.interruption = none ∧ reads.body.length ≠ c.contentLength) :
      Ended c reads s (.error (.error e)) ({ s.numbered with faults := faults }.closed s.nextId)
  | interrupted (e : String) (hadmissible : c.Admissible)
      (htakes : s.Takes c.contentLength [] reads.chunks) (hfault : reads.interruption = some e) :
      Ended c reads s (.error (.error (.io e)))
        (s.numbered.opened s.nextId ⟨c.contentLength, reads.body, c.quarantine s⟩)
  | concluded (r : Checked IngressError IngressReceipt) (t : FakeObjectStore)
      (hadmissible : c.Admissible) (htakes : s.Takes c.contentLength [] reads.chunks)
      (hwhole : reads.interruption = none) (hlength : reads.body.length = c.contentLength)
      (hpromoted : Promoted c (c.quarantine s) reads.body
        (s.numbered.quarantined s.nextId (c.quarantine s) reads.body) r t) :
      Ended c reads s r t

omit [Crc32] [Ed25519] in
/-- Quarantining a body does not touch the final keys. -/
theorem get_final_quarantined (s : FakeObjectStore) (c : IngressCall) (body : List UInt8)
    (cluster : ClusterId) (capsule : CapsuleId) :
    (s.numbered.quarantined s.nextId (c.quarantine s) body).objects.get
        (finalCapsuleKey cluster capsule) = s.objects.get (finalCapsuleKey cluster capsule) :=
  OrdMap.get_insert_of_ne _ _ finalCapsuleKey_ne_quarantineKey

omit [Crc32] [Ed25519] in
theorem blocked_quarantined (s : FakeObjectStore) (c : IngressCall) (body : List UInt8) :
    (s.numbered.quarantined s.nextId (c.quarantine s) body).Blocked
        (finalCapsuleKey c.cluster c.capsule) body ↔
      s.Blocked (finalCapsuleKey c.cluster c.capsule) body := by
  unfold FakeObjectStore.Blocked
  rw [get_final_quarantined]
  rfl

/-- A whole body: its upload is finished, checked and published, or truncated. -/
theorem conclude_ends (c : IngressCall) {reads : Reads} {s : FakeObjectStore} (peak : Nat)
    (hadmissible : c.Admissible) (htakes : s.Takes c.contentLength [] reads.chunks)
    (hwhole : reads.interruption = none) :
    let run := (c.conclude store s.nextId reads.body peak).run
      (s.numbered.opened s.nextId ⟨c.contentLength, reads.body, c.quarantine s⟩)
    Ended c reads s run.1 run.2 := by
  intro run
  by_cases hlength : reads.body.length = c.contentLength
  · have hrun : run = (c.promote store (c.quarantine s) (Blake3.hash reads.body)
        reads.body.length peak).run
          (s.numbered.quarantined s.nextId (c.quarantine s) reads.body) := by
      simp only [run, IngressCall.conclude, hlength, ne_eq, not_true, if_false]
      rw [← hlength, stateM_run_bind (FakeObjectStore.finishQuarantine_run _)]
    rw [hrun]
    exact .concluded _ _ hadmissible htakes hwhole hlength
      (promote_ends c (OrdMap.get_insert_self _ _ _) peak)
  · have hrun : run = (.error (.error (.truncated reads.body.length c.contentLength)),
        s.numbered.closed s.nextId) := by
      simp only [run, IngressCall.conclude, ne_eq, hlength, not_false_eq_true, if_true]
      rw [stateM_run_bind (FakeObjectStore.abortWith_run _ _)]
      rfl
    rw [hrun]
    exact .aborted _ s.faults hadmissible (Or.inr ⟨hwhole, hlength⟩)

theorem accept_ends (c : IngressCall) (reads : Reads) (s : FakeObjectStore) :
    Ended c reads s ((c.acceptKnownLength store reads).run s).1
      ((c.acceptKnownLength store reads).run s).2 := by
  by_cases hzero : c.contentLength = 0
  · rw [IngressCall.acceptKnownLength, if_pos hzero]
    exact .refused _ fun h => h.1 hzero
  by_cases hlarge : c.contentLength > c.limits.maxCapsuleBytes
  · rw [IngressCall.acceptKnownLength, if_neg hzero, if_pos hlarge]
    exact .refused _ fun h => absurd hlarge (Nat.not_lt.mpr h.2)
  have hadmissible : c.Admissible := ⟨hzero, Nat.not_lt.mp hlarge⟩
  have hbegin : (store.beginQuarantine c.cluster c.capsule c.contentLength).run s =
      (.ok s.nextId, s.numbered.opened s.nextId ⟨c.contentLength, [], c.quarantine s⟩) := by
    change FakeObjectStore.beginQuarantine c.cluster c.capsule c.contentLength s = _
    rw [FakeObjectStore.beginQuarantine, if_neg hzero]
    rfl
  rw [IngressCall.acceptKnownLength, if_neg hzero, if_neg hlarge, stateM_run_bind hbegin]
  simp only
  by_cases htakes : s.Takes c.contentLength [] reads.chunks
  · obtain ⟨peak, hreceive⟩ := FakeObjectStore.receive_run (s := s.numbered) (n := s.nextId)
      (q := c.quarantine s) reads.fault reads.chunks [] 0 htakes
    rw [stateM_run_bind hreceive, List.nil_append]
    cases hfault : faultAfter reads.fault reads.chunks with
    | some e => exact .interrupted e hadmissible htakes hfault
    | none => exact conclude_ends c peak hadmissible htakes hfault
  · obtain ⟨e, faults, hreceive⟩ := FakeObjectStore.receive_run_abort (s := s.numbered)
      (n := s.nextId) (q := c.quarantine s) reads.fault reads.chunks [] 0 (Nat.zero_le _) htakes
    rw [stateM_run_bind hreceive]
    exact .aborted e faults hadmissible (Or.inl htakes)

end Exits

end Gump.Connectors
