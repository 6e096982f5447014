/-
  Connectors/Residue.lean --- what a call of ingress leaves behind.

  A call closes its upload and deletes its quarantine object, except that a whole
  body that is refused after quarantine may stay there for a later cleanup.  The
  final keys change only when a call succeeds.
-/
import Mathlib.Algebra.GroupWithZero.Nat
import Gump.Connectors.Accept

set_option autoImplicit false

namespace Gump.Connectors

open Gump.Foundation Gump.Memory Gump.Types Gump.Capsule Gump.Crypto

section Residue

variable [Blake3] [Crc32] [Ed25519]

/-- The source fails while the upload of the call is open. -/
def IngressCall.Interrupted (c : IngressCall) (reads : Reads) (s : FakeObjectStore) : Prop :=
  c.Admissible ∧ s.Takes c.contentLength [] reads.chunks ∧ reads.interruption.isSome = true

/-- A body is refused by a check that does not delete its quarantine object, or
cannot be published. -/
def IngressCall.Strands (c : IngressCall) (s : FakeObjectStore) (body : List UInt8) : Prop :=
  (∃ refusal, c.verdict body = .error refusal ∧ refusal.deletes = false) ∨
    ∃ inspected, c.verdict body = .ok inspected ∧
      s.Blocked (finalCapsuleKey c.cluster c.capsule) body

/-- A body arrives whole and is stranded in quarantine. -/
def IngressCall.Stranded (c : IngressCall) (reads : Reads) (s : FakeObjectStore) : Prop :=
  c.Admissible ∧ s.Takes c.contentLength [] reads.chunks ∧ reads.interruption = none ∧
    reads.body.length = c.contentLength ∧ c.Strands s reads.body

/-- What a call leaves in the store. -/
structure LeftBehind (c : IngressCall) (reads : Reads) (before : FakeObjectStore)
    (r : Checked IngressError IngressReceipt) (after : FakeObjectStore) : Prop where
  /-- Every open upload was open before, if the source does not fail. -/
  uploads : ¬c.Interrupted reads before → after.uploads.Sub before.uploads
  /-- Every quarantine object was there before, or is that of the stranded body. -/
  quarantine : ∀ cluster capsule id o,
    after.objects.get (quarantineKey cluster capsule id) = some o →
      before.objects.get (quarantineKey cluster capsule id) = some o ∨
        c.Stranded reads before ∧ quarantineKey cluster capsule id = c.quarantine before ∧
          o = .of reads.body
  /-- A stranded body stays. -/
  stranded : c.Stranded reads before →
    after.objects.get (c.quarantine before) = some (.of reads.body)
  /-- Unless the call succeeds the final keys are as before. -/
  finals : (∀ receipt, r ≠ .ok receipt) → ∀ cluster capsule,
    after.objects.get (finalCapsuleKey cluster capsule) =
      before.objects.get (finalCapsuleKey cluster capsule)

/-! ## Calls that quarantine nothing -/

section Early

variable {c : IngressCall} {reads : Reads} {s t : FakeObjectStore}
  {r : Checked IngressError IngressReceipt}

/-- A call that ends before its upload is finished leaves the objects. -/
theorem leftBehind_of_objects (hobjects : t.objects = s.objects)
    (huploads : ¬c.Interrupted reads s → t.uploads.Sub s.uploads)
    (hstranded : ¬c.Stranded reads s) : LeftBehind c reads s r t where
  uploads := huploads
  quarantine := fun _ _ _ _ hget => Or.inl (hobjects ▸ hget)
  stranded := fun h => absurd h hstranded
  finals := fun _ _ _ => by rw [hobjects]

end Early

/-! ## Calls with a whole body -/

section Whole

variable {c : IngressCall} {reads : Reads} {s t : FakeObjectStore} {body : List UInt8}
  {r : Checked IngressError IngressReceipt}

/-- A call that keeps its quarantine object, of a stranded body. -/
theorem leftBehind_of_stranded {faults : FakeFaults} (hstranded : c.Stranded reads s)
    (ht : t = { s.numbered.quarantined s.nextId (c.quarantine s) reads.body with
      faults := faults }) : LeftBehind c reads s r t := by
  subst ht
  refine ⟨fun _ => OrdMap.erase_sub _ _, ?_, fun _ => OrdMap.get_insert_self _ _ _,
    fun _ cluster capsule => get_final_quarantined s c reads.body cluster capsule⟩
  intro cluster capsule id o hget
  by_cases hown : quarantineKey cluster capsule id = c.quarantine s
  · rw [hown] at hget
    obtain rfl := Option.some.inj ((OrdMap.get_insert_self _ _ _).symm.trans hget)
    exact Or.inr ⟨hstranded, hown, rfl⟩
  · exact Or.inl ((OrdMap.get_insert_of_ne _ _ hown).symm.trans hget)

/-- A call that deletes its quarantine object. -/
theorem leftBehind_of_deleted (hstranded : ¬c.Stranded reads s)
    (hobjects : ∀ key, key ≠ c.quarantine s →
      (∀ receipt, r ≠ .ok receipt) ∨
        (∃ cluster capsule id, key = quarantineKey cluster capsule id) →
        t.objects.get key = s.objects.get key)
    (hgone : t.objects.get (c.quarantine s) = none)
    (huploads : t.uploads = s.uploads.erase s.nextId) : LeftBehind c reads s r t where
  uploads := by
    intro _
    rw [huploads]
    exact OrdMap.erase_sub _ _
  quarantine := by
    intro cluster capsule id o hget
    by_cases hown : quarantineKey cluster capsule id = c.quarantine s
    · rw [hown, hgone] at hget
      cases hget
    · rw [hobjects _ hown (Or.inr ⟨_, _, _, rfl⟩)] at hget
      exact Or.inl hget
  stranded := fun h => absurd h hstranded
  finals := fun hfailed _ _ => hobjects _ finalCapsuleKey_ne_quarantineKey (Or.inl hfailed)

theorem leftBehind_of_promoted (hadmissible : c.Admissible)
    (htakes : s.Takes c.contentLength [] reads.chunks) (hwhole : reads.interruption = none)
    (hlength : reads.body.length = c.contentLength)
    (h : Promoted c (c.quarantine s) reads.body
      (s.numbered.quarantined s.nextId (c.quarantine s) reads.body) r t) :
    LeftBehind c reads s r t := by
  have hstranded : c.Strands s reads.body → c.Stranded reads s :=
    fun hstrands => ⟨hadmissible, htakes, hwhole, hlength, hstrands⟩
  cases h with
  | discarded refusal hverdict hdeletes =>
    refine leftBehind_of_deleted ?_ ?_ (OrdMap.get_erase_self _ _) rfl
    · rintro ⟨_, _, _, _, ⟨refusal', hverdict', hkeeps⟩ | ⟨inspected, hok, _⟩⟩
      · obtain rfl := Except.error.inj (hverdict.symm.trans hverdict')
        rw [hdeletes] at hkeeps
        cases hkeeps
      · cases hverdict.symm.trans hok
    · intro key hkey _
      rw [OrdMap.get_erase_of_ne _ hkey]
      exact OrdMap.get_insert_of_ne _ _ hkey
  | left refusal hverdict hdeletes =>
    exact leftBehind_of_stranded (hstranded (Or.inl ⟨refusal, hverdict, hdeletes⟩)) rfl
  | blocked e faults inspected hverdict hblocked =>
    exact leftBehind_of_stranded
      (hstranded (Or.inr ⟨inspected, hverdict, (blocked_quarantined s c _).mp hblocked⟩)) rfl
  | published peak inspected hverdict hfree =>
    refine leftBehind_of_deleted ?_ ?_ (OrdMap.get_erase_self _ _) rfl
    · rintro ⟨_, _, _, _, ⟨refusal, hverdict', _⟩ | ⟨_, _, hblocked⟩⟩
      · cases hverdict.symm.trans hverdict'
      · exact hfree ((blocked_quarantined s c _).mpr hblocked)
    · intro key hkey hcase
      obtain ⟨cluster, capsule, id, rfl⟩ := hcase.resolve_left fun h => h _ rfl
      rw [OrdMap.get_erase_of_ne _ hkey, OrdMap.get_insertAbsent,
        if_neg (Ne.symm finalCapsuleKey_ne_quarantineKey)]
      exact OrdMap.get_insert_of_ne _ _ hkey

end Whole

theorem leftBehind_of_ended {c : IngressCall} {reads : Reads} {s t : FakeObjectStore}
    {r : Checked IngressError IngressReceipt} (h : Ended c reads s r t) :
    LeftBehind c reads s r t := by
  cases h with
  | refused e hrefused =>
    exact leftBehind_of_objects rfl (fun _ => OrdMap.Sub.refl _) fun h => hrefused h.1
  | aborted e faults hadmissible hlost =>
    refine leftBehind_of_objects rfl (fun _ => OrdMap.erase_sub _ _) ?_
    rintro ⟨_, htakes, _, hlength, _⟩
    rcases hlost with hlost | ⟨_, hshort⟩
    · exact hlost htakes
    · exact hshort hlength
  | interrupted e hadmissible htakes hfault =>
    have hinterrupted : c.Interrupted reads s :=
      ⟨hadmissible, htakes, Option.isSome_iff_exists.mpr ⟨e, hfault⟩⟩
    refine leftBehind_of_objects rfl (fun h => absurd hinterrupted h) ?_
    rintro ⟨_, _, hwhole, _⟩
    cases hfault.symm.trans hwhole
  | concluded _ _ hadmissible htakes hwhole hlength hpromoted =>
    exact leftBehind_of_promoted hadmissible htakes hwhole hlength hpromoted

/-- A call leaves no upload open unless its source fails, no quarantine object but
that of a stranded body, and the final keys as they were unless it succeeds. -/
theorem accept_leaves_only_stranded_body (c : IngressCall) (reads : Reads) (s : FakeObjectStore) :
    LeftBehind c reads s ((c.acceptKnownLength FakeObjectStore.store reads).run s).1
      ((c.acceptKnownLength FakeObjectStore.store reads).run s).2 :=
  leftBehind_of_ended (accept_ends c reads s)

end Residue

/-- A Capsule whose signer may not sign for the namespace stays in quarantine. -/
theorem denied_capsule_stays_in_quarantine :
    letI := Sample.blake3
    letI := Sample.crc32
    letI := Sample.ed25519
    let denied := ({ Sample.call 619 with ns := "b" }.acceptKnownLength FakeObjectStore.store
      (.whole Sample.file)).run .new
    denied.1 = .error (.error (.trust (.namespaceDenied (ed25519Fingerprint Sample.key) "b"))) ∧
      (denied.2.objects.get (quarantineKey Sample.cluster Sample.capsule 1)).isSome = true := by
  decide +kernel

end Gump.Connectors
