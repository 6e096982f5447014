/-
  Memory/Records/Lease.lean --- the lease table (`records/lease.rs`).

  Lease ids come from a counter that never goes back, a renewal never revives a
  lease that is already due, and expiry removes exactly the leases that are due.
  The lemmas below say this once, one operation at a time; the fence and watch
  developments use nothing else about the table.
-/
import Gump.Foundation.OrdMap
import Gump.Foundation.Words

set_option autoImplicit false

namespace Gump.Memory

open Gump.Foundation

/-- What a lease is for; the purpose fixes its lifetime. -/
inductive LeasePurpose where
  | controllerAuthority
  | memberLiveness
  | placementAttempt
  | gangReservation
  | telemetrySubscription
  deriving DecidableEq, Repr

/-- Lifetime of a lease, in milliseconds. -/
def LeasePurpose.ttlMs : LeasePurpose → Nat
  | .controllerAuthority => 10000
  | .memberLiveness => 15000
  | .placementAttempt => 20000
  | .gangReservation => 30000
  | .telemetrySubscription => 30000

/-- A granted lease. -/
structure Lease where
  id : Nat
  purpose : LeasePurpose
  ttlMs : Nat
  expiresAtMs : Nat
  deriving DecidableEq, Repr

/-- Why a lease operation failed. -/
inductive LeaseError where
  | notFound (id : Nat)
  | expired (id : Nat)
  deriving DecidableEq, Repr

/-- The text of a lease error. -/
def LeaseError.display : LeaseError → String
  | .notFound id => s!"lease {id} not found"
  | .expired id => s!"lease {id} expired"

/-- All live leases and the id counter. -/
structure LeaseTable where
  nextId : Nat
  leases : OrdMap Nat Lease
  deriving DecidableEq

namespace LeaseTable

/-- The table without leases. -/
def empty : LeaseTable := ⟨0, OrdMap.empty⟩

/-- Look a lease up. -/
def get (t : LeaseTable) (id : Nat) : Option Lease := t.leases.get id

/-- Grant a lease under a fresh id. -/
def grant (t : LeaseTable) (purpose : LeasePurpose) (nowMs : Nat) : LeaseTable × Lease :=
  let id := saturatingAdd t.nextId 1
  let ttlMs := purpose.ttlMs
  let lease : Lease :=
    { id := id, purpose := purpose, ttlMs := ttlMs,
      expiresAtMs := saturatingAdd nowMs ttlMs }
  ({ nextId := id, leases := t.leases.insert id lease }, lease)

/-- Renew without extending beyond one original lifetime from now.  A lease that
is already due is removed, and the renewal fails. -/
def renew (t : LeaseTable) (id nowMs : Nat) : LeaseTable × Except LeaseError Lease :=
  match t.leases.get id with
  | none => (t, .error (.notFound id))
  | some lease =>
    if lease.expiresAtMs ≤ nowMs then
      ({ t with leases := t.leases.erase id }, .error (.expired id))
    else
      let renewed := { lease with expiresAtMs := saturatingAdd nowMs lease.ttlMs }
      ({ t with leases := t.leases.insert id renewed }, .ok renewed)

/-- Remove a lease. -/
def revoke (t : LeaseTable) (id : Nat) : LeaseTable × Except LeaseError Lease :=
  match t.leases.get id with
  | none => (t, .error (.notFound id))
  | some lease => ({ t with leases := t.leases.erase id }, .ok lease)

/-- The ids of the leases that are due, in increasing order. -/
def due (t : LeaseTable) (nowMs : Nat) : List Nat :=
  (t.leases.entries.filter (fun e => decide (e.2.expiresAtMs ≤ nowMs))).map Prod.fst

/-- Remove the leases that are due and return their ids. -/
def expireDue (t : LeaseTable) (nowMs : Nat) : LeaseTable × List Nat :=
  let ids := t.due nowMs
  ({ t with leases := ids.foldl OrdMap.erase t.leases }, ids)

/-! ## Lookups after an operation -/

theorem get_grant (t : LeaseTable) (purpose : LeasePurpose) (nowMs id : Nat) :
    (t.grant purpose nowMs).1.get id =
      if id = saturatingAdd t.nextId 1 then some (t.grant purpose nowMs).2
      else t.get id := by
  simp only [grant, get, OrdMap.get_insert]

variable {t : LeaseTable} {nowMs id : Nat}

theorem mem_due_iff :
    id ∈ t.due nowMs ↔ ∃ lease, t.get id = some lease ∧ lease.expiresAtMs ≤ nowMs := by
  simp only [due, List.mem_map, List.mem_filter, decide_eq_true_eq, Prod.exists,
    exists_and_right, exists_eq_right, OrdMap.mem_entries_iff, get]

theorem due_nodup (t : LeaseTable) (nowMs : Nat) : (t.due nowMs).Nodup :=
  t.leases.keys_nodup.sublist (List.Sublist.map _ List.filter_sublist)

/-- Erasing a list of ids, one after the other, hides exactly those ids. -/
theorem get_foldl_erase (ids : List Nat) (m : OrdMap Nat Lease) (id : Nat) :
    (ids.foldl OrdMap.erase m).get id = if id ∈ ids then none else m.get id := by
  induction ids generalizing m with
  | nil => simp
  | cons head rest ih =>
    rw [List.foldl_cons, ih]
    by_cases hrest : id ∈ rest
    · simp [hrest]
    · by_cases hhead : id = head
      · simp [hhead]
      · rw [OrdMap.get_erase_of_ne m hhead]
        simp [hrest, hhead]

theorem get_expireDue (t : LeaseTable) (nowMs id : Nat) :
    (t.expireDue nowMs).1.get id = if id ∈ t.due nowMs then none else t.get id :=
  get_foldl_erase (t.due nowMs) t.leases id

/-- Where a lease of the renewed table comes from. -/
theorem get_renew {id' : Nat} {lease : Lease} (h : (t.renew id nowMs).1.get id' = some lease) :
    t.get id' = some lease ∨ ∃ old, t.get id' = some old ∧ id' = id ∧ nowMs < old.expiresAtMs := by
  unfold renew at h
  cases hget : t.leases.get id with
  | none =>
    simp only [hget] at h
    exact Or.inl h
  | some old =>
    simp only [hget] at h
    by_cases hdue : old.expiresAtMs ≤ nowMs
    · rw [if_pos hdue] at h
      by_cases hid : id' = id
      · subst hid
        simp [get] at h
      · refine Or.inl ?_
        simpa only [get, OrdMap.get_erase_of_ne _ hid] using h
    · rw [if_neg hdue] at h
      by_cases hid : id' = id
      · exact Or.inr ⟨old, by rw [hid]; exact hget, hid, not_le.mp hdue⟩
      · refine Or.inl ?_
        simpa only [get, OrdMap.get_insert_of_ne _ _ hid] using h

/-- A failed renewal finds no live lease, and leaves none. -/
theorem renew_error {e : LeaseError} (h : (t.renew id nowMs).2 = .error e) :
    (∀ lease, t.get id = some lease → lease.expiresAtMs ≤ nowMs) ∧
      (t.renew id nowMs).1 = { t with leases := t.leases.erase id } := by
  unfold renew at h ⊢
  cases hget : t.leases.get id with
  | none =>
    refine ⟨fun lease hlease => absurd (hget.symm.trans hlease) (by simp), ?_⟩
    rw [OrdMap.erase_of_get_none hget]
  | some old =>
    simp only [hget] at h ⊢
    split at h
    · rename_i hdue
      refine ⟨fun lease hlease => ?_, by rw [if_pos hdue]⟩
      rw [← Option.some.inj (hget.symm.trans hlease)]
      exact hdue
    · simp at h

theorem nextId_renew (t : LeaseTable) (id nowMs : Nat) :
    (t.renew id nowMs).1.nextId = t.nextId := by
  unfold renew
  split
  · rfl
  · split <;> rfl

/-! ## Dead leases -/

/-- No lease under `id` is live at `nowMs`: there is none, or it is due. -/
def Dead (t : LeaseTable) (nowMs id : Nat) : Prop :=
  ∀ lease, t.get id = some lease → lease.expiresAtMs ≤ nowMs

theorem Dead.mono {t' : LeaseTable} {nowMs' : Nat} (h : t.Dead nowMs id) (hle : nowMs ≤ nowMs')
    (hsub : ∀ lease, t'.get id = some lease → t.get id = some lease) : t'.Dead nowMs' id :=
  fun lease hget => (h lease (hsub lease hget)).trans hle

/-- A grant uses an id above all earlier ones, so it revives none of them. -/
theorem Dead.grant (h : t.Dead nowMs id) (hid : id ≤ t.nextId) (purpose : LeasePurpose)
    (grantMs : Nat) (hroom : (t.grant purpose grantMs).1.nextId < u64Max) :
    (t.grant purpose grantMs).1.Dead nowMs id := by
  have hnext : saturatingAdd t.nextId 1 = t.nextId + 1 := saturatingAdd_eq_of_lt hroom
  refine h.mono (le_refl _) (fun lease hget => ?_)
  rw [get_grant, if_neg (by omega)] at hget
  exact hget

/-- A renewal only extends a lease that is live at the time of renewal. -/
theorem Dead.renew (h : t.Dead nowMs id) (leaseId : Nat) :
    (t.renew leaseId nowMs).1.Dead nowMs id := by
  intro lease hget
  rcases get_renew hget with hsame | ⟨old, hold, _, hlive⟩
  · exact h lease hsame
  · exact absurd (h old hold) (not_le.mpr hlive)

theorem Dead.erase (h : t.Dead nowMs id) (leaseId : Nat) :
    LeaseTable.Dead { t with leases := t.leases.erase leaseId } nowMs id := by
  refine h.mono (le_refl _) (fun lease hget => ?_)
  simp only [get, OrdMap.get_erase] at hget
  split at hget
  · simp at hget
  · exact hget

theorem Dead.expireDue (h : t.Dead nowMs id) : (t.expireDue nowMs).1.Dead nowMs id := by
  refine h.mono (le_refl _) (fun lease hget => ?_)
  rw [get_expireDue] at hget
  split at hget
  · simp at hget
  · exact hget

end LeaseTable

end Gump.Memory
