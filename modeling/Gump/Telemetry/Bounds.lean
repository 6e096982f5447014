/-
  Telemetry/Bounds.lean --- the bounds of the recent window over whole runs.

  A push drops records by age, then by bytes and number, and appends the new one.  Each
  of the two loops ends where its test fails or nothing is left, and recomputes the byte
  count from what is left; from that and `Drops` the bounds follow by induction over the
  pushes.  The window is always the end of the list of everything pushed.  The counter of
  pushes stops at the largest word and the one of dropped records wraps, so that each is
  told from the number of pushes.
-/
import Gump.Foundation.Run
import Gump.Telemetry.Ring

set_option autoImplicit false

namespace Gump.Telemetry

open Gump.Foundation

namespace LocalRing

/-- The sizes of the entries together. -/
def heldBytes (ring : LocalRing) : Nat := (ring.entries.map RingEntry.bytes).sum

/-- The byte count is right, as far as the sizes fit a word. -/
def Counted (ring : LocalRing) : Prop :=
  ring.heldBytes ≤ u64Max → ring.totalBytes = ring.heldBytes

variable {ring : LocalRing}

/-- A loop ends where its test fails or no entry is left, and leaves the configuration,
the number of pushes and a right byte count. -/
theorem evict_ends (goes : LocalRing → Bool) (h : ring.Counted) (outcome : EmitOutcome) :
    let after := (ring.evict goes recomputeBytes outcome).1
    after.Counted ∧ after.config = ring.config ∧ after.pushed = ring.pushed ∧
      (after.entries = [] ∨ goes after = false) := by
  unfold evict
  generalize hentries : ring.entries = entries
  induction entries generalizing ring outcome with
  | nil => exact ⟨h, rfl, rfl, .inl hentries⟩
  | cons front rest ih =>
    unfold dropOldestWhile
    split
    · exact ih (fun _ => rfl) .droppedOldest rfl
    · next hstop => exact ⟨h, rfl, rfl, .inr (Bool.not_eq_true _ ▸ hstop)⟩

variable {bytes : Nat}

/-- The record is not too large where an entry is left beside it. -/
theorem not_oversized (hbytes : bytes ≤ u64Max)
    (h : ring.entries = [] ∨ needsEvict ring bytes = false) :
    ¬ (bytes > ring.config.maxBytes ∧ ring.entries ≠ []) := by
  rintro ⟨hover, hne⟩
  rcases h with hempty | hfits
  · exact hne hempty
  · have hsum : ¬ saturatingAdd ring.totalBytes bytes > ring.config.maxBytes := by
      intro hfull
      simp [needsEvict, hne, hfull] at hfits
    simp only [saturatingAdd] at hsum
    omega

/-- What the loops of a push leave: room for the record, in bytes and in number. -/
theorem makeRoom_ends (h : ring.Counted) (hbytes : bytes ≤ u64Max) :
    let room := (ring.makeRoom bytes).1
    room.Counted ∧ room.config = ring.config ∧ room.pushed = ring.pushed ∧
      (room.entries = [] ∨ needsEvict room bytes = false) := by
  obtain ⟨hcounted, hconfig, hpushed, hend⟩ := evict_ends (needsEvict · bytes) h .accepted
  have hkept := not_oversized hbytes hend
  have hroom : (ring.makeRoom bytes).1 =
      (ring.evict (needsEvict · bytes) recomputeBytes .accepted).1 := by
    simp only [makeRoom, if_neg hkept]
  rw [hroom]
  exact ⟨hcounted, hconfig, hpushed, hend⟩

/-- The entry of a record that is pushed at a time. -/
def entryOf (p : StreamRecord × Nat) : RingEntry := ⟨p.1, p.2, saturatingAdd p.1.bytes.length 64⟩

/-- A push as a step of a run. -/
def pushStep (ring : LocalRing) (p : StreamRecord × Nat) : LocalRing × EmitOutcome :=
  ring.push p.1 p.2

/-- What holds of a ring after the pushes `history`. -/
structure Window (config : RingConfig) (history : List (StreamRecord × Nat)) (ring : LocalRing) :
    Prop where
  config : ring.config = (new config).config
  entries : ring.entries <:+ history.map entryOf
  dropped : ring.droppedOldest = (history.length - ring.entries.length) % 2 ^ 64
  counted : ring.Counted
  bytes : ring.totalBytes ≤ ring.config.maxBytes ∨ ring.entries.length ≤ 1
  records : ∀ m, ring.config.maxRecords = some m → ring.entries.length ≤ m
  pushed : ring.pushed = min history.length u64Max
  generation : ring.generation ≤ u64Max

theorem new_window (config : RingConfig) : Window config [] (new config) where
  config := rfl
  entries := List.suffix_rfl
  dropped := rfl
  counted := fun _ => rfl
  bytes := .inl (Nat.zero_le _)
  records := fun _ _ => Nat.zero_le _
  pushed := rfl
  generation := Nat.zero_le _

variable {config : RingConfig}

theorem one_le_maxRecords {m : Nat} (h : (new config).config.maxRecords = some m) : 1 ≤ m := by
  obtain ⟨given, -, rfl⟩ := Option.map_eq_some_iff.mp h
  exact Nat.le_max_right given 1

variable {history : List (StreamRecord × Nat)}

/-- What a push leaves, from the state after each of its two loops. -/
theorem push_stages (h : Window config history ring) (record : StreamRecord) (now : Nat) :
    ∃ aged room : LocalRing, ∃ j k, ring.Drops aged j ∧ aged.Drops room k ∧
      (aged.entries = [] ∨ aged.frontExpired now = false) ∧ aged.config = ring.config ∧
      room.Counted ∧ room.config = ring.config ∧ room.pushed = ring.pushed ∧
      (room.entries = [] ∨ room.needsEvict (entryOf (record, now)).bytes = false) ∧
      (ring.push record now).1 = { room with
        entries := room.entries ++ [entryOf (record, now)]
        totalBytes := saturatingAdd room.totalBytes (entryOf (record, now)).bytes
        ringSequence := saturatingAdd room.ringSequence 1
        pushed := saturatingAdd room.pushed 1 } := by
  obtain ⟨j, hj⟩ := evict_drops (frontExpired · now) (fun _ => ⟨_, rfl⟩) h.generation .accepted
  obtain ⟨haged, hagedConfig, hagedPushed, hagedEnd⟩ :=
    evict_ends (frontExpired · now) h.counted .accepted
  obtain ⟨k, hk⟩ := makeRoom_drops hj.generation_le (saturatingAdd record.bytes.length 64)
  obtain ⟨hroom, hroomConfig, hroomPushed, hroomEnd⟩ :=
    makeRoom_ends haged (saturatingAdd_le record.bytes.length 64)
  exact ⟨_, _, j, k, hj, hk, hagedEnd, hagedConfig, hroom, hroomConfig.trans hagedConfig,
    hroomPushed.trans hagedPushed, hroomEnd, rfl⟩

/-- A test that does not ask to evict leaves room in bytes and in number. -/
theorem needsEvict_false (hne : ring.entries ≠ []) (h : ring.needsEvict bytes = false) :
    saturatingAdd ring.totalBytes bytes ≤ ring.config.maxBytes ∧
      ∀ m, ring.config.maxRecords = some m → ring.entries.length < m := by
  unfold needsEvict at h
  rw [if_neg (by simpa using hne)] at h
  split at h
  · cases h
  · next hfits =>
    refine ⟨Nat.le_of_not_lt hfits, fun m hm => ?_⟩
    rw [hm] at h
    exact Nat.lt_of_not_le (of_decide_eq_false h)

/-- A push keeps the window. -/
theorem push_window (h : Window config history ring) (p : StreamRecord × Nat) :
    Window config (history ++ [p]) (ring.pushStep p).1 := by
  obtain ⟨aged, room, j, k, hj, hk, -, -, hcounted, hconfig, hpushed, hend, heq⟩ :=
    push_stages h p.1 p.2
  have hdrops := hj.trans hk
  unfold pushStep
  rw [heq]
  refine ⟨hconfig.trans h.config, ?_, ?_, ?_, ?_, ?_, ?_, hdrops.generation_le⟩
  · show room.entries ++ [entryOf p] <:+ (history ++ [p]).map entryOf
    obtain ⟨gone, hgone⟩ := (hdrops.entries ▸ List.drop_suffix _ _).trans h.entries
    exact ⟨gone, by rw [List.map_append, ← hgone, List.append_assoc]; rfl⟩
  · show room.droppedOldest =
      ((history ++ [p]).length - (room.entries ++ [entryOf p]).length) % 2 ^ 64
    have hle := hdrops.le
    have hheld := h.entries.length_le
    rw [List.length_map] at hheld
    rw [hdrops.droppedOldest (h.dropped ▸ Nat.mod_lt _ (by decide)), h.dropped, hdrops.entries]
    simp only [List.length_append, List.length_singleton, List.length_drop]
    omega
  · have hsum : ((room.entries ++ [entryOf p]).map RingEntry.bytes).sum =
        room.heldBytes + (entryOf p).bytes := by
      simp [heldBytes]
    show ((room.entries ++ [entryOf p]).map RingEntry.bytes).sum ≤ u64Max →
      saturatingAdd room.totalBytes (entryOf p).bytes =
        ((room.entries ++ [entryOf p]).map RingEntry.bytes).sum
    rw [hsum]
    intro hword
    rw [hcounted (Nat.le_trans (Nat.le_add_right _ _) hword), saturatingAdd_eq hword]
  · show saturatingAdd room.totalBytes _ ≤ room.config.maxBytes ∨ (room.entries ++ [_]).length ≤ 1
    by_cases hempty : room.entries = []
    · exact .inr (by simp [hempty])
    · exact .inl (needsEvict_false hempty (hend.resolve_left hempty)).1
  · intro m hm
    show (room.entries ++ [entryOf p]).length ≤ m
    by_cases hempty : room.entries = []
    · rw [hempty]
      exact one_le_maxRecords (hconfig.trans h.config ▸ hm)
    · rw [List.length_append, List.length_singleton]
      exact (needsEvict_false hempty (hend.resolve_left hempty)).2 m hm
  · show saturatingAdd room.pushed 1 = min (history ++ [p]).length u64Max
    rw [hpushed, h.pushed, List.length_append, List.length_singleton, saturatingAdd_min_one]

theorem run_window (config : RingConfig) (pushes : List (StreamRecord × Nat)) :
    Window config pushes (runFrom pushStep (new config) pushes) := by
  induction pushes using List.reverseRecOn with
  | nil => exact new_window config
  | append_singleton pushes p ih =>
    rw [runFrom_concat]
    exact push_window ih p

/-- What is held and what was dropped make up what was pushed, while a word counts it. -/
theorem Window.pushed_eq (h : Window config history ring) (hword : history.length < 2 ^ 64) :
    ring.pushed = ring.entries.length + ring.droppedOldest := by
  have hheld := h.entries.length_le
  rw [List.length_map] at hheld
  rw [h.pushed, h.dropped, u64Max]
  omega

/-- After a push no entry is older than the window, when the times do not decrease: the
oldest entry that the first loop leaves is not, and the others came later. -/
theorem push_age (h : Window config history ring)
    (hsorted : (history.map Prod.snd).Pairwise (· ≤ ·)) (p : StreamRecord × Nat) :
    ∀ e ∈ (ring.pushStep p).1.entries, p.2 - e.insertedAt ≤ ring.config.maxAge := by
  obtain ⟨aged, room, j, k, hj, hk, hfront, hconfig, -, -, -, -, heq⟩ := push_stages h p.1 p.2
  have horder : ring.entries.Pairwise (fun a b => a.insertedAt ≤ b.insertedAt) := by
    have hall : (history.map entryOf).Pairwise (fun a b => a.insertedAt ≤ b.insertedAt) := by
      rw [List.pairwise_map] at hsorted ⊢
      exact hsorted
    exact hall.sublist h.entries.sublist
  have haged : ∀ e ∈ aged.entries, p.2 - e.insertedAt ≤ ring.config.maxAge := by
    have hagedOrder : aged.entries.Pairwise (fun a b => a.insertedAt ≤ b.insertedAt) := by
      rw [hj.entries]
      exact horder.drop
    cases hentries : aged.entries with
    | nil => exact fun _ hmem => absurd hmem List.not_mem_nil
    | cons front rest =>
      rw [hentries, List.pairwise_cons] at hagedOrder
      have hyoung : p.2 - front.insertedAt ≤ ring.config.maxAge := by
        have hkept := hfront.resolve_left (by simp [hentries])
        simp only [frontExpired, hentries, decide_eq_false_iff_not, hconfig] at hkept
        omega
      refine List.forall_mem_cons.mpr ⟨hyoung, fun e he => ?_⟩
      have hlater := hagedOrder.1 e he
      omega
  intro e he
  unfold pushStep at he
  rw [heq] at he
  rcases List.mem_append.mp he with hold | hnew
  · rw [hk.entries] at hold
    exact haged e (List.mem_of_mem_drop hold)
  · rw [List.mem_singleton.mp hnew]
    show p.2 - p.2 ≤ _
    omega

/-- After every push of a sequence at times that do not decrease: the byte count is the
sum of the entries' sizes, and passes the budget only with one entry; the number of
entries and their ages keep their bounds; the entries are the last records pushed, in
order.  The pushes are counted up to the largest word, the dropped records modulo the word
size; fewer than `2 ^ 64` pushes are held or were dropped. -/
theorem ring_bounds (config : RingConfig) (earlier : List (StreamRecord × Nat))
    (record : StreamRecord) (now : Nat)
    (hsorted : ((earlier ++ [(record, now)]).map Prod.snd).Pairwise (· ≤ ·)) :
    let ring := runFrom pushStep (new config) (earlier ++ [(record, now)])
    ring.config = (new config).config ∧
      (ring.heldBytes ≤ u64Max → ring.totalBytes = ring.heldBytes) ∧
      (ring.config.maxBytes < ring.totalBytes → ring.entries.length = 1) ∧
      (∀ m, ring.config.maxRecords = some m → ring.entries.length ≤ m) ∧
      (∀ e ∈ ring.entries, now - e.insertedAt ≤ ring.config.maxAge) ∧
      ring.entries <:+ (earlier ++ [(record, now)]).map entryOf ∧
      ring.pushed = min (earlier.length + 1) u64Max ∧
      ring.droppedOldest = (earlier.length + 1 - ring.entries.length) % 2 ^ 64 ∧
      (earlier.length + 1 < 2 ^ 64 → ring.pushed = ring.entries.length + ring.droppedOldest) := by
  intro ring
  have h : Window config (earlier ++ [(record, now)]) ring := run_window config _
  have hbefore := run_window config earlier
  have hstep : ring = ((runFrom pushStep (new config) earlier).pushStep (record, now)).1 :=
    runFrom_concat _ _ _ _
  have hlength : (earlier ++ [(record, now)]).length = earlier.length + 1 := List.length_append
  refine ⟨h.config, h.counted, fun hover => ?_, h.records, ?_, h.entries, hlength ▸ h.pushed,
    hlength ▸ h.dropped, fun hword => h.pushed_eq (hlength ▸ hword)⟩
  · have hone := h.bytes.resolve_left (Nat.not_le.mpr hover)
    refine Nat.le_antisymm hone (Nat.pos_of_ne_zero fun hempty => ?_)
    have hnone : ring.heldBytes = 0 := by
      rw [heldBytes, List.length_eq_zero_iff.mp hempty]
      rfl
    have htotal := h.counted (hnone ▸ Nat.zero_le _)
    omega
  · rw [List.map_append, List.pairwise_append] at hsorted
    have hage := push_age hbefore hsorted.1 (record, now)
    rw [← hstep, hbefore.config, ← h.config] at hage
    exact hage

/-- After `n + 1` pushes into a window of one record: what is held and what is counted. -/
theorem counters_of_one (hone : config.maxRecords = some 1) (pushes : List (StreamRecord × Nat))
    (p : StreamRecord × Nat) : let ring := runFrom pushStep (new config) (pushes ++ [p])
    ring.pushed = min (pushes.length + 1) u64Max ∧ ring.entries.length = 1 ∧
      ring.droppedOldest = pushes.length % 2 ^ 64 := by
  intro ring
  have h : Window config (pushes ++ [p]) ring := run_window config _
  have hlength : (pushes ++ [p]).length = pushes.length + 1 := List.length_append
  have hheld : ring.entries.length = 1 := by
    refine Nat.le_antisymm (h.records 1 (by rw [h.config]; simp [new, hone])) ?_
    have hstep : ring = ((runFrom pushStep (new config) pushes).pushStep p).1 :=
      runFrom_concat _ _ _ _
    rw [hstep, pushStep, push, List.length_append]
    exact Nat.le_add_left 1 _
  have hdropped := h.dropped
  rw [hheld, hlength, Nat.add_sub_cancel] at hdropped
  exact ⟨hlength ▸ h.pushed, hheld, hdropped⟩

/-- A captured line without text. -/
def emptyLine : StreamRecord := ⟨"stdout", 0, 5, [10], true, 0⟩

/-- Two pushes into a window of one record and ten seconds. -/
theorem ring_bounds_two_pushes :
    let ring := runFrom pushStep (new ⟨100, 10, some 1⟩) [(emptyLine, 3), (emptyLine, 5)]
    ring.entries = [entryOf (emptyLine, 5)] ∧ ring.entries.length ≤ 1 ∧
      ring.pushed = ring.entries.length + ring.droppedOldest := by
  have h := ring_bounds ⟨100, 10, some 1⟩ [(emptyLine, 3)] emptyLine 5 (by decide)
  exact ⟨by decide, h.2.2.2.1 1 rfl, h.2.2.2.2.2.2.2.2 (by decide)⟩

/-- After `2 ^ 64` pushes the counter of pushes is one short, and after one more the counter
of dropped records starts anew. -/
theorem pushed_stops_counting :
    let after (n : Nat) :=
      runFrom pushStep (new ⟨100, 10, some 1⟩) (List.replicate n (emptyLine, 0))
    ((after (2 ^ 64)).pushed = 2 ^ 64 - 1 ∧ (after (2 ^ 64)).entries.length = 1 ∧
      (after (2 ^ 64)).droppedOldest = 2 ^ 64 - 1) ∧
    (after (2 ^ 64 + 1)).pushed = 2 ^ 64 - 1 ∧ (after (2 ^ 64 + 1)).entries.length = 1 ∧
      (after (2 ^ 64 + 1)).droppedOldest = 0 := by
  intro after
  have hafter : ∀ n m, n = m + 1 → (after n).pushed = min n u64Max ∧
      (after n).entries.length = 1 ∧ (after n).droppedOldest = m % 2 ^ 64 := by
    rintro _ m rfl
    have h :=
        @counters_of_one ⟨100, 10, some 1⟩ rfl (List.replicate m (emptyLine, 0)) (emptyLine, 0)
    rw [List.length_replicate, ← List.replicate_succ'] at h
    exact h
  exact ⟨hafter (2 ^ 64) (2 ^ 64 - 1) rfl, hafter (2 ^ 64 + 1) (2 ^ 64) rfl⟩

end LocalRing

end Gump.Telemetry
