/-
  Memory/Desired.lean --- desired declarations and finite completions.

  Accepted declarations of one app form a history: each `PutDesired` that is
  applied wins the generation after the one it expects, the stored entry is the
  one that won last, and the map stays within its bounds.  Completions of finite
  units are fenced by it: a recorded completion belongs to the generation that is
  stored.
-/
import Gump.Memory.ClusterStep

set_option autoImplicit false

namespace Gump.Memory

open Gump.Foundation

/-! ## Accepted declarations -/

/-- A declaration that was accepted: what it expected and stored, and the
generation its response carries. -/
structure Win where
  expected : Nat
  generation : Nat
  payload : List UInt8
  contentDigest : Digest
  deriving DecidableEq, Repr

/-- The entry a win stores. -/
def Win.entry (w : Win) : DesiredEntry :=
  { generation := w.generation, contentDigest := w.contentDigest, payload := w.payload }

/-- The win of a command on `key`, bare or in an envelope: its `PutDesired` was
answered with `Applied`. -/
def winOf (key : AppKey) (cmd : RaftCommand) (response : RaftResponse) : Option Win :=
  match cmd.body, response with
  | .putDesired ns app expected payload digest, .applied outcome =>
    if key = ⟨ns, app⟩ then
      outcome.desiredGeneration.map (fun generation =>
        { expected := expected, generation := generation, payload := payload,
          contentDigest := digest })
    else none
  | _, _ => none

theorem winOf_replay (key : AppKey) (cmd : RaftCommand) (prior : RaftResponse) :
    winOf key cmd (.replay prior) = none := by
  unfold winOf
  split
  · rename_i heq
    cases heq
  · rfl

theorem winOf_rejected (key : AppKey) (cmd : RaftCommand) (message : String) :
    winOf key cmd (.rejected message) = none := by
  unfold winOf
  split
  · rename_i heq
    cases heq
  · rfl

/-- The wins on `key` along a run, in order. -/
def wins (key : AppKey) (ts : List ClusterTransition) : List Win :=
  ts.filterMap (fun t => winOf key t.input t.output)

theorem saturatingAdd_one_ne {n : Nat} (h : n < u64Max) : saturatingAdd n 1 ≠ n := by
  rw [saturatingAdd_one h]
  exact Nat.succ_ne_self n

/-! ## The map stays within its bounds -/

/-- The byte count is the exact sum, cut off at the largest word. -/
theorem totalBytes_eq (desired : OrdMap AppKey DesiredEntry) :
    totalBytes desired =
      min (desired.sumBy (fun key e => desiredEntryBytes key.ns key.app e.payload)) u64Max := by
  have hfold : ∀ (weights : List Nat) (acc : Nat), acc ≤ u64Max →
      weights.foldl saturatingAdd acc = min (acc + weights.sum) u64Max := by
    intro weights
    induction weights with
    | nil =>
      intro acc hacc
      simp [hacc]
    | cons w rest ih =>
      intro acc _
      rw [List.foldl_cons, ih _ (saturatingAdd_le acc w), List.sum_cons]
      simp only [saturatingAdd]
      omega
  have hsum := hfold
    (desired.entries.map (fun e => desiredEntryBytes e.1.ns e.1.app e.2.payload)) 0
    (Nat.zero_le _)
  rw [Nat.zero_add] at hsum
  exact hsum

/-- The declarations respect the bounds of the state. -/
structure DesiredBounded (c : ClusterCore) : Prop where
  entries : c.desired.size ≤ c.desiredMaxEntries
  bytes : totalBytes c.desired ≤ c.desiredMaxTotalBytes

variable {c : ClusterCore}

theorem DesiredBounded.declare (h : DesiredBounded c) {key : AppKey} {entry : DesiredEntry}
    (hroom : c.desired.get key = none → c.desired.size < c.desiredMaxEntries)
    (hbytes : saturatingAdd (totalBytes c.desired - ((c.desired.get key).map
        (fun e => desiredEntryBytes key.ns key.app e.payload)).getD 0)
      (desiredEntryBytes key.ns key.app entry.payload) ≤ c.desiredMaxTotalBytes) :
    DesiredBounded (c.declare key entry) := by
  constructor
  · change (c.desired.insert key entry).size ≤ c.desiredMaxEntries
    cases hget : c.desired.get key with
    | none =>
      rw [OrdMap.size_insert_of_none entry hget]
      exact hroom hget
    | some old =>
      rw [OrdMap.size_insert_of_some entry hget]
      exact h.entries
  · change totalBytes (c.desired.insert key entry) ≤ c.desiredMaxTotalBytes
    have hsum := c.desired.sumBy_insert
      (fun key e => desiredEntryBytes key.ns key.app e.payload) key entry
    have hold := h.bytes
    rw [totalBytes_eq] at hold hbytes ⊢
    simp only [saturatingAdd] at hbytes
    -- below the largest word the count before is the exact sum
    rcases Nat.lt_or_ge c.desiredMaxTotalBytes u64Max with hlimit | hlimit
    · omega
    · omega

section Steps

variable [Blake3]

/-! ## Steps -/

/-- What a command does to the declaration under `key`, short of saturation:
nothing, or it wins the next generation and stores its entry. -/
theorem CoreStep.desiredAt {c c' : ClusterCore} {cmd : RaftCommand} {response : RaftResponse}
    (h : CoreStep c cmd c' response) (key : AppKey) (hroom : c'.generationAt key < u64Max) :
    (winOf key cmd response = none ∧ c'.desired.get key = c.desired.get key) ∨
      ∃ w, winOf key cmd response = some w ∧ w.expected = c.generationAt key ∧
        w.generation = saturatingAdd w.expected 1 ∧ c'.desired.get key = some w.entry := by
  cases h with
  | replayed => exact Or.inl ⟨winOf_replay _ _ _, rfl⟩
  | refused => exact Or.inl ⟨winOf_rejected _ _ _, rfl⟩
  | ran heff =>
    generalize hbody : cmd.body = body at heff
    cases heff with
    | recordRejected _ => exact Or.inl ⟨winOf_rejected _ _ _, rfl⟩
    | declined _ => exact Or.inl ⟨winOf_rejected _ _ _, rfl⟩
    | recordApplied _ => exact Or.inl ⟨by simp only [winOf, hbody], rfl⟩
    | acquired => exact Or.inl ⟨by simp only [winOf, hbody], rfl⟩
    | alreadyCompleted _ _ _ => exact Or.inl ⟨by simp only [winOf, hbody], rfl⟩
    | completed _ _ _ _ => exact Or.inl ⟨by simp only [winOf, hbody], rfl⟩
    | @redeclared ns app expected payload digest prev hget hexpected hsame _ =>
      by_cases hkey : key = ⟨ns, app⟩
      · -- the stored generation would be its own successor
        subst hkey
        rw [hexpected] at hsame
        have hgen : c.generationAt ⟨ns, app⟩ = expected := by
          simp [ClusterCore.generationAt, hget, hexpected]
        rw [hgen] at hroom
        exact absurd hsame.symm (saturatingAdd_one_ne hroom)
      · exact Or.inl ⟨by simp only [winOf, hbody, hkey, if_false], rfl⟩
    | @declared ns app expected payload digest _ _ hgen _ _ _ =>
      by_cases hkey : key = ⟨ns, app⟩
      · subst hkey
        refine Or.inr ⟨⟨expected, saturatingAdd expected 1, payload, digest⟩, ?_, hgen.symm,
          rfl, OrdMap.get_insert_self _ _ _⟩
        simp only [winOf, hbody, if_true, ApplyOutcome.ofGeneration, Option.map_some]
      · exact Or.inl ⟨by simp only [winOf, hbody, hkey, if_false],
          OrdMap.get_insert_of_ne _ _ hkey⟩

/-- Every command keeps the bounds, and the bounds themselves do not move. -/
theorem CoreStep.desiredBounded {c c' : ClusterCore} {cmd : RaftCommand}
    {response : RaftResponse} (h : CoreStep c cmd c' response) (hc : DesiredBounded c) :
    DesiredBounded c' ∧ c'.desiredMaxEntries = c.desiredMaxEntries ∧
      c'.desiredMaxTotalBytes = c.desiredMaxTotalBytes := by
  cases h with
  | replayed => exact ⟨hc, rfl, rfl⟩
  | refused => exact ⟨hc, rfl, rfl⟩
  | ran heff =>
    generalize cmd.body = body at heff
    cases heff with
    | declared _ _ _ _ hroom hbytes =>
      exact ⟨hc.declare hroom hbytes, rfl, rfl⟩
    | recordApplied | recordRejected | acquired | declined | redeclared
    | alreadyCompleted | completed => exact ⟨⟨hc.entries, hc.bytes⟩, rfl, rfl⟩

end Steps

/-! ## Gapless histories -/

namespace ClusterState

/-- The declarations accepted so far on `key`, and the entry they leave. -/
structure DesiredHistory (s : ClusterState) (key : AppKey) (ws : List Win) : Prop where
  generations : ws.map Win.generation = List.range' 1 ws.length
  expected : ws.map Win.expected = List.range ws.length
  stored : s.desired.get key = ws.getLast?.map Win.entry

/-- The history says at which generation the declaration stands. -/
theorem DesiredHistory.generationAt {s : ClusterState} {key : AppKey} {ws : List Win}
    (h : DesiredHistory s key ws) : s.core.generationAt key = ws.length := by
  change ((s.desired.get key).map DesiredEntry.generation).getD 0 = ws.length
  rw [h.stored]
  cases hlast : ws.getLast? with
  | none =>
    rw [List.getLast?_eq_none_iff.mp hlast]
    rfl
  | some w =>
    have hlast' := congrArg List.getLast? h.generations
    rw [List.getLast?_map, hlast, List.getLast?_range'] at hlast'
    have hpos : 0 < ws.length := List.length_pos_of_mem (List.mem_of_getLast? hlast)
    simp only [Option.map_some, Nat.pos_iff_ne_zero.mp hpos, if_false, Option.some.injEq] at hlast'
    simp only [Option.map_some, Win.entry, Option.getD_some]
    omega

section Runs

variable [Blake3]

variable {s : ClusterState} {key : AppKey}

theorem DesiredHistory.apply {ws : List Win} (h : DesiredHistory s key ws) (cmd : RaftCommand)
    (hroom : (s.apply cmd).1.core.generationAt key < u64Max) :
    DesiredHistory (s.apply cmd).1 key (ws ++ (winOf key cmd (s.apply cmd).2).toList) := by
  rcases (s.apply_coreStep cmd).desiredAt key hroom with
    ⟨hnone, hsame⟩ | ⟨w, hwin, hexpected, hgeneration, hstored⟩
  · change (s.apply cmd).1.desired.get key = s.desired.get key at hsame
    rw [hnone]
    simp only [Option.toList_none, List.append_nil]
    exact ⟨h.generations, h.expected, hsame.trans h.stored⟩
  · change (s.apply cmd).1.desired.get key = some w.entry at hstored
    have hgen : (s.apply cmd).1.core.generationAt key = w.generation := by
      change (((s.apply cmd).1.desired.get key).map DesiredEntry.generation).getD 0 = _
      rw [hstored]
      rfl
    rw [hgen, hgeneration] at hroom
    rw [saturatingAdd_eq_of_lt hroom] at hgeneration
    rw [h.generationAt] at hexpected
    rw [hwin]
    simp only [Option.toList_some]
    refine ⟨?_, ?_, ?_⟩
    · rw [List.map_append, h.generations, List.length_append, List.map_singleton,
        List.length_singleton, List.range'_concat, hgeneration, hexpected, Nat.one_mul,
        Nat.add_comm ws.length 1]
    · rw [List.map_append, h.expected, List.length_append, List.map_singleton,
        List.length_singleton, List.range_succ, hexpected]
    · rw [hstored, List.getLast?_concat]
      rfl

/-- A generation below the ceiling was below it before every step. -/
theorem generationAt_lt_of_apply {cmd : RaftCommand}
    (hroom : (s.apply cmd).1.core.generationAt key < u64Max) :
    s.core.generationAt key < u64Max := by
  rcases (s.apply_coreStep cmd).desiredAt key hroom with
    ⟨_, hsame⟩ | ⟨w, _, hexpected, hgeneration, hstored⟩
  · unfold ClusterCore.generationAt at hroom ⊢
    rw [hsame] at hroom
    exact hroom
  · have hgen : (s.apply cmd).1.core.generationAt key = w.generation := by
      unfold ClusterCore.generationAt
      rw [hstored]
      rfl
    rw [hgen, hgeneration] at hroom
    have hexact := saturatingAdd_eq_of_lt hroom
    rw [← hexpected]
    omega

theorem desiredHistory_run (hs : s.desired.get key = none) (cmds : List RaftCommand) :
    (runFrom apply s cmds).core.generationAt key < u64Max →
      DesiredHistory (runFrom apply s cmds) key (wins key (transitions apply s cmds)) := by
  refine runFrom_history (P := fun (s' : ClusterState) past =>
    s'.core.generationAt key < u64Max → DesiredHistory s' key (wins key past)) ?_ ?_ cmds
  · intro _
    exact ⟨rfl, rfl, hs⟩
  · intro s' past cmd ih hroom
    have hnext := (ih (generationAt_lt_of_apply hroom)).apply cmd hroom
    have hwins : wins key (past ++ [⟨s', cmd, (s'.apply cmd).2, (s'.apply cmd).1⟩]) =
        wins key past ++ (winOf key cmd (s'.apply cmd).2).toList := by
      unfold wins
      rw [List.filterMap_append]
      cases hwin : winOf key cmd (s'.apply cmd).2 <;> simp [hwin]
    rw [hwins]
    exact hnext

theorem desiredBounded_run (hs : DesiredBounded s.core) (cmds : List RaftCommand) :
    DesiredBounded (runFrom apply s cmds).core ∧
      (runFrom apply s cmds).desiredMaxEntries = s.desiredMaxEntries ∧
      (runFrom apply s cmds).desiredMaxTotalBytes = s.desiredMaxTotalBytes := by
  induction cmds generalizing s with
  | nil => exact ⟨hs, rfl, rfl⟩
  | cons cmd rest ih =>
    obtain ⟨hnext, hentries, hbytes⟩ := (s.apply_coreStep cmd).desiredBounded hs
    obtain ⟨hrest, hentries', hbytes'⟩ := ih hnext
    exact ⟨hrest, hentries'.trans hentries, hbytes'.trans hbytes⟩

/-- **Declarations form a gapless history.**  For every app, the applied
declarations of any run carry the generations 1, 2, 3, ... in order, the `n`-th of
them expected generation `n - 1`, the stored entry is that of the last of them,
and the map stays within its entry and byte bounds. -/
theorem desired_history_gapless (maxEntries maxTotalBytes : Nat) (cmds : List RaftCommand)
    (key : AppKey)
    (hroom : (runFrom apply (withDesiredLimits maxEntries maxTotalBytes) cmds).core.generationAt
      key < u64Max) :
    let start := withDesiredLimits maxEntries maxTotalBytes
    let ws := wins key (transitions apply start cmds)
    let s := runFrom apply start cmds
    ws.map Win.generation = List.range' 1 ws.length ∧
      ws.map Win.expected = List.range ws.length ∧
      s.desired.get key = ws.getLast?.map Win.entry ∧
      s.desired.size ≤ max maxEntries 1 ∧
      s.desiredTotalBytes ≤ max maxTotalBytes 1 := by
  intro start ws s
  have hhist : DesiredHistory s key ws := desiredHistory_run rfl cmds hroom
  have hinit : DesiredBounded start.core := ⟨Nat.zero_le _, Nat.zero_le _⟩
  obtain ⟨hbounded, hentries, hbytes⟩ := desiredBounded_run hinit cmds
  refine ⟨hhist.generations, hhist.expected, hhist.stored, ?_, ?_⟩
  · exact hbounded.entries.trans hentries.le
  · exact hbounded.bytes.trans hbytes.le

end Runs

/-- Two clients race for generation 1, and the next declaration arrives in an
envelope: one of the racers wins, and the generations are 1 and 2. -/
theorem racing_declarations_are_gapless :
    letI := Blake3.knownAnswers
    let digest : Digest := Octets.fill 32 7
    let cmds : List RaftCommand := [.putDesired "prod" "api" 0 [1] digest,
      .putDesired "prod" "api" 0 [] digest,
      .idempotent (Octets.fill 16 1) digest (.putDesired "prod" "api" 1 [] digest)]
    let ws := wins ⟨"prod", "api"⟩ (transitions apply (withDesiredLimits 2 1000) cmds)
    ws.length = 2 ∧ ws.map Win.generation = List.range' 1 ws.length :=
  letI := Blake3.knownAnswers
  ⟨by decide, (desired_history_gapless 2 1000
    [.putDesired "prod" "api" 0 [1] (Octets.fill 32 7),
      .putDesired "prod" "api" 0 [] (Octets.fill 32 7),
      .idempotent (Octets.fill 16 1) (Octets.fill 32 7)
        (.putDesired "prod" "api" 1 [] (Octets.fill 32 7))]
    ⟨"prod", "api"⟩ (by decide)).1⟩

/-- The production state has the default bounds. -/
example : withDesiredLimits desiredMaxEntriesDefault desiredMaxTotalBytesDefault = new := rfl

end ClusterState

/-! ## Completions -/

/-- Each completion belongs to the stored generation of its app, and there are no
more than the ceiling allows. -/
structure CompletionInv (c : ClusterCore) : Prop where
  fenced : ∀ k, c.finiteCompletions.get k = some () →
    ∃ entry, c.desired.get k.appKey = some entry ∧ entry.generation = k.generation
  bounded : c.finiteCompletions.size ≤ finiteCompletionMaxEntries

/-- The completion set as lookups. -/
theorem ClusterState.finiteCompleted_iff (s : ClusterState) (k : CompletionKey) :
    s.finiteCompleted k.ns k.app k.generation k.unitId = true ↔
      s.core.finiteCompletions.get k = some () := by
  unfold finiteCompleted
  rw [OrdMap.contains_eq_true_iff]
  exact ⟨fun ⟨_, h⟩ => h, fun h => ⟨(), h⟩⟩

/-- A declaration drops the completions of its own app and keeps the others. -/
theorem get_finiteCompletions_declare (c : ClusterCore) (key : AppKey) (entry : DesiredEntry)
    (k : CompletionKey) :
    (c.declare key entry).finiteCompletions.get k =
      if k.appKey = key then none else c.finiteCompletions.get k := by
  have hsame : k.appKey = key ↔ k.ns = key.ns ∧ k.app = key.app := by
    cases key
    simp [CompletionKey.appKey]
  unfold ClusterCore.declare
  simp only [OrdMap.get_retain]
  by_cases hkey : k.appKey = key
  · obtain ⟨hns, happ⟩ := hsame.mp hkey
    cases c.finiteCompletions.get k <;> simp [hkey, hns, happ]
  · have hkeep : k.ns ≠ key.ns ∨ k.app ≠ key.app := by
      rw [hsame, not_and_or] at hkey
      exact hkey
    cases c.finiteCompletions.get k <;> simp [hkey, hkeep]

theorem CompletionInv.declare (h : CompletionInv c) (key : AppKey) (entry : DesiredEntry) :
    CompletionInv (c.declare key entry) := by
  constructor
  · intro k hk
    rw [get_finiteCompletions_declare] at hk
    split at hk
    · simp at hk
    · rename_i hother
      obtain ⟨stored, hget, hgen⟩ := h.fenced k hk
      exact ⟨stored, (OrdMap.get_insert_of_ne _ _ hother).trans hget, hgen⟩
  · exact (OrdMap.size_retain_le _ _).trans h.bounded

theorem CompletionInv.complete (h : CompletionInv c) {key : CompletionKey} {entry : DesiredEntry}
    (hget : c.desired.get key.appKey = some entry) (hgen : entry.generation = key.generation)
    (hnew : c.finiteCompletions.get key = none)
    (hroom : c.finiteCompletions.size < finiteCompletionMaxEntries) :
    CompletionInv (c.complete key) := by
  constructor
  · intro k hk
    change (c.finiteCompletions.insert key ()).get k = some () at hk
    rw [OrdMap.get_insert] at hk
    split at hk
    · rename_i hkey
      rw [hkey]
      exact ⟨entry, hget, hgen⟩
    · exact h.fenced k hk
  · change (c.finiteCompletions.insert key ()).size ≤ finiteCompletionMaxEntries
    rw [OrdMap.size_insert_of_none () hnew]
    exact hroom

section Completions

variable [Blake3]

variable {c c' : ClusterCore} {cmd : RaftCommand} {response : RaftResponse}

theorem CoreStep.completionInv (h : CoreStep c cmd c' response) (hc : CompletionInv c) :
    CompletionInv c' := by
  cases h with
  | replayed => exact hc
  | refused => exact hc
  | ran heff =>
    generalize cmd.body = body at heff
    cases heff with
    | declared _ _ _ _ _ _ => exact hc.declare _ _
    | completed hget hgen hnew hroom => exact hc.complete hget hgen hnew hroom
    | recordApplied | recordRejected | acquired | declined | redeclared
    | alreadyCompleted => exact ⟨hc.fenced, hc.bounded⟩

/-- A completion that a step removes belongs to the app whose declaration the step
replaced, and that declaration has a new generation. -/
theorem CoreStep.completion_removed (h : CoreStep c cmd c' response) {k : CompletionKey}
    (hbefore : c.finiteCompletions.get k = some ()) (hafter : c'.finiteCompletions.get k = none) :
    c'.generationAt k.appKey ≠ c.generationAt k.appKey ∨ c.desired.get k.appKey = none := by
  have hkept : c'.finiteCompletions = c.finiteCompletions →
      c'.generationAt k.appKey ≠ c.generationAt k.appKey ∨ c.desired.get k.appKey = none := by
    intro hsame
    rw [hsame, hbefore] at hafter
    exact absurd hafter (by simp)
  cases h with
  | replayed => exact hkept rfl
  | refused => exact hkept rfl
  | ran heff =>
    generalize cmd.body = body at heff
    cases heff with
    | recordApplied | recordRejected | acquired | declined | redeclared
    | alreadyCompleted => exact hkept rfl
    | completed _ _ _ _ =>
      change (c.finiteCompletions.insert _ ()).get k = none at hafter
      rw [OrdMap.get_insert] at hafter
      split at hafter
      · simp at hafter
      · rw [hbefore] at hafter
        simp at hafter
    | @declared ns app expected payload digest _ _ hgen hfresh _ _ =>
      rw [get_finiteCompletions_declare] at hafter
      by_cases hkey : k.appKey = ⟨ns, app⟩
      · rw [hkey]
        cases hget : c.desired.get ⟨ns, app⟩ with
        | none => exact Or.inr rfl
        | some prev =>
          refine Or.inl (fun hsame => hfresh prev hget ?_)
          have hprev : c.generationAt ⟨ns, app⟩ = prev.generation := by
            simp [ClusterCore.generationAt, hget]
          have hnext : (c.declare ⟨ns, app⟩
              ⟨saturatingAdd expected 1, digest, payload⟩).generationAt ⟨ns, app⟩ =
              saturatingAdd expected 1 := by
            simp [ClusterCore.generationAt, ClusterCore.declare]
          rw [← hprev, ← hsame, hnext]
      · rw [if_neg hkey, hbefore] at hafter
        simp at hafter

/-- A declaration touches the completions of its own app only. -/
theorem CoreStep.completions_of_putDesired (h : CoreStep c cmd c' response) {ns app : String}
    {expected : Nat} {payload : List UInt8} {digest : Digest}
    (hcmd : cmd.body = .putDesired ns app expected payload digest) {k : CompletionKey}
    (hk : k.appKey ≠ ⟨ns, app⟩) : c'.finiteCompletions.get k = c.finiteCompletions.get k := by
  cases h with
  | replayed => rfl
  | refused => rfl
  | ran heff =>
    rw [hcmd] at heff
    cases heff with
    | declined | redeclared => rfl
    | declared => rw [get_finiteCompletions_declare, if_neg hk]

namespace ClusterState

theorem completionInv_run (cmds : List RaftCommand) :
    CompletionInv (runFrom apply new cmds).core := by
  have hstep : ∀ (s : ClusterState) (cmd : RaftCommand),
      CompletionInv s.core → CompletionInv (s.apply cmd).1.core :=
    fun s cmd hs => (s.apply_coreStep cmd).completionInv hs
  refine runFrom_invariant (P := fun s : ClusterState => CompletionInv s.core) hstep ?_ cmds
  exact ⟨fun k hk => absurd hk (by simp [core, new]), Nat.zero_le _⟩

/-- **Completions are fenced by generation.**  In every reachable state a recorded
completion names the stored generation of its app and the set is within its
ceiling.  A further command that declares an app leaves the completions of other
apps alone, and no command removes a completion while the generation of its app
stays. -/
theorem completions_fenced_by_generation (cmds : List RaftCommand) :
    let s := runFrom apply new cmds
    (∀ k : CompletionKey, s.finiteCompleted k.ns k.app k.generation k.unitId = true →
        s.desiredGeneration k.ns k.app = some k.generation) ∧
      s.finiteCompletions.size ≤ finiteCompletionMaxEntries ∧
      ∀ cmd : RaftCommand,
        (∀ ns app expected payload digest,
          cmd.body = .putDesired ns app expected payload digest →
          ∀ k : CompletionKey, k.appKey ≠ ⟨ns, app⟩ →
            (s.apply cmd).1.finiteCompleted k.ns k.app k.generation k.unitId =
              s.finiteCompleted k.ns k.app k.generation k.unitId) ∧
        ∀ k : CompletionKey, s.finiteCompleted k.ns k.app k.generation k.unitId = true →
          (s.apply cmd).1.desiredGeneration k.ns k.app = s.desiredGeneration k.ns k.app →
          (s.apply cmd).1.finiteCompleted k.ns k.app k.generation k.unitId = true := by
  intro s
  have hinv : CompletionInv s.core := completionInv_run cmds
  refine ⟨?_, hinv.bounded, fun cmd => ⟨?_, ?_⟩⟩
  · intro k hk
    obtain ⟨entry, hget, hgen⟩ := hinv.fenced k ((s.finiteCompleted_iff k).mp hk)
    change (s.desired.get k.appKey).map DesiredEntry.generation = some k.generation
    rw [show s.desired.get k.appKey = some entry from hget, Option.map_some, hgen]
  · intro ns app expected payload digest hcmd k hk
    rw [Bool.eq_iff_iff, finiteCompleted_iff, finiteCompleted_iff,
      (s.apply_coreStep cmd).completions_of_putDesired hcmd hk]
  · intro k hk hsame
    have hbefore := (s.finiteCompleted_iff k).mp hk
    rw [finiteCompleted_iff]
    by_contra hgone
    have hnone : (s.apply cmd).1.core.finiteCompletions.get k = none := by
      cases hget : (s.apply cmd).1.core.finiteCompletions.get k with
      | none => rfl
      | some _ => exact absurd hget hgone
    obtain ⟨entry, hget, _⟩ := hinv.fenced k hbefore
    rcases (s.apply_coreStep cmd).completion_removed hbefore hnone with hmoved | hmissing
    · exact hmoved (congrArg (fun g : Option Nat => g.getD 0) hsame)
    · exact absurd (hget.symm.trans hmissing) (by simp)

end ClusterState

end Completions

end Gump.Memory
