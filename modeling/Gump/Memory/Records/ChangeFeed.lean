/-
  Memory/Records/ChangeFeed.lean --- watches as a feed of committed changes.

  A run of the record machine commits a log of batches: one batch for each step
  that commits changes, stamped with the revision the step reaches.  The watch
  history holds exactly the part of that log above its floor (`FeedInv`), so a
  watcher that is served at all is served the log.  Folding the log over the
  digests a relist returned gives the digests of the later state.

  The machine is also moved by the cluster state outside of record commands: the
  controller authority grants leases, and its commits bump the revision.  Both
  moves are steps here.
-/
import Gump.Foundation.Run
import Gump.Memory.Records.Effect

set_option autoImplicit false

namespace Gump.Memory

open Gump.Foundation

/-! ## Moves -/

/-- A move of the record machine. -/
inductive MachineOp where
  | command (cmd : Command)
  /-- `bump_revision`: a commit outside of the record machine. -/
  | bumpRevision
  /-- A lease granted through `leases_mut` at the committed clock. -/
  | grantLease (purpose : LeasePurpose)
  deriving DecidableEq, Repr

namespace TypedRecordMachine

/-- What a move may do to the watch history before it commits its own changes:
nothing, retention at the new clock, or an explicit compaction. -/
inductive Pruning (m m' : TypedRecordMachine) (op : MachineOp) : WatchHistory → Prop where
  | none : Pruning m m' op m.watch
  | retention : Pruning m m' op (m.watch.retain m'.nowMs m.budgets.historyBytes)
  | compaction {through : Nat} : op = .command (.compact through) →
      Pruning m m' op (m.watch.compactThrough through)

end TypedRecordMachine

/-- Commit a batch unless it is empty. -/
def WatchHistory.record (w : WatchHistory) (batch : WatchBatch) (historyBudget : Nat) :
    WatchHistory :=
  if batch.changes = [] then w else w.push batch batch.atMs historyBudget

namespace TypedRecordMachine

/-- The batch that a step which ends in `m'` commits. -/
def batchOf (m' : TypedRecordMachine) (changes : List WatchChange) : WatchBatch :=
  { revision := m'.revision, atMs := m'.nowMs, changes := changes }

/-- What every move does. -/
structure Advance (m : TypedRecordMachine) (op : MachineOp) (m' : TypedRecordMachine)
    (changes : List WatchChange) : Prop where
  budgets : m'.budgets = m.budgets
  nowMs_le : m.nowMs ≤ m'.nowMs
  revision_le : m.revision ≤ u64Max → m.revision ≤ m'.revision ∧ m'.revision ≤ u64Max
  revision_lt : changes ≠ [] → m'.revision < u64Max → m.revision < m'.revision
  digests : m'.digests = changes.foldl WatchChange.onDigests m.digests
  pending : m.pending = [] → m'.pending = []
  watch : m.pending = [] → ∃ w, Pruning m m' op w ∧
    m'.watch = w.record (batchOf m' changes) m.budgets.historyBytes

theorem flushPending_eq (m : TypedRecordMachine) :
    m.flushPending =
      { m with
        pending := []
        watch := m.watch.record (batchOf m m.pending) m.budgets.historyBytes } := by
  unfold flushPending WatchHistory.record batchOf
  by_cases hp : m.pending = []
  · cases m
    simp only at hp
    simp [hp]
  · simp [hp]

theorem bumpBy_le {revision : Nat} (h : revision ≤ u64Max) (count : Nat) :
    revision ≤ bumpBy revision count ∧ bumpBy revision count ≤ u64Max := by
  induction count generalizing revision with
  | zero => exact ⟨le_refl _, h⟩
  | succ n ih =>
    obtain ⟨hle, hmax⟩ := ih (saturatingAdd_le revision 1)
    exact ⟨(le_saturatingAdd 1 h).trans hle, hmax⟩

theorem saturatingAdd_one_lt {revision next : Nat} (hle : saturatingAdd revision 1 ≤ next)
    (hlt : next < u64Max) : revision < next := by
  have hexact := saturatingAdd_eq_of_lt (lt_of_le_of_lt hle hlt)
  omega

/-- The clock move prunes by retention, or not at all. -/
theorem pruning_atTime (m m' : TypedRecordMachine) (op : MachineOp) (nowMs : Nat)
    (h : m'.nowMs = nowMs) : Pruning m m' op (m.atTime nowMs).watch := by
  unfold atTime
  simp only
  split
  · rw [← h]
    exact .retention
  · exact .none

theorem bump_le {m : TypedRecordMachine} (h : m.revision ≤ u64Max) :
    m.revision ≤ saturatingAdd m.revision 1 ∧ saturatingAdd m.revision 1 ≤ u64Max :=
  ⟨le_saturatingAdd 1 h, saturatingAdd_le _ _⟩

variable {op : MachineOp}

/-- The facts about a clock move that may also touch leases and the revision,
but commits no change. -/
theorem advance_quiet {m m' : TypedRecordMachine} {nowMs : Nat} (hle : m.nowMs ≤ nowMs)
    (hnow : m'.nowMs = nowMs) (hbudgets : m'.budgets = m.budgets)
    (hrecords : m'.records = m.records) (hpending : m'.pending = m.pending)
    (hwatch : m'.watch = (m.atTime nowMs).watch)
    (hrev : m'.revision = m.revision ∨ m'.revision = saturatingAdd m.revision 1) :
    Advance m op m' [] where
  budgets := hbudgets
  nowMs_le := hnow ▸ hle
  revision_le := by
    intro hmax
    rcases hrev with heq | heq
    · rw [heq]; exact ⟨le_refl _, hmax⟩
    · rw [heq]; exact bump_le hmax
  revision_lt := fun h => absurd rfl h
  digests := by
    unfold digests
    rw [hrecords]
    rfl
  pending := fun h => hpending.trans h
  watch := fun _ => ⟨_, pruning_atTime m m' op nowMs hnow, by rw [hwatch]; rfl⟩

/-- The facts about a step that commits lease revocations as one batch. -/
theorem advance_commitBatch {m m₁ : TypedRecordMachine} {changes : List WatchChange}
    (hle : m.nowMs ≤ m₁.nowMs) (hbudgets : m₁.budgets = m.budgets)
    (hrecords : m₁.records = m.records) (hpending : m₁.pending = m.pending)
    (hwatch : m₁.watch = (m.atTime m₁.nowMs).watch)
    (hquiet : ∀ digests, changes.foldl WatchChange.onDigests digests = digests) :
    Advance m op (m₁.commitBatch (saturatingAdd m.revision 1) changes) changes := by
  unfold commitBatch
  rw [flushPending_eq]
  refine ⟨hbudgets, hle, bump_le, ?_, ?_, fun _ => rfl, ?_⟩
  · intro _ hlt
    exact saturatingAdd_one_lt (le_refl _) hlt
  · rw [hquiet]
    unfold digests
    simp only
    rw [hrecords]
  · intro hp
    refine ⟨m₁.watch, hwatch ▸ pruning_atTime m _ op m₁.nowMs rfl, ?_⟩
    simp only [hpending, hp, List.nil_append, hbudgets]
    rfl

/-! ## The committed log -/

/-- The batches of a step: one, or none if nothing was committed. -/
def stepBatches (m' : TypedRecordMachine) (changes : List WatchChange) : List WatchBatch :=
  if changes = [] then [] else [batchOf m' changes]

/-- The batches committed along a run. -/
def committedBatches (ts : List (Transition TypedRecordMachine MachineOp (List WatchChange))) :
    List WatchBatch :=
  ts.flatMap (fun t => stepBatches t.after t.output)

/-- The batches of a run carry the committed changes of its steps, each once and
in order. -/
theorem changes_committedBatches
    (ts : List (Transition TypedRecordMachine MachineOp (List WatchChange))) :
    (committedBatches ts).flatMap WatchBatch.changes = ts.flatMap Transition.output := by
  induction ts with
  | nil => rfl
  | cons t rest ih =>
    have hhead : (stepBatches t.after t.output).flatMap WatchBatch.changes = t.output := by
      by_cases hnil : t.output = []
      · simp [stepBatches, hnil]
      · simp [stepBatches, hnil, batchOf]
    simp only [committedBatches, List.flatMap_cons, List.flatMap_append, hhead]
    rw [← ih]
    rfl

/-- The committed log, the watch history as a window over it, and an empty
pending queue. -/
structure FeedInv (m : TypedRecordMachine) (log : List WatchBatch) : Prop where
  pending : m.pending = []
  bounded : m.revision ≤ u64Max
  increasing : Increasing WatchBatch.revision log
  within : ∀ b ∈ log, b.revision ≤ m.revision
  covers : m.watch.CoversLog log

theorem feedInv_new (budgets : MemoryBudgets) : FeedInv (new budgets) [] :=
  ⟨rfl, Nat.zero_le _, List.Pairwise.nil, by simp, rfl⟩

theorem Pruning.coversLog {m m' : TypedRecordMachine} {w : WatchHistory} {log : List WatchBatch}
    (h : Pruning m m' op w) (hlog : Increasing WatchBatch.revision log)
    (hm : m.watch.CoversLog log) : w.CoversLog log := by
  cases h with
  | none => exact hm
  | retention => exact hm.retain hlog _ _
  | compaction _ => exact hm.compactThrough _

/-- One move extends the committed log by its batch. -/
theorem FeedInv.advance {m m' : TypedRecordMachine} {changes : List WatchChange}
    {log : List WatchBatch} (h : FeedInv m log) (hadv : Advance m op m' changes)
    (hlt : m'.revision < u64Max) : FeedInv m' (log ++ stepBatches m' changes) := by
  obtain ⟨hle, hmax⟩ := hadv.revision_le h.bounded
  have hwithin : ∀ b ∈ log, b.revision ≤ m'.revision := fun b hb => (h.within b hb).trans hle
  obtain ⟨w, hprune, hwatch⟩ := hadv.watch h.pending
  have hcovers : w.CoversLog log := hprune.coversLog h.increasing h.covers
  by_cases hnil : changes = []
  · have hrecord : m'.watch = w := by
      rw [hwatch]
      exact if_pos hnil
    refine ⟨hadv.pending h.pending, hmax, ?_, ?_, ?_⟩
    · simpa [stepBatches, hnil] using h.increasing
    · simpa [stepBatches, hnil] using hwithin
    · simpa [stepBatches, hnil, hrecord] using hcovers
  · have hrev : m.revision < m'.revision := hadv.revision_lt hnil hlt
    have hrecord : m'.watch =
        w.push (batchOf m' changes) m'.nowMs m.budgets.historyBytes := by
      rw [hwatch]
      exact if_neg hnil
    have hinc : Increasing WatchBatch.revision (log ++ [batchOf m' changes]) :=
      h.increasing.concat (fun b hb => lt_of_le_of_lt (h.within b hb) hrev)
    have hbatches : stepBatches m' changes = [batchOf m' changes] := if_neg hnil
    rw [hbatches]
    refine ⟨hadv.pending h.pending, hmax, hinc, ?_, ?_⟩
    · intro b hb
      rcases List.mem_append.mp hb with hold | hnew
      · exact hwithin b hold
      · rw [List.mem_singleton.mp hnew]
        exact le_refl _
    · rw [hrecord]
      exact hcovers.push hinc _ _

/-! ## Steps are advances -/

section Steps

variable [Blake3]

/-- One move, with the changes it commits. -/
def step (m : TypedRecordMachine) : MachineOp → TypedRecordMachine × List WatchChange
  | .command cmd => ((m.apply cmd).1, m.committed cmd)
  | .bumpRevision => (m.bumpRevision, [])
  | .grantLease purpose => ({ m with leases := (m.leases.grant purpose m.nowMs).1 }, [])

/-- Every effect of a command is an advance. -/
theorem Effect.advance {m m' : TypedRecordMachine} {cmd : Command} {ok : Bool}
    {changes : List WatchChange} (h : Effect m cmd m' ok changes) :
    Advance m (.command cmd) m' changes := by
  have hself : m.watch = (m.atTime m.nowMs).watch := by simp [atTime]
  cases h with
  | refused _ =>
    exact advance_quiet (le_refl _) rfl rfl rfl rfl hself (Or.inl rfl)
  | @mutated _ ops m₁ hops hperf =>
    rw [flushPending_eq]
    refine ⟨hperf.frame.budgets, hperf.frame.nowMs.ge, ?_, ?_, hperf.digests,
      fun _ => rfl, ?_⟩
    · intro hmax
      simp only [hperf.revision]
      exact bumpBy_le hmax ops.length
    · intro hne hlt
      cases ops with
      | nil => exact absurd rfl hne
      | cons op rest =>
        simp only [hperf.revision] at hlt ⊢
        exact saturatingAdd_one_lt (bumpBy_le (saturatingAdd_le m.revision 1) rest.length).1 hlt
    · intro hp
      refine ⟨m.watch, .none, ?_⟩
      simp only [hperf.frame.watch, hperf.frame.budgets, hperf.pending, hp, List.nil_append]
      rfl
  | compacted =>
    exact ⟨rfl, le_refl _, fun h => ⟨le_refl _, h⟩, fun h => absurd rfl h, rfl, id,
      fun _ => ⟨_, .compaction rfl, rfl⟩⟩
  | granted hle => exact advance_quiet hle rfl rfl rfl rfl rfl (Or.inr rfl)
  | renewed hle _ => exact advance_quiet hle rfl rfl rfl rfl rfl (Or.inr rfl)
  | renewFailed hle _ => exact advance_quiet hle rfl rfl rfl rfl rfl (Or.inl rfl)
  | revoked hget =>
    exact advance_commitBatch (le_refl _) rfl rfl rfl hself (fun _ => rfl)
  | advanced hle => exact advance_quiet hle rfl rfl rfl rfl rfl (Or.inl rfl)
  | noneDue hle _ => exact advance_quiet hle rfl rfl rfl rfl rfl (Or.inl rfl)
  | @expired nowMs hle _ =>
    refine advance_commitBatch hle rfl rfl rfl rfl ?_
    intro digests
    induction m.leases.due nowMs with
    | nil => rfl
    | cons id rest ih => exact ih

/-- Every move of the machine is an advance. -/
theorem step_advance (m : TypedRecordMachine) (op : MachineOp) :
    Advance m op (m.step op).1 (m.step op).2 := by
  have hself : m.watch = (m.atTime m.nowMs).watch := by simp [atTime]
  cases op with
  | command cmd => exact (m.apply_effect cmd).advance
  | bumpRevision => exact advance_quiet (le_refl _) rfl rfl rfl rfl hself (Or.inr rfl)
  | grantLease purpose =>
    exact advance_quiet (le_refl _) rfl rfl rfl rfl hself (Or.inl rfl)

/-! ## Runs -/

/-- Revisions never go back, and never pass the largest word. -/
theorem revision_le_run {m : TypedRecordMachine} (h : m.revision ≤ u64Max) (ops : List MachineOp) :
    m.revision ≤ (runFrom step m ops).revision ∧ (runFrom step m ops).revision ≤ u64Max := by
  induction ops generalizing m with
  | nil => exact ⟨le_refl _, h⟩
  | cons op rest ih =>
    obtain ⟨hle, hmax⟩ := (m.step_advance op).revision_le h
    obtain ⟨hle', hmax'⟩ := ih hmax
    exact ⟨hle.trans hle', hmax'⟩

/-- The committed clock never goes back. -/
theorem nowMs_le_run (m : TypedRecordMachine) (ops : List MachineOp) :
    m.nowMs ≤ (runFrom step m ops).nowMs := by
  induction ops generalizing m with
  | nil => exact le_refl _
  | cons op rest ih => exact (m.step_advance op).nowMs_le.trans (ih (m.step op).1)

/-- No change is left pending between moves. -/
theorem pending_run {m : TypedRecordMachine} (h : m.pending = []) (ops : List MachineOp) :
    (runFrom step m ops).pending = [] := by
  induction ops generalizing m with
  | nil => exact h
  | cons op rest ih => exact ih ((m.step_advance op).pending h)

/-- A run extends the committed log by the batches of its steps. -/
theorem FeedInv.run {m : TypedRecordMachine} {log : List WatchBatch} (h : FeedInv m log)
    (ops : List MachineOp) (hlt : (runFrom step m ops).revision < u64Max) :
    FeedInv (runFrom step m ops) (log ++ committedBatches (transitions step m ops)) := by
  induction ops generalizing m log with
  | nil => simpa [committedBatches] using h
  | cons op rest ih =>
    have hadv := m.step_advance op
    have hmax := (hadv.revision_le h.bounded).2
    have hnext := h.advance hadv (lt_of_le_of_lt (revision_le_run hmax rest).1 hlt)
    have hrest := ih hnext hlt
    simpa [committedBatches] using hrest

variable {ops : List MachineOp}

/-- The batches of a run are stamped after the revision it starts from. -/
theorem lt_revision_of_mem_committedBatches {m : TypedRecordMachine} (h : m.revision ≤ u64Max)
    (hlt : (runFrom step m ops).revision < u64Max) :
    ∀ b ∈ committedBatches (transitions step m ops), m.revision < b.revision := by
  induction ops generalizing m with
  | nil => simp [committedBatches]
  | cons op rest ih =>
    have hadv := m.step_advance op
    obtain ⟨hle, hmax⟩ := hadv.revision_le h
    intro b hb
    simp only [committedBatches, transitions_cons, List.flatMap_cons, List.mem_append] at hb
    rcases hb with hhead | htail
    · by_cases hnil : (m.step op).2 = []
      · simp [stepBatches, hnil] at hhead
      · have hb' : b = batchOf (m.step op).1 (m.step op).2 := by
          simpa [stepBatches, hnil] using hhead
        rw [hb']
        exact hadv.revision_lt hnil (lt_of_le_of_lt (revision_le_run hmax rest).1 hlt)
    · exact lt_of_le_of_lt hle (ih hmax hlt b htail)

/-- Folding the committed changes of a run over the digests it starts from gives
the digests it ends with. -/
theorem digests_run (m : TypedRecordMachine) (ops : List MachineOp) :
    (runFrom step m ops).digests =
      ((transitions step m ops).flatMap Transition.output).foldl
        WatchChange.onDigests m.digests := by
  induction ops generalizing m with
  | nil => rfl
  | cons op rest ih =>
    rw [runFrom_cons, ih, (m.step_advance op).digests]
    simp [List.foldl_append]

/-- What a watcher that relisted at `m` is told after a run. -/
theorem watchAfter_run {m : TypedRecordMachine} {log : List WatchBatch} (h : FeedInv m log)
    (hlt : (runFrom step m ops).revision < u64Max) : (runFrom step m ops).watchAfter m.revision =
      if m.revision < (runFrom step m ops).compactionFloor then
        .error ⟨(runFrom step m ops).compactionFloor⟩
      else .ok (committedBatches (transitions step m ops)) := by
  have hrun := h.run ops hlt
  have hold : itemsAfter WatchBatch.revision m.revision log = [] := itemsAfter_eq_nil h.within
  have hnew := itemsAfter_eq_self (lt_revision_of_mem_committedBatches h.bounded hlt)
  have hread := hrun.covers.watchAfter m.revision
  rw [itemsAfter_append, hold, hnew, List.nil_append] at hread
  exact hread

/-- The state a machine with these budgets reaches by a list of moves. -/
def reached (budgets : MemoryBudgets) (ops : List MachineOp) : TypedRecordMachine :=
  runFrom step (new budgets) ops

theorem feedInv_reached {budgets : MemoryBudgets} (hlt : (reached budgets ops).revision < u64Max) :
    FeedInv (reached budgets ops) (committedBatches (transitions step (new budgets) ops)) := by
  have hrun := (feedInv_new budgets).run ops hlt
  rw [List.nil_append] at hrun
  exact hrun

/-- **List, then watch.**  A relist at any reachable state, followed by the
batches that a later state still serves after the relisted revision, converges:
the batches are exactly those committed in between, with strictly increasing
revisions, they carry every committed change once and in order, and folding them
over the relisted digests gives the digests of the later state. -/
theorem relist_then_watch_converges (budgets : MemoryBudgets) (before after : List MachineOp)
    (batches : List WatchBatch)
    (hlt : (runFrom step (reached budgets before) after).revision < u64Max)
    (hwatch : (runFrom step (reached budgets before) after).watchAfter
      (reached budgets before).revision = .ok batches) :
    (batches.flatMap WatchBatch.changes).foldl WatchChange.onDigests
        (reached budgets before).digests =
      (runFrom step (reached budgets before) after).digests ∧
    batches.Pairwise (fun a b => a.revision < b.revision) ∧
    (∀ b ∈ batches, (reached budgets before).revision < b.revision) ∧
    batches = committedBatches (transitions step (reached budgets before) after) ∧
    batches.flatMap WatchBatch.changes =
      (transitions step (reached budgets before) after).flatMap Transition.output := by
  have hbefore : (reached budgets before).revision < u64Max :=
    lt_of_le_of_lt (revision_le_run (revision_le_run (Nat.zero_le _) before).2 after).1 hlt
  have hinv := feedInv_reached hbefore
  have hserved := watchAfter_run hinv hlt
  rw [hwatch] at hserved
  split at hserved
  · simp at hserved
  · have hbatches := Except.ok.inj hserved
    have hchanges := changes_committedBatches (transitions step (reached budgets before) after)
    have hlog := (hinv.run after hlt).increasing
    subst hbatches
    refine ⟨?_, (List.pairwise_append.mp hlog).2.1,
      lt_revision_of_mem_committedBatches hinv.bounded hlt, rfl, hchanges⟩
    rw [hchanges]
    exact (digests_run _ after).symm

end Steps

/-- A put after a relist of the empty machine, delivered as one batch. -/
theorem relist_then_put_converges :
    letI := Blake3.knownAnswers
    let key : RecordKey := ⟨.names, "api"⟩
    let digest : Digest := Blake3.hash [1]
    ([WatchChange.put key 1 digest]).foldl WatchChange.onDigests
        (reached MemoryBudgets.default []).digests =
      (runFrom step (reached MemoryBudgets.default [])
        [.command (.put key .absent [1] false)]).digests :=
  letI := Blake3.knownAnswers
  (relist_then_watch_converges MemoryBudgets.default []
    [.command (.put ⟨.names, "api"⟩ .absent [1] false)]
    [⟨1, 0, [.put ⟨.names, "api"⟩ 1 (Blake3.hash [1])]⟩] (by decide) (by decide)).1

end TypedRecordMachine

end Gump.Memory
