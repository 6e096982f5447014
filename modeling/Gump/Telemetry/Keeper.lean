/-
  Telemetry/Keeper.lean --- keeper selection by rendezvous hashing
  (`keeper.rs`).

  From three nodes on, the two with the highest score of a shard keep its
  telemetry; below that every node does.  Either way the keepers are the nodes
  before which fewer than two come, and the score of a node does not depend on the
  others: a change of the node set moves at most one keeper.
-/
import Mathlib.Data.List.Sort
import Mathlib.Data.Prod.Lex
import Gump.Foundation.TopRanked
import Gump.Memory.Records.Record

set_option autoImplicit false

namespace Gump.Telemetry

open Gump.Foundation Gump.Memory

/-- Desired keeper replicas when the cluster is large enough. -/
def targetKeeperReplicas : Nat := 2

/-- Live nodes from which on the target is selected. -/
def rendezvousMinNodes : Nat := 3

/-- The nodes in order, each once. -/
def uniqueNodes (nodes : List Nat) : List Nat := (nodes.insertionSort (· ≤ ·)).dedup

theorem nodup_uniqueNodes (nodes : List Nat) : (uniqueNodes nodes).Nodup := List.nodup_dedup _

theorem mem_uniqueNodes {nodes : List Nat} {n : Nat} : n ∈ uniqueNodes nodes ↔ n ∈ nodes := by
  simp [uniqueNodes]

theorem toFinset_uniqueNodes (nodes : List Nat) :
    (uniqueNodes nodes).toFinset = nodes.toFinset := by
  ext n
  simp [mem_uniqueNodes]

/-- The nodes in order are told by the set. -/
theorem uniqueNodes_congr {nodes nodes' : List Nat} (h : ∀ n, n ∈ nodes ↔ n ∈ nodes') :
    uniqueNodes nodes = uniqueNodes nodes' := by
  have hsorted (l : List Nat) : (uniqueNodes l).Pairwise (· ≤ ·) :=
    (List.pairwise_insertionSort (· ≤ ·) l).sublist (List.dedup_sublist _)
  refine List.Perm.eq_of_pairwise (fun a b _ _ => le_antisymm) (hsorted nodes) (hsorted nodes') ?_
  rw [List.perm_ext_iff_of_nodup (nodup_uniqueNodes _) (nodup_uniqueNodes _)]
  simpa [mem_uniqueNodes] using h

section Keepers

variable [Blake3] (shardKey : List UInt8)

def rendezvousScore (node : Nat) : Octets 32 := Blake3.hash (shardKey ++ toLeBytes node)

/-- Higher digest first, then the lower node. -/
def cmpScoreDesc (a b : Nat × Octets 32) : Ordering := (compare b.2 a.2).then (compare a.1 b.1)

/-- Select the keepers of a shard. -/
def selectKeepers (nodes : List Nat) : List Nat :=
  let uniq := uniqueNodes nodes
  if uniq.length < rendezvousMinNodes then uniq
  else
    let scored := uniq.map fun n => (n, rendezvousScore shardKey n)
    ((scored.insertionSort fun a b => (cmpScoreDesc a b).isLE).take targetKeeperReplicas).map
      Prod.fst

/-- What the comparison sorts by. -/
def rendezvousKey (node : Nat) : (Octets 32)ᵒᵈ ×ₗ Nat :=
  toLex (OrderDual.toDual (rendezvousScore shardKey node), node)

variable {shardKey} {nodes : List Nat}

theorem rendezvousKey_injective : Function.Injective (rendezvousKey shardKey) :=
  fun _ _ h => congrArg (fun k => (ofLex k).2) h

theorem isLE_cmpScoreDesc {a b : Nat} :
    (cmpScoreDesc (a, rendezvousScore shardKey a) (b, rendezvousScore shardKey b)).isLE ↔
      rendezvousKey shardKey a ≤ rendezvousKey shardKey b := by
  rw [rendezvousKey, rendezvousKey, Prod.Lex.toLex_le_toLex, OrderDual.toDual_lt_toDual]
  simp only [cmpScoreDesc, OrderDual.toDual_inj]
  rcases lt_trichotomy (rendezvousScore shardKey b) (rendezvousScore shardKey a) with h | h | h
  · simp [compare_lt_iff_lt.mpr h, h]
  · simp [h, Nat.isLE_compare]
  · simp [compare_gt_iff_gt.mpr h, h.not_gt, h.ne]

/-- The keepers of a larger cluster are the front of the nodes in the order of
the key. -/
theorem exists_ranking (shardKey : List UInt8) (nodes : List Nat)
    (hlarge : ¬(uniqueNodes nodes).length < rendezvousMinNodes) :
    ∃ ranking : List Nat, ranking.Perm (uniqueNodes nodes) ∧
      (ranking.Pairwise fun a b => rendezvousKey shardKey a < rendezvousKey shardKey b) ∧
      selectKeepers shardKey nodes = ranking.take targetKeeperReplicas := by
  let le (a b : Nat) : Prop := rendezvousKey shardKey a ≤ rendezvousKey shardKey b
  have : Std.Total le := ⟨fun a b => le_total _ _⟩
  have : IsTrans Nat le := ⟨fun _ _ _ => le_trans⟩
  have hperm := List.perm_insertionSort le (uniqueNodes nodes)
  refine ⟨(uniqueNodes nodes).insertionSort le, hperm, ?_, ?_⟩
  · have hdistinct : ((uniqueNodes nodes).insertionSort le).Nodup :=
      hperm.nodup_iff.mpr (nodup_uniqueNodes nodes)
    refine ((List.pairwise_insertionSort le (uniqueNodes nodes)).and hdistinct).imp ?_
    rintro a b ⟨hle, hne⟩
    exact lt_of_le_of_ne hle fun heq => hne (rendezvousKey_injective heq)
  · -- Sorting the scored nodes is sorting the nodes by the key.
    rw [selectKeepers, if_neg hlarge]
    simp only
    rw [← List.map_insertionSort le _ (fun n => (n, rendezvousScore shardKey n)) (uniqueNodes nodes)
      fun a _ b _ => isLE_cmpScoreDesc.symm, ← List.map_take, List.map_map]
    exact List.map_id _

/-- **Keepers.**  The keepers are the nodes before which fewer than two come. -/
theorem mem_selectKeepers {n : Nat} :
    n ∈ selectKeepers shardKey nodes ↔
      n ∈ topRanked (rendezvousKey shardKey) targetKeeperReplicas nodes.toFinset := by
  rw [← toFinset_uniqueNodes]
  by_cases hsmall : (uniqueNodes nodes).length < rendezvousMinNodes
  · -- Fewer than two others come before a node when there are at most two.
    rw [selectKeepers, if_pos hsmall, mem_topRanked, List.mem_toFinset]
    refine ⟨fun hn => ⟨hn, ?_⟩, And.left⟩
    have hlt : (((uniqueNodes nodes).toFinset.filter fun b =>
        rendezvousKey shardKey b < rendezvousKey shardKey n)).card <
          (uniqueNodes nodes).toFinset.card :=
      Finset.card_lt_card (Finset.filter_ssubset.mpr ⟨n, by simpa using hn, by simp⟩)
    rw [List.toFinset_card_of_nodup (nodup_uniqueNodes nodes)] at hlt
    simp only [rendezvousMinNodes] at hsmall
    exact lt_of_lt_of_le hlt (by simp only [targetKeeperReplicas]; omega)
  · obtain ⟨ranking, hperm, hsorted, hselect⟩ := exists_ranking shardKey nodes hsmall
    rw [hselect, mem_take_iff hsorted, List.toFinset_eq_of_perm _ _ hperm]

theorem nodup_selectKeepers (shardKey : List UInt8) (nodes : List Nat) :
    (selectKeepers shardKey nodes).Nodup ∧ (selectKeepers shardKey nodes).length =
      if nodes.toFinset.card < rendezvousMinNodes then nodes.toFinset.card
      else targetKeeperReplicas := by
  rw [← toFinset_uniqueNodes, List.toFinset_card_of_nodup (nodup_uniqueNodes nodes)]
  by_cases hsmall : (uniqueNodes nodes).length < rendezvousMinNodes
  · rw [selectKeepers, if_pos hsmall, if_pos hsmall]
    exact ⟨nodup_uniqueNodes nodes, rfl⟩
  · obtain ⟨ranking, hperm, -, hselect⟩ := exists_ranking shardKey nodes hsmall
    rw [hselect, if_neg hsmall, List.length_take, hperm.length_eq]
    simp only [rendezvousMinNodes, targetKeeperReplicas] at hsmall ⊢
    exact ⟨(hperm.nodup_iff.mpr (nodup_uniqueNodes nodes)).sublist (List.take_sublist _ _),
      by omega⟩

/-- The keepers are told by the set of nodes: two of three or more, all of fewer.
Without a node that is no keeper they stay, without a keeper the other stays, and
with one more node at most one changes. -/
theorem keepers_stable (shardKey : List UInt8) (nodes : List Nat) :
    (∀ nodes', (∀ n, n ∈ nodes' ↔ n ∈ nodes) →
      selectKeepers shardKey nodes' = selectKeepers shardKey nodes) ∧
    (selectKeepers shardKey nodes).Nodup ∧ (∀ n ∈ selectKeepers shardKey nodes, n ∈ nodes) ∧
    (3 ≤ nodes.toFinset.card → (selectKeepers shardKey nodes).length = 2) ∧
    (nodes.toFinset.card < 3 → ∀ n ∈ nodes, n ∈ selectKeepers shardKey nodes) ∧
    (∀ x ∈ nodes, x ∉ selectKeepers shardKey nodes → ∀ n,
      n ∈ selectKeepers shardKey (nodes.filter (· ≠ x)) ↔ n ∈ selectKeepers shardKey nodes) ∧
    (∀ x ∈ selectKeepers shardKey nodes, ∀ n ∈ selectKeepers shardKey nodes, n ≠ x →
      n ∈ selectKeepers shardKey (nodes.filter (· ≠ x))) ∧
    ∀ x, (∀ n ∈ selectKeepers shardKey (x :: nodes), n ≠ x → n ∈ selectKeepers shardKey nodes) ∧
      ∀ a ∈ selectKeepers shardKey nodes, ∀ b ∈ selectKeepers shardKey nodes,
        a ∉ selectKeepers shardKey (x :: nodes) → b ∉ selectKeepers shardKey (x :: nodes) →
          a = b := by
  obtain ⟨hnodup, hlength⟩ := nodup_selectKeepers shardKey nodes
  have herase (x : Nat) : (nodes.filter (· ≠ x)).toFinset = nodes.toFinset.erase x := by
    ext n
    simp [and_comm]
  refine ⟨fun nodes' h => ?_, hnodup, fun n hn => ?_, fun h => ?_, fun h n hn => ?_,
    fun x hx hout n => ?_, fun x hx n hn hne => ?_, fun x => ⟨fun n hn hne => ?_, ?_⟩⟩
  · rw [selectKeepers, selectKeepers, uniqueNodes_congr h]
  · exact List.mem_toFinset.mp (mem_topRanked.mp (mem_selectKeepers.mp hn)).1
  · exact hlength.trans (if_neg (Nat.not_lt.mpr h))
  · have hsmall : (uniqueNodes nodes).length < rendezvousMinNodes := by
      rwa [← List.toFinset_card_of_nodup (nodup_uniqueNodes nodes), toFinset_uniqueNodes]
    rw [selectKeepers, if_pos hsmall]
    exact mem_uniqueNodes.mpr hn
  · rw [mem_selectKeepers] at hout
    rw [mem_selectKeepers, mem_selectKeepers, herase,
      topRanked_erase (List.mem_toFinset.mpr hx) hout]
  · rw [mem_selectKeepers] at hn ⊢
    rw [herase]
    exact mem_topRanked_erase hn hne
  · rw [mem_selectKeepers, List.toFinset_cons] at hn
    exact mem_selectKeepers.mpr (mem_topRanked_of_insert hn hne)
  · intro a ha b hb ha' hb'
    rw [mem_selectKeepers] at ha hb ha' hb'
    rw [List.toFinset_cons] at ha' hb'
    exact displaced_unique rendezvousKey_injective ha hb ha' hb'

end Keepers

end Gump.Telemetry
