import Mathlib.Data.List.DropRight
import Mathlib.Data.List.Sort
import Tabletop.Pool.Keep
import Tabletop.Proofs.SoundPool

/-!
# The highest dice are the largest results

The highest dice are cut from the ascending order of the pool, which goes by what the dice count for and
not by their last faces. So their results are the largest ones, in ascending order (`Pool.keepHigh_ok`).
-/

namespace Tabletop

/-- The so many largest of the numbers, the larger ones first. -/
def largest (k : Nat) (ns : List Int) : List Int := (ns.mergeSort fun n m => m ≤ n).take k

theorem length_largest (k : Nat) (ns : List Int) : (largest k ns).length = min k ns.length := by
  rw [largest, List.length_take, (List.mergeSort_perm ns _).length_eq]

/-- Descending order is ascending order from the end. -/
theorem mergeSort_descending (ns : List Int) :
    ns.mergeSort (fun n m => m ≤ n) = (ns.mergeSort fun n m => n ≤ m).reverse := by
  have hdescending : (ns.mergeSort fun n m => m ≤ n).Pairwise (· ≥ ·) := List.pairwise_mergeSort' (· ≥ ·) ns
  have hascending : (ns.mergeSort fun n m => n ≤ m).Pairwise (· ≤ ·) := List.pairwise_mergeSort' (· ≤ ·) ns
  have hperm := (List.mergeSort_perm ns fun n m => m ≤ n).trans
    ((List.reverse_perm _).trans (List.mergeSort_perm ns fun n m => n ≤ m)).symm
  refine hperm.eq_of_pairwise (fun n m _ _ h h' => Int.le_antisymm h' h) hdescending ?_
  exact List.pairwise_reverse.2 hascending

namespace Pool

variable {p : Pool} {k : Nat} {c : Change}

theorem length_ascending (p : Pool) : p.ascending.length = p.size := by
  rw [ascending, (List.mergeSort_perm _ _).length_eq, List.length_zipIdx, size]

theorem results_ascending (p : Pool) :
    p.ascending.map (fun d => d.1.result) = p.results.mergeSort fun n m => n ≤ m := by
  have hplaces : p.dice.zipIdx.map (fun d => d.1.result) = p.results := by
    rw [results, ← List.zipIdx_map_fst 0 p.dice, List.map_map, List.zipIdx_map_fst]
    rfl
  rw [← hplaces]
  exact List.map_mergeSort fun _ _ _ _ => rfl

/-- The highest dice are the last ones of the ascending order. -/
theorem keepHigh_eq (p : Pool) (k : Nat) : p.keepHigh k = p.keep (p.ascending.rtake k) := by
  have hcut : p.size - (min (k : Int) p.size).toNat = p.ascending.length - k := by
    rw [length_ascending]
    omega
  rw [keepHigh, hcut, List.rtake]

/-- The lowest dice are the first ones of the ascending order. -/
theorem keepLow_eq (p : Pool) (k : Nat) : p.keepLow k = p.keep (p.ascending.take k) := by
  rw [keepLow, if_neg (Int.not_lt.2 (Int.natCast_nonneg k)), Int.toNat_natCast]

/-- Keeping the highest dice leaves the largest results, lowest first. -/
theorem keepHigh_ok (h : p.keepHigh k = .ok c) : c.pool.results = (largest k p.results).reverse := by
  rw [keepHigh_eq] at h
  obtain ⟨-, rfl⟩ := changeTo_ok_iff.1 h
  rw [largest, mergeSort_descending, ← results_ascending, List.rtake_eq_reverse_take_reverse]
  simp only [results, List.map_reverse, List.map_take, List.map_map]
  rfl

theorem size_keepHigh (h : p.keepHigh k = .ok c) : c.pool.size = min k p.size := by
  have hlen := congrArg List.length (keepHigh_ok h)
  rwa [List.length_reverse, length_largest, results, results, List.length_map, List.length_map] at hlen

theorem total_keepHigh (h : p.keepHigh k = .ok c) : c.pool.total = sum (largest k p.results) := by
  rw [total, keepHigh_ok h]
  exact sum_of_perm (List.reverse_perm _)

/-- There are no more dice after keeping than before. -/
theorem exists_keep (hp : p.size ≤ maxPoolSize) {chosen : List (Die × Nat)} (h : chosen.length ≤ p.size) :
    ∃ c, p.keep chosen = .ok c :=
  ⟨_, p.changeTo_ok (by rw [List.length_map]; exact Nat.le_trans h hp) _⟩

theorem exists_keepHigh (hp : p.size ≤ maxPoolSize) (k : Nat) : ∃ c, p.keepHigh k = .ok c := by
  rw [keepHigh_eq]
  refine exists_keep hp ?_
  rw [List.rtake, List.length_drop, length_ascending]
  omega

end Pool

end Tabletop
