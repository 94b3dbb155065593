import Mathlib.Data.List.Perm.Subperm
import Mathlib.Data.List.Sigma
import Tabletop.Proofs.Keeping

/-!
# Dice are kept from the stable ascending order

The ascending order of a pool is the only row of its dice that goes by result and leaves equal dice in
pool order (`Pool.stableOrder_iff`). Whatever is kept of the pool, the breakdown shows all its dice at
their places and strikes out those whose places were not chosen (`Pool.exists_keeps`). Dice that were
kept are in order already (`Pool.sorted_of_pairwise`), so that keeping twice is keeping once.
-/

namespace Tabletop.Pool

variable {p : Pool} {row row' low high : List (Die × Nat)} {c c' : Change} {n : Nat}

/-! ### The order -/

/-- The die counts for less than the other one, or for as much from an earlier place. -/
def Earlier (a b : Die × Nat) : Prop := a.1.result < b.1.result ∨ a.1.result = b.1.result ∧ a.2 < b.2

/-- All dice of the pool with their places, by result, and equal ones in pool order. -/
structure StableOrder (p : Pool) (row : List (Die × Nat)) : Prop where
  perm : row.Perm p.dice.zipIdx
  pairwise : row.Pairwise Earlier

theorem StableOrder.eq (h : p.StableOrder row) (h' : p.StableOrder row') : row = row' := by
  refine (h.perm.trans h'.perm.symm).eq_of_pairwise (fun a b _ _ hab hba => ?_) h.pairwise h'.pairwise
  unfold Earlier at hab hba
  omega

theorem ascending_perm (p : Pool) : p.ascending.Perm p.dice.zipIdx := List.mergeSort_perm _ _

theorem nodup_ascending (p : Pool) : (p.ascending.map Prod.snd).Nodup :=
  (p.ascending_perm.map Prod.snd).nodup_iff.2 (List.nodup_zipIdx_map_snd _)

/-- Equal dice stay in the order of their places in the row that was sorted, and those are their places
in the pool. -/
theorem pairwise_ascending (p : Pool) :
    p.ascending.Pairwise fun a b => a.1.result ≤ b.1.result ∧ (b.1.result ≤ a.1.result → a.2 ≤ b.2) := by
  let le : Die × Nat → Die × Nat → Bool := fun a b => a.1.result ≤ b.1.result
  have htrans : ∀ a b c, le a b → le b c → le a c := fun a b c hab hbc => by
    simp only [le, decide_eq_true_eq] at hab hbc ⊢
    omega
  have htotal : ∀ a b, le a b || le b a := fun a b => by
    simp only [le, Bool.or_eq_true, decide_eq_true_eq]
    omega
  have hsorted := List.pairwise_mergeSort (List.zipIdxLE_trans htrans) (List.zipIdxLE_total htotal) p.dice.zipIdx.zipIdx
  have hplace : ∀ a ∈ p.dice.zipIdx.zipIdx.mergeSort (List.zipIdxLE le), a.1.2 = a.2 := by
    intro a ha
    have hget := List.mem_zipIdx_iff_getElem?.1 (List.mem_mergeSort.1 ha)
    rw [List.getElem?_zipIdx, Nat.zero_add] at hget
    obtain ⟨d, -, hd⟩ := Option.map_eq_some_iff.1 hget
    rw [← hd]
  have hnumbered : (p.dice.zipIdx.zipIdx.mergeSort (List.zipIdxLE le)).map (fun a => a.1) = p.ascending :=
    List.mergeSort_zipIdx
  rw [← hnumbered, List.pairwise_map]
  refine hsorted.imp_of_mem fun {a b} ha hb hab => ?_
  rw [hplace a ha, hplace b hb]
  simp only [List.zipIdxLE, le, decide_eq_true_eq] at hab
  split at hab
  · exact ⟨‹_›, fun hba => by simpa [hba] using hab⟩
  · cases hab

theorem stableOrder_iff : p.StableOrder row ↔ row = p.ascending := by
  have hascending : p.StableOrder p.ascending := by
    refine ⟨p.ascending_perm, ?_⟩
    refine (p.pairwise_ascending.and (List.pairwise_map.1 p.nodup_ascending)).imp fun h => ?_
    unfold Earlier
    omega
  refine ⟨fun h => h.eq hascending, ?_⟩
  rintro rfl
  exact hascending

/-- Where the order is cut, no die before the cut counts for more than one after it. -/
theorem le_of_ascending_eq (h : p.ascending = low ++ high) : ∀ a ∈ low, ∀ b ∈ high, a.1.result ≤ b.1.result := by
  have hpairwise := p.pairwise_ascending
  rw [h] at hpairwise
  exact fun a ha b hb => ((List.pairwise_append.1 hpairwise).2.2 a ha b hb).1

theorem mem_of_ascending_eq (h : p.ascending = low ++ high) {a : Die × Nat} (ha : a ∈ p.dice.zipIdx) :
    a ∈ low ∨ a ∈ high := by
  rw [← List.mem_append, ← h]
  exact p.ascending_perm.mem_iff.2 ha

/-! ### The dice in order -/

/-- The dice from the lowest result to the highest. -/
def sorted (p : Pool) : List Die := p.ascending.map Prod.fst

theorem sorted_perm (p : Pool) : p.sorted.Perm p.dice := by
  have hperm := p.ascending_perm.map Prod.fst
  rwa [List.zipIdx_map_fst] at hperm

theorem pairwise_sorted (p : Pool) : p.sorted.Pairwise fun d e => d.result ≤ e.result :=
  List.pairwise_map.2 (p.pairwise_ascending.imp fun h => h.1)

theorem sorted_of_pairwise (h : p.dice.Pairwise fun d e => d.result ≤ e.result) : p.sorted = p.dice := by
  have hascending : p.ascending = p.dice.zipIdx := by
    refine List.mergeSort_of_pairwise ?_
    rw [← List.zipIdx_map_fst 0 p.dice, List.pairwise_map] at h
    exact h.imp fun hle => decide_eq_true hle
  rw [sorted, hascending, List.zipIdx_map_fst]

/-! ### What is kept -/

/-- The change keeps these dice of the pool, which are given with their places. The breakdown shows all
dice where they were, and strikes out those at other places. -/
structure Keeps (p : Pool) (row : List (Die × Nat)) (c : Change) : Prop where
  chosen : row.Subperm p.dice.zipIdx
  pool_eq : c.pool = ⟨row.map Prod.fst, p.shapes⟩
  shown : c.breakdown.map Entry.die = p.dice
  dropped_iff : ∀ i e, c.breakdown[i]? = some e → (e.dropped = true ↔ i ∉ row.map Prod.snd)
  not_added : ∀ e ∈ c.breakdown, e.added = false

theorem Keeps.size_eq (h : p.Keeps row c) : c.pool.size = row.length := by
  rw [h.pool_eq, size, List.length_map]

theorem exists_keeps (hp : p.size ≤ maxPoolSize) (h : row.Subperm p.dice.zipIdx) :
    ∃ c, p.keep row = .ok c ∧ p.Keeps row c := by
  have hlen : row.length ≤ p.size := h.length_le.trans_eq List.length_zipIdx
  obtain ⟨c, hkeep⟩ := exists_keep hp hlen
  obtain ⟨-, rfl⟩ := changeTo_ok_iff.1 hkeep
  refine ⟨_, hkeep, h, rfl, ?_, fun i e he => ?_, fun e he => ?_⟩
  · rw [List.map_map]
    exact List.zipIdx_map_fst 0 p.dice
  · rw [List.getElem?_map, List.getElem?_zipIdx, Nat.zero_add] at he
    obtain ⟨a, ha, rfl⟩ := Option.map_eq_some_iff.1 he
    obtain ⟨d, -, rfl⟩ := Option.map_eq_some_iff.1 ha
    simp
  · obtain ⟨a, -, rfl⟩ := List.mem_map.1 he
    rfl

theorem keepHigh_keeps (hp : p.size ≤ maxPoolSize) (n : Nat) :
    ∃ c, p.keepHigh n = .ok c ∧ p.Keeps (p.ascending.rtake n) c := by
  rw [keepHigh_eq]
  exact exists_keeps hp ((List.drop_sublist _ _).subperm.trans p.ascending_perm.subperm)

theorem keepLow_keeps (hp : p.size ≤ maxPoolSize) (n : Nat) :
    ∃ c, p.keepLow n = .ok c ∧ p.Keeps (p.ascending.take n) c := by
  rw [keepLow_eq]
  exact exists_keeps hp ((List.take_sublist _ _).subperm.trans p.ascending_perm.subperm)

/-! ### Keeping twice -/

theorem pool_keepHigh (h : p.keepHigh n = .ok c) : c.pool = ⟨p.sorted.rtake n, p.shapes⟩ := by
  rw [keepHigh_eq] at h
  obtain ⟨-, rfl⟩ := changeTo_ok_iff.1 h
  simp only [sorted, List.rtake, List.map_drop, List.length_map]

theorem pool_keepLow (h : p.keepLow n = .ok c) : c.pool = ⟨p.sorted.take n, p.shapes⟩ := by
  rw [keepLow_eq] at h
  obtain ⟨-, rfl⟩ := changeTo_ok_iff.1 h
  simp only [sorted, List.map_take]

theorem keepHigh_keepHigh (hp : p.size ≤ maxPoolSize) (n m : Nat) :
    ∃ c c' c'', p.keepHigh m = .ok c ∧ c.pool.keepHigh n = .ok c' ∧ p.keepHigh (min n m : Nat) = .ok c'' ∧
      c'.pool = c''.pool := by
  obtain ⟨c, hkeep⟩ := exists_keepHigh hp m
  have hsize : c.pool.size ≤ maxPoolSize := by
    rw [size_keepHigh hkeep]
    omega
  obtain ⟨c', hkeep'⟩ := exists_keepHigh hsize n
  obtain ⟨c'', hkeep''⟩ := exists_keepHigh hp (min n m)
  have hpool := pool_keepHigh hkeep
  have hsorted : c.pool.sorted = p.sorted.rtake m := by
    rw [hpool]
    exact sorted_of_pairwise (p.pairwise_sorted.sublist (List.drop_sublist _ _))
  have htwice : (p.sorted.rtake m).rtake n = p.sorted.rtake (min n m) := by
    simp only [List.rtake_eq_reverse_take_reverse, List.reverse_reverse, List.take_take]
  exact ⟨c, c', c'', hkeep, hkeep', hkeep'', by
    rw [pool_keepHigh hkeep', hsorted, htwice, hpool, pool_keepHigh hkeep'']⟩

theorem keepLow_keepLow (hp : p.size ≤ maxPoolSize) (n m : Nat) :
    ∃ c c' c'', p.keepLow m = .ok c ∧ c.pool.keepLow n = .ok c' ∧ p.keepLow (min n m : Nat) = .ok c'' ∧
      c'.pool = c''.pool := by
  obtain ⟨c, hkeep, hc⟩ := keepLow_keeps hp m
  have hsize : c.pool.size ≤ maxPoolSize := by
    rw [hc.size_eq, List.length_take, length_ascending]
    omega
  obtain ⟨c', hkeep', -⟩ := keepLow_keeps hsize n
  obtain ⟨c'', hkeep'', -⟩ := keepLow_keeps hp (min n m)
  have hpool := pool_keepLow hkeep
  have hsorted : c.pool.sorted = p.sorted.take m := by
    rw [hpool]
    exact sorted_of_pairwise (p.pairwise_sorted.sublist (List.take_sublist _ _))
  exact ⟨c, c', c'', hkeep, hkeep', hkeep'', by
    rw [pool_keepLow hkeep', hsorted, List.take_take, hpool, pool_keepLow hkeep'']⟩

/-! ### The lowest dice and the others -/

theorem keepLow_append_keepHigh (hlow : p.keepLow (p.size - n : Nat) = .ok c) (hhigh : p.keepHigh n = .ok c') :
    c.pool.dice ++ c'.pool.dice = p.sorted := by
  have hlen : p.sorted.length = p.size := p.sorted_perm.length_eq
  rw [pool_keepLow hlow, pool_keepHigh hhigh, List.rtake, hlen]
  exact List.take_append_drop _ _

theorem total_keepLow_add_keepHigh (hlow : p.keepLow (p.size - n : Nat) = .ok c) (hhigh : p.keepHigh n = .ok c') :
    c.pool.total + c'.pool.total = p.total := by
  have hresults : (c.pool.results ++ c'.pool.results).Perm p.results := by
    rw [results, results, ← List.map_append, keepLow_append_keepHigh hlow hhigh]
    exact p.sorted_perm.map Die.result
  rw [total, total, ← sum_append, sum_of_perm hresults, total]

/-! ### The operators -/

/-- The highest dice are the last ones of the stable order, and the lowest dice are the first ones, so that
neither kept dice nor dropped ones can be on the wrong side of each other. Both together are the whole pool if
the numbers of dice add up to it, and keeping twice is keeping the fewer once. Exact dice are kept in pool order.
Each breakdown strikes out just the places that were not kept. -/
theorem keeps_of_order (hp : p.size ≤ maxPoolSize) :
    (∀ row, p.StableOrder row ↔ row = p.ascending) ∧
    (∀ n : Nat, ∃ c, p.keepHigh n = .ok c ∧ p.Keeps (p.ascending.rtake n) c ∧ c.pool.size = min n p.size ∧
      ∀ a ∈ p.ascending.rtake n, ∀ b ∈ p.dice.zipIdx, b ∉ p.ascending.rtake n → b.1.result ≤ a.1.result) ∧
    (∀ n : Nat, ∃ c, p.keepLow n = .ok c ∧ p.Keeps (p.ascending.take n) c ∧ c.pool.size = min n p.size ∧
      ∀ a ∈ p.ascending.take n, ∀ b ∈ p.dice.zipIdx, b ∉ p.ascending.take n → a.1.result ≤ b.1.result) ∧
    (∀ n ≤ p.size, ∃ c c', p.keepLow (p.size - n : Nat) = .ok c ∧ p.keepHigh n = .ok c' ∧
      c.pool.dice ++ c'.pool.dice = p.ascending.map Prod.fst ∧ c.pool.total + c'.pool.total = p.total) ∧
    (∀ n m : Nat, ∃ c c' c'', p.keepHigh m = .ok c ∧ c.pool.keepHigh n = .ok c' ∧
      p.keepHigh (min n m : Nat) = .ok c'' ∧ c'.pool = c''.pool) ∧
    (∀ n m : Nat, ∃ c c' c'', p.keepLow m = .ok c ∧ c.pool.keepLow n = .ok c' ∧
      p.keepLow (min n m : Nat) = .ok c'' ∧ c'.pool = c''.pool) ∧
    ∀ results : List Int, ∃ c, p.keepExact results = .ok c ∧
      p.Keeps (p.dice.zipIdx.filter fun a => results.contains a.1.result) c ∧
      c.pool.dice = p.dice.filter fun d => results.contains d.result := by
  refine ⟨fun row => stableOrder_iff, fun n => ?_, fun n => ?_, fun n _ => ?_, keepHigh_keepHigh hp,
    keepLow_keepLow hp, fun results => ?_⟩
  · obtain ⟨c, hkeep, hc⟩ := keepHigh_keeps hp n
    have hcut : p.ascending = p.ascending.rdrop n ++ p.ascending.rtake n := (List.take_append_drop _ _).symm
    refine ⟨c, hkeep, hc, size_keepHigh hkeep, fun a ha b hb hnot => ?_⟩
    exact le_of_ascending_eq hcut b ((mem_of_ascending_eq hcut hb).resolve_right hnot) a ha
  · obtain ⟨c, hkeep, hc⟩ := keepLow_keeps hp n
    have hcut : p.ascending = p.ascending.take n ++ p.ascending.drop n := (List.take_append_drop _ _).symm
    refine ⟨c, hkeep, hc, ?_, fun a ha b hb hnot => ?_⟩
    · rw [hc.size_eq, List.length_take, length_ascending]
    · exact le_of_ascending_eq hcut a ha b ((mem_of_ascending_eq hcut hb).resolve_left hnot)
  · obtain ⟨c, hlow, -⟩ := keepLow_keeps hp (p.size - n)
    obtain ⟨c', hhigh⟩ := exists_keepHigh hp n
    exact ⟨c, c', hlow, hhigh, keepLow_append_keepHigh hlow hhigh, total_keepLow_add_keepHigh hlow hhigh⟩
  · have hchosen : (p.dice.zipIdx.filter fun a => results.contains a.1.result).Subperm p.dice.zipIdx :=
      List.filter_sublist.subperm
    obtain ⟨c, hkeep, hc⟩ := exists_keeps hp hchosen
    refine ⟨c, hkeep, hc, ?_⟩
    rw [hc.pool_eq, ← List.zipIdx_map_fst 0 p.dice, List.filter_map, List.zipIdx_map_fst]
    rfl

/-- Two dice are equal: the later one is kept with the highest, and the earlier one with the lowest. -/
theorem keeps_of_order_tie :
    let p : Pool := ⟨[.plain 6 4, .plain 6 2, .compound 6 [1, 3], .plain 6 5], [⟨4, 6⟩]⟩
    p.size ≤ maxPoolSize ∧
      (∃ c, p.keepHigh 2 = .ok c ∧ p.Keeps [(.compound 6 [1, 3], 2), (.plain 6 5, 3)] c) ∧
      ∃ c, p.keepLow 2 = .ok c ∧ p.Keeps [(.plain 6 2, 1), (.plain 6 4, 0)] c := by
  intro p
  have hp : p.size ≤ maxPoolSize := by decide
  obtain ⟨horder, hhigh, hlow, -⟩ := keeps_of_order hp
  have hrow : p.StableOrder [(.plain 6 2, 1), (.plain 6 4, 0), (.compound 6 [1, 3], 2), (.plain 6 5, 3)] := by
    refine ⟨by decide, ?_⟩
    simp [Earlier, Die.result]
  obtain ⟨c, hc, hkeeps, -⟩ := hhigh 2
  obtain ⟨c', hc', hkeeps', -⟩ := hlow 2
  rw [← (horder _).1 hrow] at hkeeps hkeeps'
  exact ⟨hp, ⟨c, hc, hkeeps⟩, c', hc', hkeeps'⟩

end Tabletop.Pool
