import Mathlib.Algebra.Order.BigOperators.Group.List
import Mathlib.Algebra.Order.Ring.Nat
import Tabletop.Proofs.Cancelling
import Tabletop.Proofs.SoundRoll

/-!
# What an operation can add

Dice grow by explosions, counts and tallies by addition. The weight of an operand bounds the numbers in
it: how many parts a die has, how large a count is, how many symbols a tally holds. An operation leaves
no more weight than its operands had, and a fixed amount more (`Unary.apply_within`,
`Binary.apply_within`).
-/

namespace Tabletop

open Rolling

/-- What one operation can add to the weight of its operands. -/
def growth : Nat := maxArgument * maxPoolSize

/-! ### Values -/

namespace Genesys.Tally

/-- How many symbols there are. -/
def weight (t : Tally) : Nat := (Symbol.all.map t.count).sum

variable {t u : Tally} {n : Nat}

theorem count_le_weight (t : Tally) (s : Symbol) : t.count s ≤ t.weight :=
  List.single_le_sum (fun _ _ => Nat.zero_le _) _ (List.mem_map_of_mem (by cases s <;> decide))

theorem count_ofSymbols_le (xs : List Symbol) (s : Symbol) : (ofSymbols xs).count s ≤ xs.count s := by
  rw [ofSymbols_eq_net]
  cases s <;> simp [net, count]

theorem weight_add_le (t u : Tally) : (t.add u).weight ≤ t.weight + u.weight := by
  have hcount (s : Symbol) : (t.add u).count s ≤ t.count s + u.count s := by
    have := count_ofSymbols_le (t.expand ++ u.expand) s
    rwa [List.count_append, count_expand, count_expand] at this
  have h := List.sum_le_sum (l := Symbol.all) fun s _ => hcount s
  rwa [List.sum_map_add] at h

theorem weight_ofSymbols_le {xs : List Symbol} (h : xs.length ≤ n) : (ofSymbols xs).weight ≤ 7 * n := by
  have hcount (m : Nat) (hm : m ∈ Symbol.all.map (ofSymbols xs).count) : m ≤ n := by
    obtain ⟨s, -, rfl⟩ := List.mem_map.1 hm
    exact Nat.le_trans (count_ofSymbols_le xs s) (Nat.le_trans List.count_le_length h)
  exact List.sum_le_card_nsmul _ n hcount

end Genesys.Tally

/-- No face of a narrative die shows more than two symbols. -/
theorem Genesys.Kind.length_symbols_le (k : Kind) (result : Int) : (k.symbols result).length ≤ 2 := by
  unfold symbols
  split
  · decide
  · rw [List.getD_eq_getElem?_getD]
    cases h : k.faces[result.toNat - 1]? with
    | none => decide
    | some face =>
      have hfaces : ∀ k ∈ all, ∀ face ∈ k.faces, face.length ≤ 2 := by decide
      exact hfaces k (by cases k <;> decide) face (List.mem_of_getElem? h)

theorem Genesys.Kind.weight_tally_le (k : Kind) {p : Pool} (hp : p.Sound) : (k.tally p).weight ≤ growth := by
  have hlength : (k.poolSymbols p).length ≤ 2 * maxPoolSize := by
    have hresults : (p.results.map fun r => (k.symbols r).length).sum ≤ p.results.length * 2 :=
      List.sum_le_card_nsmul _ 2 (fun m hm => by
        obtain ⟨r, -, rfl⟩ := List.mem_map.1 hm
        exact k.length_symbols_le r) |>.trans_eq (by simp)
    rw [poolSymbols, List.length_flatMap]
    have hsize : p.results.length ≤ maxPoolSize := by
      rw [Pool.results, List.length_map]
      exact hp.size
    omega
  exact Nat.le_trans (Tally.weight_ofSymbols_le hlength) (by decide)

namespace Value

def weight : Value → Nat
  | decimal _ => 0
  | successes n => n.natAbs
  | genesys t => t.weight

variable {v w z : Value}

theorem weight_of_ofFloat {x : Float} (h : ofFloat x = .ok z) : z.weight = 0 := by
  unfold ofFloat at h
  split at h
  · cases h
    rfl
  · cases h

theorem weight_of_add (h : v.add w = .ok z) : z.weight ≤ v.weight + w.weight := by
  have hdecimal {x : Float} (h : ofFloat x = .ok z) : z.weight ≤ v.weight + w.weight := by
    rw [weight_of_ofFloat h]
    exact Nat.zero_le _
  have hdouble {n : Int} (h : (do let y ← w.toDecimal; ofFloat ((← doubleOfCount n) + y)) = .ok z) :
      z.weight ≤ v.weight + w.weight := by
    obtain ⟨y, -, h⟩ := ok_of_bind h
    obtain ⟨x, -, h⟩ := ok_of_bind h
    exact hdecimal h
  cases v with
  | decimal x =>
    obtain ⟨y, -, h⟩ := ok_of_bind h
    exact hdecimal h
  | successes n =>
    cases w with
    | successes m =>
      cases h
      exact Int.natAbs_add_le n m
    | decimal y => exact hdouble h
    | genesys t => exact hdouble h
  | genesys t =>
    cases w with
    | genesys u =>
      cases h
      exact t.weight_add_le u
    | decimal y => cases h
    | successes n => cases h

theorem weight_of_negate (h : v.negate = .ok z) : z.weight ≤ v.weight := by
  cases v with
  | decimal x => exact Nat.le_of_eq (weight_of_ofFloat h)
  | successes n =>
    cases h
    exact Nat.le_of_eq (Int.natAbs_neg n)
  | genesys t => cases h

theorem weight_of_subtract (h : v.subtract w = .ok z) : z.weight ≤ v.weight + w.weight := by
  obtain ⟨u, hu, h⟩ := ok_of_bind h
  exact Nat.le_trans (weight_of_add h) (Nat.add_le_add_left (weight_of_negate hu) _)

end Value

/-! ### Dice and pools -/

/-- How many rolled faces the die is the sum of. -/
def Die.weight (d : Die) : Nat := d.parts.length

theorem Die.roll_weight (sides : Nat) : (Die.roll sides).Yields fun d => d.weight = 1 := by
  rw [Die.roll]
  split
  · exact .pure rfl
  · exact (Yields.any _).bind fun _ _ => .pure rfl

theorem Die.reroll_weight (d : Die) : d.reroll.Yields fun e => e.weight = 1 := by
  cases d with
  | plain sides shown => exact roll_weight sides
  | compound sides parts => exact (Yields.any _).bind fun _ _ => .pure rfl

namespace Pool

/-- The weight of the heaviest die. -/
def weight (p : Pool) : Nat := (p.dice.map Die.weight).foldr max 0

/-- The shapes are such as may be asked for. -/
def Asked (p : Pool) : Prop := ∀ s ∈ p.shapes, s.count ≤ maxArgument ∧ s.sides ≤ maxArgument

variable {p q r : Pool} {n k : Nat} {faces : List Int}

theorem weight_le_iff : p.weight ≤ n ↔ ∀ d ∈ p.dice, d.weight ≤ n := by
  rw [weight]
  induction p.dice with
  | nil => simp
  | cons d ds ih => simp [ih]

theorem weight_le_of_mem {d : Die} (h : d ∈ p.dice) : d.weight ≤ p.weight := weight_le_iff.1 (Nat.le_refl _) d h

theorem merge_within (h : p.merge q = .ok r) (hp : p.Asked) (hq : q.Asked) :
    r.Asked ∧ r.weight ≤ p.weight + q.weight := by
  obtain ⟨-, rfl⟩ := ofDice_ok_iff.1 h
  refine ⟨List.forall_mem_append.2 ⟨hp, hq⟩, weight_le_iff.2 fun d hd => ?_⟩
  rcases List.mem_append.1 hd with hd | hd
  · exact Nat.le_trans (weight_le_of_mem hd) (Nat.le_add_right _ _)
  · exact Nat.le_trans (weight_le_of_mem hd) (Nat.le_add_left _ _)

theorem asked_of_shapesOf {counts sides : Argument} (hc : counts.Bounded) (hs : sides.Bounded) {shapes : List Shape}
    (h : shapesOf counts sides = .ok shapes) : ∀ s ∈ shapes, s.count ≤ maxArgument ∧ s.sides ≤ maxArgument := by
  have hsides := sides_mem_of_shapesOf h
  refine fun s hmem => ⟨hc _ ?_, hs _ (hsides s hmem)⟩
  unfold shapesOf at h
  split at h
  · cases h
    obtain rfl := List.mem_singleton.1 hmem
    exact List.mem_singleton_self _
  · cases h
    obtain ⟨n, -, rfl⟩ := List.mem_map.1 hmem
    exact List.mem_singleton_self _
  · cases h
    obtain ⟨n, hn, rfl⟩ := List.mem_map.1 hmem
    exact hn
  · split at h
    · cases h
      obtain ⟨i, hi, rfl⟩ := List.getElem_of_mem hmem
      simp [Argument.values]
    · cases h

theorem roll_within {counts sides : Argument} (hc : counts.Bounded) (hs : sides.Bounded) :
    (Pool.roll counts sides).Yields fun p => p.Asked ∧ p.weight ≤ 1 := by
  refine Yields.bind (.liftM fun shapes h => asked_of_shapesOf hc hs h) fun shapes hshapes => ?_
  refine (Yields.any _).bind fun _ _ => ?_
  refine Yields.bind (.mapM fun sides _ => Die.roll_weight sides) fun ds hds => .liftM fun p hp => ?_
  obtain ⟨-, rfl⟩ := ofDice_ok_iff.1 hp
  exact ⟨hshapes, weight_le_iff.2 fun d hd => Nat.le_of_eq (hds d hd)⟩

end Pool

/-- The change keeps the shapes of the pool, and no die in it is heavier. -/
structure Change.Within (p : Pool) (n : Nat) (c : Change) : Prop where
  shapes : c.pool.shapes = p.shapes
  pool : c.pool.weight ≤ n
  shown : ∀ e ∈ c.breakdown, e.die.weight ≤ n

theorem Change.Made.within {p : Pool} {n : Nat} {c : Change} (h : c.Made p (·.weight ≤ n)) : c.Within p n :=
  ⟨h.shapes, Pool.weight_le_iff.2 h.dice, h.shown⟩

namespace Pool

variable {p : Pool} {n k : Nat} {c : Change} {faces : List Int} {cap : Int}

theorem keep_within {chosen : List (Die × Nat)} (hc : ∀ x ∈ chosen, x.1 ∈ p.dice) (h : p.keep chosen = .ok c) :
    c.Within p p.weight := (made_of_keep (fun _ hd => weight_le_of_mem hd) hc h).within

/-! ### Exploding -/

/-- No die of the chain is heavier than `n`, and it has no more than `k` extra dice, all of one part. -/
structure Chain.Within (n k : Nat) (c : Chain) : Prop where
  root : c.root.weight ≤ n
  length : c.extras.length ≤ k
  extras : ∀ d ∈ c.extras, d.weight = 1

namespace Chain

variable {c : Chain}

theorem Within.grow (h : c.Within n k) (faces : List Int) : (c.grow faces).Yields (Within n (k + 1)) := by
  rw [Chain.grow]
  split
  · refine (Die.roll_weight _).bind fun extra hextra => .pure ⟨h.root, ?_, ?_⟩
    · simpa using h.length
    · exact List.forall_mem_append.2 ⟨h.extras, List.forall_mem_singleton.2 hextra⟩
  · exact .pure ⟨h.root, Nat.le_succ_of_le h.length, h.extras⟩

theorem Within.mono {k' : Nat} (h : c.Within n k) (hk : k ≤ k') : c.Within n k' :=
  ⟨h.root, Nat.le_trans h.length hk, h.extras⟩

theorem Within.dice (h : c.Within n k) : ∀ d ∈ c.dice, d.weight ≤ n + 1 :=
  List.forall_mem_cons.2 ⟨Nat.le_succ_of_le h.root, fun d hd => by rw [h.extras d hd]; omega⟩

theorem Within.sum (h : c.Within n k) : c.sum.weight ≤ n + k := by
  rw [Chain.sum]
  split
  · exact Nat.le_add_right_of_le h.root
  · rw [Die.weight, Die.extend, Die.parts, List.length_append, List.length_map]
    exact Nat.add_le_add h.root h.length

end Chain

theorem start_within (p : Pool) (k : Nat) : ∀ c ∈ p.chains, c.Within p.weight k := by
  intro c hc
  obtain ⟨d, hd, rfl⟩ := List.mem_map.1 hc
  exact ⟨weight_le_of_mem hd, Nat.zero_le _, List.forall_mem_nil _⟩

/-- Every generation adds one die to a chain at most, and at least one to the dice that were rolled. -/
theorem settle_within {left size : Nat} {cs : List Chain} (hsize : size ≤ maxPoolSize)
    (h : ∀ c ∈ cs, c.Within n size) :
    (settle faces cap left size cs).Yields fun cs => ∀ c ∈ cs, c.Within n maxPoolSize := by
  refine Yields.mono (settle_yields_of (I := fun size cs => size ≤ maxPoolSize ∧ ∀ c ∈ cs, c.Within n size)
    (fun size cs hI hlive hsize => ?_) ⟨hsize, h⟩) ?_
  · exact .mono (.mapM fun c hc => (hI.2 c hc).grow faces) fun cs' hcs' =>
      ⟨hsize, fun c hc => (hcs' c hc).mono (Nat.add_le_add_left hlive size)⟩
  · exact fun cs ⟨⟨size, hsize, hcs⟩, _⟩ c hc => (hcs c hc).mono hsize

theorem lineUp_within {cs : List Chain} (h : ∀ c ∈ cs, c.Within n k) (hc : p.lineUp cs = .ok c) :
    c.Within p (n + 1) := (made_of_lineUp (fun c hc => (h c hc).dice) hc).within

theorem explosion_within (hp : p.Sound) (faces : List Int) (cap : Int) :
    (p.explosion faces cap).Yields fun cs => ∀ c ∈ cs, c.Within p.weight maxPoolSize :=
  (Yields.any _).bind fun _ _ => settle_within hp.size (p.start_within p.size)

theorem explodeOnce_within (p : Pool) (faces : List Int) :
    (p.explodeOnce faces).Yields (Change.Within p (p.weight + 1)) := by
  have hgrow : (p.chains.mapM (Chain.grow faces)).Yields fun cs => ∀ c ∈ cs, c.Within p.weight 1 :=
    .mapM fun c hc => (p.start_within 0 c hc).grow faces
  exact (Yields.any _).bind fun _ _ => hgrow.bind fun cs hcs => .liftM fun c hc => lineUp_within hcs hc

theorem explodeRecursive_within (hp : p.Sound) (faces : List Int) (cap : Int) :
    (p.explodeRecursive faces cap).Yields (Change.Within p (p.weight + 1)) :=
  (explosion_within hp faces cap).bind fun _ hcs => .liftM fun _ hc => lineUp_within hcs hc

theorem explodeAdditive_within (hp : p.Sound) (faces : List Int) (cap : Int) :
    (p.explodeAdditive faces cap).Yields (Change.Within p (p.weight + maxPoolSize)) := by
  refine (explosion_within hp faces cap).bind fun cs hcs => .liftM fun c hc => ?_
  exact (made_of_sums (fun c hc => (hcs c hc).sum) hc).within

/-! ### Rolling again -/

structure Replacement.Within (n : Nat) (r : Replacement) : Prop where
  die : r.die.weight ≤ n
  shown : ∀ e ∈ r.entries, e.die.weight ≤ n

theorem rerollDie_within (preference : Preference) {d : Die} (h : d.weight ≤ n) :
    (rerollDie preference faces d).Yields (Replacement.Within (n + 1)) := by
  have hd : d.weight ≤ n + 1 := Nat.le_succ_of_le h
  rw [rerollDie]
  split
  · refine d.reroll_weight.bind fun new hnew => .pure ?_
    have hn : new.weight ≤ n + 1 := by omega
    rw [Preference.replace]
    split
    · exact ⟨hn, by simp [hd, hn]⟩
    · exact ⟨hd, by simp [hd, hn]⟩
  · exact .pure ⟨hd, by simp [Replacement.unchanged, hd]⟩

theorem chase_within {left : Nat} {again : Bool} {d : Die} (h : d.weight ≤ n + 1) :
    (chase faces cap left again d).Yields (Replacement.Within (n + 1)) := by
  refine chase_yields_of (I := fun d => d.weight ≤ n + 1) (R := fun _ => Replacement.Within (n + 1))
    (fun d again hd _ => ⟨hd, by simp [hd]⟩) (fun d hd _ => ?_) h
  refine d.reroll_weight.mono fun new hnew => ⟨by omega, fun r hr => ⟨hr.die, ?_⟩⟩
  exact List.forall_mem_cons.2 ⟨hd, hr.shown⟩

theorem replaceAll_within {f : Die → Rolling Replacement}
    (hf : ∀ d : Die, d.weight ≤ p.weight → (f d).Yields (Replacement.Within (p.weight + 1))) :
    (do p.replaceAll (← p.dice.mapM f) : Rolling Change).Yields (Change.Within p (p.weight + 1)) := by
  have hmap : (p.dice.mapM f).Yields fun rs => ∀ r ∈ rs, r.Within (p.weight + 1) :=
    .mapM fun d hd => hf d (weight_le_of_mem hd)
  exact hmap.bind fun rs hrs => .liftM fun c hc =>
    (made_of_replaceAll (fun r hr => (hrs r hr).die) (fun r hr => (hrs r hr).shown) hc).within

end Pool

theorem Change.Within.mono {p : Pool} {c : Change} {n n' : Nat} (h : c.Within p n) (hn : n ≤ n') : c.Within p n' :=
  ⟨h.shapes, Nat.le_trans h.pool hn, fun e he => Nat.le_trans (h.shown e he) hn⟩

/-- An operator makes no die heavier by more dice than a pool can hold. -/
theorem PoolMode.apply_within (mode : PoolMode) {p : Pool} (hp : p.Sound) (arg : Argument) (cap : Int) :
    (mode.apply p arg cap).Yields (Change.Within p (p.weight + maxPoolSize)) := by
  have hone : p.weight + 1 ≤ p.weight + maxPoolSize := Nat.add_le_add_left (by decide) _
  have hkeep {chosen : List (Die × Nat)} (hc : ∀ x ∈ chosen, x.1 ∈ p.dice) :
      (liftM (p.keep chosen) : Rolling Change).Yields (Change.Within p (p.weight + maxPoolSize)) :=
    .liftM fun c h => (Pool.keep_within hc h).mono (Nat.le_add_right _ _)
  have hreplace {f : Die → Rolling Pool.Replacement}
      (hf : ∀ d : Die, d.weight ≤ p.weight → (f d).Yields (Pool.Replacement.Within (p.weight + 1))) :
      (do p.replaceAll (← p.dice.mapM f) : Rolling Change).Yields (Change.Within p (p.weight + maxPoolSize)) :=
    (Pool.replaceAll_within hf).mono fun _ hc => hc.mono hone
  cases mode with
  | keep mode =>
    cases mode with
    | high =>
      exact (Yields.any _).bind fun _ _ => hkeep fun _ hx => Pool.fst_mem_of_mem_ascending (List.mem_of_mem_drop hx)
    | low =>
      exact (Yields.any _).bind fun _ _ => hkeep fun _ hx => Pool.fst_mem_of_mem_ascending (List.mem_of_mem_take hx)
    | exact => exact hkeep fun _ hx => List.fst_mem_of_mem_zipIdx (List.mem_filter.1 hx).1
  | explode mode =>
    cases mode with
    | once => exact (p.explodeOnce_within _).mono fun _ hc => hc.mono hone
    | recursive => exact (Pool.explodeRecursive_within hp _ cap).mono fun _ hc => hc.mono hone
    | additive => exact Pool.explodeAdditive_within hp _ cap
  | reroll mode =>
    cases mode with
    | once => exact hreplace fun _ hd => Pool.rerollDie_within .newer hd
    | better => exact hreplace fun _ hd => Pool.rerollDie_within .higher hd
    | worse => exact hreplace fun _ hd => Pool.rerollDie_within .lower hd
    | recursive =>
      exact (Yields.any _).bind fun _ _ => hreplace fun _ hd => Pool.chase_within (Nat.le_succ_of_le hd)

end Tabletop
