import Tabletop.Proofs.Endless
import Tabletop.Proofs.Explosions
import Tabletop.Proofs.Remaking

/-!
# Additive and recursive explosion

Both explosions follow the same chains. The recursive one lays the dice of all chains out in a row, and
the additive one adds up each chain to one die (`Regroups`). So they take the same faces, and fail alike:
the size of the pool is checked before each generation, so that once the chains have settled no pool is
too large that was not so before.
-/

namespace Tabletop.Pool

open Rolling

variable {p : Pool} {faces : List Int} {cap : Int} {block : List Int} {blocks : List (List Int)}
variable {cs cs' : List Chain} {c : Chain}

/-! ### The die that a chain makes -/

/-- The extra dice of all chains are plain. -/
def PlainExtras (cs : List Chain) : Prop := ∀ c ∈ cs, ∀ d ∈ c.extras, ∃ n shown, d = .plain n shown

theorem plainExtras_chains (p : Pool) : PlainExtras p.chains := by
  intro c hc d hd
  obtain ⟨root, -, rfl⟩ := List.mem_map.1 hc
  cases hd

theorem Deals.plainExtras (h : Deals faces cs block cs') (hcs : PlainExtras cs) : PlainExtras cs' := by
  induction h with
  | nil => exact hcs
  | live _ _ ih =>
    obtain ⟨hc, hcs⟩ := List.forall_mem_cons.1 hcs
    refine List.forall_mem_cons.2 ⟨fun d hd => ?_, ih hcs⟩
    rcases List.mem_append.1 hd with hd | hd
    · exact hc d hd
    · exact ⟨_, _, List.mem_singleton.1 hd⟩
  | still _ _ ih =>
    obtain ⟨hc, hcs⟩ := List.forall_mem_cons.1 hcs
    exact List.forall_mem_cons.2 ⟨hc, ih hcs⟩

theorem Grows.plainExtras (h : Grows faces cs blocks cs') (hcs : PlainExtras cs) : PlainExtras cs' := by
  induction h with
  | settled => exact hcs
  | next _ hdeals _ ih => exact ih (hdeals.plainExtras hcs)

namespace Chain

/-- A chain of blanks is live, once it has extra dice. -/
theorem Linked.one_le_sides (h : c.Linked faces) (hstill : c.isLive faces = false) (hextras : c.extras ≠ []) :
    1 ≤ c.root.sides := by
  refine Nat.pos_of_ne_zero fun hzero => ?_
  have hroot : c.root = .plain 0 0 := h.root.eq_of_sides hzero
  have hlast : c.last = .plain 0 0 := h.last.1.eq_of_sides (h.last.2.trans hzero)
  have hmem : c.root ∈ c.dice.dropLast := by
    rw [dice, List.dropLast_cons_of_ne_nil hextras]
    exact List.mem_cons_self
  have htriggers := h.triggering _ hmem
  rw [isLive, hlast, ← hroot, htriggers] at hstill
  cases hstill

/-- The die that a settled chain makes has only parts that it can show. -/
theorem Linked.valid_sum (h : c.Linked faces) (hstill : c.isLive faces = false)
    (hplain : ∀ d ∈ c.extras, ∃ n shown, d = .plain n shown) : c.sum.Valid := by
  rw [Chain.sum]
  split
  · exact h.root
  · have hsides := h.one_le_sides hstill fun he => ‹¬_› (by rw [he]; rfl)
    refine ⟨List.append_ne_nil_of_left_ne_nil h.root.parts_ne_nil _, fun part hpart => ?_⟩
    rcases List.mem_append.1 hpart with hpart | hpart
    · exact h.root.parts hsides part hpart
    · obtain ⟨d, hd, rfl⟩ := List.mem_map.1 hpart
      obtain ⟨hvalid, hsize⟩ := h.extras d hd
      obtain ⟨n, shown, rfl⟩ := hplain d hd
      rw [← hsize] at hsides ⊢
      exact hvalid.parts hsides shown List.mem_cons_self

theorem result_sum_eq (c : Chain) : c.sum.result = Tabletop.sum (c.dice.map Die.result) := by
  rw [c.result_sum, dice, List.map_cons, sum_cons]

end Chain

/-! ### The two explosions -/

/-- Each chain has grown from a valid die, and the die that it makes is valid as well. -/
theorem explosion_yields_sums (hp : ∀ d ∈ p.dice, d.Valid) :
    (p.explosion faces cap).Yields fun cs => ∀ c ∈ cs, c.root.Valid ∧ c.sum.Valid := by
  intro s cs s' h c hc
  obtain ⟨blocks, -, -, hgrows⟩ := explosion_ok hp h
  obtain ⟨hlinked, hstill⟩ := (hgrows.explosion hp).linked c hc
  exact ⟨hlinked.root, hlinked.valid_sum hstill (hgrows.plainExtras (plainExtras_chains p) c hc)⟩

/-- The dice of settled chains are too many only if those of the pool were, and then nothing exploded. -/
theorem length_dice_of_explosion (hp : ∀ d ∈ p.dice, d.Valid) {s s' : Faces}
    (h : (p.explosion faces cap).on s = (.ok cs, s')) :
    (p.size ≤ maxPoolSize → (cs.flatMap Chain.dice).length ≤ maxPoolSize) ∧
      (¬p.size ≤ maxPoolSize → (cs.flatMap Chain.dice).length = p.size) := by
  obtain ⟨blocks, -, htakes, hgrows⟩ := explosion_ok hp h
  have hused := p.takesAtMost_explosion faces cap s
  rw [h, htakes.used] at hused
  rw [hgrows.size_eq]
  omega

/-- An additive and a recursive explosion that came of the same chains, one for each die of the pool. -/
structure Regroups (faces : List Int) (p : Pool) (cs : List Chain) (additive recursive : Change) : Prop where
  roots : cs.map Chain.root = p.dice
  chains : ∀ c ∈ cs, c.Linked faces ∧ c.isLive faces = false
  row : recursive.pool.dice = cs.flatMap Chain.dice
  shown : recursive.breakdown = cs.flatMap Chain.entries
  size : additive.pool.size = p.size
  unchanged : ∀ (i : Nat) (c : Chain), cs[i]? = some c → c.extras = [] → additive.pool.dice[i]? = p.dice[i]?
  compound : ∀ (i : Nat) (c : Chain), cs[i]? = some c → c.extras ≠ [] →
    additive.pool.dice[i]? = some (.compound c.root.sides (c.root.parts ++ c.extras.map Die.result))
  result : ∀ (i : Nat) (c : Chain), cs[i]? = some c → additive.pool.results[i]? = some (sum (c.dice.map Die.result))
  total : additive.pool.total = recursive.pool.total

theorem sum_flatMap_dice (cs : List Chain) :
    sum ((cs.flatMap Chain.dice).map Die.result) = sum (cs.map fun c => c.sum.result) := by
  induction cs with
  | nil => rfl
  | cons c cs ih => rw [List.flatMap_cons, List.map_append, sum_append, ih, List.map_cons, sum_cons, c.result_sum_eq]

theorem regroups (hroots : cs.map Chain.root = p.dice) (hcs : ∀ c ∈ cs, c.Linked faces ∧ c.isLive faces = false)
    (b : Breakdown) :
    Regroups faces p cs ⟨⟨cs.map Chain.sum, p.shapes⟩, b⟩
      ⟨⟨cs.flatMap Chain.dice, p.shapes⟩, cs.flatMap Chain.entries⟩ where
  roots := hroots
  chains := hcs
  row := rfl
  shown := rfl
  size := by
    rw [size, size, ← hroots, List.length_map, List.length_map]
  unchanged := by
    intro i c hc hextras
    rw [← hroots, List.getElem?_map, List.getElem?_map, hc, Option.map_some, Option.map_some, Chain.sum, hextras]
    rfl
  compound := by
    intro i c hc hextras
    rw [List.getElem?_map, hc, Option.map_some, Chain.sum, if_neg (by simpa using hextras)]
    rfl
  result := by
    intro i c hc
    rw [results, List.map_map, List.getElem?_map, hc, Option.map_some, Function.comp_apply, c.result_sum_eq]
  total := by
    rw [total, total, results, results, sum_flatMap_dice, List.map_map]
    rfl

/-- An additive explosion takes the faces that a recursive one takes, and fails as it fails. When they
succeed, each die of the additive one shows a chain of the recursive one, part by part, and no check of a
die has failed on the way. -/
theorem explodeAdditive_regroups (hp : ∀ d ∈ p.dice, d.Valid) (faces : List Int) (cap : Int) (s : Faces) :
    let additive := (p.explodeAdditive faces cap).on s
    let recursive := (p.explodeRecursive faces cap).on s
    p.explodeAdditiveChecked faces cap = p.explodeAdditive faces cap ∧ additive.2 = recursive.2 ∧
      ((∃ e, additive.1 = .error e ∧ recursive.1 = .error e) ∨
        ∃ a r cs, additive.1 = .ok a ∧ recursive.1 = .ok r ∧ Regroups faces p cs a r) := by
  intro additive recursive
  refine ⟨explodeAdditiveChecked_eq (explosion_yields_sums hp), ?_⟩
  have hadditive : additive = _ := on_bind _ _ s
  have hrecursive : recursive = _ := on_bind _ _ s
  rcases hrun : (p.explosion faces cap).on s with ⟨e | cs, s'⟩
  · rw [hrun] at hadditive hrecursive
    rw [hadditive, hrecursive]
    exact ⟨rfl, .inl ⟨e, rfl, rfl⟩⟩
  · obtain ⟨blocks, -, -, hgrows⟩ := explosion_ok hp hrun
    obtain ⟨-, hroots, hlinked, -⟩ := hgrows.explosion hp
    have hlength : (cs.map Chain.sum).length = p.size := by
      rw [size, ← hroots, List.length_map, List.length_map]
    rw [hrun] at hadditive hrecursive
    dsimp only at hadditive hrecursive
    rw [on_liftM, changeTo_eq, hlength] at hadditive
    rw [on_liftM, lineUp, changeTo_eq] at hrecursive
    rw [hadditive, hrecursive]
    refine ⟨rfl, ?_⟩
    obtain ⟨hfits, hfull⟩ := length_dice_of_explosion hp hrun
    by_cases hsize : p.size ≤ maxPoolSize
    · rw [if_pos hsize, if_pos (hfits hsize)]
      exact .inr ⟨_, _, cs, rfl, rfl, regroups hroots hlinked _⟩
    · rw [hfull hsize, if_neg hsize, if_neg hsize]
      exact .inl ⟨_, rfl, rfl⟩

/-- A compound six grows by two faces; the dice that do not explode come out as they were. -/
theorem explodeAdditive_regroups_compound :
    let p : Pool := ⟨[.compound 6 [6, 6], .plain 6 3, .plain 6 4], [⟨3, 6⟩]⟩
    let s : Faces := .ofList [6, 2, 5]
    (∀ d ∈ p.dice, d.Valid) ∧ ∃ a r cs, ((p.explodeAdditive [6] 10).on s).1 = .ok a ∧
      ((p.explodeRecursive [6] 10).on s).1 = .ok r ∧ ((p.explodeRecursive [6] 10).on s).2 = ⟨[5], 2⟩ ∧
      Regroups [6] p cs a r ∧ a.pool.dice = [.compound 6 [6, 6, 6, 2], .plain 6 3, .plain 6 4] := by
  intro p s
  have hvalid : ∀ d ∈ p.dice, d.Valid := by simp [p, Die.Valid]
  have hdice : ((p.explodeAdditive [6] 10).on s).1.toOption.map (fun a => a.pool.dice) =
      some [.compound 6 [6, 6, 6, 2], .plain 6 3, .plain 6 4] := by decide +kernel
  have hfaces : ((p.explodeAdditive [6] 10).on s).2 = ⟨[5], 2⟩ := by decide +kernel
  obtain ⟨-, hsame, ⟨e, he, -⟩ | ⟨a, r, cs, ha, hr, h⟩⟩ := explodeAdditive_regroups hvalid [6] 10 s
  · rw [he] at hdice
    cases hdice
  · rw [ha] at hdice
    exact ⟨hvalid, a, r, cs, ha, hr, hsame ▸ hfaces, h, Option.some.inj hdice⟩

end Tabletop.Pool
