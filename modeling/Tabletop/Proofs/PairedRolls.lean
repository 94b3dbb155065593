import Mathlib.Algebra.Order.Ring.Nat
import Mathlib.Data.Fin.Basic
import Mathlib.Data.Set.List
import Tabletop.Proofs.Bounded
import Tabletop.Proofs.FaceLists
import Tabletop.Proofs.Merging
import Tabletop.Proofs.PoolRolls

/-!
# A roll by lists is the merge of its terms

Counts and sizes of which one or both are lists stand for terms, each a count and a size (`Pairs`). The
formula that rolls by lists and the one that merges the rolls of its terms succeed on the same faces, and
come to the same pool (`ComesTo`): the former rolls the dice of all terms at once, and the latter adds
those of one term at a time, but both take the faces in the same order.
-/

namespace Tabletop

open Text

/-- Counts and sizes that stand for these terms. Two lists go in pairs, and a single number goes with
every entry of a list. -/
inductive Pairs : Argument → Argument → List Shape → Prop
  | lists (terms : List Shape) : Pairs (.list (terms.map Shape.count)) (.list (terms.map Shape.sides)) terms
  | count (n : Nat) (sizes : List Nat) : Pairs (.single n) (.list sizes) (sizes.map fun sides => ⟨n, sides⟩)
  | sides (counts : List Nat) (sides : Nat) :
      Pairs (.list counts) (.single sides) (counts.map fun n => ⟨n, sides⟩)

/-- The argument as it is written in a formula. -/
def Argument.written : Argument → String
  | single n => toString n
  | list ns => "[" ++ String.intercalate "," (ns.map toString) ++ "]"

/-- The formula that rolls dice, `4d6` or `[1,2]d[4,6]`. -/
def rollFormula (counts sides : Argument) : String := counts.written ++ "d" ++ sides.written

/-- The formula that merges the rolls of terms, `1d4&2d6`. -/
def mergedFormula (terms : List Shape) : String :=
  String.intercalate "&" (terms.map fun t => rollFormula (.single t.count) (.single t.sides))

variable {counts sides : Argument} {terms shapes shapes' : List Shape} {cap : Int}

namespace Pairs

theorem shapesOf (h : Pairs counts sides terms) : Pool.shapesOf counts sides = .ok terms := by
  cases h with
  | count n sizes => rfl
  | sides ns n => rfl
  | lists terms =>
    have hzip : List.zipWith Shape.mk (terms.map Shape.count) (terms.map Shape.sides) = terms := by
      rw [List.zipWith_map, List.zipWith_self]
      exact List.map_id' terms
    rw [Pool.shapesOf, if_pos (by rw [List.length_map, List.length_map]), hzip]

theorem values_ne_nil (h : Pairs counts sides terms) (hne : terms ≠ []) :
    counts.values ≠ [] ∧ sides.values ≠ [] := by
  cases h <;> simp_all [Argument.values]

theorem bounded (h : Pairs counts sides terms) (hcounts : counts.Bounded) (hsides : sides.Bounded) :
    ∀ t ∈ terms, t.count ≤ maxArgument ∧ t.sides ≤ maxArgument := by
  intro t ht
  cases h with
  | lists terms => exact ⟨hcounts _ (List.mem_map_of_mem ht), hsides _ (List.mem_map_of_mem ht)⟩
  | count n sizes =>
    obtain ⟨sides, hmem, rfl⟩ := List.mem_map.1 ht
    exact ⟨hcounts n List.mem_cons_self, hsides sides hmem⟩
  | sides ns n =>
    obtain ⟨count, hmem, rfl⟩ := List.mem_map.1 ht
    exact ⟨hcounts count hmem, hsides n List.mem_cons_self⟩

end Pairs

/-! ### Formulas as trees -/

/-- A roll of dice as a tree. -/
def diceTree {α : Type} (count sides : α) : Tree α := .binary .dice (.leaf count) (.leaf sides)

/-- A term as the tree of a roll. -/
def Shape.tree (t : Shape) : Tree Constant :=
  diceTree (.argument (.single t.count)) (.argument (.single t.sides))

theorem exists_literal_written {a : Argument} (ha : a.Bounded) (hne : a.values ≠ []) :
    ∃ l : Literal, l.lexeme.text = a.written.toList ∧ l.token = .argument a := by
  have hsmall : ∀ n ∈ a.values, n < maxArgument + 1 := fun n hn => Nat.lt_succ_of_le (ha n hn)
  cases a with
  | single n => exact ⟨.ofFin ⟨n, hsmall n List.mem_cons_self⟩, rfl, rfl⟩
  | list ns =>
    replace hsmall : ∀ n ∈ ns, n < maxArgument + 1 := hsmall
    lift ns to List (Fin (maxArgument + 1)) using hsmall
    refine ⟨.ofList ns fun hnil => hne (by rw [hnil]; rfl), ?_, rfl⟩
    have hnumerals : (List.map Fin.val ns).map (String.toList ∘ toString) = ns.map smallNumeral := List.map_map
    simp [Argument.written, Literal.ofList, Lexeme.text, listNumeral, ← hnumerals, Function.comp_def]

theorem text_diceTree (l r : Literal) :
    (diceTree l r).text = String.ofList (l.lexeme.text ++ 'd' :: r.lexeme.text) := by
  have hpieces : (diceTree l r).pieces = [⟨l.lexeme, l.token⟩, .ofToken .dice, ⟨r.lexeme, r.token⟩] := rfl
  rw [Tree.text, hpieces, Piece.textOf_cons, Piece.textOf_cons, Piece.textOf_cons, Piece.textOf_nil, List.append_nil]
  rfl

theorem written_diceTree (hcounts : counts.Bounded) (hsides : sides.Bounded)
    (hne : counts.values ≠ [] ∧ sides.values ≠ []) :
    (diceTree (Constant.argument counts) (.argument sides)).Written (rollFormula counts sides) := by
  obtain ⟨l, hl, hltoken⟩ := exists_literal_written hcounts hne.1
  obtain ⟨r, hr, hrtoken⟩ := exists_literal_written hsides hne.2
  refine ⟨diceTree l r, ?_, show 4 ≤ 10 by decide, ?_⟩
  · rw [text_diceTree, hl, hr]
    refine String.toList_injective ?_
    simp [rollFormula]
  · simp [diceTree, Tree.postorder, hltoken, hrtoken, Constant.token]

/-! ### What the trees come to -/

open Rolling

/-- The run succeeds just if the dice of these shapes can be rolled, and leaves their pool. -/
def ComesTo (m : Rolling (List Operation × Operand)) (shapes : List Shape) : Prop :=
  ∀ s o s', (∃ log, m.on s = (.ok (log, o), s')) ↔ ∃ p, Pool.Rolls shapes s p s' ∧ o = .thrown (.rolled p)

theorem comesTo_diceTree (h : Pool.shapesOf counts sides = .ok shapes) (cap : Int) :
    ComesTo ((diceTree (Constant.argument counts) (.argument sides)).eval cap) shapes := by
  intro s o s'
  constructor
  · rintro ⟨log, hrun⟩
    obtain ⟨logl, l, s₁, logr, r, s₂, result, hl, hr, hroll, -, rfl⟩ := Tree.eval_binary_ok_iff.1 hrun
    obtain ⟨hl, rfl⟩ := on_pure_ok hl
    obtain ⟨hr, rfl⟩ := on_pure_ok hr
    cases hl
    cases hr
    obtain ⟨pool, hpool, rfl⟩ := (Operand.rolled_ok_iff rfl rfl).1 hroll
    exact ⟨pool, (Pool.roll_ok_iff h).1 hpool, rfl⟩
  · rintro ⟨p, hrolls, rfl⟩
    have hroll : ((Operand.argument counts).rolled (.argument sides)).on s = (.ok (.thrown (.rolled p)), s') :=
      (Operand.rolled_ok_iff rfl rfl).2 ⟨p, (Pool.roll_ok_iff h).2 hrolls, rfl⟩
    exact ⟨_, Tree.eval_binary_ok_iff.2 ⟨[], _, s, [], _, s, _, rfl, rfl, hroll, rfl, rfl⟩⟩

theorem comesTo_tree (t : Shape) (cap : Int) : ComesTo (t.tree.eval cap) [t] := comesTo_diceTree rfl cap

/-- Pools that were rolled are merged as pools, whatever their values are. -/
theorem ComesTo.merge {x y : Tree Constant} (hx : ComesTo (x.eval cap) shapes) (hy : ComesTo (y.eval cap) shapes') :
    ComesTo ((Tree.binary (.operator .ampersand) x y).eval cap) (shapes ++ shapes') := by
  intro s o s'
  constructor
  · rintro ⟨log, hrun⟩
    obtain ⟨logx, l, s₁, logy, r, s₂, result, hl, hr, hlift, -, rfl⟩ := Tree.eval_binary_ok_iff.1 hrun
    obtain ⟨hmerge, rfl⟩ := on_liftM_ok hlift
    obtain ⟨q, hq, rfl⟩ := (hx s l s₁).1 ⟨logx, hl⟩
    obtain ⟨q', hq', rfl⟩ := (hy s₁ r s₂).1 ⟨logy, hr⟩
    obtain ⟨p, hp, hmerged⟩ := ok_of_bind hmerge
    cases hmerged
    exact ⟨p, Pool.rolls_append_iff.2 ⟨q, q', s₁, hq, hq', hp⟩, rfl⟩
  · rintro ⟨p, hrolls, rfl⟩
    obtain ⟨q, q', s₁, hq, hq', hp⟩ := Pool.rolls_append_iff.1 hrolls
    obtain ⟨logx, hl⟩ := (hx s _ s₁).2 ⟨q, hq, rfl⟩
    obtain ⟨logy, hr⟩ := (hy s₁ _ s').2 ⟨q', hq', rfl⟩
    have hmerge : (Operand.thrown (.rolled q)).combined .ampersand (.thrown (.rolled q')) = .ok (.merged p) := by
      change (do pure (Operation.merged (← q.merge q'))) = _
      rw [hp]
      rfl
    refine ⟨_, Tree.eval_binary_ok_iff.2 ⟨logx, _, s₁, logy, _, s', .merged p, hl, hr, ?_, rfl, rfl⟩⟩
    show (liftM (Operand.combined .ampersand _ _) : Rolling Operation).on s' = _
    rw [hmerge, on_liftM]

theorem ComesTo.merged {x : Tree Constant} (hx : ComesTo (x.eval cap) shapes) (terms : List Shape) :
    ComesTo ((x.merged (terms.map Shape.tree)).eval cap) (shapes ++ terms) := by
  induction terms generalizing x shapes with
  | nil =>
    rw [List.append_nil]
    exact hx
  | cons t terms ih =>
    rw [List.append_cons]
    exact ih (hx.merge (comesTo_tree t cap))

/-! ### Both formulas -/

theorem comesTo_rollFormula (h : Pairs counts sides terms) (hne : terms ≠ []) (hcounts : counts.Bounded)
    (hsides : sides.Bounded) (cap : Int) : ComesTo (evaluateText (rollFormula counts sides) cap) terms := by
  obtain ⟨x, htext, -, htokens⟩ := written_diceTree hcounts hsides (h.values_ne_nil hne)
  rw [← htext, Tree.evaluateText_text htokens]
  exact comesTo_diceTree h.shapesOf cap

theorem comesTo_mergedFormula (hne : terms ≠ []) (hsmall : ∀ t ∈ terms, t.count ≤ maxArgument ∧ t.sides ≤ maxArgument)
    (cap : Int) : ComesTo (evaluateText (mergedFormula terms) cap) terms := by
  have hwritten : ∀ t ∈ terms, t.tree.Written (rollFormula (.single t.count) (.single t.sides)) := fun t ht =>
    written_diceTree (Argument.bounded_single (hsmall t ht).1) (Argument.bounded_single (hsmall t ht).2)
      ⟨List.cons_ne_nil _ _, List.cons_ne_nil _ _⟩
  cases terms with
  | nil => exact absurd rfl hne
  | cons t terms =>
    obtain ⟨ht, hterms⟩ := List.forall_mem_cons.1 hwritten
    have hall : List.Forall₂ Tree.Written (terms.map Shape.tree)
        (terms.map fun t => rollFormula (.single t.count) (.single t.sides)) := by
      rw [List.forall₂_map_left_iff, List.forall₂_map_right_iff]
      exact List.forall₂_same.2 hterms
    obtain ⟨x, htext, htokens⟩ := ht.exists_merged hall
    rw [mergedFormula, List.map_cons, ← htext, Tree.evaluateText_text htokens]
    exact (comesTo_tree t cap).merged terms

/-- A roll by lists succeeds on the same faces as the merge of the rolls of its terms, and both leave the
same pool. It has the shapes of the terms and as many dice as they count together, each of which shows the next
face clamped onto its size, and the roll fails only if there are too many dice or too few faces. -/
theorem rollFormula_iff_mergedFormula (h : Pairs counts sides terms) (hne : terms ≠ []) (hcounts : counts.Bounded)
    (hsides : sides.Bounded) (cap : Int) (s : Faces) (o : Operand) (s' : Faces) :
    ((∃ log, (evaluateText (rollFormula counts sides) cap).on s = (.ok (log, o), s')) ↔
        ∃ log, (evaluateText (mergedFormula terms) cap).on s = (.ok (log, o), s')) ∧
      ((∃ log, (evaluateText (rollFormula counts sides) cap).on s = (.ok (log, o), s')) ↔
        (terms.map Shape.count).sum ≤ maxPoolSize ∧
          ∃ block ds, block.length = Pool.takers (terms.flatMap Shape.sizes) ∧ s.Takes block s' ∧
            ds = Pool.dealt (terms.flatMap Shape.sizes) block ∧ ds.length = (terms.map Shape.count).sum ∧
            o = .thrown (.rolled ⟨ds, terms⟩)) := by
  have hlists := comesTo_rollFormula h hne hcounts hsides cap s o s'
  have hmerged := comesTo_mergedFormula hne (h.bounded hcounts hsides) cap s o s'
  have hcount : (terms.flatMap Shape.sizes).length = (terms.map Shape.count).sum := by
    simp [List.length_flatMap, Shape.sizes]
  refine ⟨hlists.trans hmerged.symm, hlists.trans ?_⟩
  rw [← hcount]
  constructor
  · rintro ⟨p, ⟨hsize, block, hlen, htakes, rfl⟩, rfl⟩
    exact ⟨hsize, block, _, hlen, htakes, rfl, Pool.length_dealt hlen, rfl⟩
  · rintro ⟨hsize, block, ds, hlen, htakes, rfl, -, rfl⟩
    exact ⟨_, ⟨hsize, block, hlen, htakes, rfl⟩, rfl⟩

/-- Two six-sided dice, one without sides and one that clamps its face take three of four faces. -/
theorem rollFormula_iff_mergedFormula_clamped :
    Pairs (.list [2, 1, 1]) (.list [6, 0, 8]) [⟨2, 6⟩, ⟨1, 0⟩, ⟨1, 8⟩] ∧
      Argument.Bounded (.list [2, 1, 1]) ∧ Argument.Bounded (.list [6, 0, 8]) ∧
      rollFormula (.list [2, 1, 1]) (.list [6, 0, 8]) = "[2,1,1]d[6,0,8]" ∧
      mergedFormula [⟨2, 6⟩, ⟨1, 0⟩, ⟨1, 8⟩] = "2d6&1d0&1d8" ∧
      ∃ log log', (evaluateText "[2,1,1]d[6,0,8]" 0).on ⟨[3, 9, -7, 5], 0⟩ = (.ok (log, .thrown (.rolled
          ⟨[.plain 6 3, .plain 6 6, .plain 0 0, .plain 8 1], [⟨2, 6⟩, ⟨1, 0⟩, ⟨1, 8⟩]⟩)), ⟨[5], 3⟩) ∧
        (evaluateText "2d6&1d0&1d8" 0).on ⟨[3, 9, -7, 5], 0⟩ = (.ok (log', .thrown (.rolled
          ⟨[.plain 6 3, .plain 6 6, .plain 0 0, .plain 8 1], [⟨2, 6⟩, ⟨1, 0⟩, ⟨1, 8⟩]⟩)), ⟨[5], 3⟩) := by
  have hpairs : Pairs (.list [2, 1, 1]) (.list [6, 0, 8]) [⟨2, 6⟩, ⟨1, 0⟩, ⟨1, 8⟩] :=
    .lists [⟨2, 6⟩, ⟨1, 0⟩, ⟨1, 8⟩]
  have hcounts : Argument.Bounded (.list [2, 1, 1]) := by unfold Argument.Bounded; decide
  have hsides : Argument.Bounded (.list [6, 0, 8]) := by unfold Argument.Bounded; decide
  obtain ⟨hiff, hdice⟩ := rollFormula_iff_mergedFormula hpairs (by decide) hcounts hsides 0 ⟨[3, 9, -7, 5], 0⟩
    (.thrown (.rolled ⟨[.plain 6 3, .plain 6 6, .plain 0 0, .plain 8 1], [⟨2, 6⟩, ⟨1, 0⟩, ⟨1, 8⟩]⟩)) ⟨[5], 3⟩
  obtain ⟨log, hlog⟩ := hdice.2 ⟨by decide, [3, 9, -7], _, rfl, ⟨rfl, rfl⟩, rfl, rfl, rfl⟩
  obtain ⟨log', hlog'⟩ := hiff.1 ⟨log, hlog⟩
  exact ⟨hpairs, hcounts, hsides, rfl, rfl, log, log', hlog, hlog'⟩

end Tabletop
