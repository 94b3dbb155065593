import Mathlib.Data.List.Forall2
import Tabletop.Proofs.ReadBack
import Tabletop.Proofs.StackRun

/-!
# Formulas of merged trees

A formula that is the text of a tree evaluates as the tree (`Tree.evaluateText_text`). Formulas joined by
the sign of merging are the text of their trees merged from left to right, if each of them binds more
tightly than that sign (`Tree.Written.exists_merged`).
-/

namespace Tabletop.Tree

variable {α : Type}

/-- More trees merged with one, from left to right. -/
def merged (x : Tree α) (ys : List (Tree α)) : Tree α := ys.foldl (binary (.operator .ampersand)) x

theorem textOf_merged {x : Tree Literal} {ys : List (Tree Literal)} (hx : 3 ≤ x.binding)
    (hys : ∀ y ∈ ys, 4 ≤ y.binding) :
    Piece.textOf (x.merged ys).pieces =
      Piece.textOf x.pieces ++ ys.flatMap fun y => '&' :: Piece.textOf y.pieces := by
  induction ys generalizing x with
  | nil => simp [merged]
  | cons y ys ih =>
    obtain ⟨hy, hys⟩ := List.forall_mem_cons.1 hys
    have hpieces : (binary (.operator .ampersand) x y).pieces =
        x.pieces ++ .ofToken (.binary .ampersand) :: y.pieces := by
      have hleft : x.place (Binary.operator .ampersand).needsLeft x.pieces = x.pieces :=
        if_neg (Nat.not_lt.2 hx)
      have hright : y.place (Binary.operator .ampersand).needsRight y.pieces = y.pieces :=
        if_neg (Nat.not_lt.2 hy)
      rw [pieces, hleft, hright]
      rfl
    have hrest := ih (x := binary (.operator .ampersand) x y) (Nat.le_refl 3) hys
    rw [merged, List.foldl_cons]
    rw [merged] at hrest
    rw [hrest, hpieces]
    simp [Piece.textOf, Piece.ofToken, Lexeme.text, Token.text, Operator.symbol]

theorem text_merged {x : Tree Literal} {ys : List (Tree Literal)} (hx : 3 ≤ x.binding)
    (hys : ∀ y ∈ ys, 4 ≤ y.binding) :
    (x.merged ys).text = String.intercalate "&" ((x :: ys).map text) := by
  refine String.toList_injective ?_
  rw [text, String.toList_ofList, textOf_merged hx hys, String.toList_intercalate]
  clear hx hys
  induction ys generalizing x with
  | nil => simp [text]
  | cons y ys ih =>
    have hrest := ih (x := y)
    simp only [List.map_cons, List.flatMap_cons, List.intercalate_cons_cons] at hrest ⊢
    rw [← hrest]
    simp [text]

theorem postorder_merged {x : Tree Literal} {y : Tree Constant} {xs : List (Tree Literal)} {ys : List (Tree Constant)}
    (hxy : x.postorder Literal.token = y.postorder Constant.token)
    (h : List.Forall₂ (fun x y => x.postorder Literal.token = y.postorder Constant.token) xs ys) :
    (x.merged xs).postorder Literal.token = (y.merged ys).postorder Constant.token := by
  induction h generalizing x y with
  | nil => exact hxy
  | @cons x' y' xs ys hxy' _ ih =>
    refine ih (x := binary _ x x') (y := binary _ y y') ?_
    rw [postorder, postorder, hxy, hxy']

/-- The formula is the text of a tree with the same tokens, and binds more tightly than merging. -/
def Written (y : Tree Constant) (formula : String) : Prop :=
  ∃ x : Tree Literal, x.text = formula ∧ 4 ≤ x.binding ∧
    x.postorder Literal.token = y.postorder Constant.token

/-- Formulas joined by the sign of merging are the text of the merged trees. -/
theorem Written.exists_merged {y : Tree Constant} {ys : List (Tree Constant)} {formula : String}
    {formulas : List String} (h : y.Written formula) (hs : List.Forall₂ Written ys formulas) :
    ∃ x : Tree Literal, x.text = String.intercalate "&" (formula :: formulas) ∧
      x.postorder Literal.token = (y.merged ys).postorder Constant.token := by
  have hall : ∃ xs : List (Tree Literal), xs.map text = formulas ∧ (∀ x ∈ xs, 4 ≤ x.binding) ∧
      List.Forall₂ (fun x y => x.postorder Literal.token = y.postorder Constant.token) xs ys := by
    induction hs with
    | nil => exact ⟨[], rfl, List.forall_mem_nil _, .nil⟩
    | cons h _ ih =>
      obtain ⟨x, rfl, hx, htokens⟩ := h
      obtain ⟨xs, rfl, hxs, hall⟩ := ih
      exact ⟨x :: xs, rfl, List.forall_mem_cons.2 ⟨hx, hxs⟩, .cons htokens hall⟩
  obtain ⟨x, rfl, hx, htokens⟩ := h
  obtain ⟨xs, rfl, hxs, hall⟩ := hall
  exact ⟨x.merged xs, text_merged (Nat.le_of_succ_le hx) hxs, postorder_merged htokens hall⟩

theorem evaluateText_text {x : Tree Literal} {y : Tree Constant}
    (h : x.postorder Literal.token = y.postorder Constant.token) (cap : Int) :
    evaluateText x.text cap = y.eval cap := by
  obtain ⟨out, left, hfeed, hout, hleft⟩ := x.feeds_pieces (Postfix.calm_nil x.binding)
  rw [List.append_nil] at hfeed
  have horder : toPostfix (x.pieces.map Piece.token) = .ok (y.postorder Constant.token) := by
    rw [toPostfix, Postfix.order_of_feed hfeed (drain_of_waits hleft), hout, h]
  exact evaluateText_of_postorder x.tokenize_text horder cap

end Tabletop.Tree
