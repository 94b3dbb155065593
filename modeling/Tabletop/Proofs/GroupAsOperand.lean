import Tabletop.Proofs.Grouping
import Tabletop.Proofs.Nested

/-!
# A group in brackets acts as one operand

What goes out before a place among the tokens, and what after it, does not hang on what stands there, if
that goes out whole and moves nothing that waits (`Postfix.toPostfix_between`). An operand does so, and so
does a group in brackets, unless a function waits in front of it: that goes out with the closer. After an
operator or an open bracket no function is the next that waits (`Postfix.afterClosing_of_feed`), so that a
group may stand there wherever an operand may.
-/

namespace Tabletop

/-- A token after which an operand or a group may come, other than a function. -/
def Token.precedesOperand : Token → Bool
  | opening _ | negate | binary _ | dice | pool _ | conversion _ | genesys _ => true
  | _ => false

/-- Tokens between an opening bracket and its closer. -/
def Token.grouped (b : Bracket) (ts : List Token) : List Token := .opening b :: (ts ++ [.closing b])

namespace Postfix

variable {ts xs mid ys zs v w w' out inside : List Token} {t : Token}

/-- What goes out before the place between two lists of tokens, and what after it. -/
def around (xs zs : List Token) : Except Error (List Token × List Token) := do
  let (before, waiting) ← feed xs []
  pure (before, ← order zs waiting)

theorem toPostfix_between (hmid : ∀ before w, feed xs [] = .ok (before, w) → feed mid w = .ok (out, w)) :
    toPostfix (xs ++ mid ++ zs) = (do
      let (before, after) ← around xs zs
      pure (before ++ out ++ after)) := by
  rcases hxs : feed xs [] with e | ⟨before, w⟩
  · rw [toPostfix, order_append, feed_append, around, hxs]
    rfl
  · have hboth : feed (xs ++ mid) [] = .ok (before ++ out, w) := feed_append_ok hxs (hmid before w hxs)
    rw [toPostfix, order_append, hboth, around, hxs]
    change (do pure (before ++ out ++ (← order zs w))) = (do
      let (before, after) ← (do pure (before, ← order zs w))
      pure (before ++ out ++ after))
    simp only [bind_assoc, pure_bind]

theorem not_isOperand_of_precedesOperand (ht : t.precedesOperand = true) : t.isOperand = false := by
  cases t <;> first | rfl | cases ht

theorem not_isFunction_of_precedesOperand (ht : t.precedesOperand = true) : t.isFunction = false := by
  cases t <;> first | rfl | cases ht

/-- The token that came last waits on top if it precedes an operand. -/
theorem afterClosing_of_step (ht : t.precedesOperand = true) (h : step t v = .ok (out, w)) :
    afterClosing w = ([], w) := by
  rcases step_ok h with ⟨hoperand, -⟩ | ⟨rest, -, -, -, -, -, rfl⟩ | ⟨b, inside, below, rfl, -⟩
  · rw [not_isOperand_of_precedesOperand ht] at hoperand
    cases hoperand
  · exact afterClosing_of_calm (calm_of_not_isFunction (not_isFunction_of_precedesOperand ht) rest)
  · cases ht

theorem afterClosing_of_feed (hxs : ∀ t ∈ xs.getLast?, t.precedesOperand = true)
    (h : feed xs [] = .ok (out, w)) : afterClosing w = ([], w) := by
  rcases List.eq_nil_or_concat xs with rfl | ⟨before, t, rfl⟩
  · obtain ⟨rfl, rfl⟩ := Prod.mk.inj (Except.ok.inj h)
    rfl
  · have ht : t.precedesOperand = true := hxs t (by simp)
    rw [List.concat_eq_append, feed_append] at h
    obtain ⟨⟨now, v⟩, -, h⟩ := ok_of_bind h
    obtain ⟨⟨last, v'⟩, hlast, h⟩ := ok_of_bind h
    obtain ⟨-, rfl⟩ := Prod.mk.inj (Except.ok.inj h)
    obtain ⟨⟨last, v'⟩, hstep, hlast⟩ := ok_of_bind hlast
    obtain ⟨-, rfl⟩ := Prod.mk.inj (Except.ok.inj hlast)
    exact afterClosing_of_step ht hstep

theorem operands_of_around {before after : List Token} (h : around xs zs = .ok (before, after)) :
    before.filter Token.isOperand = xs.filter Token.isOperand ∧
      after.filter Token.isOperand = zs.filter Token.isOperand := by
  obtain ⟨⟨_, w⟩, hfeed, h⟩ := ok_of_bind h
  obtain ⟨_, horder, h⟩ := ok_of_bind h
  cases h
  obtain ⟨hbefore, hw⟩ := operands_of_feed (List.forall_mem_nil _) hfeed
  exact ⟨hbefore, operands_of_order hw horder⟩

theorem toPostfix_operand (ht : t.isOperand = true) (xs zs : List Token) :
    toPostfix (xs ++ [t] ++ zs) = (do
      let (before, after) ← around xs zs
      pure (before ++ [t] ++ after)) :=
  toPostfix_between fun _ w _ => feed_cons_ok (step_operand ht w) rfl

theorem toPostfix_group (hys : toPostfix ys = .ok inside) (hxs : ∀ t ∈ xs.getLast?, t.precedesOperand = true)
    (b : Bracket) (zs : List Token) :
    toPostfix (xs ++ Token.grouped b ys ++ zs) = (do
      let (before, after) ← around xs zs
      pure (before ++ inside ++ after)) := by
  refine toPostfix_between fun before w hfeed => ?_
  have hgroup := feed_group hys b w
  rwa [afterClosing_of_feed hxs hfeed, List.append_nil] at hgroup

end Postfix

open Postfix in
/-- After an operator or an open bracket, or at the beginning, a group of tokens in brackets may stand wherever
an operand may, and fails there in the same way. In postfix order the group, as it would come out alone, then
takes the place of that operand, which is told by the operands before and after it: these keep their order. -/
theorem group_acts_as_operand {xs ys inside : List Token} {a : Token} (b : Bracket) (zs : List Token)
    (hys : toPostfix ys = .ok inside) (hxs : ∀ t ∈ xs.getLast?, t.precedesOperand = true)
    (ha : a.isOperand = true) :
    ((∃ out, toPostfix (xs ++ Token.grouped b ys ++ zs) = .ok out) ↔
      ∃ out, toPostfix (xs ++ [a] ++ zs) = .ok out) ∧
    (∀ e, toPostfix (xs ++ Token.grouped b ys ++ zs) = .error e ↔
      toPostfix (xs ++ [a] ++ zs) = .error e) ∧
    ∀ out, toPostfix (xs ++ [a] ++ zs) = .ok out →
      ∃ before after, out = before ++ [a] ++ after ∧
        before.filter Token.isOperand = xs.filter Token.isOperand ∧
        after.filter Token.isOperand = zs.filter Token.isOperand ∧
        toPostfix (xs ++ Token.grouped b ys ++ zs) = .ok (before ++ inside ++ after) := by
  rw [toPostfix_group hys hxs, toPostfix_operand ha]
  rcases haround : around xs zs with e | ⟨before, after⟩
  · refine ⟨⟨?_, ?_⟩, fun e' => Iff.rfl, nofun⟩ <;> exact nofun
  · obtain ⟨hbefore, hafter⟩ := operands_of_around haround
    refine ⟨⟨fun _ => ⟨_, rfl⟩, fun _ => ⟨_, rfl⟩⟩, fun e => ⟨nofun, nofun⟩, fun out hout => ?_⟩
    cases hout
    exact ⟨before, after, rfl, hbefore, hafter, rfl⟩

open Token Argument in
/-- The number of sides as a sum in curly brackets, under a sign and a power. -/
theorem group_acts_as_operand_sides :
    toPostfix [argument (single 2), binary .plus, argument (single 4)] =
        .ok [argument (single 2), argument (single 4), binary .plus] ∧
      toPostfix ([negate, argument (single 2), dice] ++ [argument (single 9)] ++ [binary .caret, argument (single 2)]) =
        .ok [argument (single 2), argument (single 9), dice, argument (single 2), binary .caret, negate] ∧
      ∃ before after, [argument (single 2), argument (single 9), dice, argument (single 2), binary .caret, negate] =
          before ++ [argument (single 9)] ++ after ∧
        before.filter isOperand = [argument (single 2)] ∧
        after.filter isOperand = [argument (single 2)] ∧
        toPostfix ([negate, argument (single 2), dice] ++
            grouped .curly [argument (single 2), binary .plus, argument (single 4)] ++
            [binary .caret, argument (single 2)]) =
          .ok (before ++ [argument (single 2), argument (single 4), binary .plus] ++ after) := by
  have halone : toPostfix [argument (single 2), binary .plus, argument (single 4)] =
    .ok [argument (single 2), argument (single 4), binary .plus] := rfl
  have hlast : ∀ t ∈ [negate, argument (single 2), dice].getLast?, t.precedesOperand = true := by
    intro t ht
    obtain rfl := Option.some.inj ht
    rfl
  have hgroup := group_acts_as_operand .curly [binary .caret, argument (single 2)] halone hlast
    (rfl : (argument (single 9)).isOperand = true)
  exact ⟨halone, rfl, hgroup.2.2 _ rfl⟩

end Tabletop
