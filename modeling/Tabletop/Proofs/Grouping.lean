import Tabletop.Proofs.Nesting
import Tabletop.Proofs.ReadBack

/-!
# A group in brackets comes out by itself

Tokens that come out whole do not touch what waits below an open bracket (`Postfix.step_frame`,
`Postfix.feed_frame`). So a group comes out as it would alone (`Postfix.feed_group`), and a chain of
operations on dice after it follows one by one (`Postfix.order_chain`).
-/

namespace Tabletop

namespace Postfix

variable {t : Token} {ts v v' out : List Token}

theorem close_frame {c : Bracket} (h : close c v = .ok (out, v')) (b : Bracket) (u : List Token) :
    close c (v ++ .opening b :: u) = .ok (out, v' ++ .opening b :: u) := by
  obtain ⟨htake, hdrop⟩ := takeWhile_append_of_stop (fun t : Token => !t.isOpening)
    (rfl : (!(Token.opening b).isOpening) = false) v u
  unfold close at h ⊢
  dsimp only at h ⊢
  rw [htake, hdrop]
  split at h
  · rename_i o below hbelow
    rw [hbelow]
    show (if o = c then _ else _) = _
    by_cases ho : o = c
    · rw [if_pos ho] at h ⊢
      cases below with
      | nil => cases h; rfl
      | cons t below => cases t <;> (cases h; rfl)
    · rw [if_neg ho] at h
      cases h
  · cases h

/-- What waits below an open bracket does not matter as long as that bracket stays open. -/
theorem step_frame (h : step t v = .ok (out, v')) (b : Bracket) (u : List Token) :
    step t (v ++ .opening b :: u) = .ok (out, v' ++ .opening b :: u) := by
  have hchaining := takeWhile_append_of_stop Token.isChaining (rfl : (Token.opening b).isChaining = false) v u
  cases t with
  | argument | number | function | negate | opening => cases h; rfl
  | dice | pool | conversion | genesys =>
    cases h
    simp only [step, hchaining.1, hchaining.2, List.cons_append]
  | binary op =>
    have hbefore := takeWhile_append_of_stop (Token.goesBefore op) (rfl : (Token.opening b).goesBefore op = false) v u
    cases h
    simp only [step, hbefore.1, hbefore.2, List.cons_append]
  | closing c => exact close_frame h b u
  | blank => cases h

theorem feed_frame (h : feed ts v = .ok (out, v')) (b : Bracket) (u : List Token) :
    feed ts (v ++ .opening b :: u) = .ok (out, v' ++ .opening b :: u) := by
  induction ts generalizing v out with
  | nil =>
    obtain ⟨rfl, rfl⟩ := Prod.mk.inj (Except.ok.inj h)
    rfl
  | cons t ts ih =>
    obtain ⟨⟨now, v₁⟩, ht, h⟩ := ok_of_bind h
    obtain ⟨⟨more, v₂⟩, hts, h⟩ := ok_of_bind h
    obtain ⟨rfl, rfl⟩ := Prod.mk.inj (Except.ok.inj h)
    exact feed_cons_ok (step_frame ht b u) (ih hts)

theorem order_cons_ok_iff {all : List Token} (ht : step t v = .ok (out, v')) :
    order (t :: ts) v = .ok all ↔ ∃ more, order ts v' = .ok more ∧ all = out ++ more := by
  rw [order, ht]
  constructor
  · intro h
    obtain ⟨more, hmore, h⟩ := ok_of_bind (show (do pure (out ++ (← order ts v'))) = _ from h)
    cases h
    exact ⟨more, hmore, rfl⟩
  · rintro ⟨more, hmore, rfl⟩
    show (do pure (out ++ (← order ts v'))) = _
    rw [hmore]
    rfl

theorem order_cons_ok {more : List Token} (ht : step t v = .ok (out, v')) (hts : order ts v' = .ok more) :
    order (t :: ts) v = .ok (out ++ more) :=
  (order_cons_ok_iff ht).2 ⟨more, hts, rfl⟩

/-- Before the end of the tokens, no bracket is open among those that still wait. -/
theorem feed_of_order (h : order ts v = .ok out) :
    ∃ now left, feed ts v = .ok (now, left) ∧ (∀ t ∈ left, t.isOpening = false) ∧ out = now ++ left := by
  obtain ⟨now, left, rest, hfeed, hdrain, rfl⟩ := drain_of_order h
  obtain ⟨rfl, hopen⟩ := drain_ok hdrain
  exact ⟨now, rest, hfeed, openedIn_eq_nil_iff.1 hopen, rfl⟩

/-- In brackets tokens come out as they do alone, and with them a function in front of the bracket. -/
theorem feed_group (h : order ts [] = .ok out) (b : Bracket) (w : List Token) :
    feed (.opening b :: (ts ++ [.closing b])) w =
      .ok (out ++ (afterClosing w).1, (afterClosing w).2) := by
  obtain ⟨now, left, hfeed, hleft, rfl⟩ := feed_of_order h
  have hinside : feed ts (.opening b :: w) = .ok (now, left ++ .opening b :: w) := feed_frame hfeed b w
  have hclose : step (.closing b) (left ++ .opening b :: w) = _ := close_append b hleft w
  have hrest := feed_cons_ok hclose (rfl : feed [] _ = .ok ([], _))
  have hall := feed_cons_ok (rfl : step (.opening b) w = .ok ([], _)) (feed_append_ok hinside hrest)
  simpa using hall

end Postfix

/-! ### Chains -/

/-- An operation on dice with a literal argument on its right. -/
structure Link where
  op : Binary
  arg : Argument
  written : Literal
  isChaining : op.token.isChaining = true
  means : written.token = .argument arg

namespace Link

def tokens (l : Link) : List Token := [l.op.token, l.written.token]

end Link

open Postfix in
/-- In a chain each operation comes out after its argument, and the last one waits. -/
theorem feed_chain (links : List Link) {left : List Token} (hleft : ∀ t ∈ left, t.Waits 7) :
    ∃ out waiting, feed (links.flatMap Link.tokens) left = .ok (out, waiting) ∧ (∀ t ∈ waiting, t.Waits 7) ∧
      out ++ waiting = left ++ links.flatMap fun l => [l.written.token, l.op.token] := by
  induction links generalizing left with
  | nil => exact ⟨[], left, rfl, hleft, (List.append_nil _).symm⟩
  | cons l links ih =>
    have hstep := step_chaining l.isChaining hleft (calm_nil 10)
    rw [List.append_nil] at hstep
    have hwaits : ∀ t ∈ [l.op.token], t.Waits 7 := by
      intro t ht
      obtain rfl := List.mem_singleton.1 ht
      have hchaining := l.isChaining
      cases hop : l.op with
      | operator op => rw [hop] at hchaining; cases hchaining
      | dice | pool | conversion => show 7 ≤ 10; omega
    obtain ⟨out, waiting, hfeed, hwaiting, hout⟩ := ih hwaits
    have hall := feed_cons_ok hstep (feed_cons_ok (step_operand l.written.token_isOperand [l.op.token]) hfeed)
    refine ⟨left ++ ([l.written.token] ++ out), waiting, hall, hwaiting, ?_⟩
    rw [List.append_assoc, List.append_assoc, hout]
    rfl

open Postfix in
theorem order_chain (links : List Link) {left : List Token} (hleft : ∀ t ∈ left, t.Waits 7) :
    order (links.flatMap Link.tokens) left =
      .ok (left ++ links.flatMap fun l => [l.written.token, l.op.token]) := by
  obtain ⟨out, waiting, hfeed, hwaiting, hout⟩ := feed_chain links hleft
  rw [order_of_feed hfeed (Tree.drain_of_waits hwaiting), hout]

end Tabletop
