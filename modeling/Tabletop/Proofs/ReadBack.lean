import Tabletop.Proofs.Basic
import Tabletop.Proofs.Legible

/-!
# Printed tokens come out in postfix order

`Postfix.feed` is the part of the shunting yard before the end of the tokens: what went out so far,
and what waits. The tokens of a printed tree leave its operations from the root down its right edge
waiting, all of which bind at least as tightly as the root (`Token.Waits`), on top of what waited
before, which they do not move (`Postfix.Calm`). What went out and what waits together is the tree
in postfix order.
-/

namespace Tabletop

namespace Postfix

/-- What goes out while tokens come, and what waits after them. -/
def feed : List Token → List Token → Except Error (List Token × List Token)
  | [], waiting => .ok ([], waiting)
  | t :: ts, waiting => do
    let (out, waiting) ← step t waiting
    let (more, waiting) ← feed ts waiting
    pure (out ++ more, waiting)

theorem feed_cons_ok {t : Token} {ts w w' w'' out more : List Token} (ht : step t w = .ok (out, w'))
    (hts : feed ts w' = .ok (more, w'')) : feed (t :: ts) w = .ok (out ++ more, w'') := by
  rw [feed, ht]
  change (do let (more, w) ← feed ts w'; pure (out ++ more, w)) = _
  rw [hts]; rfl

theorem feed_append (ts us w : List Token) :
    feed (ts ++ us) w = (do
      let (out, w') ← feed ts w
      let (more, w'') ← feed us w'
      pure (out ++ more, w'')) := by
  induction ts generalizing w with
  | nil => exact (bind_pure (feed us w)).symm
  | cons t ts ih =>
    rw [List.cons_append, feed, feed]
    simp only [ih, bind_assoc, pure_bind, List.append_assoc]

theorem feed_append_ok {ts us w w' w'' out more : List Token} (hts : feed ts w = .ok (out, w'))
    (hus : feed us w' = .ok (more, w'')) : feed (ts ++ us) w = .ok (out ++ more, w'') := by
  rw [feed_append, hts]
  change (do let (more, w) ← feed us w'; pure (out ++ more, w)) = _
  rw [hus]
  rfl

/-- Of tokens that come one part after the other, the first part comes with more to follow. -/
theorem order_append (ts us w : List Token) :
    order (ts ++ us) w = (do
      let (out, w') ← feed ts w
      pure (out ++ (← order us w'))) := by
  induction ts generalizing w with
  | nil => exact (bind_pure (order us w)).symm
  | cons t ts ih =>
    rw [List.cons_append, order, feed]
    simp only [ih, bind_assoc, pure_bind, List.append_assoc]

theorem order_append_ok {ts us w w' out more : List Token} (hts : feed ts w = .ok (out, w'))
    (hus : order us w' = .ok more) : order (ts ++ us) w = .ok (out ++ more) := by
  rw [order_append, hts]
  change (do pure (out ++ (← order us w'))) = _
  rw [hus]
  rfl

theorem order_of_feed {ts w w' out rest : List Token} (h : feed ts w = .ok (out, w'))
    (hdrain : drain w' = .ok rest) : order ts w = .ok (out ++ rest) := by
  have hall := order_append_ok h (show order [] w' = .ok rest from hdrain)
  rwa [List.append_nil] at hall

/-- What came out whole came out before the end of the tokens, or waited until then. -/
theorem drain_of_order {ts w out : List Token} (h : order ts w = .ok out) :
    ∃ now left rest, feed ts w = .ok (now, left) ∧ drain left = .ok rest ∧ out = now ++ rest := by
  rw [← List.append_nil ts, order_append] at h
  obtain ⟨⟨now, left⟩, hfeed, h⟩ := ok_of_bind h
  obtain ⟨rest, hdrain, h⟩ := ok_of_bind h
  cases h
  exact ⟨now, left, rest, hfeed, hdrain, rfl⟩

/-- Where no bracket is open, all tokens go out. -/
theorem drain_of_not_isOpening {waiting : List Token} (h : ∀ t ∈ waiting, t.isOpening = false) :
    drain waiting = .ok waiting := by
  induction waiting with
  | nil => rfl
  | cons t waiting ih =>
    obtain ⟨ht, hwaiting⟩ := List.forall_mem_cons.1 h
    have hdrain : (do pure (t :: (← drain waiting))) = Except.ok (ε := Error) (t :: waiting) := by
      rw [ih hwaiting]
      rfl
    cases t with
    | opening b => cases ht
    | _ => exact hdrain

end Postfix

/-! ### Waiting tokens -/

/-- The token is an operator that binds at least so tightly. -/
def Token.Waits (least : Nat) : Token → Prop
  | negate => least ≤ signPrecedence
  | binary op => least ≤ op.precedence
  | dice | pool _ | conversion _ | genesys _ => least ≤ 10
  | _ => False

namespace Token.Waits

variable {least : Nat} {t : Token}

theorem mono {least' : Nat} (h : t.Waits least) (hle : least' ≤ least) : t.Waits least' := by
  cases t <;> (first | exact Nat.le_trans hle h | exact h.elim)

theorem not_isOpening (h : t.Waits least) : t.isOpening = false := by
  cases t <;> first | rfl | exact h.elim

theorem isChaining (h : t.Waits least) (hleast : 7 ≤ least) : t.isChaining = true := by
  cases t with
  | negate => exact absurd (Nat.le_trans hleast h) (by decide)
  | binary op => exact absurd (Nat.le_trans (Nat.le_trans hleast h) op.precedence_le) (by decide)
  | dice | pool _ | conversion _ | genesys _ => rfl
  | _ => exact h.elim

/-- Every operator on the right edge of a left operand goes out. -/
theorem goesBefore {op : Operator} (h : t.Waits (Binary.operator op).needsLeft) :
    t.goesBefore op = true := by
  cases t with
  | negate | binary _ | dice | pool _ | conversion _ | genesys _ =>
    simp only [Waits, Binary.needsLeft] at h
    simp only [Token.goesBefore, precedence?]
    cases hright : op.groupsRight <;> simp only [hright, ↓reduceIte, Bool.false_eq_true] at h ⊢ <;>
      exact decide_eq_true h
  | _ => exact h.elim

end Token.Waits

namespace Postfix

/-- What is on top of the waiting tokens stays there while an operand comes that binds at least so
tightly, and does not go out after a bracket. -/
def Calm (least : Nat) (waiting : List Token) : Prop :=
  ∀ t ∈ waiting.head?, (∀ op, least ≤ op.precedence → t.goesBefore op = false) ∧
    (least ≤ 10 → t.isChaining = false) ∧ t.isFunction = false

theorem Calm.mono {least least' : Nat} {w : List Token} (h : Calm least w) (hle : least ≤ least') :
    Calm least' w := fun t ht =>
  ⟨fun op hop => (h t ht).1 op (Nat.le_trans hle hop),
    fun h10 => (h t ht).2.1 (Nat.le_trans hle h10), (h t ht).2.2⟩

/-- No operator binds more tightly than a power, so that for a place in front of an operator on dice
only operators on dice matter. -/
theorem Calm.beforeChaining {w : List Token} (h : Calm 10 w) : Calm 7 w := fun t ht =>
  ⟨fun op hop => absurd (Nat.le_trans hop op.precedence_le) (by decide),
    fun _ => (h t ht).2.1 (Nat.le_refl _), (h t ht).2.2⟩

theorem calm_nil (least : Nat) : Calm least [] := fun _ h => by cases h

theorem calm_opening (least : Nat) (b : Bracket) (w : List Token) :
    Calm least (.opening b :: w) := fun t ht => by
  obtain rfl := Option.some.inj ht
  exact ⟨fun _ _ => rfl, fun _ => rfl, rfl⟩

theorem calm_negate (w : List Token) : Calm Unary.negate.needs (.negate :: w) := fun t ht => by
  obtain rfl := Option.some.inj ht
  exact ⟨fun op hop => by revert hop; cases op <;> decide, fun _ => rfl, rfl⟩

/-- Where only leaves stand bare, everything but a function stays. -/
theorem calm_of_not_isFunction {t : Token} (ht : t.isFunction = false) (w : List Token) :
    Calm 11 (t :: w) := fun t' ht' => by
  obtain rfl := Option.some.inj ht'
  exact ⟨fun op hop => absurd (Nat.le_trans hop op.precedence_le) (by decide),
    fun h => absurd h (by decide), ht⟩

theorem calm_binary (b : Binary) (w : List Token) : Calm b.needsRight (b.token :: w) := by
  cases b with
  | operator op =>
    intro t ht
    obtain rfl := Option.some.inj ht
    refine ⟨fun op' hop => ?_, fun _ => rfl, rfl⟩
    revert hop; cases op <;> cases op' <;> decide
  | dice | pool _ | conversion _ => exact calm_of_not_isFunction rfl w

/-! ### Single tokens -/

theorem step_operand {t : Token} (h : t.isOperand = true) (w : List Token) :
    step t w = .ok ([t], w) := by
  cases t <;> first | rfl | cases h

theorem step_operator {op : Operator} {left w : List Token}
    (hleft : ∀ t ∈ left, t.Waits (Binary.operator op).needsLeft) (hw : Calm op.precedence w) :
    step (.binary op) (left ++ w) = .ok (left, .binary op :: w) := by
  have htake : (left ++ w).takeWhile (Token.goesBefore op) = left :=
    takeWhile_append_of_head (fun t ht => (hleft t ht).goesBefore)
      fun t ht => (hw t ht).1 op (Nat.le_refl _)
  simp only [step, htake, List.drop_left]

theorem step_chaining {t : Token} (ht : t.isChaining = true) {left w : List Token}
    (hleft : ∀ t ∈ left, t.Waits 7) (hw : Calm 10 w) :
    step t (left ++ w) = .ok (left, t :: w) := by
  have htake : (left ++ w).takeWhile Token.isChaining = left :=
    takeWhile_append_of_head (fun t ht => (hleft t ht).isChaining (Nat.le_refl _))
      fun t ht => (hw t ht).2.1 (Nat.le_refl _)
  cases t with
  | dice | pool _ | conversion _ | genesys _ => simp only [step, htake, List.drop_left]
  | _ => cases ht

/-- A bracket lets go all that waits inside it, and the function in front of it. -/
theorem close_append (b : Bracket) {left : List Token} (hleft : ∀ t ∈ left, t.isOpening = false)
    (w : List Token) :
    close b (left ++ .opening b :: w) = .ok (left ++ (afterClosing w).1, (afterClosing w).2) := by
  have htake : (left ++ .opening b :: w).takeWhile (fun t => !t.isOpening) = left :=
    takeWhile_append_of_head (fun t ht => by simp [hleft t ht]) fun t ht => by
      obtain rfl := Option.some.inj ht; rfl
  simp only [close, htake, List.drop_left, ↓reduceIte]

theorem afterClosing_of_calm {least : Nat} {w : List Token} (h : Calm least w) :
    afterClosing w = ([], w) := by
  cases w with
  | nil => rfl
  | cons t w =>
    have ht := (h t rfl).2.2
    cases t <;> first | rfl | cases ht

end Postfix

/-! ### Trees -/

namespace Tree
open Postfix

/-- What comes of the tokens of a tree, on top of what waited before. -/
def Feeds (least : Nat) (x : Tree Literal) (ts w : List Token) : Prop :=
  ∃ out left, feed ts w = .ok (out, left ++ w) ∧ out ++ left = x.postorder Literal.token ∧
    ∀ t ∈ left, t.Waits least

/-- In brackets a tree comes out whole, and with it a function in front of the bracket. -/
theorem feed_bracketed {x : Tree Literal} {ts w : List Token}
    (h : x.Feeds x.binding ts (.opening .round :: w)) :
    feed (.opening .round :: (ts ++ [.closing .round])) w =
      .ok (x.postorder Literal.token ++ (afterClosing w).1, (afterClosing w).2) := by
  obtain ⟨out, left, hts, hout, hleft⟩ := h
  have hclose : step (.closing .round) (left ++ .opening .round :: w) = _ :=
    close_append .round (fun t ht => (hleft t ht).not_isOpening) w
  have hrest := feed_cons_ok hclose (rfl : feed [] _ = .ok ([], _))
  have hopen : step (.opening .round) w = .ok ([], .opening .round :: w) := rfl
  have hall := feed_cons_ok hopen (feed_append_ok hts hrest)
  rw [List.nil_append, List.append_nil, ← List.append_assoc, hout] at hall
  exact hall

theorem feeds_place {x : Tree Literal}
    (h : ∀ w, Calm x.binding w → x.Feeds x.binding (x.pieces.map Piece.token) w) {needed : Nat}
    {w : List Token} (hw : Calm needed w) :
    x.Feeds needed ((x.place needed x.pieces).map Piece.token) w := by
  unfold place; split
  · refine ⟨_, [], ?_, List.append_nil _, by simp⟩
    have := feed_bracketed (h _ (calm_opening x.binding .round w))
    rw [afterClosing_of_calm hw, List.append_nil] at this
    simpa [Piece.ofToken] using this
  · rename_i hle
    obtain ⟨out, left, hts, hout, hleft⟩ := h w (hw.mono (Nat.le_of_not_lt hle))
    exact ⟨out, left, hts, hout, fun t ht => (hleft t ht).mono (Nat.le_of_not_lt hle)⟩

/-- An operation with its operands: what waits of the left one goes out before it. -/
theorem feeds_binary {b : Binary} {x y : Tree Literal} {xs ys w : List Token}
    (hx : x.Feeds b.needsLeft xs w)
    (hstep : ∀ left : List Token, (∀ t ∈ left, t.Waits b.needsLeft) →
      step b.token (left ++ w) = .ok (left, b.token :: w))
    (hy : y.Feeds b.needsRight ys (b.token :: w)) :
    (binary b x y).Feeds b.binding (xs ++ b.token :: ys) w := by
  obtain ⟨outx, leftx, hxs, houtx, hleftx⟩ := hx
  obtain ⟨outy, lefty, hys, houty, hlefty⟩ := hy
  refine ⟨outx ++ (leftx ++ outy), lefty ++ [b.token], ?_, ?_, ?_⟩
  · rw [List.append_assoc lefty]
    exact feed_append_ok hxs (feed_cons_ok (hstep leftx hleftx) hys)
  · rw [postorder, ← houtx, ← houty]; simp only [List.append_assoc]
  · intro t ht
    rcases List.mem_append.1 ht with ht | ht
    · refine (hlefty t ht).mono ?_
      cases b with
      | operator op => cases op <;> decide
      | dice | pool _ | conversion _ => exact show 10 ≤ 11 by decide
    · obtain rfl := List.mem_singleton.1 ht
      cases b <;> exact Nat.le_refl _

theorem feeds_negate {x : Tree Literal} {ts w : List Token} (h : x.Feeds Unary.negate.needs ts (.negate :: w)) :
    (unary .negate x).Feeds (unary .negate x).binding (.negate :: ts) w := by
  obtain ⟨out, left, hfeed, hout, hleft⟩ := h
  refine ⟨out, left ++ [.negate], ?_, ?_, ?_⟩
  · rw [List.append_assoc]
    exact feed_cons_ok (rfl : step .negate w = .ok ([], _)) hfeed
  · rw [← List.append_assoc, hout]; rfl
  · intro t ht
    rcases List.mem_append.1 ht with ht | ht
    · exact hleft t ht
    · obtain rfl := List.mem_singleton.1 ht; exact Nat.le_refl _

/-- The argument of a function is always in brackets, and the function goes out when they close. -/
theorem feeds_function {x : Tree Literal} {f : MathFunction} {ts w : List Token}
    (h : x.Feeds x.binding ts (.opening .round :: .function f :: w)) :
    (unary (.function f) x).Feeds (unary (.function f) x).binding
      (.function f :: .opening .round :: (ts ++ [.closing .round])) w := by
  have hfeed := feed_cons_ok (rfl : step (.function f) w = .ok ([], _)) (feed_bracketed h)
  exact ⟨x.postorder Literal.token ++ [.function f], [], hfeed, by simp [postorder, Unary.token], by simp⟩

theorem feeds_genesys {x : Tree Literal} {k : Genesys.Kind} {ts w : List Token}
    (h : x.Feeds (Unary.genesys k).needs ts w) (hw : Calm 10 w) :
    (unary (.genesys k) x).Feeds 10 (ts ++ [.genesys k]) w := by
  obtain ⟨out, left, hfeed, hout, hleft⟩ := h
  refine ⟨out ++ left, [.genesys k], ?_, ?_, ?_⟩
  · have hstep := step_chaining (rfl : (Token.genesys k).isChaining = true) hleft hw
    have hrest := feed_cons_ok hstep (rfl : feed [] _ = .ok ([], _))
    rw [List.append_nil] at hrest
    exact feed_append_ok hfeed hrest
  · rw [hout]; rfl
  · intro t ht; obtain rfl := List.mem_singleton.1 ht; exact Nat.le_refl 10

/-- The tokens of a printed tree come out in postfix order, apart from those on its right edge, which
wait. -/
theorem feeds_pieces (x : Tree Literal) {w : List Token} (hw : Calm x.binding w) :
    x.Feeds x.binding (x.pieces.map Piece.token) w := by
  induction x generalizing w with
  | leaf l =>
    have hstep := step_operand l.token_isOperand w
    exact ⟨[l.token], [], feed_cons_ok hstep rfl, rfl, by simp⟩
  | unary u x ih =>
    cases u with
    | negate => exact feeds_negate (feeds_place (fun w => ih) (calm_negate w))
    | function f =>
      have hlt : x.binding < (Unary.function f).needs :=
        Nat.lt_succ_of_le (show x.binding ≤ 11 from x.binding_le)
      have hfeeds := feeds_function (ih (calm_opening x.binding .round (.function f :: w)))
      simpa [pieces, place, hlt, Piece.ofToken] using hfeeds
    | genesys k =>
      have hw : Calm 10 w := hw
      rw [pieces, List.map_append]
      exact feeds_genesys (feeds_place (fun w => ih) hw.beforeChaining) hw
  | binary b x y ihx ihy =>
    have hright := feeds_place (fun w => ihy) (calm_binary b w)
    rw [pieces, List.map_append, List.map_cons]
    cases b with
    | operator op =>
      have hle : op.precedence ≤ (Binary.operator op).needsLeft := by cases op <;> decide
      exact feeds_binary (feeds_place (fun w => ihx) (hw.mono hle))
        (fun left hleft => step_operator hleft hw) hright
    | dice | pool _ | conversion _ =>
      refine feeds_binary ?_ (fun left hleft => ?_) hright
      · exact feeds_place (fun w => ihx) (show Calm 10 w from hw).beforeChaining
      · exact step_chaining rfl hleft hw

theorem drain_of_waits {least : Nat} {left : List Token} (h : ∀ t ∈ left, t.Waits least) :
    drain left = .ok left :=
  drain_of_not_isOpening fun t ht => (h t ht).not_isOpening

/-- Reading the text of a tree gives the tree in postfix order. -/
theorem toPostfix_tokenize_text (x : Tree Literal) :
    (do toPostfix (← tokenize .dice x.text)) = .ok (x.postorder Literal.token) := by
  obtain ⟨out, left, hfeed, hout, hleft⟩ := x.feeds_pieces (calm_nil x.binding)
  rw [List.append_nil] at hfeed
  rw [tokenize_text]
  change toPostfix (x.pieces.map Piece.token) = _
  rw [toPostfix, order_of_feed hfeed (drain_of_waits hleft), hout]

end Tree
end Tabletop
