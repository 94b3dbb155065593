import Tabletop.Proofs.ExaltedRolls
import Tabletop.Proofs.Nested
import Tabletop.Shorthand

/-!
# Parts inside their brackets

Chronicles and Exalted write the dice part of a command in brackets, and a bonus in brackets after it. Both
parts are read there as they are alone (`tokenize_partsText`), so that a bracket before a part is closed by the
one after it just if the brackets of the part itself are nested (`confined_iff_nested`): neither system asks for
that. Where the parts are expressions, the dice part is the number of dice and the bonus is added to what they
count (`toPostfix_added`, `GameSystem.parts_confined_iff`).
-/

namespace Tabletop
open Text

/-! ### The closer of a bracket -/

/-- How many tokens stand before the one that closes a bracket, if so many others are open inside it. -/
def closer? : Nat → List Token → Option Nat
  | _, [] => none
  | depth, .opening _ :: ts => (closer? (depth + 1) ts).map (· + 1)
  | 0, .closing _ :: _ => some 0
  | depth + 1, .closing _ :: ts => (closer? depth ts).map (· + 1)
  | depth, _ :: ts => (closer? depth ts).map (· + 1)

/-- A round bracket before the part is closed by the one that is written after it. -/
def Confined (part after : List Token) : Prop :=
  closer? 0 (part ++ .closing .round :: after) = some part.length

instance (part after : List Token) : Decidable (Confined part after) :=
  inferInstanceAs (Decidable (closer? 0 (part ++ .closing .round :: after) = some part.length))

theorem closer?_cons {t : Token} (ht : t.isBracket = false) (depth : Nat) (ts : List Token) :
    closer? depth (t :: ts) = (closer? depth ts).map (· + 1) := by
  cases t <;> first | (cases depth <;> rfl) | cases ht

theorem map_succ_eq_some_iff {o : Option Nat} {n : Nat} : o.map (· + 1) = some (n + 1) ↔ o = some n := by
  cases o <;> simp

/-- Among nested brackets, a closer that is counted is the one that closes: inside a part, `inner` brackets are
still open on top of those around it. -/
theorem closer?_eq_length_iff {part after : List Token} {b : Bracket} (inner outer : List Bracket)
    {last : List Bracket} (h : (part ++ .closing b :: after).foldlM Token.nest (inner ++ outer) = some last) :
    closer? inner.length (part ++ .closing b :: after) = some part.length ↔
      part.foldlM Token.nest inner = some [] := by
  induction part generalizing inner with
  | nil => cases inner <;> simp [closer?]
  | cons t part ih =>
    rw [List.cons_append, List.foldlM_cons] at h
    obtain ⟨opened, ht, h⟩ := Option.bind_eq_some_iff.1 h
    rw [List.cons_append, List.foldlM_cons, List.length_cons]
    cases t with
    | opening o =>
      obtain rfl := Option.some.inj ht
      exact map_succ_eq_some_iff.trans (ih (o :: inner) h)
    | closing c =>
      cases inner with
      | nil => simp [closer?, Token.nest]
      | cons o inner =>
        simp only [List.cons_append, Token.nest, Option.ite_none_right_eq_some] at ht
        obtain ⟨rfl, ht⟩ := ht
        obtain rfl := Option.some.inj ht
        have hstep : Token.nest (o :: inner) (.closing o) = some inner := if_pos rfl
        rw [hstep]
        exact map_succ_eq_some_iff.trans (ih inner h)
    | blank => cases ht
    | _ =>
      obtain rfl := Option.some.inj ht
      rw [closer?_cons rfl]
      exact map_succ_eq_some_iff.trans (ih inner h)

/-- Where all brackets are nested, a part is confined just if its own are. -/
theorem confined_iff_nested (before : List Token) {part after : List Token}
    (h : (before ++ .opening .round :: (part ++ .closing .round :: after)).foldlM Token.nest [] = some []) :
    Confined part after ↔ Nested (part.filter Token.isBracket) := by
  obtain ⟨hblank, -⟩ := foldlM_nest_eq_iff.1 h
  have hpart : .blank ∉ part := fun hmem => hblank (by simp [hmem])
  rw [List.foldlM_append] at h
  obtain ⟨outer, -, h⟩ := Option.bind_eq_some_iff.1 h
  have hcloser := closer?_eq_length_iff [] (.round :: outer) h
  have hnested : part.foldlM Token.nest [] = some [] ↔ _ := foldlM_nest_eq_iff
  simp only [hpart, not_false_eq_true, true_and] at hnested
  exact hcloser.trans hnested

theorem nested_of_toPostfix {ts out : List Token} (h : toPostfix ts = .ok out) : Nested (ts.filter Token.isBracket) :=
  (foldlM_nest_eq_iff.1 (Postfix.order_ok h).1).2

/-! ### The text of two parts -/

namespace Shorthand

/-- A bonus in brackets, as it is added on. -/
def addedText (bonus : List Char) : List Char :=
  if bonus.isEmpty then [] else '+' :: '(' :: (squeeze bonus ++ [')'])

def addedTokens (bonus : List Char) (bs : List Token) : List Token :=
  if bonus.isEmpty then [] else .binary .plus :: .opening .round :: (bs ++ [.closing .round])

theorem squeeze_withBonus (command : String) (bonus : List Char) :
    squeeze (withBonus command bonus).toList = squeeze command.toList ++ addedText bonus := by
  have hopen : squeeze "+(".toList = ['+', '('] := rfl
  have hclose : squeeze ")".toList = [')'] := rfl
  unfold withBonus addedText
  split
  · exact (List.append_nil _).symm
  · simp only [String.toList_append, String.toList_ofList, squeeze_append, hopen, hclose]
    simp

/-- A sign is legible after a chain. -/
theorem tokensOf_links_plus (links : List Link) :
    tokensOf .dice false (Lexeme.ofText (Link.textOf links ++ ['+'])) =
      .ok (links.flatMap Link.tokens ++ [.binary .plus]) := by
  have hplus : Piece.Legible false [.ofToken (.binary .plus)] :=
    Piece.legible_cons (Lexeme.operator_mem_words .plus)
      (Lexeme.stands_word (Lexeme.operator_mem_words .plus) fun c hc => by cases hc) rfl trivial
  have hcloses : Closes (Piece.textOf [.ofToken (.binary .plus)]) := fun c hc => by
    obtain rfl := Option.some.inj hc
    decide
  have hlegible := (Link.legible_links_append links _ hplus hcloses).1
  have htext : Piece.textOf (links.flatMap Link.pieces ++ [.ofToken (.binary .plus)]) = Link.textOf links ++ ['+'] := by
    simp [Piece.textOf, Link.textOf, Piece.ofToken, Lexeme.text, Token.text, Operator.symbol]
  rw [← htext, hlegible.ofText, hlegible.tokensOf, List.map_append, Link.map_token_pieces]
  rfl

/-- The bonus is read in its brackets as it is alone. -/
theorem tokensOf_addedText (links : List Link) (bonus : List Char) :
    tokensOf .dice false (Lexeme.ofText (Link.textOf links ++ addedText bonus)) = (do
      let bs ← tokenize .dice (String.ofList bonus)
      pure (links.flatMap Link.tokens ++ addedTokens bonus bs)) := by
  unfold addedText addedTokens
  split
  · rename_i hbonus
    obtain rfl := List.isEmpty_iff.1 hbonus
    rw [List.append_nil, Link.tokensOf_textOf]
    simp only [List.append_nil]
    rfl
  · have hsplit : Link.textOf links ++ '+' :: '(' :: (squeeze bonus ++ [')']) =
        (Link.textOf links ++ ['+']) ++ '(' :: (squeeze bonus ++ [')']) := by simp
    rw [hsplit, Lexeme.ofText_append_opening, Lexeme.ofText_append_closing, tokensOf_append_bracket .dice _ rfl,
      tokensOf_append_bracket .dice _ rfl, tokensOf_links_plus, tokenize, String.toList_ofList]
    simp only [bind_assoc, pure_bind]
    show (do
      let bs ← tokensOf .dice true (Lexeme.ofText (squeeze bonus))
      pure ((links.flatMap Link.tokens ++ [Token.binary .plus]) ++ Token.opening .round :: (bs ++ [Token.closing .round]))) = _
    simp only [List.append_assoc, List.singleton_append]

/-- What a notation is without blanks: an expression in brackets, a chain, and another expression in brackets
that is added, if there is one. -/
def partsText (dice : List Char) (links : List Link) (bonus : List Char) : List Char :=
  '(' :: (squeeze dice ++ ')' :: (Link.textOf links ++ addedText bonus))

variable {dice bonus : List Char} {links : List Link} {text : String}

/-- Both parts are read as they are alone. -/
theorem tokenize_partsText (htext : squeeze text.toList = partsText dice links bonus) :
    tokenize .dice text = (do
      let ds ← tokenize .dice (String.ofList dice)
      let bs ← tokenize .dice (String.ofList bonus)
      pure (.opening .round :: (ds ++ .closing .round :: (links.flatMap Link.tokens ++ addedTokens bonus bs)))) := by
  rw [tokenize_group htext, tokensOf_addedText]
  simp only [bind_assoc, pure_bind]

theorem addedTokens_of_ne (hne : bonus ≠ []) (bs : List Token) :
    addedTokens bonus bs = .binary .plus :: .opening .round :: (bs ++ [.closing .round]) :=
  if_neg (mt List.isEmpty_iff.1 hne)

theorem confined_added_iff {ds bs : List Token} (hne : bonus ≠ [])
    (h : (.opening .round :: (ds ++ .closing .round :: (links.flatMap Link.tokens ++ addedTokens bonus bs))).foldlM
      Token.nest [] = some []) : Confined bs [] ↔ Nested (bs.filter Token.isBracket) := by
  have hsplit : .opening .round :: (ds ++ .closing .round :: (links.flatMap Link.tokens ++ addedTokens bonus bs)) =
      (.opening .round :: (ds ++ .closing .round :: (links.flatMap Link.tokens ++ [.binary .plus]))) ++
        .opening .round :: (bs ++ [.closing .round]) := by
    rw [addedTokens_of_ne hne]
    simp
  rw [hsplit] at h
  exact confined_iff_nested _ h

/-! ### Adding a group to a chain -/

theorem toPostfix_added {ds bs : List Token} {x z : Tree Constant}
    (hx : toPostfix ds = .ok (x.postorder Constant.token)) (hz : toPostfix bs = .ok (z.postorder Constant.token)) :
    toPostfix (.opening .round :: (ds ++ .closing .round :: (links.flatMap Link.tokens ++
        .binary .plus :: .opening .round :: (bs ++ [.closing .round])))) =
      .ok ((Tree.binary (.operator .plus) (x.chain links) z).postorder Constant.token) := by
  obtain ⟨out, waiting, hchain, hwaiting, hout⟩ := feed_chain links (List.forall_mem_nil _)
  have hplus : ∀ t ∈ waiting, t.Waits (Binary.operator .plus).needsLeft := fun t ht =>
    (hwaiting t ht).mono (by decide)
  have hsign := Postfix.step_operator hplus (Postfix.calm_nil _)
  rw [List.append_nil] at hsign
  have hdice := Postfix.feed_group hx .round []
  have hbonus := Postfix.feed_group hz .round [.binary .plus]
  have hfeed := Postfix.feed_append_ok hdice (Postfix.feed_append_ok hchain (Postfix.feed_cons_ok hsign hbonus))
  have horder := Postfix.order_of_feed hfeed (rfl : Postfix.drain [Token.binary .plus] = .ok [.binary .plus])
  have hpostorder : (Tree.binary (.operator .plus) (x.chain links) z).postorder Constant.token =
      x.postorder Constant.token ++ (out ++ waiting) ++ z.postorder Constant.token ++ [.binary .plus] := by
    rw [Tree.postorder, Tree.postorder_chain, hout]
    rfl
  rw [hpostorder]
  simpa [toPostfix, Postfix.afterClosing] using horder

/-! ### Both systems -/

/-- The notation of a command: the dice part in brackets, so many ten-sided dice, what is done to them, how they
count, and the bonus in brackets. -/
structure WrittenAs (command : String) (text : String) (parts : Parts) (middle : List Link) (count : Link) : Prop where
  splits : Parts.ofCommand (Request.normal command.toList) = .ok parts
  counts : count.op = .conversion .target
  text : squeeze text.toList = partsText parts.dice (Chronicles.diceLink :: (middle ++ [count])) parts.bonus

theorem Chronicles.exists_writtenAs {command text : String} (h : toNotation command = .ok text)
    (hchance : Request.normal command.toList ≠ "chance".toList) :
    ∃ parts middle count, WrittenAs command text parts middle count := by
  rw [toNotation] at h
  rw [if_neg (show lower (trim command.toList) ≠ "chance".toList from hchance)] at h
  obtain ⟨parts, hparts, h⟩ := ok_of_bind h
  obtain ⟨o, ho, h⟩ := ok_of_bind h
  cases h
  obtain ⟨flags, -, hmeant, rfl⟩ := ofFlags_ok_iff.1 ho
  let o : Options := ⟨againOf flags, roteOf flags⟩
  obtain ⟨rotes, agains, -, -, htext⟩ := exists_links o (inRange_of_meant hmeant) parts.dice
  refine ⟨parts, rotes ++ agains, targetLink, hparts, rfl, ?_⟩
  have hrender : o.render parts.dice parts.bonus = withBonus (o.render parts.dice []) parts.bonus := rfl
  rw [hrender, squeeze_withBonus, htext, partsText]
  simp

theorem Exalted.exists_writtenAs {command text : String} (h : toNotation command = .ok text)
    (hextra : ∀ parts, Parts.ofCommand (Request.normal command.toList) = .ok parts →
      ∀ inside, Flag.braced inside ∉ Flag.scan ['d', 't'] 0 parts.flags) :
    ∃ parts middle count, WrittenAs command text parts middle count := by
  obtain ⟨parts, hparts, h⟩ := ok_of_bind h
  obtain ⟨o, ho, h⟩ := ok_of_bind h
  cases h
  obtain ⟨flags, hspells, hmeant, rfl⟩ := ofFlags_ok_iff.1 ho
  have hflags := (Flag.scan_eq_iff (by decide) fun flag h => (hmeant flag h).clear).2 hspells
  have hnone : extraOf flags = [] := by
    refine List.flatMap_eq_nil_iff.2 fun flag hflag => ?_
    rw [← hflags] at hflag
    cases flag with
    | braced inside => exact absurd hflag (hextra parts hparts inside)
    | numbered | plain => rfl
  obtain ⟨l, hl, hcount⟩ := exists_counting (inRange_of_meant hmeant)
  have hnothing : Link.textOf [] = squeeze (optionsOf flags).extra := by rw [optionsOf, hnone]; rfl
  have htext := squeeze_render _ parts.dice hnothing hcount
  refine ⟨parts, [], l, hparts, hl.op_eq, ?_⟩
  have hrender : (optionsOf flags).render parts.dice parts.bonus =
      withBonus ((optionsOf flags).render parts.dice []) parts.bonus := rfl
  rw [hrender, squeeze_withBonus, htext, partsText]
  simp

end Shorthand

namespace GameSystem
open Shorthand

/-- The commands whose notation has its parts in brackets: those of Chronicles except for a chance die, and
those of Exalted that hand nothing through in braces. -/
def WritesBrackets (command : List Char) : GameSystem → Prop
  | chronicles => Request.normal command ≠ "chance".toList
  | exalted => ∀ parts, Parts.ofCommand (Request.normal command) = .ok parts →
      ∀ inside, Flag.braced inside ∉ Flag.scan ['d', 't'] 0 parts.flags
  | narrative | storyShaper | rollAndKeep => False

theorem exists_writtenAs {system : GameSystem} {command text : String} (hsystem : system.WritesBrackets command.toList)
    (h : system.toNotation command = .ok text) : ∃ parts middle count, WrittenAs command text parts middle count := by
  cases system with
  | chronicles => exact Chronicles.exists_writtenAs h hsystem
  | exalted => exact Exalted.exists_writtenAs h hsystem
  | narrative | storyShaper | rollAndKeep => exact hsystem.elim

/-- The parts of a command stay inside the brackets that are written for them just if their own brackets are
nested. Suppose that the notation of a Chronicles or Exalted command rolls without failing. Then its tokens are
those of the dice part in brackets, the chain of operations, and those of the bonus in brackets, if there is one;
the bracket before a part is closed by the one after it if and only if the brackets of the part alone are nested;
and where the dice part and the bonus are expressions, the whole dice part is the number of ten-sided dice and
the whole bonus is added to what they count. -/
theorem parts_confined_iff {system : GameSystem} {command text : String} {cap : Int} {s s' : Faces}
    {answer : List Operation × Operand} (hsystem : system.WritesBrackets command.toList)
    (htext : system.toNotation command = .ok text) (hroll : (evaluateText text cap).on s = (.ok answer, s')) :
    ∃ (parts : Parts) (middle : List Link) (count : Link) (ds bs : List Token),
      WrittenAs command text parts middle count ∧
      tokenize .dice (String.ofList parts.dice) = .ok ds ∧ tokenize .dice (String.ofList parts.bonus) = .ok bs ∧
      let after := (Chronicles.diceLink :: (middle ++ [count])).flatMap Link.tokens ++ addedTokens parts.bonus bs
      tokenize .dice text = .ok (.opening .round :: (ds ++ .closing .round :: after)) ∧
      (Confined ds after ↔ Nested (ds.filter Token.isBracket)) ∧
      (parts.bonus ≠ [] → (Confined bs [] ↔ Nested (bs.filter Token.isBracket))) ∧
      ∀ x : Tree Constant, toPostfix ds = .ok (x.postorder Constant.token) →
        let successes := (Tree.binary .dice x (.leaf (.argument (.single 10)))).chain (middle ++ [count])
        Confined ds after ∧ (parts.bonus = [] → evaluateText text cap = successes.eval cap) ∧
        ∀ z : Tree Constant, parts.bonus ≠ [] → toPostfix bs = .ok (z.postorder Constant.token) →
          Confined bs [] ∧ evaluateText text cap = (Tree.binary (.operator .plus) successes z).eval cap := by
  obtain ⟨parts, middle, count, hwritten⟩ := exists_writtenAs hsystem htext
  obtain ⟨ts, y, hts, hpostfix, -⟩ := evaluateText_ok hroll
  have hnest := (Postfix.order_ok hpostfix).1
  have hparts := tokenize_partsText hwritten.text
  rw [hts] at hparts
  obtain ⟨ds, hds, hparts'⟩ := ok_of_bind hparts.symm
  obtain ⟨bs, hbs, hparts'⟩ := ok_of_bind hparts'
  obtain rfl := Except.ok.inj hparts'
  have hdice := confined_iff_nested [] hnest
  have hbonus (hne : parts.bonus ≠ []) : Confined bs [] ↔ Nested (bs.filter Token.isBracket) :=
    confined_added_iff hne hnest
  refine ⟨parts, middle, count, ds, bs, hwritten, hds, hbs, hts, hdice, hbonus, fun x hx => ?_⟩
  refine ⟨hdice.2 (nested_of_toPostfix hx), fun hnone => ?_, fun z hne hz => ⟨(hbonus hne).2 (nested_of_toPostfix hz), ?_⟩⟩
  · have hgroup := hwritten.text
    rw [hnone, partsText, show addedText [] = [] from rfl, List.append_nil] at hgroup
    exact evaluateText_chain hds hx hgroup cap
  · rw [addedTokens_of_ne hne] at hts
    exact evaluateText_of_postorder hts (toPostfix_added hx hz) cap

/-- The dice part comes to three dice, and one more is added to what they count. -/
theorem parts_confined_iff_bonus :
    chronicles.toNotation "(1+2);1" = .ok "((1+2))d10er10t8+(1)" ∧
      ∃ (ds bs after : List Token) (middle : List Link) (count : Link),
        tokenize .dice "((1+2))d10er10t8+(1)" = .ok (.opening .round :: (ds ++ .closing .round :: after)) ∧
        Confined ds after ∧ Confined bs [] ∧
        let one : Tree Constant := .leaf (.argument (.single 1))
        let three : Tree Constant := .binary (.operator .plus) one (.leaf (.argument (.single 2)))
        evaluateText "((1+2))d10er10t8+(1)" 100 = (Tree.binary (.operator .plus)
          ((Tree.binary .dice three (.leaf (.argument (.single 10)))).chain (middle ++ [count])) one).eval 100 := by
  have htext : chronicles.toNotation "(1+2);1" = .ok "((1+2))d10er10t8+(1)" := eq_ok_of_toOption (by decide)
  have hsplit : Parts.ofCommand (Request.normal "(1+2);1".toList) = .ok ⟨"(1+2)".toList, [], ['1']⟩ :=
    eq_ok_of_toOption (by decide)
  have hchance : Request.normal "(1+2);1".toList ≠ "chance".toList := by decide
  have hsystem : chronicles.WritesBrackets "(1+2);1".toList := hchance
  obtain ⟨answer, s', hroll, -⟩ : ∃ answer s', (evaluateText "((1+2))d10er10t8+(1)" 100).on (.ofList [3, 9, 8]) =
      (.ok answer, s') ∧ some () = some () := Rolling.exists_ok_of_toOption (by decide +kernel)
  obtain ⟨parts, middle, count, ds, bs, hwritten, hds, hbs, hts, -, -, hrun⟩ :=
    parts_confined_iff hsystem htext hroll
  obtain rfl := Except.ok.inj (hwritten.splits.symm.trans hsplit)
  have hdice : tokenize .dice "(1+2)" = .ok [.opening .round, .argument (.single 1), .binary .plus,
      .argument (.single 2), .closing .round] := rfl
  have hbonus : tokenize .dice "1" = .ok [.argument (.single 1)] := rfl
  obtain rfl := Except.ok.inj (hds.symm.trans hdice)
  obtain rfl := Except.ok.inj (hbs.symm.trans hbonus)
  obtain ⟨hconfined, -, hadded⟩ :=
    hrun (.binary (.operator .plus) (.leaf (.argument (.single 1))) (.leaf (.argument (.single 2)))) rfl
  obtain ⟨hconfined', heval⟩ := hadded (.leaf (.argument (.single 1))) (by decide) rfl
  exact ⟨htext, _, _, _, middle, count, hts, hconfined, hconfined', heval⟩

/-- Here the bracket before the dice part is closed by a bracket of the part, and the roll does not fail. -/
theorem not_confined_of_crossing :
    chronicles.WritesBrackets "3)+(5".toList ∧ chronicles.toNotation "3)+(5" = .ok "(3)+(5)d10er10t8" ∧
      ((evaluateText "(3)+(5)d10er10t8" 100).on (.ofList [1, 8, 3, 9, 2])).1.toOption.isSome ∧
      ∃ ds after, tokenize .dice "3)+(5" = .ok ds ∧
        tokenize .dice "(3)+(5)d10er10t8" = .ok (.opening .round :: (ds ++ .closing .round :: after)) ∧
        ¬Confined ds after := by
  have hchance : Request.normal "3)+(5".toList ≠ "chance".toList := by decide
  exact ⟨hchance, eq_ok_of_toOption (by decide), by decide +kernel, _, _, rfl, rfl, by decide⟩

end GameSystem

end Tabletop
