import Tabletop.Proofs.Bounded
import Tabletop.Proofs.Legible
import Tabletop.Proofs.Nesting
import Tabletop.Proofs.StackRun

/-!
# Which formulas are accepted

The shunting yard and the stack machine check brackets and count operands, but not where the
operands stand. At each joint of two tokens an operand may have ended and another one may begin;
`clashes` counts the joints where both happen, `misses` those where neither does. In a formula that
is accepted there are as many of the one as of the other, and without them its tokens are a
`Sentence` of the infix grammar (`tokenize_of_evaluateText`). An operator whose operand is missing
is accepted all the same where two operands stand side by side elsewhere.
-/

namespace Tabletop

/-! ### The infix grammar -/

/-- The tokens of an operand: a literal, a group in brackets, or an operation on operands. Directly
after an operator on dice no operand begins with a sign. -/
inductive Sentence : List Token → Prop
  | literal (c : Constant) : Sentence [c.token]
  | group (b : Bracket) {ts : List Token} : Sentence ts → Sentence (.opening b :: (ts ++ [.closing b]))
  | signed {ts : List Token} : Sentence ts → Sentence (.negate :: ts)
  | applied (f : MathFunction) {ts : List Token} : Sentence ts → Sentence (.function f :: ts)
  | read (k : Genesys.Kind) {ts : List Token} : Sentence ts → Sentence (ts ++ [.genesys k])
  | joined (b : Binary) {l r : List Token} : Sentence l → Sentence r →
      (r.head? = some .negate → b.token.isChaining = false) → Sentence (l ++ b.token :: r)

namespace Token

def begins : Token → Bool
  | argument _ | number .. | opening _ | negate | function _ => true
  | _ => false

def ends : Token → Bool
  | argument _ | number .. | closing _ | genesys _ => true
  | _ => false

/-- How many operands more the token leaves than it takes. -/
def weight : Token → Int
  | argument _ | number .. => 1
  | opening _ | closing _ | negate | function _ | genesys _ => 0
  | binary _ | dice | pool _ | conversion _ | blank => -1

theorem weight_eq (t : Token) :
    t.weight = (if t.ends then 1 else 0) + (if t.begins then 1 else 0) - 1 := by
  cases t <;> rfl

theorem weight_of_isBracket {t : Token} (h : t.isBracket = true) : t.weight = 0 := by
  cases t <;> first | rfl | cases h

end Token

/-- For each joint, the ends of the formula included, whether an operand ended there and whether
another one begins. -/
def joints : Bool → List Token → List (Bool × Bool)
  | ended, [] => [(ended, false)]
  | ended, t :: ts => (ended, t.begins) :: joints t.ends ts

/-- Joints where two operands stand side by side. -/
def clashes (ended : Bool) (ts : List Token) : Nat := (joints ended ts).count (true, true)

/-- Joints where an operand is missing. -/
def misses (ended : Bool) (ts : List Token) : Nat := (joints ended ts).count (false, false)

/-- At every joint an operand either ended or begins. -/
def Alternates : Bool → List Token → Prop
  | ended, [] => ended = true
  | ended, t :: ts => t.begins = !ended ∧ Alternates t.ends ts

/-- A minus sign has an operand of its own only at the beginning or after a token that wants one. -/
def SignsFit : Bool → List Token → Prop
  | _, [] => True
  | bare, t :: ts => (t = .negate → bare = true) ∧ SignsFit t.wantsOperand ts

variable {ts us : List Token} {ended bare : Bool}

theorem alternates_iff : Alternates ended ts ↔ clashes ended ts = 0 ∧ misses ended ts = 0 := by
  induction ts generalizing ended with
  | nil => cases ended <;> simp [Alternates, clashes, misses, joints]
  | cons t ts ih =>
    rw [Alternates, ih, clashes, misses, clashes, misses, joints]
    cases ended <;> cases t.begins <;> simp

/-- The grammar leaves nothing out and puts nothing side by side. -/
theorem Sentence.alternates_append (h : Sentence ts) (rest : List Token) :
    Alternates false (ts ++ rest) ↔ Alternates true rest := by
  induction h generalizing rest with
  | literal c => cases c <;> simp [Alternates, Constant.token, Token.begins, Token.ends]
  | group b _ ih =>
    simp only [List.cons_append, List.append_assoc, Alternates, Token.begins, Token.ends, ih]
    simp
  | signed _ ih => simp only [List.cons_append, Alternates, Token.begins, Token.ends, ih]; simp
  | applied f _ ih => simp only [List.cons_append, Alternates, Token.begins, Token.ends, ih]; simp
  | read k _ ih =>
    simp only [List.append_assoc, ih, List.singleton_append, Alternates, Token.begins, Token.ends]
    simp
  | joined b _ _ _ ihl ihr =>
    rw [List.append_assoc, ihl]
    cases b <;> simp [Alternates, Binary.token, Token.begins, Token.ends, ihr]

theorem Sentence.alternates (h : Sentence ts) : Alternates false ts := by
  have := (h.alternates_append []).2 rfl
  rwa [List.append_nil] at this

/-! ### Weights -/

def weight (ts : List Token) : Int := sum (ts.map Token.weight)

theorem weight_withoutBrackets (ts : List Token) : weight (withoutBrackets ts) = weight ts := by
  induction ts with
  | nil => rfl
  | cons t ts ih =>
    rw [withoutBrackets, weight] at ih ⊢
    cases ht : t.isBracket with
    | false => simp [ht, ih, weight]
    | true => simp [ht, ih, weight, Token.weight_of_isBracket ht]

/-- What the joints add up to. -/
theorem clashes_sub_misses (ended : Bool) (ts : List Token) :
    (clashes ended ts : Int) - misses ended ts = (if ended then 1 else 0) + weight ts - 1 := by
  induction ts generalizing ended with
  | nil => cases ended <;> rfl
  | cons t ts ih =>
    have hrest := ih t.ends
    have ht := t.weight_eq
    rw [clashes, misses] at hrest ⊢
    have hw : weight (t :: ts) = t.weight + weight ts := by simp [weight]
    cases ended <;> cases hb : t.begins <;> simp [joints, hb] at ht ⊢ <;> omega

theorem Tree.weight_postorder (x : Tree Constant) : weight (x.postorder Constant.token) = 1 := by
  induction x with
  | leaf c => cases c <;> rfl
  | unary u x ih =>
    rw [postorder, weight, List.map_append, sum_append]
    rw [weight] at ih
    cases u <;> simp [ih, Unary.token, Token.weight]
  | binary b x y ihx ihy =>
    rw [postorder, weight, List.map_append, List.map_append, sum_append, sum_append]
    rw [weight] at ihx ihy
    cases b <;> simp [ihx, ihy, Binary.token, Token.weight]

/-! ### Signs -/

theorem signsFit_append : SignsFit bare (ts ++ us) ↔
    SignsFit bare ts ∧ SignsFit ((ts.getLast?.map Token.wantsOperand).getD bare) us := by
  induction ts generalizing bare with
  | nil => simp [SignsFit]
  | cons t ts ih =>
    have hlast : ((t :: ts).getLast?.map Token.wantsOperand).getD bare =
        (ts.getLast?.map Token.wantsOperand).getD t.wantsOperand := by
      rw [List.getLast?_cons]
      cases ts.getLast? <;> rfl
    rw [List.cons_append, SignsFit, SignsFit, ih, hlast, and_assoc]

theorem Lexeme.signsFit_of_tokens {l : Lexeme} (hl : l ≠ .word .negate)
    (h : l.tokens .dice bare = .ok ts) : SignsFit bare ts := by
  have hsingle {t : Token} (ht : t ≠ .negate) : SignsFit bare [t] := ⟨fun h => absurd h ht, trivial⟩
  cases gives_of_tokens h with
  | list | pi => exact hsingle nofun
  | numeral ht =>
    refine hsingle ?_
    rintro rfl
    cases tokenOfNumeral_isOperand ht
  | word t =>
    refine hsingle ?_
    rintro rfl
    exact hl rfl
  | plus => trivial
  | minus => exact ⟨fun _ => rfl, trivial⟩
  | dice => exact ⟨nofun, nofun, trivial⟩

def Lexeme.isSign : Lexeme → Bool
  | word .negate => true
  | _ => false

theorem signsFit_of_tokensOf {ls : List Lexeme} (hls : .word .negate ∉ ls)
    (h : tokensOf .dice bare ls = .ok ts) : SignsFit bare ts := by
  induction ls generalizing bare ts with
  | nil =>
    cases h
    trivial
  | cons l ls ih =>
    obtain ⟨now, later, hnow, hlater, rfl⟩ := tokensOf_cons_ok_iff.1 h
    have hl : l ≠ .word .negate := by
      rintro rfl
      exact hls List.mem_cons_self
    exact signsFit_append.2 ⟨Lexeme.signsFit_of_tokens hl hnow,
      ih (fun hmem => hls (List.mem_cons_of_mem _ hmem)) hlater⟩

theorem signsFit_of_tokenize {formula : String} (h : tokenize .dice formula = .ok ts) :
    SignsFit true ts := by
  refine signsFit_of_tokensOf (fun hmem => ?_) h
  -- the sign of an operand is written like the operator, and is no word of its own
  have htable : (Lexeme.words.all fun w => !w.isSign) = true := by decide
  cases List.all_eq_true.1 htable _ (Lexeme.word_mem_of_scan hmem)

/-! ### From tokens to sentences -/

/-- Any operand put after the tokens makes a sentence with them; it may begin with a sign if the
flag is set. -/
def Awaits (bare : Bool) (ts : List Token) : Prop :=
  ∀ r, Sentence r → (r.head? = some .negate → bare = true) → Sentence (ts ++ r)

theorem awaits_nil (bare : Bool) : Awaits bare [] := fun _ hr _ => hr

/-- The tokens up to the open brackets, the latest first. -/
inductive Opened : List Bracket → List Token → Prop
  | none : Opened [] []
  | more (b : Bracket) {bs : List Bracket} {before now : List Token} {bare : Bool} :
      Opened bs before → Awaits bare now → Opened (b :: bs) (before ++ now ++ [.opening b])

namespace Awaits

variable {now : List Token}

theorem literal (h : Awaits bare now) (c : Constant) : Sentence (now ++ [c.token]) :=
  h _ (.literal c) fun hc => by cases c <;> cases hc

theorem signed (h : Awaits true now) : Awaits true (now ++ [.negate]) := fun r hr _ => by
  rw [List.append_assoc]
  exact h _ (.signed hr) fun _ => rfl

theorem applied (h : Awaits bare now) (f : MathFunction) : Awaits true (now ++ [.function f]) :=
  fun r hr _ => by
    rw [List.append_assoc]
    exact h _ (.applied f hr) nofun

theorem group (h : Awaits bare now) (b : Bracket) (hts : Sentence ts) :
    Sentence (now ++ .opening b :: (ts ++ [.closing b])) := h _ (.group b hts) nofun

end Awaits

theorem Sentence.awaits (h : Sentence ts) (b : Binary) :
    Awaits b.token.wantsOperand (ts ++ [b.token]) := fun r hr hsign => by
  rw [List.append_assoc]
  refine .joined b h hr fun hneg => ?_
  have := hsign hneg
  cases b <;> first | rfl | cases this

/-- What has been read of a formula: the part behind the last open bracket is a sentence if an operand
has just ended, and otherwise it awaits one. -/
def Reads (open_ : List Bracket) (bare : Bool) (read : List Token) : Bool → Prop
  | true => ∃ before now, read = before ++ now ∧ Opened open_ before ∧ Sentence now
  | false => ∃ before now, read = before ++ now ∧ Opened open_ before ∧ Awaits bare now

theorem Reads.step {open_ open' : List Bracket} {t : Token} {read : List Token}
    (h : Reads open_ bare read ended) (hnest : t.nest open_ = some open')
    (hbegins : t.begins = !ended) (hneg : t = .negate → bare = true) :
    Reads open' t.wantsOperand (read ++ [t]) t.ends := by
  cases ended with
  | false =>
    obtain ⟨before, now, rfl, hbefore, hnow⟩ := h
    rw [List.append_assoc]
    cases t with
    | argument a =>
      cases hnest
      exact ⟨before, _, rfl, hbefore, hnow.literal (.argument a)⟩
    | number x written =>
      cases hnest
      exact ⟨before, _, rfl, hbefore, hnow.literal (.number x written)⟩
    | opening b =>
      cases hnest
      exact ⟨_, [], by simp, .more b hbefore hnow, awaits_nil _⟩
    | negate =>
      cases hnest
      obtain rfl : bare = true := hneg rfl
      exact ⟨before, _, rfl, hbefore, hnow.signed⟩
    | function f =>
      cases hnest
      exact ⟨before, _, rfl, hbefore, hnow.applied f⟩
    | closing | binary | dice | pool | conversion | genesys | blank => cases hbegins
  | true =>
    obtain ⟨before, now, rfl, hbefore, hnow⟩ := h
    have hjoin (b : Binary) (h : b.token.nest open_ = some open') :
        Reads open' b.token.wantsOperand (before ++ now ++ [b.token]) false := by
      obtain rfl : open_ = open' := by cases b <;> exact Option.some.inj h
      exact ⟨before, _, List.append_assoc .., hbefore, hnow.awaits b⟩
    cases t with
    | binary op => exact hjoin (.operator op) hnest
    | dice => exact hjoin .dice hnest
    | pool op => exact hjoin (.pool op) hnest
    | conversion c => exact hjoin (.conversion c) hnest
    | genesys k =>
      cases hnest
      exact ⟨before, _, List.append_assoc .., hbefore, .read k hnow⟩
    | closing c =>
      cases hbefore with
      | none => cases hnest
      | more b hbefore hhead =>
        simp only [Token.nest, Option.ite_none_right_eq_some, Option.some.injEq] at hnest
        obtain ⟨rfl, rfl⟩ := hnest
        exact ⟨_, _, by simp, hbefore, hhead.group b hnow⟩
    | argument | number | opening | negate | function => cases hbegins
    | blank => cases hnest

/-- All that is left of a formula that is read to the end is one sentence. -/
theorem Reads.sentence {open_ : List Bracket} {read : List Token} (h : Reads open_ bare read ended)
    (hnest : ts.foldlM Token.nest open_ = some []) (halt : Alternates ended ts)
    (hsigns : SignsFit bare ts) : Sentence (read ++ ts) := by
  induction ts generalizing open_ bare read ended with
  | nil =>
    obtain rfl : open_ = [] := Option.some.inj hnest
    obtain rfl : ended = true := halt
    obtain ⟨before, now, rfl, hbefore, hnow⟩ := h
    cases hbefore
    simpa using hnow
  | cons t ts ih =>
    rw [List.foldlM_cons] at hnest
    obtain ⟨open', ht, hts⟩ := Option.bind_eq_some_iff.1 hnest
    have := ih (h.step ht halt.1 hsigns.1) hts halt.2 hsigns.2
    simpa using this

/-! ### Accepted formulas -/

/-- In a formula that runs with some faces, as many operands are missing as stand side by side with
another one. If none do, its tokens are a sentence of the infix grammar, and if some do, they are
none. -/
theorem tokenize_of_evaluateText {formula : String} {cap : Int} {s : Faces}
    {answer : List Operation × Operand} (h : ((evaluateText formula cap).on s).1 = .ok answer) :
    ∃ ts, tokenize .dice formula = .ok ts ∧ clashes false ts = misses false ts ∧
      (Sentence ts ↔ clashes false ts = 0) := by
  obtain ⟨s', hs'⟩ : ∃ s', (evaluateText formula cap).on s = (.ok answer, s') := ⟨_, Prod.ext h rfl⟩
  obtain ⟨ts, x, hts, hout, -⟩ := evaluateText_ok hs'
  obtain ⟨hnest, hperm⟩ := Postfix.order_ok hout
  rw [List.append_nil] at hperm
  have hweight : weight ts = 1 := calc
    weight ts = weight (withoutBrackets ts) := (weight_withoutBrackets ts).symm
    _ = weight (withoutBrackets (x.postorder Constant.token)) := (sum_of_perm (hperm.map _)).symm
    _ = weight (x.postorder Constant.token) := weight_withoutBrackets _
    _ = 1 := x.weight_postorder
  have hjoints := clashes_sub_misses false ts
  rw [hweight] at hjoints
  have hequal : clashes false ts = misses false ts := by
    simp only [Bool.false_eq_true, ↓reduceIte] at hjoints
    omega
  refine ⟨ts, hts, hequal, fun hsent => (alternates_iff.1 hsent.alternates).1, fun hnone => ?_⟩
  have halt : Alternates false ts := alternates_iff.2 ⟨hnone, hequal ▸ hnone⟩
  have hstart : Reads [] true [] false := ⟨[], [], rfl, .none, awaits_nil true⟩
  exact hstart.sentence hnest halt (signsFit_of_tokenize hts)

/-- Four dice against a target: no operands stand side by side. -/
theorem tokenize_of_evaluateText_target :
    ((evaluateText "4d6t5" 100).on (.ofList [1, 5, 3, 6])).1.toOption.isSome ∧
      ∃ ts, tokenize .dice "4d6t5" = .ok ts ∧ clashes false ts = 0 ∧ Sentence ts := by
  have hrun : ((evaluateText "4d6t5" 100).on (.ofList [1, 5, 3, 6])).1.toOption.isSome := by
    decide
  have hclashes : ((tokenize .dice "4d6t5").map (clashes false)).toOption = some 0 := by decide
  refine ⟨hrun, ?_⟩
  cases h : ((evaluateText "4d6t5" 100).on (.ofList [1, 5, 3, 6])).1 with
  | error e =>
    rw [h] at hrun
    cases hrun
  | ok answer =>
    obtain ⟨ts, hts, -, hsentence⟩ := tokenize_of_evaluateText h
    rw [hts] at hclashes
    have hnone : clashes false ts = 0 := Option.some.inj hclashes
    exact ⟨ts, hts, hnone, hsentence.2 hnone⟩

/-- The operand that is missing on the right of the last token is taken from the two operands that
stand side by side: this counts four dice against a target as well. -/
theorem evaluateText_ok_of_not_sentence :
    ((evaluateText "(4d6)(5)t" 100).on (.ofList [1, 5, 3, 6])).1.toOption.isSome ∧
      ∃ ts, tokenize .dice "(4d6)(5)t" = .ok ts ∧ misses false ts = 1 ∧ ¬ Sentence ts := by
  have hclashes : ((tokenize .dice "(4d6)(5)t").map fun ts => (clashes false ts, misses false ts)).toOption =
      some (1, 1) := by decide
  refine ⟨by decide, ?_⟩
  cases hts : tokenize .dice "(4d6)(5)t" with
  | error e =>
    rw [hts] at hclashes
    cases hclashes
  | ok ts =>
    rw [hts] at hclashes
    obtain ⟨hclash, hmiss⟩ := Prod.mk.inj (Option.some.inj hclashes)
    refine ⟨ts, rfl, hmiss, fun hsentence => ?_⟩
    rw [(alternates_iff.1 hsentence.alternates).1] at hclash
    cases hclash

end Tabletop
