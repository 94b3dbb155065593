import Tabletop.Proofs.Bounded
import Tabletop.Proofs.LexGroup
import Tabletop.Proofs.SmallNumbers
import Tabletop.Proofs.StackRun
import Tabletop.Roll
import Tabletop.Shorthand.Parts

/-!
# Formulas that roll what an expression says

A shorthand rolls as many dice as some expression in brackets says, and then applies a chain of
operations to them. Such a formula is a tree over the tree of the expression (`Tree.chain`,
`evaluateText_chain`), or over a literal that stands by itself (`evaluateText_chain_literal`). An
expression of the characters that a shorthand allows takes no faces (`Tree.still_eval`), so that it comes
to the same inside a roll as alone.
-/

namespace Tabletop
open Text

/-! ### Computations that take no faces -/

namespace Rolling

variable {α β : Type} {m : Rolling α} {f : α → Rolling β}

/-- No face is taken, and the answer does not depend on those that are there. -/
def Still (m : Rolling α) : Prop := ∃ r, ∀ s, m.on s = (r, s)

theorem still_liftM (r : Except Error α) : Still (liftM r : Rolling α) := ⟨r, on_liftM r⟩

theorem still_pure (a : α) : Still (pure a : Rolling α) := ⟨.ok a, on_pure a⟩

theorem Still.bind (hm : m.Still) (hf : ∀ a, (f a).Still) : (m >>= f).Still := by
  obtain ⟨e | a, hr⟩ := hm
  · exact ⟨.error e, fun s => by rw [on_bind, hr]⟩
  · obtain ⟨r, hr'⟩ := hf a
    exact ⟨r, fun s => by rw [on_bind, hr]; exact hr' s⟩

theorem Still.on_of_ok (h : m.Still) {a : α} {s s' : Faces} (hm : m.on s = (.ok a, s')) (s₀ : Faces) :
    m.on s₀ = (.ok a, s₀) := by
  obtain ⟨r, hr⟩ := h
  rw [hr] at hm
  rw [hr, (Prod.mk.inj hm).1]

end Rolling

open Rolling in
/-- Only operations on dice take faces. -/
theorem Tree.still_eval {x : Tree Constant} (hx : ∀ t ∈ x.postorder Constant.token, t.isChaining = false)
    (cap : Int) : (x.eval cap).Still := by
  induction x with
  | leaf c => exact still_pure _
  | unary u x ih =>
    simp only [postorder, List.mem_append, List.mem_singleton] at hx
    have hu : ∀ o, (u.apply o).Still := by
      intro o
      cases u with
      | negate => exact still_liftM _
      | function f => exact still_liftM _
      | genesys k => exact absurd (hx _ (.inr rfl)) (by simp [Unary.token, Token.isChaining])
    exact (ih fun t ht => hx t (.inl ht)).bind fun a => (hu a.2).bind fun op => still_pure _
  | binary b x y ihx ihy =>
    simp only [postorder, List.mem_append, List.mem_singleton] at hx
    have hb : ∀ l r, (b.apply cap l r).Still := by
      intro l r
      cases b with
      | operator op => exact still_liftM _
      | dice | pool | conversion =>
        exact absurd (hx _ (.inr rfl)) (by simp [Binary.token, Token.isChaining])
    refine (ihx fun t ht => hx t (.inl (.inl ht))).bind fun a => ?_
    exact (ihy fun t ht => hx t (.inl (.inr ht))).bind fun b' => (hb a.2 b'.2).bind fun op => still_pure _

/-! ### Expressions of a shorthand -/

namespace Shorthand

theorem plain_of_isDiceCharacter {d : List Char} (hd : ∀ c ∈ d, isDiceCharacter c = true) :
    Lexeme.Plain d := by
  intro c hc
  have := hd c hc
  constructor <;> (rintro rfl; revert this; decide)

theorem not_isForDice_of_scan {skip : Nat} {s : List Char} (hs : ∀ c ∈ s, isDiceCharacter c = true) :
    ∀ l ∈ Lexeme.scan skip s, l.isForDice = false := by
  have table : ∀ w ∈ Lexeme.words, w.text.head?.any isDiceCharacter = true → w.isForDice = false := by
    have hall : (Lexeme.words.all fun w => !w.text.head?.any isDiceCharacter || !w.isForDice) = true := by
      decide
    intro w hw hhead
    have := List.all_eq_true.1 hall w hw
    simpa [hhead] using this
  intro l hl
  obtain ⟨c, cs, hsuffix, rfl⟩ := Lexeme.exists_first_of_mem_scan hl
  have hs : ∀ a ∈ c :: cs, isDiceCharacter a = true := fun a ha => hs a (hsuffix.subset ha)
  rw [Lexeme.first_of_plain (plain_of_isDiceCharacter hs)]
  split
  · cases hw : Lexeme.word? (c :: cs) with
    | none => rfl
    | some w =>
      obtain ⟨hmem, more, hmore⟩ := Lexeme.isPrefix_of_word? hw
      obtain ⟨c', cs', htext, -⟩ := Lexeme.words_head hmem
      rw [htext] at hmore
      obtain rfl : c' = c := (List.cons.inj hmore).1
      exact table w hmem (by rw [htext]; exact hs c' List.mem_cons_self)
  · rfl

theorem not_isChaining_of_tokens {mode : Mode} {bare : Bool} {l : Lexeme} {ts : List Token}
    (hl : l.isForDice = false) (h : l.tokens mode bare = .ok ts) : ∀ t ∈ ts, t.isChaining = false := by
  cases Lexeme.gives_of_tokens h with
  | list => cases hl
  | numeral ht =>
    refine List.forall_mem_singleton.2 ?_
    obtain ⟨-, rfl⟩ | ⟨x, rfl⟩ := tokenOfNumeral_ok ht <;> rfl
  | pi text => exact List.forall_mem_singleton.2 rfl
  | word t =>
    refine List.forall_mem_singleton.2 ?_
    unfold Lexeme.isForDice at hl
    split at hl
    · cases hl
    · cases hl
    · rename_i heq
      cases heq
      exact hl
    · rename_i hne
      exact absurd rfl (hne t)
  | plus => exact List.forall_mem_nil _
  | minus => exact List.forall_mem_singleton.2 rfl
  | dice => cases hl

theorem not_isChaining_of_tokensOf {mode : Mode} {bare : Bool} {ls : List Lexeme} {ts : List Token}
    (hls : ∀ l ∈ ls, l.isForDice = false) (h : tokensOf mode bare ls = .ok ts) :
    ∀ t ∈ ts, t.isChaining = false := by
  intro t ht
  obtain ⟨l, hl, _, now, hnow, ht⟩ := exists_lexeme_of_tokensOf h t ht
  exact not_isChaining_of_tokens (hls l hl) hnow t ht

end Shorthand

/-! ### Chains on an expression -/

namespace Tree

def chain (x : Tree Constant) (links : List Link) : Tree Constant :=
  links.foldl (fun y l => .binary l.op y (.leaf (.argument l.arg))) x

theorem chain_append (x : Tree Constant) (ls ms : List Link) : x.chain (ls ++ ms) = (x.chain ls).chain ms :=
  List.foldl_append

theorem postorder_chain (x : Tree Constant) (links : List Link) :
    (x.chain links).postorder Constant.token =
      x.postorder Constant.token ++ links.flatMap fun l => [l.written.token, l.op.token] := by
  induction links generalizing x with
  | nil => exact (List.append_nil _).symm
  | cons l links ih =>
    have hlink : (binary l.op x (leaf (.argument l.arg))).postorder Constant.token =
        x.postorder Constant.token ++ [l.written.token, l.op.token] := by
      rw [postorder, postorder, l.means, List.append_assoc]
      rfl
    rw [List.flatMap_cons, ← List.append_assoc, ← hlink]
    exact ih _

/-- The last link of a chain is an operation on what the chain before it comes to. -/
theorem eval_chain_singleton_ok {cap : Int} {y : Tree Constant} {link : Link} {s s' : Faces}
    {log : List Operation} {o : Operand} (h : ((y.chain [link]).eval cap).on s = (.ok (log, o), s')) :
    ∃ log' l s₁ result, (y.eval cap).on s = (.ok (log', l), s₁) ∧
      (link.op.apply cap l (.argument link.arg)).on s₁ = (.ok result, s') ∧ o = result.operand := by
  obtain ⟨log', l, s₁, silent, r, s₂, result, hy, hleaf, hop, -, ho⟩ := eval_binary_ok_iff.1 h
  obtain ⟨hr, rfl⟩ := Rolling.on_pure_ok hleaf
  obtain rfl : Operand.argument link.arg = r := congrArg Prod.snd hr
  exact ⟨log', l, s₁, result, hy, hop, ho⟩

theorem eval_chain_singleton {cap : Int} {y : Tree Constant} (link : Link) {s s₁ s' : Faces}
    {log : List Operation} {l : Operand} {result : Operation} (hrun : (y.eval cap).on s = (.ok (log, l), s₁))
    (happly : (link.op.apply cap l (.argument link.arg)).on s₁ = (.ok result, s')) :
    ((y.chain [link]).eval cap).on s = (.ok (log ++ [] ++ [result], result.operand), s') :=
  eval_binary_ok_iff.2 ⟨log, l, s₁, [], .argument link.arg, s₁, result, hrun, rfl, happly, rfl, rfl⟩

/-- A pool operator at the end of a chain changes the pool that the chain before it comes to. -/
theorem eval_chain_pool_ok {cap : Int} {y : Tree Constant} {link : Link} {op : PoolOperator} {s s' : Faces}
    {log : List Operation} {o : Operand} (hop : link.op = .pool op)
    (h : ((y.chain [link]).eval cap).on s = (.ok (log, o), s')) :
    ∃ log' l s₁ p change, (y.eval cap).on s = (.ok (log', l), s₁) ∧ l.toPool = .ok p ∧
      (op.mode.apply p link.arg cap).on s₁ = (.ok change, s') ∧ o = .thrown (.changed op link.arg change) := by
  obtain ⟨log', l, s₁, result, hrun, hchange, rfl⟩ := eval_chain_singleton_ok h
  rw [hop] at hchange
  obtain ⟨p, arg, change, hp, harg, happly, rfl⟩ := Operand.changed_ok hchange
  cases harg
  exact ⟨log', l, s₁, p, change, hrun, hp, happly, rfl⟩

/-- A conversion at the end of a chain counts the pool that the chain before it comes to. -/
theorem eval_chain_conversion_ok {cap : Int} {y : Tree Constant} {link : Link} {c : Conversion} {s s' : Faces}
    {log : List Operation} {o : Operand} (hop : link.op = .conversion c)
    (h : ((y.chain [link]).eval cap).on s = (.ok (log, o), s')) :
    ∃ log' l p, (y.eval cap).on s = (.ok (log', l), s') ∧ l.toPool = .ok p ∧
      o = .thrown (.counted c link.arg p l.successes) := by
  obtain ⟨log', l, s₁, result, hrun, hcount, rfl⟩ := eval_chain_singleton_ok h
  rw [hop] at hcount
  obtain ⟨hcounted, rfl⟩ := Rolling.on_liftM_ok hcount
  obtain ⟨arg, p, harg, hp, rfl⟩ := Operand.counted_ok hcounted
  cases harg
  exact ⟨log', l, p, hrun, hp, rfl⟩

end Tree

/-- A text that is an expression in brackets and a chain after it. -/
theorem evaluateText_chain {d : List Char} {ts : List Token} {x : Tree Constant} {links : List Link}
    {text : String} (hts : tokenize .dice (String.ofList d) = .ok ts)
    (hx : toPostfix ts = .ok (x.postorder Constant.token))
    (htext : squeeze text.toList = '(' :: (squeeze d ++ ')' :: Link.textOf links)) (cap : Int) :
    evaluateText text cap = (x.chain links).eval cap := by
  have htokens := tokenize_group htext
  rw [hts, Link.tokensOf_textOf] at htokens
  refine evaluateText_of_postorder htokens ?_ cap
  have hgroup := Postfix.feed_group hx .round []
  have horder := Postfix.order_append_ok hgroup (order_chain links (List.forall_mem_nil _))
  have hnothing : Postfix.afterClosing [] = ([], []) := rfl
  rw [hnothing, List.append_nil, List.nil_append, ← Tree.postorder_chain] at horder
  rw [toPostfix, ← horder, List.cons_append, List.append_assoc]
  rfl

/-- A text that is a literal and a chain after it. -/
theorem evaluateText_chain_literal {l : Literal} {a : Argument} {links : List Link} {text : String}
    (hl : l.token = .argument a) (htext : text = String.ofList (l.lexeme.text ++ Link.textOf links)) (cap : Int) :
    evaluateText text cap = ((Tree.leaf (.argument a)).chain links).eval cap := by
  obtain ⟨hlegible, hcloses⟩ := Link.legible_links links
  have hpieces : Piece.Legible true (⟨l.lexeme, l.token⟩ :: links.flatMap Link.pieces) :=
    ⟨l.stands hcloses, l.isBlank_text, l.reads_any true, by rwa [l.token_wantsOperand]⟩
  have htokens : tokenize .dice text = .ok (l.token :: links.flatMap Link.tokens) := by
    have h := Piece.tokenize_textOf hpieces
    rwa [Piece.textOf_cons, List.map_cons, Link.map_token_pieces, ← Link.textOf, ← htext] at h
  refine evaluateText_of_postorder htokens ?_ cap
  have horder := Postfix.order_cons_ok (Postfix.step_operand l.token_isOperand [])
    (order_chain links (List.forall_mem_nil _))
  rw [toPostfix, horder, Tree.postorder_chain, hl]
  rfl

theorem Order.roll_ok {Owner : Type} {o : Order Owner} {r : Roll Owner} {s s' : Faces}
    (h : o.roll.on s = (.ok r, s')) :
    trim o.command.toList ≠ [] ∧ ∃ log final, (evaluateText o.command maxGenerations).on s = (.ok (log, final), s') ∧
      final.toValue = .ok r.result := by
  rw [roll] at h
  split at h
  · exact (Rolling.on_throw_ok h).elim
  · rename_i hblank
    obtain ⟨⟨log, final⟩, s₁, heval, h⟩ := Rolling.on_bind_ok h
    obtain ⟨v, hvalue, h⟩ := Rolling.on_liftM_bind_ok h
    obtain ⟨rfl, rfl⟩ := Rolling.on_pure_ok h
    exact ⟨by simpa using hblank, log, final, heval, hvalue⟩

theorem Order.roll_of_evaluateText {Owner : Type} {o : Order Owner} {s s' : Faces} {log : List Operation}
    {final : Operand} {v : Value} (htext : trim o.command.toList ≠ [])
    (hrun : (evaluateText o.command maxGenerations).on s = (.ok (log, final), s')) (hvalue : final.toValue = .ok v) :
    o.roll.on s = (.ok ⟨o.command, o.comment, log, v, o.owner⟩, s') := by
  rw [roll, if_neg (mt List.isEmpty_iff.1 htext)]
  refine Rolling.on_bind_ok_iff.2 ⟨_, _, hrun, ?_⟩
  dsimp only
  rw [hvalue]
  rfl

/-! ### What the expression says -/

/-- The whole number that a value is, if it is one. -/
def Value.whole? : Value → Option Int
  | decimal x => Number.whole? x
  | successes _ | genesys _ => none

/-- An operand that comes to a whole number that is small enough is that argument. -/
theorem Operand.toArgument_of_whole {o : Operand} {v : Value} {n : Nat}
    (ho : ∀ a, o = .argument a → a.Bounded) (hvalue : o.toValue = .ok v)
    (hv : v.whole? = some (n : Int)) (hn : n ≤ maxArgument) : o.toArgument = .ok (.single n) := by
  cases v with
  | successes m => cases hv
  | genesys t => cases hv
  | decimal x =>
    have hx : Number.whole? x = some (n : Int) := hv
    have hreal : (do Argument.ofScalar (.real (← o.toDecimal))) = .ok (.single n) := by
      rw [toDecimal, hvalue]
      exact Argument.ofScalar_of_whole hx hn
    cases o with
    | argument a =>
      cases a with
      | list ns => cases hvalue
      | single m =>
        have hm : m ≤ maxArgument := ho _ rfl m List.mem_cons_self
        have hvalue : Value.ofFloat (Float.ofNat m) = .ok (.decimal x) := hvalue
        unfold Value.ofFloat at hvalue
        split at hvalue
        · cases hvalue
          rw [(double_of_small hm).2.2] at hx
          obtain rfl : m = n := Int.ofNat.inj (Option.some.inj hx)
          rfl
        · cases hvalue
    | number v written => exact hreal
    | thrown t => exact hreal

namespace Shorthand

/-- An expression that rolls without failing is a tree, comes to the same on all faces and takes
none. -/
theorem exists_tree_of_evaluateText {d : List Char} (hd : ∀ c ∈ d, isDiceCharacter c = true) {cap : Int}
    {s s' : Faces} {log : List Operation} {o : Operand}
    (h : (evaluateText (String.ofList d) cap).on s = (.ok (log, o), s')) :
    ∃ (ts : List Token) (x : Tree Constant), tokenize .dice (String.ofList d) = .ok ts ∧
      toPostfix ts = .ok (x.postorder Constant.token) ∧
      (∀ s₀, (x.eval cap).on s₀ = (.ok (log, o), s₀)) ∧ ∀ a, o = .argument a → a.Bounded := by
  obtain ⟨ts, x, hts, hout, h⟩ := evaluateText_ok h
  have hdice : ∀ l ∈ Lexeme.ofText (squeeze d), l.isForDice = false :=
    not_isForDice_of_scan fun c hc => hd c (mem_squeeze.1 hc).1
  have hsubset := subset_of_toPostfix hout
  have hchaining : ∀ t ∈ ts, t.isChaining = false := by
    rw [tokenize, String.toList_ofList] at hts
    exact not_isChaining_of_tokensOf hdice hts
  have hstill := x.still_eval (fun t ht => hchaining t (hsubset ht)) cap
  refine ⟨ts, x, hts, hout, hstill.on_of_ok h, ?_⟩
  rintro a rfl
  -- an argument is left only by a leaf
  have hoperation {result : Operation} (ho : Operand.argument a = result.operand) : False := by
    cases result <;> cases ho
  cases x with
  | leaf c =>
    have hc := congrArg Prod.snd (Rolling.on_pure_ok h).1
    have hmem : c.token ∈ ts := hsubset (List.mem_singleton.2 rfl)
    cases c with
    | argument b =>
      cases hc
      exact bounded_of_tokenize hts _ hmem a rfl
    | number x written => cases hc
  | unary u x =>
    obtain ⟨⟨logx, l⟩, s₁, -, h⟩ := Rolling.on_bind_ok h
    obtain ⟨result, s₂, -, h⟩ := Rolling.on_bind_ok h
    have ho := congrArg Prod.snd (Rolling.on_pure_ok h).1
    exact (hoperation ho.symm).elim
  | binary b x y =>
    obtain ⟨⟨logx, l⟩, s₁, -, h⟩ := Rolling.on_bind_ok h
    obtain ⟨⟨logy, r⟩, s₂, -, h⟩ := Rolling.on_bind_ok h
    obtain ⟨result, s₃, -, h⟩ := Rolling.on_bind_ok h
    have ho := congrArg Prod.snd (Rolling.on_pure_ok h).1
    exact (hoperation ho.symm).elim

end Shorthand

end Tabletop
