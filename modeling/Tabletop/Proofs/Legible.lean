import Tabletop.Proofs.LexBack

/-!
# Printed trees are legible

What stands next to what in a printed tree: an operand begins with one of the `openers` or a digit,
the text after an operand begins with one of the `closers`, and after an operator on dice there is
only an operand that begins with a digit or one of the `bareOpeners`. None of these characters goes
on to a longer word or number, so the pieces of a tree are legible (`Tree.readable_pieces`).
-/

namespace Tabletop
open Text

/-! ### Reading a literal -/

theorem tokenOfNumeral_isOperand {s : List Char} {t : Token} (h : tokenOfNumeral s = .ok t) :
    t.isOperand = true := by
  simp only [tokenOfNumeral] at h
  split at h
  · cases h
  split at h
  · obtain ⟨n, -, h⟩ := ok_of_bind h
    rw [map_eq_pure_bind] at h
    obtain ⟨a, -, h⟩ := ok_of_bind h
    obtain rfl := Except.ok.inj h; rfl
  · obtain rfl := Except.ok.inj h; rfl

theorem Token.not_wantsOperand_of_isOperand {t : Token} (h : t.isOperand = true) : t.wantsOperand = false := by
  cases t <;> first | rfl | cases h

theorem Lexeme.IsLiteral.cases {l : Lexeme} (h : l.IsLiteral) :
    (∃ s, l = list s ∧ list? s = some (list s)) ∨
      (∃ s, l = numeral s ∧ numeral? s = some (numeral s)) ∨ l = pi ['p', 'i'] ∨ l = pi ['π'] := by
  cases l with
  | list s => exact .inl ⟨s, rfl, h⟩
  | numeral s => exact .inr (.inl ⟨s, rfl, h⟩)
  | pi s => rcases h with rfl | rfl <;> simp
  | word t => exact h.elim
  | stray c => exact h.elim

namespace Literal

variable (l : Literal)

theorem reads_any (bare : Bool) : l.lexeme.tokens .dice bare = .ok [l.token] := by
  rw [← l.reads]
  rcases l.isLiteral.cases with ⟨s, hl, -⟩ | ⟨s, hl, -⟩ | hl | hl <;> rw [hl] <;> rfl

theorem token_isOperand : l.token.isOperand = true := by
  have hr := l.reads
  rcases l.isLiteral.cases with ⟨s, hl, -⟩ | ⟨s, hl, -⟩ | hl | hl <;> rw [hl] at hr
  · obtain ⟨a, -, hr⟩ := ok_of_bind (show (do pure [Token.argument (← Argument.parse s)]) = _ from hr)
    rw [← List.singleton_inj.1 (Except.ok.inj hr)]; rfl
  · obtain ⟨t, hs, hr⟩ := ok_of_bind (show (do pure [← tokenOfNumeral s]) = _ from hr)
    rw [← List.singleton_inj.1 (Except.ok.inj hr)]; exact tokenOfNumeral_isOperand hs
  · rw [← List.singleton_inj.1 (Except.ok.inj hr)]; rfl
  · rw [← List.singleton_inj.1 (Except.ok.inj hr)]; rfl

theorem token_wantsOperand : l.token.wantsOperand = false := Token.not_wantsOperand_of_isOperand l.token_isOperand

end Literal

/-! ### First characters -/

/-- What an operand without brackets around it, and without a sign or function in front, may begin
with, digits apart. -/
def bareOpeners : List Char := ['.', '[', 'p', 'π', '(']

/-- What an operand may begin with, digits apart. -/
def openers : List Char := bareOpeners ++ ['-', 'a', 'f', 's', 'c', 't', 'l']

/-- What may follow an operand. -/
def closers : List Char :=
  [')', '&', '+', '-', '*', 'x', '×', '/', '÷', '%', '^', 'd', 'k', 'r', 'e', 't', 'b', 'g']

/-- The text begins with a digit or one of the characters. -/
def Opens (chars s : List Char) : Prop := ∃ c ∈ s.head?, isDigit c = true ∨ c ∈ chars

/-- The text is empty or begins with a character that may follow an operand. -/
def Closes (s : List Char) : Prop := ∀ c ∈ s.head?, c ∈ closers

theorem Opens.mono {chars chars' s : List Char} (h : Opens chars s) (hsub : chars ⊆ chars') :
    Opens chars' s := by
  obtain ⟨c, hc, h⟩ := h
  exact ⟨c, hc, h.imp_right fun hm => hsub hm⟩

theorem bareOpeners_subset : bareOpeners ⊆ openers := List.subset_append_left ..

namespace Lexeme

theorem stands_of_opens {w : Lexeme} (hw : w ∈ words) {chars rest : List Char}
    (hrest : Opens chars rest) (hchars : ∀ c ∈ chars, c ∉ w.continuations) : Stands w rest := by
  refine stands_word hw fun c hc hcont => ?_
  obtain ⟨c', hc', h⟩ := hrest
  obtain rfl : c' = c := Option.some.inj (hc'.symm.trans hc)
  rcases h with h | h
  · rw [hcont.not_isDigit] at h; cases h
  · exact hchars _ h (hcont.mem_continuations hw)

theorem stands_of_nil {w : Lexeme} (hw : w ∈ words) (h : w.continuations = []) (rest : List Char) :
    Stands w rest :=
  stands_word hw fun c _ hcont => by have := hcont.mem_continuations hw; simp [h] at this

theorem opening_mem_words (b : Bracket) : word (.opening b) ∈ words := by
  cases b <;> simp [words]

theorem closing_mem_words (b : Bracket) : word (.closing b) ∈ words := by
  cases b <;> simp [words]

theorem operator_mem_words (op : Operator) : word (.binary op) ∈ words := by
  cases op <;> simp [words]

theorem function_mem_words (f : MathFunction) : word (.function f) ∈ words := by
  cases f <;> simp [words, MathFunction.all]

theorem genesys_mem_words (k : Genesys.Kind) : word (.genesys k) ∈ words := by
  cases k <;> simp [words, Genesys.Kind.all]

theorem binary_mem_words (b : Binary) : word b.token ∈ words := by
  cases b with
  | operator op => exact operator_mem_words op
  | dice => simp [words, Binary.token]
  | pool op =>
    rcases op with (_ | _ | _) | (_ | _ | _) | (_ | _ | _) <;>
      simp [words, Binary.token, PoolOperator.all]
  | conversion c => cases c <;> simp [words, Binary.token]

end Lexeme

namespace Literal

variable (l : Literal)

theorem stands {rest : List Char} (hrest : Closes rest) : l.lexeme.Stands rest := by
  have table : ∀ c ∈ closers, isDigit c = false ∧ c ≠ '.' :=
    List.all_iff_forall_prop.1 (by decide)
  rcases l.isLiteral.cases with ⟨s, hl, h⟩ | ⟨s, hl, h⟩ | hl | hl <;> rw [hl]
  · exact Lexeme.stands_list h rest
  · exact Lexeme.stands_numeral h fun c hc => table c (hrest c hc)
  · exact Lexeme.stands_of_nil (by simp [Lexeme.words]) rfl rest
  · exact Lexeme.stands_of_nil (by simp [Lexeme.words]) rfl rest

theorem opens (rest : List Char) : Opens bareOpeners (l.lexeme.text ++ rest) := by
  rcases l.isLiteral.cases with ⟨s, hl, h⟩ | ⟨s, hl, h⟩ | hl | hl <;> rw [hl]
  · obtain ⟨inner, rfl, -⟩ := Lexeme.list?_self h
    exact ⟨'[', rfl, .inr (by decide)⟩
  · rcases Lexeme.numeral?_self h with ⟨hs, hne⟩ | ⟨w, f, rfl, hw, -, -⟩
    · obtain ⟨c, cs, rfl⟩ := List.exists_cons_of_ne_nil hne
      exact ⟨c, rfl, .inl (hs c (by simp))⟩
    · cases w with
      | nil => exact ⟨'.', rfl, .inr (by decide)⟩
      | cons c w => exact ⟨c, rfl, .inl (hw c (by simp))⟩
  · exact ⟨'p', rfl, .inr (by decide)⟩
  · exact ⟨'π', rfl, .inr (by decide)⟩

theorem isBlank_text : ∀ c ∈ l.lexeme.text, isBlank c = false := by
  rcases l.isLiteral.cases with ⟨s, hl, h⟩ | ⟨s, hl, h⟩ | hl | hl <;> rw [hl]
  · obtain ⟨inner, rfl, hinner⟩ := Lexeme.list?_self h
    intro c hc
    simp only [Lexeme.text, List.mem_cons, List.mem_append, List.not_mem_nil, or_false] at hc
    rcases hc with rfl | hc | rfl
    · decide
    · have := hinner c hc
      simp only [Lexeme.isListCharacter, Bool.or_eq_true, decide_eq_true_eq] at this
      rcases this with (h | rfl) | rfl
      exacts [isBlank_of_isDigit h, by decide, by decide]
    · decide
  · intro c hc
    rcases Lexeme.numeral?_self h with ⟨hs, -⟩ | ⟨w, f, rfl, hw, hf, -⟩
    · exact isBlank_of_isDigit (hs c hc)
    rcases List.mem_append.1 hc with hc | hc
    · exact isBlank_of_isDigit (hw c hc)
    rcases List.mem_cons.1 hc with rfl | hc
    · decide
    · exact isBlank_of_isDigit (hf c hc)
  · exact List.all_iff_forall_prop.1 (by decide)
  · exact List.all_iff_forall_prop.1 (by decide)

end Literal

/-! ### The pieces of a tree -/

namespace Piece

/-- A word is legible if its token is what it means there. -/
theorem legible_cons {t : Token} {bare : Bool} {ps : List Piece} {w : Lexeme}
    (hw : w ∈ Lexeme.words) (hstands : w.Stands (textOf ps)) (ht : w.tokens .dice bare = .ok [t])
    (hps : Legible t.wantsOperand ps) : Legible bare (⟨w, t⟩ :: ps) :=
  ⟨hstands, fun c hc => (Lexeme.words_char w hw c hc).2, ht, hps⟩

/-- The pieces are legible in front of all that may follow an operand. -/
def Readable (bare : Bool) (ps : List Piece) : Prop :=
  ∀ rest, Legible false rest → Closes (textOf rest) → Legible bare (ps ++ rest)

theorem Readable.bracketed {ps : List Piece} (h : Readable true ps) (bare : Bool) :
    Readable bare (.ofToken (.opening .round) :: (ps ++ [.ofToken (.closing .round)])) := by
  intro rest hrest hclose
  have hclosing : Legible false (.ofToken (.closing .round) :: rest) :=
    legible_cons (Lexeme.closing_mem_words _)
      (Lexeme.stands_of_nil (Lexeme.closing_mem_words _) rfl _) rfl hrest
  have hinner := h (.ofToken (.closing .round) :: rest) hclosing fun c hc => by
    obtain rfl := Option.some.inj hc; decide
  rw [List.cons_append, List.append_assoc]
  exact legible_cons (Lexeme.opening_mem_words _)
    (Lexeme.stands_of_nil (Lexeme.opening_mem_words _) rfl _) rfl hinner

end Piece

namespace Tree
open Piece

theorem readable_place {x : Tree Literal} (h : Readable true x.pieces) (needed : Nat) :
    Readable true (x.place needed x.pieces) := by
  unfold place; split
  · exact h.bracketed true
  · exact h

/-- Where only leaves stand bare, it does not matter what comes before. -/
theorem readable_place_bare {x : Tree Literal} (h : Readable true x.pieces) {needed : Nat}
    (hneeded : 11 ≤ needed) (bare : Bool) : Readable bare (x.place needed x.pieces) := by
  unfold place; split
  · exact h.bracketed bare
  · cases x with
    | leaf l => exact fun rest hrest hclose =>
        ⟨l.stands hclose, l.isBlank_text, l.reads_any bare, by rw [l.token_wantsOperand]; exact hrest⟩
    | unary u x => have := u.binding_le; simp only [binding] at *; omega
    | binary b x y => have := b.binding_le; simp only [binding] at *; omega

/-- A bracket or a leaf comes first where only leaves stand bare. -/
theorem opens_place_bare (x : Tree Literal) {needed : Nat} (hneeded : 11 ≤ needed)
    (rest : List Piece) : Opens bareOpeners (textOf (x.place needed x.pieces ++ rest)) := by
  unfold place; split
  · exact ⟨'(', rfl, .inr (by decide)⟩
  · cases x with
    | leaf l => exact l.opens _
    | unary u x => have := u.binding_le; simp only [binding] at *; omega
    | binary b x y => have := b.binding_le; simp only [binding] at *; omega

theorem opens_place {x : Tree Literal} (h : ∀ rest, Opens openers (textOf (x.pieces ++ rest)))
    (needed : Nat) (rest : List Piece) :
    Opens openers (textOf (x.place needed x.pieces ++ rest)) := by
  unfold place; split
  · exact ⟨'(', rfl, .inr (by decide)⟩
  · exact h rest

theorem opens_pieces (x : Tree Literal) (rest : List Piece) :
    Opens openers (textOf (x.pieces ++ rest)) := by
  induction x generalizing rest with
  | leaf l => exact (l.opens _).mono bareOpeners_subset
  | unary u x ih =>
    cases u with
    | negate => exact ⟨'-', rfl, .inr (by decide)⟩
    | function f => cases f <;> exact ⟨_, rfl, .inr (by decide)⟩
    | genesys k =>
      rw [pieces, List.append_assoc]
      exact opens_place ih _ _
  | binary b x y ihx ihy =>
    rw [pieces, List.append_assoc]
    exact opens_place ihx _ _

/-- An operation between its operands is legible, and may follow the left one. -/
theorem legible_binary (b : Binary) {ps : List Piece} (hps : Legible b.token.wantsOperand ps)
    (hopens : Opens openers (textOf ps))
    (hbare : b.token.isChaining = true → Opens bareOpeners (textOf ps)) :
    Legible false (.ofToken b.token :: ps) ∧ Closes (textOf (.ofToken b.token :: ps)) := by
  have letters : ∀ c ∈ bareOpeners, c ∉ ['h', 'l', 'e', 'o', 'b', 'w', 'r', 'a'] :=
    List.all_iff_forall_prop.1 (by decide)
  refine ⟨legible_cons (Lexeme.binary_mem_words b) ?_ ?_ hps, ?_⟩
  · cases b with
    | operator op =>
      have apart : ∀ c ∈ openers, c ∉ ['*'] := List.all_iff_forall_prop.1 (by decide)
      exact Lexeme.stands_of_opens (Lexeme.operator_mem_words op) hopens apart
    | dice => exact Lexeme.stands_of_nil (Lexeme.binary_mem_words .dice) rfl _
    | pool op =>
      exact Lexeme.stands_of_opens (Lexeme.binary_mem_words (.pool op)) (hbare rfl) letters
    | conversion c =>
      exact Lexeme.stands_of_opens (Lexeme.binary_mem_words (.conversion c)) (hbare rfl) letters
  · rcases b with op | _ | op | c
    · cases op <;> rfl
    all_goals rfl
  · intro c hc
    rcases b with op | _ | op | c'
    · cases op <;> (obtain rfl := Option.some.inj hc; decide)
    · obtain rfl := Option.some.inj hc; decide
    · rcases op with (_ | _ | _) | (_ | _ | _) | (_ | _ | _) <;>
        (obtain rfl := Option.some.inj hc; decide)
    · cases c' <;> (obtain rfl := Option.some.inj hc; decide)

theorem readable_pieces (x : Tree Literal) : Readable true x.pieces := by
  induction x with
  | leaf l => exact fun rest hrest hclose =>
      ⟨l.stands hclose, l.isBlank_text, l.reads_any true, by rw [l.token_wantsOperand]; exact hrest⟩
  | unary u x ih =>
    intro rest hrest hclose
    cases u with
    | negate =>
      exact legible_cons (Lexeme.operator_mem_words .minus)
        (Lexeme.stands_of_opens (Lexeme.operator_mem_words .minus)
          (opens_place x.opens_pieces _ _) (List.all_iff_forall_prop.1 (by decide))) rfl
        (readable_place ih _ rest hrest hclose)
    | function f =>
      have apart : ∀ c ∈ bareOpeners, c ∉ ['h'] := List.all_iff_forall_prop.1 (by decide)
      exact legible_cons (Lexeme.function_mem_words f)
        (Lexeme.stands_of_opens (Lexeme.function_mem_words f)
          (opens_place_bare x (show 11 ≤ 12 by decide) rest) apart) rfl
        (readable_place ih _ rest hrest hclose)
    | genesys k =>
      rw [pieces, List.append_assoc]
      refine readable_place ih _ _ ?_ fun c hc => ?_
      · exact legible_cons (Lexeme.genesys_mem_words k)
          (Lexeme.stands_of_nil (Lexeme.genesys_mem_words k) rfl _) rfl hrest
      · cases k <;> (obtain rfl := Option.some.inj hc; decide)
  | binary b x y ihx ihy =>
    intro rest hrest hclose
    rw [pieces, List.append_assoc, List.cons_append]
    have hright : Legible b.token.wantsOperand (y.place b.needsRight y.pieces ++ rest) := by
      cases b with
      | operator op => exact readable_place ihy _ rest hrest hclose
      | dice => exact readable_place_bare ihy (Nat.le_refl 11) false rest hrest hclose
      | pool op => exact readable_place_bare ihy (Nat.le_refl 11) false rest hrest hclose
      | conversion c => exact readable_place_bare ihy (Nat.le_refl 11) false rest hrest hclose
    have hbare : b.token.isChaining = true →
        Opens bareOpeners (textOf (y.place b.needsRight y.pieces ++ rest)) := by
      intro hb
      cases b with
      | operator op => cases hb
      | dice => exact opens_place_bare y (Nat.le_refl 11) rest
      | pool op => exact opens_place_bare y (Nat.le_refl 11) rest
      | conversion c => exact opens_place_bare y (Nat.le_refl 11) rest
    obtain ⟨hlegible, hcloses⟩ := legible_binary b hright (opens_place y.opens_pieces _ _) hbare
    exact readable_place ihx _ _ hlegible hcloses

/-- The text of a tree falls into the tokens that are meant by its pieces. -/
theorem tokenize_text (x : Tree Literal) : tokenize .dice x.text = .ok (x.pieces.map Piece.token) := by
  have h := readable_pieces x [] trivial fun c hc => by cases hc
  rw [List.append_nil] at h
  exact tokenize_textOf h

end Tree
end Tabletop
