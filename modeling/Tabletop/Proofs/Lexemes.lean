import Tabletop.Proofs.LexBack

/-!
# The lexemes of a text

A text falls into lists, numerals and words that are well formed (`Lexeme.Proper`), and characters that
stand for nothing. Every character belongs to one of them, in their order (`Lexeme.flatMap_text_scan`),
and every token comes of one of them at its place (`exists_lexeme_of_tokensOf`), in one of the ways that
`Lexeme.Gives` lists.
-/

namespace Tabletop

open Text

namespace Lexeme

variable {c : Char} {s cs : List Char} {l : Lexeme} {skip : Nat}

/-! ### What a text begins with -/

/-- A text begins with a list, a numeral or a word, or else with a character that stands for nothing. -/
theorem first_cases (c : Char) (cs : List Char) :
    list? (c :: cs) = some (first c cs) ∨ numeral? (c :: cs) = some (first c cs) ∨ first c cs ∈ words ∨
      first c cs = stray c := by
  rw [first]
  cases hl : ((list? (c :: cs)).or (numeral? (c :: cs))).or (word? (c :: cs)) with
  | none => exact .inr (.inr (.inr rfl))
  | some l =>
    rcases Option.or_eq_some_iff.1 hl with hl | ⟨-, hl⟩
    · exact (Option.or_eq_some_iff.1 hl).imp id fun hl => .inl hl.2
    · exact .inr (.inr (.inl (List.mem_of_find?_eq_some hl)))

/-- A list has its brackets, a numeral has digits or a point, and a word is one of the notation. -/
def Proper : Lexeme → Prop
  | list text => ∃ inner, text = '[' :: (inner ++ [']']) ∧ ∀ c ∈ inner, isListCharacter c = true
  | numeral text => text ≠ [] ∧ ∀ c ∈ text, isDigit c = true ∨ c = '.'
  | pi text => pi text ∈ words
  | word t => word t ∈ words
  | stray _ => True

theorem proper_of_mem_words (h : l ∈ words) : l.Proper := by
  have hwords : ∀ w ∈ words, (match w with | pi _ | word _ => true | _ => false) = true := by decide
  cases l with
  | pi text => exact h
  | word t => exact h
  | _ => cases hwords _ h

theorem proper_of_numeral? (h : numeral? s = some l) : l.Proper := by
  obtain ⟨text, rfl, ⟨hdigits, hne⟩ | ⟨w, f, rfl, hw, hf, -⟩⟩ := numeral?_ok h
  · exact ⟨hne, fun c hc => .inl (hdigits c hc)⟩
  · refine ⟨List.append_ne_nil_of_right_ne_nil _ (List.cons_ne_nil _ _), fun c hc => ?_⟩
    rcases List.mem_append.1 hc with hc | hc
    · exact .inl (hw c hc)
    · exact (List.mem_cons.1 hc).symm.imp_left (hf c)

theorem proper_first (c : Char) (cs : List Char) : (first c cs).Proper := by
  rcases first_cases c cs with h | h | h | h
  · obtain ⟨inner, hl, hinner⟩ := list?_ok h
    rw [hl]
    exact ⟨inner, rfl, hinner⟩
  · exact proper_of_numeral? h
  · exact proper_of_mem_words h
  · rw [h]
    trivial

/-- Every lexeme of a text is what some end of the text begins with. -/
theorem exists_first_of_mem_scan (h : l ∈ scan skip s) : ∃ c cs, c :: cs <:+ s ∧ first c cs = l := by
  induction s generalizing skip with
  | nil => cases skip <;> cases h
  | cons c cs ih =>
    have hlater {skip : Nat} (h : l ∈ scan skip cs) : ∃ c' cs', c' :: cs' <:+ c :: cs ∧ first c' cs' = l := by
      obtain ⟨c', cs', hsuffix, hl⟩ := ih h
      exact ⟨c', cs', hsuffix.trans (List.suffix_cons c cs), hl⟩
    cases skip with
    | succ skip => exact hlater h
    | zero =>
      rcases List.mem_cons.1 h with rfl | h
      · exact ⟨c, cs, List.suffix_rfl, rfl⟩
      · exact hlater h

theorem proper_of_mem_scan (h : l ∈ scan skip s) : l.Proper := by
  obtain ⟨c, cs, -, rfl⟩ := exists_first_of_mem_scan h
  exact proper_first c cs

theorem proper_of_mem_ofText (h : l ∈ ofText s) : l.Proper := proper_of_mem_scan h

theorem word_mem_of_scan {t : Token} (h : word t ∈ scan skip s) : word t ∈ words :=
  proper_of_mem_scan (l := word t) h

/-! ### Where it ends -/

theorem Proper.text_ne_nil (h : l.Proper) : l.text ≠ [] := by
  have hword (hmem : l ∈ words) : l.text ≠ [] := by
    obtain ⟨c, cs, htext, -⟩ := words_head hmem
    rw [htext]
    exact List.cons_ne_nil _ _
  cases l with
  | list text =>
    obtain ⟨inner, htext, -⟩ := h
    rw [Lexeme.text, htext]
    exact List.cons_ne_nil _ _
  | numeral text => exact h.1
  | pi text => exact hword h
  | word t => exact hword h
  | stray c => exact List.cons_ne_nil _ _

theorem isPrefix_of_word? {w : Lexeme} (h : word? s = some w) : w ∈ words ∧ w.text <+: s := by
  unfold word? at h
  have hpre := List.find?_some h
  exact ⟨List.mem_of_find?_eq_some h, List.isPrefixOf_iff_prefix.1 hpre⟩

theorem isPrefix_of_list? {l : Lexeme} (h : list? s = some l) : l.text <+: s := by
  unfold list? at h
  split at h
  · rename_i cs
    dsimp only at h
    split at h
    · rename_i hclose
      obtain rfl := Option.some.inj h
      obtain ⟨more, hmore⟩ := List.head?_eq_some_iff.1 hclose
      refine ⟨more, ?_⟩
      have hcs := List.prefix_iff_eq_append.1 (List.takeWhile_prefix (l := cs) isListCharacter)
      rw [hmore] at hcs
      simp [text, hcs]
    · cases h
  · cases h

theorem isPrefix_of_numeral? {l : Lexeme} (h : numeral? s = some l) : l.text <+: s := by
  have hs := List.prefix_iff_eq_append.1 (List.takeWhile_prefix (l := s) isDigit)
  unfold numeral? at h
  dsimp only at h
  split at h
  · rename_i cs hcs
    split at h
    · cases h
    · obtain rfl := Option.some.inj h
      have hfraction : s.takeWhile isDigit ++ '.' :: cs.takeWhile isDigit <+: s.takeWhile isDigit ++ '.' :: cs :=
        (List.prefix_append_right_inj _).2 ((List.prefix_cons_inj _).2 (List.takeWhile_prefix isDigit))
      rwa [← hcs, hs] at hfraction
  · split at h
    · cases h
    · obtain rfl := Option.some.inj h
      exact List.takeWhile_prefix isDigit

theorem isPrefix_text_first (c : Char) (cs : List Char) : (first c cs).text <+: c :: cs := by
  unfold first
  dsimp only
  cases hlist : list? (c :: cs) with
  | some l => simpa using isPrefix_of_list? hlist
  | none =>
    cases hnumeral : numeral? (c :: cs) with
    | some l => simpa using isPrefix_of_numeral? hnumeral
    | none =>
      cases hword : word? (c :: cs) with
      | some l => simpa using (isPrefix_of_word? hword).2
      | none => exact (List.prefix_cons_inj c).2 List.nil_prefix

/-- The lexemes of a text are all of it. -/
theorem flatMap_text_scan (h : skip ≤ s.length) : (scan skip s).flatMap text = s.drop skip := by
  induction s generalizing skip with
  | nil => cases skip <;> rfl
  | cons c cs ih =>
    cases skip with
    | succ skip => exact ih (Nat.le_of_succ_le_succ h)
    | zero =>
      obtain ⟨more, hmore⟩ := isPrefix_text_first c cs
      have hpos := List.length_pos_iff.2 (proper_first c cs).text_ne_nil
      have hlen := congrArg List.length hmore
      rw [List.length_append, List.length_cons] at hlen
      have hdrop : cs.drop ((first c cs).text.length - 1) = (c :: cs).drop (first c cs).text.length := by
        rw [← Nat.succ_pred_eq_of_pos hpos, List.drop_succ_cons]
        rfl
      rw [scan, List.flatMap_cons, ih (by omega), hdrop, List.drop_zero, ← hmore, List.drop_left]

theorem flatMap_text_ofText (s : List Char) : (ofText s).flatMap text = s :=
  flatMap_text_scan (Nat.zero_le _)

end Lexeme

/-! ### What tokens come of -/

/-- The tokens that a lexeme gives; the flag tells whether an operand must come. Then a sign belongs to
that operand, and a `d` rolls one die. -/
inductive Lexeme.Gives : Bool → Lexeme → List Token → Prop
  | list {bare : Bool} {text : List Char} {a : Argument} (h : Argument.parse text = .ok a) :
      Gives bare (list text) [.argument a]
  | numeral {bare : Bool} {text : List Char} {t : Token} (h : tokenOfNumeral text = .ok t) :
      Gives bare (numeral text) [t]
  | pi {bare : Bool} (text : List Char) : Gives bare (pi text) [.number circleConstant (String.ofList text)]
  | word {bare : Bool} (t : Token) : Gives bare (word t) [t]
  | plus : Gives true (word (.binary .plus)) []
  | minus : Gives true (word (.binary .minus)) [.negate]
  | dice : Gives true (word .dice) [.argument (.single 1), .dice]

variable {mode : Mode} {bare : Bool} {l : Lexeme} {ls : List Lexeme} {ts : List Token}

theorem Lexeme.gives_of_tokens (h : l.tokens mode bare = .ok ts) : Gives bare l ts := by
  unfold tokens at h
  split at h
  · cases h
  · split at h
    · obtain ⟨a, ha, h⟩ := ok_of_bind h
      cases h
      exact .list ha
    · obtain ⟨t, ht, h⟩ := ok_of_bind h
      cases h
      exact .numeral ht
    · cases h
      exact .pi _
    · cases h
      cases bare
      exacts [.word _, .plus]
    · cases h
      cases bare
      exacts [.word _, .minus]
    · cases h
      cases bare
      exacts [.word _, .dice]
    · cases h
      exact .word _
    · cases h

theorem tokensOf_cons_ok_iff :
    tokensOf mode bare (l :: ls) = .ok ts ↔ ∃ now later, l.tokens mode bare = .ok now ∧
      tokensOf mode ((now.getLast?.map Token.wantsOperand).getD bare) ls = .ok later ∧ ts = now ++ later := by
  constructor
  · intro h
    obtain ⟨now, hnow, h⟩ := ok_of_bind h
    obtain ⟨later, hlater, h⟩ := ok_of_bind h
    cases h
    exact ⟨now, later, hnow, hlater, rfl⟩
  · rintro ⟨now, later, hnow, hlater, rfl⟩
    rw [tokensOf, hnow]
    change (do pure (now ++ (← tokensOf mode _ ls))) = _
    rw [hlater]
    rfl

/-- Every lexeme has tokens at its place. -/
theorem exists_tokens_of_tokensOf (h : tokensOf mode bare ls = .ok ts) :
    ∀ l ∈ ls, ∃ bare now, l.tokens mode bare = .ok now := by
  induction ls generalizing bare ts with
  | nil => exact List.forall_mem_nil _
  | cons l ls ih =>
    obtain ⟨now, later, hnow, hlater, -⟩ := tokensOf_cons_ok_iff.1 h
    exact List.forall_mem_cons.2 ⟨⟨bare, now, hnow⟩, ih hlater⟩

/-- Every token is one of a lexeme at its place. -/
theorem exists_lexeme_of_tokensOf (h : tokensOf mode bare ls = .ok ts) :
    ∀ t ∈ ts, ∃ l ∈ ls, ∃ bare now, l.tokens mode bare = .ok now ∧ t ∈ now := by
  induction ls generalizing bare ts with
  | nil =>
    cases h
    exact List.forall_mem_nil _
  | cons l ls ih =>
    obtain ⟨now, later, hnow, hlater, rfl⟩ := tokensOf_cons_ok_iff.1 h
    intro t ht
    rcases List.mem_append.1 ht with ht | ht
    · exact ⟨l, List.mem_cons_self, bare, now, hnow, ht⟩
    · obtain ⟨l', hl', hl⟩ := ih hlater t ht
      exact ⟨l', List.mem_cons_of_mem _ hl', hl⟩

end Tabletop
