import Mathlib.Data.Bool.AllAny
import Mathlib.Data.List.TakeWhile
import Tabletop.Proofs.Basic
import Tabletop.Proofs.Print

/-!
# Printed text falls into its lexemes

`Lexeme.Stands l rest` says that `l` is the lexeme found in front of `rest`. A word stands in front
of any text whose first character does not go on to a longer word (`stands_word`), a numeral in
front of any text that begins neither with a digit nor with a point. Pieces of which each stands in
front of the next ones, and means its token there (`Piece.Legible`), are read back one by one
(`tokenize_textOf`).
-/

namespace Tabletop
open Text

theorem isBlank_of_isDigit {c : Char} (h : isDigit c = true) : isBlank c = false := by
  have apart : ∀ z ∈ zeros, ∀ b ∈ blanks, ¬ (z ≤ b ∧ b < z + 10) := by decide
  rw [isDigit, digit?, Option.isSome_map, List.find?_isSome] at h
  obtain ⟨z, hz, hc⟩ := h
  rw [isBlank, List.contains_eq_mem, decide_eq_false_iff_not]
  exact fun hb => apart z hz _ hb (by simpa using hc)

namespace Lexeme

/-! ### The table of words -/

/-- No word begins a later one, so that the first word that fits is the longest. -/
theorem words_pairwise : words.Pairwise fun u v => u.text.isPrefixOf v.text = false := by
  decide

theorem words_char : ∀ w ∈ words, ∀ c ∈ w.text, isDigit c = false ∧ isBlank c = false := by
  have table : (words.all fun w => w.text.all fun c => !isDigit c && !isBlank c) = true := by
    decide
  intro w hw c hc
  have := List.all_eq_true.1 (List.all_eq_true.1 table w hw) c hc
  simpa using this

theorem words_head {w : Lexeme} (hw : w ∈ words) :
    ∃ c cs, w.text = c :: cs ∧ isDigit c = false ∧ c ≠ '.' ∧ c ≠ '[' := by
  have heads : (words.all fun w => w.text.head?.any fun c => !isDigit c && c ≠ '.' && c ≠ '[') = true := by
    decide
  obtain ⟨c, hhead, hc⟩ := (Option.any_eq_true _ _).1 (List.all_eq_true.1 heads w hw)
  obtain ⟨cs, hcs⟩ := List.head?_eq_some_iff.1 hhead
  exact ⟨c, cs, hcs, by simpa [and_assoc] using hc⟩

def Continues (w : Lexeme) (c : Char) : Prop := ∃ u ∈ words, w.text ++ [c] <+: u.text

/-- The characters that may lead from a word on to a longer one. -/
def continuations : Lexeme → List Char
  | word (.binary _) => ['*']
  | word (.function _) => ['h']
  | word (.pool _) | word (.conversion _) => ['h', 'l', 'e', 'o', 'b', 'w', 'r', 'a']
  | _ => []

/-- The token that a word is, whatever stands around it. -/
def token? : Lexeme → Option Token
  | word t => some t
  | _ => none

theorem Continues.mem_continuations {w : Lexeme} (hw : w ∈ words) {c : Char} (h : Continues w c) :
    c ∈ w.continuations := by
  have table : ∀ w ∈ words, ∀ u ∈ words, w.text <+: u.text →
      (u.text.drop w.text.length).head?.all w.continuations.contains = true := by set_option maxRecDepth 1000 in decide
  obtain ⟨u, hu, more, hmore⟩ := h
  rw [List.append_assoc] at hmore
  have hc := table w hw u hu ⟨_, hmore⟩
  rw [← hmore, List.drop_left] at hc
  exact List.contains_iff_mem.1 hc

theorem Continues.not_isDigit {w : Lexeme} {c : Char} (h : Continues w c) : isDigit c = false := by
  obtain ⟨u, hu, hpre⟩ := h
  exact (words_char u hu c (hpre.mem (by simp))).1

/-- A word is found in front of a text that does not lead on to a longer word. -/
theorem word?_text_append {w : Lexeme} (hw : w ∈ words) {rest : List Char}
    (hrest : ∀ c ∈ rest.head?, ¬ Continues w c) : word? (w.text ++ rest) = some w := by
  obtain ⟨before, after, hsplit⟩ := List.append_of_mem hw
  have hpair := words_pairwise
  rw [hsplit, List.pairwise_append] at hpair
  refine List.find?_eq_some_iff_append.2 ⟨?_, before, after, hsplit, fun u hu => ?_⟩
  · rw [List.isPrefixOf_iff_prefix]; exact List.prefix_append ..
  · have hne := hpair.2.2 u hu w (List.mem_cons_self ..)
    rw [Bool.not_eq_true', ← Bool.not_eq_true, List.isPrefixOf_iff_prefix]
    intro hpre
    rcases List.prefix_or_prefix_of_prefix hpre (List.prefix_append w.text rest) with h | h
    · rw [← Bool.not_eq_true, List.isPrefixOf_iff_prefix] at hne; exact hne h
    · -- the earlier word is longer, so its next character is the first of `rest`
      obtain ⟨more, hmore⟩ := h
      rw [← hmore, List.prefix_append_right_inj] at hpre
      cases more with
      | nil =>
        rw [List.append_nil] at hmore
        rw [← hmore, ← Bool.not_eq_true, List.isPrefixOf_iff_prefix] at hne
        exact hne List.prefix_rfl
      | cons c more =>
        obtain ⟨tail, rfl⟩ := hpre
        refine hrest c (by simp) ⟨u, by rw [hsplit]; simp [hu], more, ?_⟩
        rw [← hmore]; simp

/-! ### What is found in front of a text -/

/-- The lexeme is found in front of the text. -/
def Stands (l : Lexeme) (rest : List Char) : Prop :=
  ∃ c cs, l.text = c :: cs ∧ first c (cs ++ rest) = l

theorem list?_of_ne {c : Char} (h : c ≠ '[') (cs : List Char) : list? (c :: cs) = none := by
  unfold list?; split
  · rename_i heq; exact absurd (List.cons.inj heq).1 h
  · rfl

theorem numeral?_of_not {c : Char} (h : isDigit c = false) (hp : c ≠ '.') (cs : List Char) :
    numeral? (c :: cs) = none := by
  simp only [numeral?, List.takeWhile_cons, h, Bool.false_eq_true, ↓reduceIte, List.length_nil,
    List.drop_zero]
  split
  · rename_i heq; exact absurd (List.cons.inj heq).1 hp
  · rfl

theorem stands_word {w : Lexeme} (hw : w ∈ words) {rest : List Char}
    (hrest : ∀ c ∈ rest.head?, ¬ Continues w c) : Stands w rest := by
  obtain ⟨c, cs, htext, hdigit, hpoint, hlist⟩ := words_head hw
  refine ⟨c, cs, htext, ?_⟩
  have hword := word?_text_append hw hrest
  rw [htext, List.cons_append] at hword
  simp [first, list?_of_ne hlist, numeral?_of_not hdigit hpoint, hword]

/-! ### Literals -/

theorem numeral?_whole {w rest : List Char} (hw : ∀ c ∈ w, isDigit c = true) (hne : w ≠ [])
    (hrest : ∀ c ∈ rest.head?, isDigit c = false ∧ c ≠ '.') :
    numeral? (w ++ rest) = some (numeral w) := by
  rw [numeral?, takeWhile_append_of_head hw fun c hc => (hrest c hc).1, List.drop_left]
  split
  · exact absurd rfl (hrest '.' (by simp)).2
  · simp [hne]

theorem numeral?_point {w f rest : List Char} (hw : ∀ c ∈ w, isDigit c = true)
    (hf : ∀ c ∈ f, isDigit c = true) (hne : w ≠ [] ∨ f ≠ [])
    (hrest : ∀ c ∈ rest.head?, isDigit c = false) :
    numeral? (w ++ '.' :: (f ++ rest)) = some (numeral (w ++ '.' :: f)) := by
  have hpoint : ∀ c ∈ ('.' :: (f ++ rest)).head?, isDigit c = false := by
    intro c hc; obtain rfl := Option.some.inj hc; decide
  rw [numeral?, takeWhile_append_of_head hw hpoint, List.drop_left]
  simp only [takeWhile_append_of_head hf hrest]
  rcases hne with h | h <;> simp [h]

/-- A numeral is digits, or digits around a point with at least one on some side. -/
theorem numeral?_ok {s : List Char} {l : Lexeme} (h : numeral? s = some l) :
    ∃ t, l = numeral t ∧ (((∀ c ∈ t, isDigit c = true) ∧ t ≠ []) ∨
      ∃ w f, t = w ++ '.' :: f ∧ (∀ c ∈ w, isDigit c = true) ∧ (∀ c ∈ f, isDigit c = true) ∧
        (w ≠ [] ∨ f ≠ [])) := by
  have digits : ∀ t : List Char, ∀ c ∈ t.takeWhile isDigit, isDigit c = true :=
    fun t c hc => List.mem_takeWhile_imp hc
  simp only [numeral?] at h
  split at h
  · rename_i cs heq
    split at h
    · cases h
    · rename_i hne
      refine ⟨_, (Option.some.inj h).symm, .inr ⟨_, _, rfl, digits _, digits _, ?_⟩⟩
      simpa [or_iff_not_imp_left] using hne
  · split at h
    · cases h
    · rename_i hne
      exact ⟨_, (Option.some.inj h).symm, .inl ⟨digits s, mt List.isEmpty_iff.2 hne⟩⟩

theorem numeral?_self {s : List Char} (h : numeral? s = some (numeral s)) :
    ((∀ c ∈ s, isDigit c = true) ∧ s ≠ []) ∨
      ∃ w f, s = w ++ '.' :: f ∧ (∀ c ∈ w, isDigit c = true) ∧ (∀ c ∈ f, isDigit c = true) ∧
        (w ≠ [] ∨ f ≠ []) := by
  obtain ⟨t, htext, hparts⟩ := numeral?_ok h
  cases htext
  exact hparts

theorem stands_numeral {s : List Char} (h : numeral? s = some (numeral s)) {rest : List Char}
    (hrest : ∀ c ∈ rest.head?, isDigit c = false ∧ c ≠ '.') : Stands (numeral s) rest := by
  have hnum : numeral? (s ++ rest) = some (numeral s) := by
    rcases numeral?_self h with ⟨hs, hne⟩ | ⟨w, f, rfl, hw, hf, hne⟩
    · exact numeral?_whole hs hne hrest
    · rw [List.append_assoc, List.cons_append]
      exact numeral?_point hw hf hne fun c hc => (hrest c hc).1
  have hhead : ∃ c cs, s = c :: cs ∧ c ≠ '[' := by
    rcases numeral?_self h with ⟨hs, hne⟩ | ⟨w, f, rfl, hw, -, -⟩
    · obtain ⟨c, cs, rfl⟩ := List.exists_cons_of_ne_nil hne
      exact ⟨c, cs, rfl, fun hc => by have := hs c (by simp); rw [hc] at this; revert this; decide⟩
    · cases w with
      | nil => exact ⟨_, _, rfl, by decide⟩
      | cons c w =>
        exact ⟨c, _, rfl, fun hc => by have := hw c (by simp); rw [hc] at this; revert this; decide⟩
  obtain ⟨c, cs, rfl, hc⟩ := hhead
  rw [List.cons_append] at hnum
  exact ⟨c, cs, rfl, by simp [first, list?_of_ne hc, hnum]⟩

/-- A bracketed list is list characters between brackets. -/
theorem list?_ok {s : List Char} {l : Lexeme} (h : list? s = some l) :
    ∃ inner, l = list ('[' :: (inner ++ [']'])) ∧ ∀ c ∈ inner, isListCharacter c = true := by
  unfold list? at h
  split at h
  · simp only at h
    split at h
    · exact ⟨_, (Option.some.inj h).symm, fun c hc => List.mem_takeWhile_imp hc⟩
    · cases h
  · cases h

theorem list?_self {s : List Char} (h : list? s = some (list s)) :
    ∃ inner, s = '[' :: (inner ++ [']']) ∧ ∀ c ∈ inner, isListCharacter c = true := by
  obtain ⟨inner, htext, hinner⟩ := list?_ok h
  cases htext
  exact ⟨inner, rfl, hinner⟩

theorem stands_list {s : List Char} (h : list? s = some (list s)) (rest : List Char) :
    Stands (list s) rest := by
  obtain ⟨inner, rfl, hinner⟩ := list?_self h
  have hclose : ∀ c ∈ (']' :: rest).head?, isListCharacter c = false := by
    intro c hc; obtain rfl := Option.some.inj hc; decide
  refine ⟨'[', inner ++ [']'], rfl, ?_⟩
  have htake := takeWhile_append_of_head hinner hclose
  simp [first, list?, htake]

theorem scan_length_append (cs rest : List Char) : scan cs.length (cs ++ rest) = scan 0 rest := by
  induction cs with
  | nil => rfl
  | cons c cs ih => exact ih

theorem scan_text_append {l : Lexeme} {rest : List Char} (h : Stands l rest) :
    scan 0 (l.text ++ rest) = l :: scan 0 rest := by
  obtain ⟨c, cs, htext, hfirst⟩ := h
  rw [htext, List.cons_append, scan, hfirst, htext]
  exact congrArg (l :: ·) (scan_length_append cs rest)

end Lexeme

namespace Piece

/-- Each piece stands in front of the next ones and means its token there. The flag tells whether
an operand must come first. -/
def Legible : Bool → List Piece → Prop
  | _, [] => True
  | bare, p :: ps =>
    p.lexeme.Stands (textOf ps) ∧ (∀ c ∈ p.lexeme.text, isBlank c = false) ∧
      p.lexeme.tokens .dice bare = .ok [p.token] ∧ Legible p.token.wantsOperand ps

theorem Legible.ofText {bare : Bool} {ps : List Piece} (h : Legible bare ps) :
    Lexeme.ofText (textOf ps) = ps.map lexeme := by
  induction ps generalizing bare with
  | nil => rfl
  | cons p ps ih =>
    obtain ⟨hstands, -, -, hps⟩ := h
    rw [Lexeme.ofText, textOf_cons, Lexeme.scan_text_append hstands, List.map_cons]
    exact congrArg (p.lexeme :: ·) (ih hps)

theorem Legible.squeeze {bare : Bool} {ps : List Piece} (h : Legible bare ps) :
    squeeze (textOf ps) = textOf ps := by
  induction ps generalizing bare with
  | nil => rfl
  | cons p ps ih =>
    obtain ⟨-, hblank, -, hps⟩ := h
    rw [textOf_cons, squeeze_append, ih hps, Text.squeeze, List.filter_eq_self.2]
    intro c hc; simp [hblank c hc]

theorem Legible.tokensOf {bare : Bool} {ps : List Piece} (h : Legible bare ps) :
    tokensOf .dice bare (ps.map lexeme) = .ok (ps.map token) := by
  induction ps generalizing bare with
  | nil => rfl
  | cons p ps ih =>
    obtain ⟨-, -, hp, hps⟩ := h
    have hnext : ([p.token].getLast?.map Token.wantsOperand).getD bare = p.token.wantsOperand := rfl
    rw [List.map_cons, Tabletop.tokensOf, hp]
    change (do let rest ← Tabletop.tokensOf .dice _ _; pure ([p.token] ++ rest)) = _
    rw [hnext, ih hps]; rfl

/-- Legible pieces are read back. -/
theorem tokenize_textOf {ps : List Piece} (h : Legible true ps) :
    tokenize .dice (String.ofList (textOf ps)) = .ok (ps.map token) := by
  rw [tokenize, String.toList_ofList, h.squeeze, h.ofText, h.tokensOf]

end Piece
end Tabletop
