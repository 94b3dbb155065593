import Mathlib.Data.Fin.Basic
import Mathlib.Data.Set.List
import Tabletop.Proofs.Bounded
import Tabletop.Proofs.SmallNumbers
import Tabletop.Proofs.Trimming
import Tabletop.Shorthand.Parts

/-!
# Lists of faces are read back

A list of small numbers, printed between brackets and commas, is read as the argument that holds
these numbers (`Literal.ofList`). So are the faces from one to another that a shorthand writes
(`Shorthand.exists_literal_faceRange`).
-/

namespace Tabletop

open Text

namespace Text

variable {mark : Char} {s : List Char}

theorem splitAt_of_notMem (h : mark ∉ s) : splitAt mark s = [s] := by
  induction s with
  | nil => rfl
  | cons c s ih =>
    simp only [List.mem_cons, not_or] at h
    rw [splitAt, if_neg (Ne.symm h.1), ih h.2]

theorem splitAt_append_mark (h : mark ∉ s) (t : List Char) :
    splitAt mark (s ++ mark :: t) = s :: splitAt mark t := by
  induction s with
  | nil => rw [List.nil_append, splitAt, if_pos rfl]
  | cons c s ih =>
    simp only [List.mem_cons, not_or] at h
    rw [List.cons_append, splitAt, if_neg (Ne.symm h.1), ih h.2]

/-- Parts that are joined by a mark are what a cut at the mark finds. -/
theorem splitAt_intercalate {parts : List (List Char)} (hne : parts ≠ []) (h : ∀ part ∈ parts, mark ∉ part) :
    splitAt mark ([mark].intercalate parts) = parts := by
  induction parts with
  | nil => exact absurd rfl hne
  | cons part parts ih =>
    obtain ⟨hpart, hparts⟩ := List.forall_mem_cons.1 h
    cases parts with
    | nil => simpa using splitAt_of_notMem hpart
    | cons next parts =>
      have hrest := splitAt_append_mark hpart ([mark].intercalate (next :: parts))
      rw [ih (List.cons_ne_nil _ _) hparts] at hrest
      simpa [List.intercalate_cons_cons] using hrest

/-- A blank after every mark belongs to the part that comes next. -/
theorem intercalate_mark_blank (mark : Char) (part : List Char) (parts : List (List Char)) :
    [mark, ' '].intercalate (part :: parts) = [mark].intercalate (part :: parts.map (' ' :: ·)) := by
  induction parts generalizing part with
  | nil => simp
  | cons next parts ih =>
    rw [List.intercalate_cons_cons, ih next]
    cases parts <;> simp [List.intercalate_cons_cons]

theorem mem_intercalate {c : Char} {parts : List (List Char)} (h : c ∈ [mark].intercalate parts) :
    c = mark ∨ ∃ part ∈ parts, c ∈ part := by
  induction parts with
  | nil => cases h
  | cons part parts ih =>
    cases parts with
    | nil => exact .inr ⟨part, List.mem_cons_self, by simpa using h⟩
    | cons next parts =>
      rw [List.intercalate_cons_cons, List.mem_append, List.mem_append, List.mem_singleton] at h
      rcases h with (h | h) | h
      · exact .inr ⟨part, List.mem_cons_self, h⟩
      · exact .inl h
      · exact (ih h).imp_right fun ⟨p, hp, hc⟩ => ⟨p, List.mem_cons_of_mem _ hp, hc⟩

theorem squeeze_intercalate (sep : List Char) (parts : List (List Char)) :
    squeeze (sep.intercalate parts) = (squeeze sep).intercalate (parts.map squeeze) := by
  induction parts with
  | nil => rfl
  | cons part parts ih =>
    cases parts with
    | nil => simp
    | cons next parts =>
      simp only [List.map_cons, List.intercalate_cons_cons, squeeze_append] at ih ⊢
      rw [ih]

end Text

/-! ### Literals -/

variable (ns : List (Fin (maxArgument + 1)))

/-- Small numbers between brackets and commas. -/
def listNumeral : List Char := '[' :: ([','].intercalate (ns.map smallNumeral) ++ [']'])

theorem isListCharacter_of_mem {c : Char} (h : c ∈ [','].intercalate (ns.map smallNumeral)) :
    Lexeme.isListCharacter c = true := by
  rcases mem_intercalate h with rfl | ⟨part, hpart, hc⟩
  · decide
  · obtain ⟨n, -, rfl⟩ := List.mem_map.1 hpart
    simp [Lexeme.isListCharacter, (smallNumeral_digits n).2.1 c hc]

theorem trim_of_digits {ds : List Char} (h : ∀ c ∈ ds, isDigit c = true) : trim ds = ds :=
  trim_eq_self fun c hc => isBlank_of_isDigit (h c hc)

theorem Number.withoutGroups?_of_digits {ds : List Char} (h : ∀ c ∈ ds, isDigit c = true) (afterDigit : Bool) :
    withoutGroups? afterDigit ds = some ds := by
  induction ds generalizing afterDigit with
  | nil => rfl
  | cons c ds ih =>
    obtain ⟨hc, hds⟩ := List.forall_mem_cons.1 h
    have hmark : c ≠ '_' := by
      rintro rfl
      cases hc
    rw [withoutGroups?, if_neg hmark, ih hds]
    rfl

theorem Number.signed_of_digits {ds : List Char} (h : ∀ c ∈ ds, isDigit c = true) : signed ds = (false, ds) := by
  unfold signed
  split
  · cases h '-' List.mem_cons_self
  · cases h '+' List.mem_cons_self
  · rfl

theorem Number.integer?_of_digits {ds : List Char} (hne : ds ≠ []) (hdigits : ∀ c ∈ ds, isDigit c = true)
    (hlength : ds.length ≤ maxNumeralDigits) : integer? ds = some (numeral ds : Int) := by
  have hread : (ds.isEmpty || !ds.all isDigit) = false := by
    rw [Bool.or_eq_false_iff]
    exact ⟨by simpa using hne, by simpa using hdigits⟩
  rw [integer?, trim_of_digits hdigits, withoutGroups?_of_digits hdigits, Option.bind_eq_bind, Option.bind_some,
    signed_of_digits hdigits]
  simp only [hread, Bool.false_eq_true, ↓reduceIte, natural, if_pos hlength]

theorem integer?_smallNumeral (n : Fin (maxArgument + 1)) : Number.integer? (smallNumeral n) = some (n.val : Int) := by
  obtain ⟨hne, hdigits, hnumeral, hlength⟩ := smallNumeral_digits n
  rw [Number.integer?_of_digits hne hdigits hlength, hnumeral]

theorem Argument.ofParts_small : ofParts (ns.map smallNumeral) = .ok (.list (ns.map Fin.val)) := by
  have hpart (n : Fin (maxArgument + 1)) :
      (do (← Scalar.ofText (smallNumeral n)).toArgument "argument") = .ok n.val := by
    rw [Scalar.ofText, integer?_smallNumeral]
    exact Scalar.toArgument_of_whole (rfl : (Scalar.integer (n.val : Int)).whole? = _) (Nat.le_of_lt_succ n.isLt)
  have hparts : (ns.map smallNumeral).mapM (fun part => do (← Scalar.ofText part).toArgument "argument") =
      .ok (ns.map Fin.val) := by
    induction ns with
    | nil => rfl
    | cons n ns ih =>
      rw [List.map_cons, List.mapM_cons, hpart, ih]
      rfl
  rw [ofParts, hparts]
  rfl

/-- Small numbers are read between commas and brackets, with blanks around them or without. -/
theorem Argument.parse_parts {parts : List (List Char)} (hne : parts ≠ []) (hcomma : ∀ part ∈ parts, ',' ∉ part)
    (hparts : parts.map trim = ns.map smallNumeral) :
    parse ('[' :: ([','].intercalate parts ++ [']'])) = .ok (.list (ns.map Fin.val)) := by
  have htrim : trim ('[' :: ([','].intercalate parts ++ [']'])) = '[' :: ([','].intercalate parts ++ [']']) :=
    trim_surrounded (by decide) (by decide) _
  have hinner : bracketed? ('[' :: ([','].intercalate parts ++ [']'])) = some ([','].intercalate parts) := by
    simp [bracketed?]
  have hread : ((splitAt ',' ([','].intercalate parts)).map trim).filter (fun part => !part.isEmpty) =
      ns.map smallNumeral := by
    rw [splitAt_intercalate hne hcomma, hparts, List.filter_eq_self]
    intro part hpart
    obtain ⟨n, -, rfl⟩ := List.mem_map.1 hpart
    simpa using (smallNumeral_digits n).1
  have hsome : (ns.map smallNumeral).isEmpty = false := by
    rw [← hparts]
    simpa using hne
  rw [parse, htrim]
  simp only [hinner, hread, hsome, Bool.false_eq_true, ↓reduceIte]
  exact ofParts_small ns

theorem comma_notMem_smallNumeral (n : Fin (maxArgument + 1)) : ',' ∉ smallNumeral n := by
  intro hmem
  cases (smallNumeral_digits n).2.1 _ hmem

theorem trim_smallNumeral (n : Fin (maxArgument + 1)) : trim (smallNumeral n) = smallNumeral n :=
  trim_of_digits (smallNumeral_digits n).2.1

theorem Argument.parse_listNumeral (h : ns ≠ []) : parse (listNumeral ns) = .ok (.list (ns.map Fin.val)) := by
  refine parse_parts ns (by simpa using h) (fun part hpart => ?_) ?_
  · obtain ⟨n, -, rfl⟩ := List.mem_map.1 hpart
    exact comma_notMem_smallNumeral n
  · rw [List.map_map]
    exact List.map_congr_left fun n _ => trim_smallNumeral n

theorem list?_listNumeral : Lexeme.list? (listNumeral ns) = some (.list (listNumeral ns)) := by
  have hclose : ∀ c ∈ [']'].head?, Lexeme.isListCharacter c = false := by
    intro c hc
    obtain rfl := Option.some.inj hc
    decide
  have htake := takeWhile_append_of_head (fun c hc => isListCharacter_of_mem ns hc) hclose
  simp [Lexeme.list?, listNumeral, htake]

def Literal.ofList (h : ns ≠ []) : Literal where
  lexeme := .list (listNumeral ns)
  token := .argument (.list (ns.map Fin.val))
  isLiteral := list?_listNumeral ns
  reads := by
    change (do pure [Token.argument (← Argument.parse (listNumeral ns))]) = _
    rw [Argument.parse_listNumeral ns h]
    rfl

/-! ### Faces of a shorthand -/

theorem squeeze_smallNumeral (n : Fin (maxArgument + 1)) : squeeze (smallNumeral n) = smallNumeral n := by
  rw [squeeze, List.filter_eq_self]
  intro c hc
  simp [isBlank_of_isDigit ((smallNumeral_digits n).2.1 c hc)]

theorem toList_numerals : ((ns.map Fin.val).map toString).map String.toList = ns.map smallNumeral := by
  rw [List.map_map, List.map_map]
  rfl

theorem squeeze_listText :
    squeeze ("[" ++ String.intercalate ", " ((ns.map Fin.val).map toString) ++ "]").toList = listNumeral ns := by
  have hparts : (ns.map smallNumeral).map squeeze = ns.map smallNumeral := by
    rw [List.map_map]
    exact List.map_congr_left fun n _ => squeeze_smallNumeral n
  rw [String.toList_append, String.toList_append, String.toList_intercalate, toList_numerals, squeeze_append,
    squeeze_append, squeeze_intercalate, hparts]
  rfl

/-- An argument as it is printed, without its blanks, is a literal that means it. -/
theorem Argument.exists_literal_text {a : Argument} (ha : a.Bounded) (hne : a.values ≠ []) :
    ∃ l : Literal, squeeze a.text.toList = l.lexeme.text ∧ l.token = .argument a := by
  have hsmall : ∀ n ∈ a.values, n < maxArgument + 1 := fun n hn => Nat.lt_succ_of_le (ha n hn)
  cases a with
  | single n =>
    have hn : n < maxArgument + 1 := hsmall n List.mem_cons_self
    exact ⟨.ofFin ⟨n, hn⟩, squeeze_smallNumeral ⟨n, hn⟩, rfl⟩
  | list ns =>
    replace hsmall : ∀ n ∈ ns, n < maxArgument + 1 := hsmall
    lift ns to List (Fin (maxArgument + 1)) using hsmall
    exact ⟨.ofList ns fun hnil => hne (by rw [hnil]; rfl), squeeze_listText ns, rfl⟩

namespace Shorthand

/-- The faces from one to another are written as the argument that has just these values. -/
theorem exists_argument_faceRange {low high : Nat} (h : low ≤ high) (hhigh : high ≤ maxArgument) :
    ∃ a : Argument, faceRange low high = a.text ∧ a.Bounded ∧ a.values ≠ [] ∧
      ∀ n, n ∈ a.values ↔ low ≤ n ∧ n ≤ high := by
  have hargument {a : Argument} (htext : faceRange low high = a.text)
      (hmem : ∀ n, n ∈ a.values ↔ low ≤ n ∧ n ≤ high) :
      faceRange low high = a.text ∧ a.Bounded ∧ a.values ≠ [] ∧ ∀ n, n ∈ a.values ↔ low ≤ n ∧ n ≤ high := by
    refine ⟨htext, fun n hn => Nat.le_trans ((hmem n).1 hn).2 hhigh, fun hnil => ?_, hmem⟩
    have hlow := (hmem low).2 ⟨Nat.le_refl _, h⟩
    rw [hnil] at hlow
    cases hlow
  by_cases heq : low = high
  · subst heq
    refine ⟨.single low, hargument (if_pos rfl) fun n => ?_⟩
    simp only [Argument.values, List.mem_singleton]
    omega
  · refine ⟨.list ((List.range (high + 1 - low)).map (· + low)), hargument (if_neg heq) fun n => ?_⟩
    simp only [Argument.values, List.mem_map, List.mem_range]
    constructor
    · rintro ⟨i, hi, rfl⟩
      omega
    · rintro ⟨hlow, hn⟩
      exact ⟨n - low, by omega, by omega⟩

/-- The faces from one to another are a literal that means just these. -/
theorem exists_literal_faceRange {low high : Nat} (h : low ≤ high) (hhigh : high ≤ maxArgument) :
    ∃ (l : Literal) (a : Argument), squeeze (faceRange low high).toList = l.lexeme.text ∧
      l.token = .argument a ∧ ∀ n, n ∈ a.values ↔ low ≤ n ∧ n ≤ high := by
  obtain ⟨a, htext, ha, hne, hmem⟩ := exists_argument_faceRange h hhigh
  obtain ⟨l, hl, htoken⟩ := Argument.exists_literal_text ha hne
  exact ⟨l, a, htext ▸ hl, htoken, hmem⟩

end Shorthand

end Tabletop
