import Tabletop.Proofs.FaceLists

/-!
# Arguments survive printing

An argument that is printed is read back as the same one, from its text (`Argument.parse_text`) and as the
one token of a formula (`Argument.tokenize_text`). All that can be read at all is bounded and has a number
(`Argument.values_ne_nil_of_parse`), so that printing and reading again changes nothing there.
-/

namespace Tabletop

open Text

/-! ### Printing and reading -/

theorem Literal.tokenize_of_squeeze (l : Literal) {text : String} (h : squeeze text.toList = l.lexeme.text) :
    tokenize .dice text = .ok [l.token] := by
  have hlegible : Piece.Legible true [⟨l.lexeme, l.token⟩] :=
    ⟨l.stands (by simp [Closes]), l.isBlank_text, l.reads_any true, trivial⟩
  have htext : squeeze text.toList = Piece.textOf [⟨l.lexeme, l.token⟩] := by
    rw [h, Piece.textOf_cons, Piece.textOf_nil, List.append_nil]
  rw [tokenize, htext, hlegible.ofText, hlegible.tokensOf]
  rfl

namespace Argument

variable {a : Argument}

theorem bracketed?_smallNumeral (n : Fin (maxArgument + 1)) : bracketed? (smallNumeral n) = none := by
  have hdigits := (smallNumeral_digits n).2.1
  rw [bracketed?]
  intro inner heq
  rw [heq] at hdigits
  cases hdigits '[' List.mem_cons_self

theorem parse_smallNumeral (n : Fin (maxArgument + 1)) : parse (smallNumeral n) = .ok (single n) := by
  have hread : Scalar.ofText (smallNumeral n) = .ok (.integer n.val) := by
    rw [Scalar.ofText, integer?_smallNumeral]
  rw [parse, trim_smallNumeral, bracketed?_smallNumeral]
  change (do ofScalar (← Scalar.ofText (smallNumeral n))) = _
  rw [hread]
  exact ofScalar_of_whole rfl (Nat.le_of_lt_succ n.isLt)

/-- The numbers of a printed list are read though a blank comes before each but the first. -/
theorem parse_listText {ns : List (Fin (maxArgument + 1))} (h : ns ≠ []) :
    parse (list (ns.map Fin.val)).text.toList = .ok (list (ns.map Fin.val)) := by
  obtain ⟨n, ns, rfl⟩ := List.exists_cons_of_ne_nil h
  let parts := smallNumeral n :: (ns.map smallNumeral).map (' ' :: ·)
  have htext : (list ((n :: ns).map Fin.val)).text.toList = '[' :: ([','].intercalate parts ++ [']']) := by
    have hsep : ", ".toList = [',', ' '] := rfl
    rw [text, String.toList_append, String.toList_append, String.toList_intercalate, toList_numerals, hsep,
      List.map_cons, intercalate_mark_blank]
    rfl
  have hcomma : ∀ part ∈ parts, ',' ∉ part := by
    refine List.forall_mem_cons.2 ⟨comma_notMem_smallNumeral n, fun part hpart => ?_⟩
    obtain ⟨_, hnumeral, rfl⟩ := List.mem_map.1 hpart
    obtain ⟨m, -, rfl⟩ := List.mem_map.1 hnumeral
    simpa using comma_notMem_smallNumeral m
  have htrim : parts.map trim = (n :: ns).map smallNumeral := by
    have hblank : (trim ∘ (' ' :: ·)) ∘ smallNumeral = smallNumeral := by
      funext m
      rw [Function.comp_apply, Function.comp_apply, trim_cons_of_isBlank (by decide), trim_smallNumeral]
    rw [List.map_cons, List.map_map, List.map_map, List.map_cons, trim_smallNumeral, hblank]
  rw [htext]
  exact parse_parts (n :: ns) (List.cons_ne_nil _ _) hcomma htrim

theorem parse_text (ha : a.Bounded) (hne : a.values ≠ []) : parse a.text.toList = .ok a := by
  have hsmall : ∀ n ∈ a.values, n < maxArgument + 1 := fun n hn => Nat.lt_succ_of_le (ha n hn)
  cases a with
  | single n => exact parse_smallNumeral ⟨n, hsmall n List.mem_cons_self⟩
  | list ns =>
    replace hsmall : ∀ n ∈ ns, n < maxArgument + 1 := hsmall
    lift ns to List (Fin (maxArgument + 1)) using hsmall
    exact parse_listText fun hnil => hne (by rw [hnil]; rfl)

theorem tokenize_text (ha : a.Bounded) (hne : a.values ≠ []) : tokenize .dice a.text = .ok [.argument a] := by
  obtain ⟨l, htext, htoken⟩ := exists_literal_text ha hne
  rw [l.tokenize_of_squeeze htext, htoken]

/-! ### All that can be read -/

theorem values_ne_nil_of_ofParts {parts : List (List Char)} (hparts : parts ≠ []) (h : ofParts parts = .ok a) :
    a.values ≠ [] := by
  obtain ⟨part, parts, rfl⟩ := List.exists_cons_of_ne_nil hparts
  obtain ⟨ns, hns, h⟩ := ok_of_bind h
  cases h
  rw [List.mapM_cons] at hns
  obtain ⟨n, -, hns⟩ := ok_of_bind hns
  obtain ⟨more, -, hns⟩ := ok_of_bind hns
  cases hns
  exact List.cons_ne_nil n more

theorem values_ne_nil_of_parse {s : List Char} (h : parse s = .ok a) : a.values ≠ [] := by
  rcases ok_of_parse h with ⟨parts, hparts, h⟩ | ⟨x, h⟩
  · exact values_ne_nil_of_ofParts hparts h
  · obtain ⟨n, -, h⟩ := ok_of_bind h
    cases h
    exact List.cons_ne_nil n []

/-- An argument with at least one number, none of them too large, is read back when it was printed, from its
text and as the one token of a formula. Whatever can be read is of that kind, so that it is read back as well;
and the faces from one to another that a shorthand writes are read as just these. -/
theorem printed_is_read_back :
    (∀ a : Argument, a.values ≠ [] → (∀ n ∈ a.values, n ≤ maxArgument) →
      parse a.text.toList = .ok a ∧ tokenize .dice a.text = .ok [.argument a]) ∧
    (∀ s a, parse s = .ok a →
      a.values ≠ [] ∧ (∀ n ∈ a.values, n ≤ maxArgument) ∧ parse a.text.toList = .ok a) ∧
    ∀ low high, low ≤ high → high ≤ maxArgument →
      ∃ a, parse (Shorthand.faceRange low high).toList = .ok a ∧
        tokenize .dice (Shorthand.faceRange low high) = .ok [.argument a] ∧
        ∀ face : Int, face ∈ a.faces ↔ (low : Int) ≤ face ∧ face ≤ high := by
  refine ⟨fun a hne ha => ⟨parse_text ha hne, tokenize_text ha hne⟩, fun s a h => ?_, fun low high hle hhigh => ?_⟩
  · have hne := values_ne_nil_of_parse h
    have ha := bounded_of_parse h
    exact ⟨hne, ha, parse_text ha hne⟩
  · obtain ⟨a, htext, ha, hne, hmem⟩ := Shorthand.exists_argument_faceRange hle hhigh
    rw [htext]
    refine ⟨a, parse_text ha hne, tokenize_text ha hne, fun face => ?_⟩
    rw [faces, List.mem_map]
    constructor
    · rintro ⟨n, hn, rfl⟩
      have := (hmem n).1 hn
      simp only [Int.ofNat_eq_natCast]
      omega
    · rintro ⟨hlow, hface⟩
      have hn : face.toNat ∈ a.values := (hmem _).2 ⟨by omega, by omega⟩
      exact ⟨face.toNat, hn, Int.toNat_of_nonneg (by omega)⟩

/-- A list with a part too many and a number with an exponent is read, and printed as the faces nine and ten. -/
theorem printed_is_read_back_list :
    parse " [9,, 1e1] ".toList = .ok (list [9, 10]) ∧
      parse (list [9, 10]).text.toList = .ok (list [9, 10]) ∧
      tokenize .dice (list [9, 10]).text = .ok [.argument (list [9, 10])] ∧
      ∃ a, parse (Shorthand.faceRange 9 10).toList = .ok a ∧
        tokenize .dice (Shorthand.faceRange 9 10) = .ok [.argument a] ∧
        ∀ face : Int, face ∈ a.faces ↔ ((9 : Nat) : Int) ≤ face ∧ face ≤ (10 : Nat) := by
  have hread : parse " [9,, 1e1] ".toList = .ok (list [9, 10]) := eq_ok_of_toOption (by decide)
  obtain ⟨hprinted, hreadable, hrange⟩ := printed_is_read_back
  obtain ⟨hne, hbounded, hback⟩ := hreadable _ _ hread
  exact ⟨hread, hback, (hprinted _ hne hbounded).2, hrange 9 10 (by decide) (by decide)⟩

end Argument

end Tabletop
