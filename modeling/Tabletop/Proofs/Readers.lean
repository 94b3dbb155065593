import Tabletop.Proofs.DigitRuns
import Tabletop.Proofs.PlainRuns
import Tabletop.Proofs.Requests
import Tabletop.Shorthand

/-!
# What readers of texts fail with

Formulas, requests, expressions for the calculator and the shorthands of all game systems are read
from any text, and whatever is wrong with a text is put to the player, with one exception. A whole
number is read only if it has no more than `maxNumeralDigits` digits, leading zeros included, and where
it has more the failure is not one for players (`Error.isExplained`). That happens only to texts where
so many digits stand side by side (`readers_refuse`), and then it does happen, even if the number is as
small as zero (`tokenize_of_long`).
-/

namespace Tabletop

open Text Refuses

/-- The error is one for players, or complains of a run of digits that the text has, blanks aside. -/
def Error.isExplained (s : List Char) : Error → Bool
  | tooManyDigits n => maxNumeralDigits < n && hasRun n (squeeze s)
  | e => e.isForPlayers

variable {s t digits : List Char}

theorem Error.isExplained_of_isForPlayers {e : Error} (h : e.isForPlayers = true) : e.isExplained s = true := by
  cases e <;> first | exact h | cases h

/-- The text has all runs of digits of the other one, blanks aside. -/
def Text.Covers (s t : List Char) : Prop := ∀ n, hasRun n t = true → hasRun n (squeeze s) = true

namespace Text.Covers

theorem squeezed (s : List Char) : Covers s (squeeze s) := fun _ h => h

theorem self (s : List Char) : Covers s s := fun _ h => hasRun_squeeze h

theorem part (h : Covers s t) {u : List Char} (hu : u <:+: t) : Covers s u := fun n hn => h n (hasRun_of_isInfix hu hn)

theorem lower (s : List Char) : Covers s (lower s) := fun _ h => hasRun_squeeze ((alike_lower s).hasRun h)

theorem lower_trim (s : List Char) : Covers s (Text.lower (trim s)) := fun n h =>
  (self s).part (trim_isInfix s) n ((alike_lower (trim s)).hasRun h)

theorem squeeze_lower (s : List Char) : Covers s (squeeze (Text.lower s)) := fun _ h => (alike_lower s).squeeze.hasRun h

end Text.Covers

/-! ### Numbers and tokens -/

theorem refuses_natural_of_run (h : Covers s t) (hrun : hasRun digits.length t = true) :
    Refuses (Error.isExplained s) (Number.natural digits) := by
  rw [Number.natural]
  split
  · exact ok _
  · rename_i hlong
    refine error ?_
    rw [Error.isExplained, decide_eq_true (Nat.lt_of_not_le hlong), h _ hrun]
    rfl

theorem refuses_tokenize_of_run (mode : Mode) (text : String) :
    Refuses (Error.isExplained text.toList) (tokenize mode text) :=
  refuses_tokensOf ⟨fun _ => rfl, rfl, fun _ => rfl, fun _ => rfl⟩ mode true fun _ hdigits hpoint =>
    refuses_natural_of_run (.squeezed _) (Lexeme.hasRun_of_scan hdigits hpoint)

theorem Calculator.refuses_evaluate_of_run (text : String) :
    Refuses (Error.isExplained text.toList) (Calculator.evaluate text) := by
  refine refuses_evaluate ⟨fun e he => ?_, fun _ => rfl, fun _ => rfl, fun _ => rfl⟩ (fun e he => ?_) rfl
    (refuses_tokenize_of_run .math text)
  all_goals
    refine Error.isExplained_of_isForPlayers ?_
    cases e <;> first | rfl | cases he

/-! ### Requests -/

theorem Request.refuses_parse (text : String) : Refuses (Error.isExplained text.toList) (parse text) := by
  have hsplit {front : List Char} (hfront : Covers text.toList front) :
      Refuses (Error.isExplained text.toList) (splitRepeat front) := by
    unfold splitRepeat
    split
    · exact ok _
    · rename_i digits rest hrepeat
      have hdigits : hasRun digits.length (front.dropWhile isBlank) = true := by
        obtain ⟨-, hall, blanks, -, htext⟩ := repeat?_eq_some_iff.1 hrepeat
        have hrun := hasRun_takeWhile digits
        rw [List.takeWhile_eq_self_iff.2 hall] at hrun
        rw [htext]
        exact hasRun_append_right hrun _
      refine (refuses_natural_of_run (hfront.part (List.dropWhile_suffix isBlank).isInfix) hdigits).bind fun times => ?_
      split
      exacts [ok _, error rfl]
  unfold parse
  refine (hsplit ((Covers.self _).part (cut_fst_isPrefix ':' _).isInfix)).bind fun _ => ?_
  dsimp only
  split
  · exact error rfl
  · exact ok _

/-! ### Shorthands -/

namespace Shorthand

variable {α : Type}

theorem refuses_unknown (t : List Char) : Refuses (Error.isExplained s) (unknown t : Except Error α) := error rfl

theorem Flag.refuses_refuse (f : Flag) : Refuses (Error.isExplained s) (f.refuse : Except Error α) := by
  cases f <;> exact refuses_unknown _

theorem Flag.refuses_number (h : Covers s t) (hrun : hasRun digits.length t = true) (low high : Nat) (letter : Char) :
    Refuses (Error.isExplained s) (number low high letter digits) := by
  refine (refuses_natural_of_run h hrun).bind fun n => ?_
  split
  · exact ok _
  · exact refuses_refuse _

theorem Parts.refuses_ofCommand (command : List Char) :
    Refuses (Error.isExplained s) (ofCommand command) := by
  unfold ofCommand
  dsimp only
  split
  · exact refuses_unknown _
  · exact ok _

theorem Parts.flags_isInfix {command : List Char} {parts : Parts} (h : ofCommand command = .ok parts) :
    parts.flags <:+: command := by
  unfold ofCommand at h
  dsimp only at h
  split at h
  · cases h
  · cases h
    refine (trim_isInfix _).trans ((List.drop_suffix _ _).isInfix.trans ((trim_isInfix _).trans ?_))
    exact (cut_fst_isPrefix ';' command).isInfix

/-- The flags of a command are read as its numbers are. -/
theorem refuses_flags {σ : Type} {command : List Char} {parts : Parts} (hparts : Parts.ofCommand command = .ok parts)
    (h : Covers s command) {letters : List Char} {take : σ → Flag → Except Error σ}
    (htake : ∀ t, Covers s t → ∀ o f, (∀ letter digits, f = .numbered letter digits → hasRun digits.length t = true) →
      Refuses (Error.isExplained s) (take o f)) (o : σ) :
    Refuses (Error.isExplained s) ((Flag.scan letters 0 parts.flags).foldlM take o) :=
  .foldlM (fun o f hf => htake parts.flags (h.part (Parts.flags_isInfix hparts)) o f
    fun _ _ hnumbered => Flag.hasRun_of_scan (hnumbered ▸ hf)) o

theorem Chronicles.refuses_toNotation (command : String) :
    Refuses (Error.isExplained command.toList) (toNotation command) := by
  unfold toNotation
  dsimp only
  split
  · exact ok _
  · refine (Parts.refuses_ofCommand _).bind_of_ok fun parts hparts => ?_
    refine (refuses_flags hparts (.lower_trim _) (fun t ht o f hf => ?_) _).bind fun _ => ok _
    unfold Options.take
    split
    · exact (Flag.refuses_number ht (hf _ _ rfl) _ _ _).bind fun _ => ok _
    · exact ok _
    · exact ok _
    · exact Flag.refuses_refuse _

theorem Exalted.refuses_toNotation (command : String) :
    Refuses (Error.isExplained command.toList) (toNotation command) := by
  unfold toNotation
  refine (Parts.refuses_ofCommand _).bind_of_ok fun parts hparts => ?_
  refine (refuses_flags hparts (.lower_trim _) (fun t ht o f hf => ?_) _).bind fun _ => ok _
  unfold Options.take
  split
  · exact (Flag.refuses_number ht (hf _ _ rfl) _ _ _).bind fun _ => ok _
  · exact (Flag.refuses_number ht (hf _ _ rfl) _ _ _).bind fun _ => ok _
  · exact ok _
  · exact ok _
  · exact Flag.refuses_refuse _

theorem Narrative.refuses_term {letter : Char} (h : Covers s t) (hterm : (letter, digits) ∈ scan 0 t) :
    Refuses (Error.isExplained s) (term letter digits) := by
  unfold term
  split
  · exact refuses_unknown _
  · exact (refuses_natural_of_run h (hasRun_of_scan hterm)).bind fun _ => ok _

theorem Narrative.refuses_toNotation (command : String) :
    Refuses (Error.isExplained command.toList) (toNotation command) := by
  unfold toNotation
  refine (Refuses.mapM fun _ hterm => refuses_term (.lower _) hterm).bind fun terms => ?_
  split
  · exact refuses_unknown _
  · exact ok _

theorem StoryShaper.refuses_toNotation (command : String) :
    Refuses (Error.isExplained command.toList) (toNotation command) := by
  unfold toNotation
  dsimp only
  split
  · exact refuses_unknown _
  · exact ok _

theorem RollAndKeep.hasRun_of_ofText? {form : Form} (h : Form.ofText? t = some form) :
    hasRun form.rolled.length t = true ∧ hasRun form.kept.length t = true := by
  unfold Form.ofText? at h
  dsimp only at h
  split at h
  · rename_i rest hrest
    split at h <;> cases h
    have hsuffix : rest <:+ t := (List.suffix_cons 'k' rest).trans (hrest ▸ List.drop_suffix _ _)
    exact ⟨hasRun_takeWhile t, hasRun_of_isInfix hsuffix.isInfix (hasRun_takeWhile rest)⟩
  · cases h

theorem RollAndKeep.refuses_toNotation (command : String) :
    Refuses (Error.isExplained command.toList) (toNotation command) := by
  have hcommand := Covers.squeeze_lower command.toList
  unfold toNotation
  dsimp only
  split
  · exact refuses_unknown _
  · rename_i form hform
    obtain ⟨hrolled, hkept⟩ := hasRun_of_ofText? hform
    have hflags (o : Options) (c : Char) : Refuses (Error.isExplained command.toList) (o.take c) := by
      unfold Options.take
      split
      · exact ok _
      · split
        · exact ok _
        · exact refuses_unknown _
    exact (Refuses.foldlM (fun o c _ => hflags o c) _).bind fun _ =>
      (refuses_natural_of_run hcommand hrolled).bind fun _ => (refuses_natural_of_run hcommand hkept).bind fun _ => ok _

end Shorthand

theorem GameSystem.refuses_toNotation (system : GameSystem) (command : String) :
    Refuses (Error.isExplained command.toList) (system.toNotation command) := by
  cases system with
  | chronicles => exact Shorthand.Chronicles.refuses_toNotation command
  | exalted => exact Shorthand.Exalted.refuses_toNotation command
  | narrative => exact Shorthand.Narrative.refuses_toNotation command
  | storyShaper => exact Shorthand.StoryShaper.refuses_toNotation command
  | rollAndKeep => exact Shorthand.RollAndKeep.refuses_toNotation command

/-! ### Too many digits -/

theorem Number.natural_of_long (h : maxNumeralDigits < digits.length) :
    natural digits = .error (.tooManyDigits digits.length) := by
  rw [natural, if_neg (Nat.not_le_of_lt h)]

theorem squeeze_of_digits (h : ∀ c ∈ digits, isDigit c = true) : squeeze digits = digits :=
  List.filter_eq_self.2 fun c hc => by simp [isBlank_of_isDigit (h c hc)]

/-- A text of digits is one token, if that can be read. -/
theorem tokenize_of_digits (mode : Mode) (hne : digits ≠ []) (h : ∀ c ∈ digits, isDigit c = true) :
    tokenize mode (String.ofList digits) = (do pure [← tokenOfNumeral digits]) := by
  have hnumeral : Lexeme.numeral? (digits ++ []) = some (.numeral digits) := Lexeme.numeral?_whole h hne (by simp)
  rw [List.append_nil] at hnumeral
  have hstands : Lexeme.Stands (.numeral digits) [] := Lexeme.stands_numeral hnumeral (by simp)
  have hscan := Lexeme.scan_text_append hstands
  rw [Lexeme.text, List.append_nil] at hscan
  rw [tokenize, String.toList_ofList, squeeze_of_digits h, Lexeme.ofText, hscan, Lexeme.scan, tokensOf]
  have hmode : ¬(mode = .math && (Lexeme.numeral digits).isForDice) = true := by simp [Lexeme.isForDice]
  rw [Lexeme.tokens, if_neg hmode]
  dsimp only
  cases tokenOfNumeral digits <;> rfl

/-- However small a number is, it is not read if it is written with too many digits. -/
theorem tokenize_of_long (mode : Mode) (h : ∀ c ∈ digits, isDigit c = true) (hsmall : numeral digits ≤ maxArgument)
    (hlong : maxNumeralDigits < digits.length) :
    tokenize mode (String.ofList digits) = .error (.tooManyDigits digits.length) := by
  have hne : digits ≠ [] := List.ne_nil_of_length_pos (Nat.zero_lt_of_lt hlong)
  rw [tokenize_of_digits mode hne h, tokenOfNumeral_of_small h hsmall, Number.natural_of_long hlong]
  rfl

theorem Request.parse_of_long (h : ∀ c ∈ digits, isDigit c = true) (hlong : maxNumeralDigits < digits.length)
    (rest : List Char) : parse (String.ofList (digits ++ '#' :: rest)) = .error (.tooManyDigits digits.length) := by
  obtain ⟨c, cs, rfl⟩ := List.exists_cons_of_ne_nil (List.ne_nil_of_length_pos (Nat.zero_lt_of_lt hlong))
  have hcolon : ':' ∉ c :: cs := fun hmem => by cases h _ hmem
  have hblank : isBlank c = false := isBlank_of_isDigit (h c List.mem_cons_self)
  have hcut : (cut ':' (c :: cs ++ '#' :: rest)).1 = c :: cs ++ '#' :: (cut ':' rest).1 := by
    rw [cut_append hcolon, cut, if_neg (by decide)]
  have hrepeat : repeat? (c :: cs ++ '#' :: (cut ':' rest).1) = some (c :: cs, (cut ':' rest).1) := by
    refine repeat?_eq_some_iff.2 ⟨List.cons_ne_nil _ _, h, [], List.forall_mem_nil _, ?_⟩
    exact List.dropWhile_cons_of_neg (by simp [hblank])
  unfold parse
  simp only [String.toList_ofList, hcut, splitRepeat, hrepeat, Number.natural_of_long hlong]
  rfl

/-! ### All readers -/

/-- The calculator's answer is a text, unless a run of digits is too long. -/
theorem Calculator.tooManyDigits_of_answer {text : String} {e : Error} (h : answer text = .error e) :
    ∃ n, e = .tooManyDigits n ∧ maxNumeralDigits < n ∧ hasRun n (squeeze text.toList) = true := by
  unfold answer at h
  split at h
  · cases h
  · rename_i e' he
    split at h
    · cases h
    · rename_i hplayers
      cases h
      have hexplained := refuses_evaluate_of_run text _ he
      cases e with
      | tooManyDigits n =>
        rw [Error.isExplained, Bool.and_eq_true, decide_eq_true_iff] at hexplained
        exact ⟨n, rfl, hexplained⟩
      | _ => first | exact absurd rfl hplayers | cases hexplained

/-- Whatever the text, each reader returns or fails with an error for players, unless more digits than
`maxNumeralDigits` stand side by side in it; then it may fail with the number of them. The calculator's
answer is a text otherwise. -/
theorem readers_refuse (text : String) :
    (∀ mode, Refuses (Error.isExplained text.toList) (tokenize mode text)) ∧
      Refuses (Error.isExplained text.toList) (Request.parse text) ∧
      Refuses (Error.isExplained text.toList) (Calculator.evaluate text) ∧
      (∀ system : GameSystem, Refuses (Error.isExplained text.toList) (system.toNotation text)) ∧
      ∀ e, Calculator.answer text = .error e →
        ∃ n, e = .tooManyDigits n ∧ maxNumeralDigits < n ∧ hasRun n (squeeze text.toList) = true :=
  ⟨fun mode => refuses_tokenize_of_run mode text, Request.refuses_parse text, Calculator.refuses_evaluate_of_run text,
    fun system => system.refuses_toNotation text, fun _ => Calculator.tooManyDigits_of_answer⟩

/-- Zero, written with one digit too many, is refused as nothing that a player did wrong. -/
theorem readers_refuse_zeros :
    let zeros := List.replicate (maxNumeralDigits + 1) '0'
    let failure := Error.tooManyDigits (maxNumeralDigits + 1)
    tokenize .dice (String.ofList zeros) = .error failure ∧
      Calculator.answer (String.ofList zeros) = .error failure ∧
      Request.parse (String.ofList (zeros ++ "#d6".toList)) = .error failure ∧ failure.isForPlayers = false := by
  intro zeros failure
  have hdigits : ∀ c ∈ zeros, isDigit c = true := by
    intro c hc
    obtain rfl := List.eq_of_mem_replicate hc
    decide
  have hlength : zeros.length = maxNumeralDigits + 1 := List.length_replicate
  have hlong : maxNumeralDigits < zeros.length := by omega
  have hnumeral (n : Nat) : numeral (List.replicate n '0') = 0 := by
    induction n with
    | zero => rfl
    | succ n ih =>
      rw [List.replicate_succ', numeral_append_singleton, ih]
      decide
  have hread (mode : Mode) : tokenize mode (String.ofList zeros) = .error failure := by
    rw [tokenize_of_long mode hdigits (by rw [hnumeral]; exact Nat.zero_le _) hlong, hlength]
  refine ⟨hread .dice, ?_, ?_, rfl⟩
  · rw [Calculator.answer, Calculator.evaluate, hread .math]
    rfl
  · exact (Request.parse_of_long hdigits hlong _).trans (by rw [hlength])

end Tabletop
