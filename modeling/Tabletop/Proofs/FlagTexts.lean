import Tabletop.Proofs.CommandParts
import Tabletop.Proofs.LowerCase

/-!
# Flags as they are written

A text of flags is the texts of the flags one after the other, with blanks anywhere between them
(`Flag.Spells`). The scan loses nothing of it (`Flag.spells_scan`). A flag is read as it was written as long
as nothing that follows can join it, and of the flags that systems know none can join the one before: each
begins with a letter or a brace, and a number before it goes on with digits only. So scanning and writing are
each other's inverse there (`Flag.scan_eq_iff`).
-/

namespace Tabletop

open Text

namespace Shorthand

namespace Flag

/-- How a flag is written. -/
def text : Flag → List Char
  | numbered letter digits => letter :: digits
  | braced inside => '{' :: (inside ++ ['}'])
  | plain c => [c]

/-- A character that begins a flag wherever it stands, unless in braces. -/
def isInitial (c : Char) : Bool := !isBlank c && !isDigit c && c != '{'

/-- The text is these flags one after the other, with blanks anywhere around them. -/
inductive Spells : List Flag → List Char → Prop
  | nil : Spells [] []
  | blank {c : Char} {flags : List Flag} {s : List Char} (hc : isBlank c = true) (h : Spells flags s) :
      Spells flags (c :: s)
  | cons {f : Flag} {flags : List Flag} {s : List Char} (h : Spells flags s) : Spells (f :: flags) (f.text ++ s)

/-- A flag that the scan may give. -/
inductive Proper (letters : List Char) : Flag → Prop
  | numbered {letter : Char} {digits : List Char} (hletter : letter ∈ letters) (hne : digits ≠ [])
      (hdigits : ∀ c ∈ digits, isDigit c = true) : Proper letters (.numbered letter digits)
  | braced {inside : List Char} (h : '}' ∉ inside) : Proper letters (.braced inside)
  | plain {c : Char} (hblank : isBlank c = false) : Proper letters (.plain c)

/-- A flag that is read as it was written, and that cannot be joined to a number before it. -/
structure Clear (letters : List Char) (f : Flag) : Prop where
  proper : f.Proper letters
  plain : ∀ c, f = .plain c → c ∉ letters ∧ c ≠ '{' ∧ isDigit c = false

variable {letters : List Char} {f : Flag} {flags : List Flag} {s : List Char}

theorem length_text (f : Flag) : f.text.length = f.length := by
  cases f <;> simp [text, length]

/-- A text that does not begin with a blank begins as one of its flags does. -/
theorem Spells.exists_head (h : Spells flags s) {c : Char} (hc : c ∈ s.head?) (hblank : isBlank c = false) :
    ∃ f ∈ flags, c ∈ f.text.head? := by
  cases h with
  | nil => cases hc
  | blank hb h =>
    obtain rfl := Option.some.inj hc
    rw [hblank] at hb
    cases hb
  | @cons f flags s h =>
    refine ⟨f, List.mem_cons_self, ?_⟩
    cases f <;> exact hc

/-! ### What the scan gives -/

theorem scan_eq_scan_drop (letters : List Char) (skip : Nat) (s : List Char) :
    scan letters skip s = scan letters 0 (s.drop skip) := by
  induction s generalizing skip with
  | nil => cases skip <;> rfl
  | cons c s ih =>
    cases skip with
    | zero => rfl
    | succ skip => exact ih skip

/-- What is taken up to a character that comes in a text is followed by it. -/
theorem takeWhile_ne_append {x : Char} (h : (s.takeWhile (· ≠ x)).length < s.length) :
    s.takeWhile (· ≠ x) ++ [x] <+: s := by
  have hsplit := List.takeWhile_append_dropWhile (p := (· ≠ x)) (l := s)
  cases hdrop : s.dropWhile (· ≠ x) with
  | nil =>
    rw [hdrop, List.append_nil] at hsplit
    rw [hsplit] at h
    exact absurd h (Nat.lt_irrefl _)
  | cons y rest =>
    have hy := head?_dropWhile (· ≠ x) s y (by rw [hdrop]; rfl)
    rw [hdrop] at hsplit
    obtain rfl : y = x := by simpa using hy
    exact ⟨rest, by rw [List.append_assoc]; exact hsplit⟩

theorem text_first_isPrefix (letters : List Char) (c : Char) (cs : List Char) :
    (first letters c cs).text <+: c :: cs := by
  unfold first
  dsimp only
  split
  · exact List.cons_prefix_cons.2 ⟨rfl, List.takeWhile_prefix _⟩
  · split
    · rename_i h
      simp only [Bool.and_eq_true, decide_eq_true_eq] at h
      obtain ⟨rfl, hlength⟩ := h
      exact List.cons_prefix_cons.2 ⟨rfl, takeWhile_ne_append hlength⟩
    · exact List.prefix_append [c] cs

/-- The first flag of a text, and what comes after it. -/
theorem text_first_append_drop (letters : List Char) (c : Char) (cs : List Char) :
    (first letters c cs).text ++ cs.drop ((first letters c cs).length - 1) = c :: cs := by
  have happend := List.prefix_iff_eq_append.1 (text_first_isPrefix letters c cs)
  obtain ⟨n, hn⟩ : ∃ n, (first letters c cs).length = n + 1 :=
    Nat.exists_eq_succ_of_ne_zero (by cases first letters c cs <;> simp [length])
  rw [length_text, hn, List.drop_succ_cons] at happend
  rw [hn, Nat.add_sub_cancel]
  exact happend

/-- The scan loses nothing of a text but blanks. -/
theorem spells_scan (letters : List Char) (skip : Nat) (s : List Char) :
    Spells (scan letters skip s) (s.drop skip) := by
  induction s generalizing skip with
  | nil => cases skip <;> exact .nil
  | cons c s ih =>
    cases skip with
    | succ skip => exact ih skip
    | zero =>
      rw [scan, List.drop_zero]
      split
      · exact .blank ‹_› (ih 0)
      · have h : Spells (first letters c s :: scan letters ((first letters c s).length - 1) s) _ := .cons (ih _)
        rwa [text_first_append_drop] at h

theorem proper_first (letters : List Char) {c : Char} (hc : isBlank c = false) (cs : List Char) :
    (first letters c cs).Proper letters := by
  unfold first
  dsimp only
  split
  · rename_i h
    simp only [Bool.and_eq_true, Bool.not_eq_true', List.isEmpty_eq_false_iff, List.contains_iff_mem] at h
    exact .numbered h.1 h.2 fun _ => List.mem_takeWhile_imp
  · split
    · exact .braced fun h => by simpa using List.mem_takeWhile_imp h
    · exact .plain hc

theorem proper_of_mem_scan {skip : Nat} (h : f ∈ scan letters skip s) : f.Proper letters := by
  induction s generalizing skip with
  | nil => cases skip <;> cases h
  | cons c s ih =>
    cases skip with
    | succ skip => exact ih h
    | zero =>
      rw [scan] at h
      split at h
      · exact ih h
      · rcases List.mem_cons.1 h with rfl | h
        · exact proper_first letters (eq_false_of_ne_true ‹_›) s
        · exact ih h

/-! ### What the scan is given -/

section Clear

variable (hletters : letters.all isInitial = true)
include hletters

theorem initial_of_mem {letter : Char} (h : letter ∈ letters) :
    isBlank letter = false ∧ isDigit letter = false ∧ letter ≠ '{' := by
  simpa [isInitial, and_assoc] using List.all_eq_true.1 hletters letter h

/-- A clear flag is read from the front of a text that does not begin with a digit. -/
theorem Clear.first (hf : f.Clear letters) (hs : ∀ c ∈ s.head?, isDigit c = false) :
    ∃ c cs, f.text = c :: cs ∧ isBlank c = false ∧ isDigit c = false ∧ Flag.first letters c (cs ++ s) = f := by
  obtain ⟨hproper, hplain⟩ := hf
  cases hproper with
  | @numbered letter digits hletter hne hdigits =>
    obtain ⟨hblank, hdigit, -⟩ := initial_of_mem hletters hletter
    refine ⟨letter, digits, rfl, hblank, hdigit, ?_⟩
    rw [Flag.first, takeWhile_append_of_head hdigits hs, if_pos (by simp [hletter, hne])]
  | @braced inside h =>
    have hletter : '{' ∉ letters := fun hmem => (initial_of_mem hletters hmem).2.2 rfl
    have hinside : (inside ++ '}' :: s).takeWhile (· ≠ '}') = inside :=
      takeWhile_append_of_head (fun c hc => by simpa using ne_of_mem_of_not_mem hc h) fun c hc => by
        obtain rfl := Option.some.inj hc
        rfl
    refine ⟨'{', inside ++ ['}'], rfl, by decide, by decide, ?_⟩
    rw [List.append_assoc, List.singleton_append, Flag.first, hinside]
    simp [hletter]
  | @plain c hblank =>
    obtain ⟨hletter, hbrace, hdigit⟩ := hplain c rfl
    refine ⟨c, [], rfl, hblank, hdigit, ?_⟩
    simp [Flag.first, hletter, hbrace]

theorem Spells.head? (h : Spells flags s) (hflags : ∀ f ∈ flags, f.Clear letters) :
    ∀ c ∈ s.head?, isDigit c = false := by
  cases h with
  | nil => exact nofun
  | @blank c flags s hc h =>
    rintro _ ⟨⟩
    rw [← Bool.not_eq_true]
    intro hdigit
    rw [isBlank_of_isDigit hdigit] at hc
    cases hc
  | @cons f flags s h =>
    obtain ⟨c, cs, htext, -, hdigit, -⟩ :=
      Clear.first hletters (hflags f List.mem_cons_self) (s := []) (fun _ h => nomatch h)
    rw [htext]
    rintro _ ⟨⟩
    exact hdigit

theorem Spells.scan_eq (h : Spells flags s) (hflags : ∀ f ∈ flags, f.Clear letters) : scan letters 0 s = flags := by
  induction h with
  | nil => rfl
  | blank hc h ih => rw [scan, if_pos hc, ih hflags]
  | @cons f flags s h ih =>
    obtain ⟨hf, hflags⟩ := List.forall_mem_cons.1 hflags
    obtain ⟨c, cs, htext, hblank, -, hfirst⟩ := hf.first hletters (h.head? hletters hflags)
    have hlength : cs.length = f.length - 1 := by rw [← length_text, htext, List.length_cons, Nat.add_sub_cancel]
    rw [htext, List.cons_append, scan, if_neg (by simp [hblank]), hfirst]
    dsimp only
    rw [← hlength, scan_eq_scan_drop, List.drop_left, ih hflags]

/-- Clear flags are those that a text is scanned for just if the text spells them. -/
theorem scan_eq_iff (hflags : ∀ f ∈ flags, f.Clear letters) : scan letters 0 s = flags ↔ Spells flags s := by
  constructor
  · rintro rfl
    exact spells_scan letters 0 s
  · exact fun h => h.scan_eq hletters hflags

/-- A system that knows clear flags only understands the texts that spell them, and takes one flag after the
other. -/
theorem foldlM_scan_ok_iff {Options : Type} {take : Options → Flag → Except Error Options} {Meant : Flag → Prop}
    {set : Options → Flag → Options} {o o' : Options} (hclear : ∀ f, Meant f → f.Clear letters)
    (htake : ∀ f, f.Proper letters → ∀ o o', take o f = .ok o' ↔ Meant f ∧ o' = set o f) :
    (scan letters 0 s).foldlM take o = .ok o' ↔
      ∃ flags, Spells flags s ∧ (∀ f ∈ flags, Meant f) ∧ o' = flags.foldl set o := by
  rw [foldlM_ok_iff fun f hf => htake f (proper_of_mem_scan hf)]
  constructor
  · rintro ⟨hmeant, ho⟩
    exact ⟨_, spells_scan letters 0 s, hmeant, ho⟩
  · rintro ⟨flags, hspells, hmeant, ho⟩
    rw [hspells.scan_eq hletters fun f hf => hclear f (hmeant f hf)]
    exact ⟨hmeant, ho⟩

end Clear

/-! ### Numbers -/

/-- Digits that write a number between two bounds. -/
structure IsNumber (low high : Nat) (digits : List Char) : Prop where
  ne_nil : digits ≠ []
  isDigit : ∀ c ∈ digits, isDigit c = true
  short : digits.length ≤ maxNumeralDigits
  bounds : low ≤ numeral digits ∧ numeral digits ≤ high

variable {low high n : Nat} {letter : Char} {digits : List Char}

/-- A number is taken if it is not too long to be read and lies between the bounds. -/
theorem number_ok_iff : number low high letter digits = .ok n ↔
    digits.length ≤ maxNumeralDigits ∧ n = numeral digits ∧ low ≤ n ∧ n ≤ high := by
  constructor
  · intro h
    obtain ⟨m, hm, h⟩ := ok_of_bind h
    obtain ⟨hlength, rfl⟩ := Number.natural_ok_iff.1 hm
    split at h
    · cases h
      exact ⟨hlength, rfl, ‹_›⟩
    · cases h
  · rintro ⟨hlength, rfl, hbounds⟩
    rw [number, Number.natural_ok_iff.2 ⟨hlength, rfl⟩]
    exact if_pos hbounds

theorem IsNumber.number (h : IsNumber low high digits) (letter : Char) :
    Flag.number low high letter digits = .ok (numeral digits) :=
  number_ok_iff.2 ⟨h.short, rfl, h.bounds⟩

theorem Proper.isNumber (hf : Proper letters (.numbered letter digits))
    (h : Flag.number low high letter digits = .ok n) : IsNumber low high digits := by
  obtain ⟨hlength, rfl, hbounds⟩ := number_ok_iff.1 h
  cases hf with
  | numbered hletter hne hdigits => exact ⟨hne, hdigits, hlength, hbounds⟩

end Flag

/-- The last flag that sets a value counts. -/
theorem getLastD_filterMap_cons {α : Type} {set? : Flag → Option α} {flag : Flag} (flags : List Flag) (a : α) :
    ((flag :: flags).filterMap set?).getLastD a = (flags.filterMap set?).getLastD ((set? flag).getD a) := by
  rw [List.filterMap_cons]
  cases set? flag with
  | none => rfl
  | some b => rw [List.getLastD_cons]; rfl

/-- The text after an expression begins as one of its flags does. -/
theorem head?_of_spells {f : List Char} {flags : List Flag} (h : Flag.Spells flags (flagText f))
    (hflags : ∀ flag ∈ flags, ∀ c ∈ flag.text.head?, isDiceCharacter c = false) :
    ∀ c ∈ (cut ';' (Request.normal f)).1.head?, isDiceCharacter c = false := by
  intro c hc
  have hblank : isBlank c = false := by
    have hnormal : trim (Request.normal f) = Request.normal f := trim_lower (trim_trim f)
    have hhead := head?_trim (Request.normal f)
    rw [hnormal] at hhead
    exact hhead c (mem_head?_of_isPrefix (cut_fst_isPrefix ';' _) hc)
  -- what comes first is no blank, so that trimming keeps it in its place
  have hself : ∀ a ∈ (cut ';' (Request.normal f)).1.head?, isBlank a = false := by
    intro a ha
    obtain rfl := Option.mem_unique hc ha
    exact hblank
  have htext : c ∈ (flagText f).head? := by
    cases hflag : flagText f with
    | nil =>
      rw [trim_eq_nil_iff.1 hflag c (List.mem_of_mem_head? hc)] at hblank
      cases hblank
    | cons a s =>
      have ha : a ∈ (trim (cut ';' (Request.normal f)).1).head? := by
        rw [← flagText, hflag]
        rfl
      obtain rfl := Option.mem_unique hc (mem_head?_of_isPrefix (trim_isPrefix hself) ha)
      rfl
  obtain ⟨flag, hflag, hhead⟩ := h.exists_head htext hblank
  exact hflags flag hflag c hhead

/-- Each system reads flags and writes notation in its own way. If it understands the texts that spell flags of
some kind, then the commands that have a notation are expressions with such flags after them on one line. -/
theorem ofCommand_bind_ok_iff {Options : Type} {ofFlags : List Char → Except Error Options}
    {render : Options → List Char → List Char → String} {optionsOf : List Flag → Options} {Meant : Flag → Prop}
    {d f : List Char} {formula : String} (hd : ∀ c ∈ d, isDiceCharacter c = true)
    (hf : ∀ c ∈ (cut ';' (Request.normal f)).1.head?, isDiceCharacter c = false)
    (hofFlags : ∀ s options, ofFlags s = .ok options ↔
      ∃ flags, Flag.Spells flags s ∧ (∀ flag ∈ flags, Meant flag) ∧ options = optionsOf flags) :
    (do
      let parts ← Parts.ofCommand (Request.normal (d ++ f))
      let options ← ofFlags parts.flags
      pure (render options parts.dice parts.bonus)) = Except.ok formula ↔
      trim d ≠ [] ∧ '\n' ∉ flagText f ∧ ∃ flags, Flag.Spells flags (flagText f) ∧ (∀ flag ∈ flags, Meant flag) ∧
        formula = render (optionsOf flags) (trim d) (bonusText f) := by
  constructor
  · intro h
    obtain ⟨parts, hparts, h⟩ := ok_of_bind h
    obtain ⟨options, hoptions, h⟩ := ok_of_bind h
    obtain ⟨hdice, hline, rfl⟩ := (ofCommand_ok_iff hd hf).1 hparts
    obtain ⟨flags, hspells, hmeant, rfl⟩ := (hofFlags _ _).1 hoptions
    cases h
    exact ⟨hdice, hline, flags, hspells, hmeant, rfl⟩
  · rintro ⟨hdice, hline, flags, hspells, hmeant, rfl⟩
    rw [(ofCommand_ok_iff hd hf).2 ⟨hdice, hline, rfl⟩]
    change (ofFlags (flagText f) >>= _) = _
    rw [(hofFlags _ _).2 ⟨flags, hspells, hmeant, rfl⟩]
    rfl

end Shorthand

end Tabletop
