import Mathlib.Data.List.Forall2
import Tabletop.Proofs.Cancelling
import Tabletop.Proofs.ChainRun
import Tabletop.Proofs.Merging
import Tabletop.Proofs.PoolRolls
import Tabletop.Proofs.Trimming
import Tabletop.Shorthand.Narrative

/-!
# Narrative rolls come to the net symbols of all their dice

The notation of a narrative roll is the text of a tree (`mergedTree`): its pools, each read as dice of
one kind, merged from left to right. Along the merges the value is always the net tally of the
symbols shown so far (`Tallies`), so that the order of the terms and the cuts between pools do not
matter in the end. The pools are those of the terms that a command spells (`scan_eq_iff`).
-/

namespace Tabletop

open Text Genesys

theorem Tree.trim_text_ne_nil (x : Tree Literal) : trim x.text.toList ≠ [] := by
  have hopeners : ∀ c ∈ openers, isBlank c = false := List.all_iff_forall_prop.1 (by decide)
  obtain ⟨c, hc, hopens⟩ := x.opens_pieces []
  obtain ⟨cs, hcs⟩ := List.head?_eq_some_iff.1 hc
  rw [List.append_nil] at hcs
  rw [text, String.toList_ofList, hcs]
  exact trim_ne_nil (hopens.elim isBlank_of_isDigit (hopeners c)) cs

/-- To roll the text of a tree is to evaluate the tree. -/
theorem Order.on_roll {Owner : Type} {o : Order Owner} {x : Tree Literal} {y : Tree Constant}
    {s s' : Faces} {log : List Operation} {final : Operand} {v : Value} (hcommand : o.command = x.text)
    (hxy : x.postorder Literal.token = y.postorder Constant.token)
    (hrun : (y.eval maxGenerations).on s = (.ok (log, final), s')) (hvalue : final.toValue = .ok v) :
    o.roll.on s = (.ok ⟨o.command, o.comment, log, v, o.owner⟩, s') := by
  rw [← Tree.evaluateText_text hxy, ← hcommand] at hrun
  have hblank := x.trim_text_ne_nil
  rw [← hcommand] at hblank
  exact roll_of_evaluateText hblank hrun hvalue

/-- What is no raw pool is merged by its value. -/
theorem Operand.combined_of_not_raw {l r : Operand} (h : l.rawPool? = none) :
    l.combined .ampersand r = joined .ampersand Value.add l r := by
  unfold combined
  simp only [Operator.action, h]

namespace Shorthand.Narrative

/-- Some dice of one kind. -/
structure Handful where
  kind : Kind
  count : Fin (maxArgument + 1)

/-- The symbols on a block of faces, each clamped onto a die of the kind. -/
def symbolsOn (k : Kind) (block : List Int) : List Symbol :=
  block.flatMap fun face => k.symbols (Die.clamp k.sides face)

/-- The symbols that are shown when so many dice of each kind take their faces in turn. -/
def symbolsShown : List (Kind × Nat) → List Int → List Symbol
  | [], _ => []
  | (k, n) :: dice, faces => symbolsOn k (faces.take n) ++ symbolsShown dice (faces.drop n)

/-- How many dice there are of all kinds. -/
def totalCount : List (Kind × Nat) → Nat
  | [] => 0
  | (_, n) :: dice => n + totalCount dice

/-! ### Terms -/

def written (d : Kind × Nat) : String := s!"{d.2}d{d.1.sides}{d.1.symbol}"

/-- The kind and the count that are meant by a letter and digits. -/
def Means (pair : Char × List Char) (d : Kind × Nat) : Prop :=
  Kind.ofLetter? pair.1 = some d.1 ∧ numeral pair.2 = d.2

theorem term_ok_iff {letter : Char} {digits : List Char} {s : String} : term letter digits = .ok s ↔
    ∃ d, digits.length ≤ maxNumeralDigits ∧ Means (letter, digits) d ∧ s = written d := by
  constructor
  · intro h
    rw [term] at h
    split at h
    · cases h
    · rename_i kind hkind
      obtain ⟨n, hn, h⟩ := ok_of_bind h
      obtain ⟨hshort, rfl⟩ := Number.natural_ok_iff.1 hn
      cases h
      exact ⟨(kind, _), hshort, ⟨hkind, rfl⟩, rfl⟩
  · rintro ⟨⟨kind, n⟩, hshort, ⟨hkind, rfl⟩, rfl⟩
    rw [term]
    simp only [hkind, Number.natural_ok_iff.2 ⟨hshort, rfl⟩]
    rfl

theorem terms_ok_iff {pairs : List (Char × List Char)} {terms : List String} :
    pairs.mapM (fun (letter, digits) => term letter digits) = .ok terms ↔
      ∃ dice, (∀ pair ∈ pairs, pair.2.length ≤ maxNumeralDigits) ∧ List.Forall₂ Means pairs dice ∧
        terms = dice.map written := by
  constructor
  · intro h
    induction pairs generalizing terms with
    | nil =>
      cases h
      exact ⟨[], List.forall_mem_nil _, .nil, rfl⟩
    | cons pair pairs ih =>
      rw [List.mapM_cons] at h
      obtain ⟨s, hs, h⟩ := ok_of_bind h
      obtain ⟨terms, hterms, h⟩ := ok_of_bind h
      cases h
      obtain ⟨d, hshort, hd, rfl⟩ := term_ok_iff.1 hs
      obtain ⟨dice, hshorts, hdice, rfl⟩ := ih hterms
      exact ⟨d :: dice, List.forall_mem_cons.2 ⟨hshort, hshorts⟩, .cons hd hdice, rfl⟩
  · rintro ⟨dice, hshort, hdice, rfl⟩
    induction hdice with
    | nil => rfl
    | cons hd _ ih =>
      obtain ⟨hfirst, hrest⟩ := List.forall_mem_cons.1 hshort
      rw [List.mapM_cons, ih hrest]
      dsimp only
      rw [term_ok_iff.2 ⟨_, hfirst, hd, rfl⟩]
      rfl

/-! ### Terms as they are written -/

/-- The text is these terms one after the other, each a letter and a count with blanks or nothing between them.
Around the terms there may be anything else, but no digit comes right after a count. -/
inductive Spells : List (Char × List Char) → List Char → Prop
  | nil : Spells [] []
  | passed {c : Char} {pairs : List (Char × List Char)} {s : List Char}
      (hc : isLetter c = true → ∀ a ∈ (s.dropWhile isBlank).head?, isDigit a = false) (h : Spells pairs s) :
      Spells pairs (c :: s)
  | term {letter : Char} {blanks digits : List Char} {pairs : List (Char × List Char)} {s : List Char}
      (hletter : isLetter letter = true) (hblanks : ∀ c ∈ blanks, isBlank c = true) (hne : digits ≠ [])
      (hdigits : ∀ c ∈ digits, isDigit c = true) (hs : ∀ c ∈ s.head?, isDigit c = false) (h : Spells pairs s) :
      Spells ((letter, digits) :: pairs) (letter :: (blanks ++ (digits ++ s)))

section Spells

variable {pairs : List (Char × List Char)} {s : List Char}

theorem count_eq (s : List Char) : count s = ((s.dropWhile isBlank).takeWhile isDigit,
    (s.takeWhile isBlank).length + ((s.dropWhile isBlank).takeWhile isDigit).length) := by
  rw [count, drop_length_takeWhile]

theorem drop_count (s : List Char) : s.drop (count s).2 = (s.dropWhile isBlank).dropWhile isDigit := by
  rw [count_eq, ← List.drop_drop, drop_length_takeWhile, drop_length_takeWhile]

theorem scan_cons (c : Char) (s : List Char) : scan 0 (c :: s) =
    if isLetter c && !(count s).1.isEmpty then (c, (count s).1) :: scan (count s).2 s else scan 0 s := rfl

theorem scan_eq_scan_drop (skip : Nat) (s : List Char) : scan skip s = scan 0 (s.drop skip) := by
  induction s generalizing skip with
  | nil => cases skip <;> rfl
  | cons c s ih =>
    cases skip with
    | zero => rfl
    | succ skip => exact ih skip

theorem isEmpty_count (s : List Char) :
    (count s).1.isEmpty = true ↔ ∀ a ∈ (s.dropWhile isBlank).head?, isDigit a = false := by
  rw [count_eq]
  cases s.dropWhile isBlank with
  | nil => simp
  | cons a s => by_cases ha : isDigit a = true <;> simp [ha]

theorem spells_scan (skip : Nat) (s : List Char) : Spells (scan skip s) (s.drop skip) := by
  induction s generalizing skip with
  | nil => cases skip <;> exact .nil
  | cons c s ih =>
    cases skip with
    | succ skip => exact ih skip
    | zero =>
      rw [scan_cons, List.drop_zero]
      split
      · rename_i h
        simp only [Bool.and_eq_true, Bool.not_eq_true', List.isEmpty_eq_false_iff] at h
        have hrest := ih (count s).2
        have hdigits : (count s).1 = (s.dropWhile isBlank).takeWhile isDigit := by rw [count_eq]
        rw [drop_count] at hrest
        rw [hdigits] at h ⊢
        have hterm := Spells.term h.1 (fun _ => List.mem_takeWhile_imp (l := s)) h.2
          (fun _ => List.mem_takeWhile_imp) (head?_dropWhile isDigit _) hrest
        rwa [List.takeWhile_append_dropWhile, List.takeWhile_append_dropWhile] at hterm
      · rename_i h
        refine .passed (fun hc => (isEmpty_count s).1 ?_) (ih 0)
        rwa [hc, Bool.true_and, Bool.not_eq_true, Bool.not_eq_false'] at h

theorem Spells.scan_eq (h : Spells pairs s) : scan 0 s = pairs := by
  induction h with
  | nil => rfl
  | @passed c pairs s hc h ih =>
    have hnone : ¬(isLetter c && !(count s).1.isEmpty) = true := by
      rw [Bool.and_eq_true, Bool.not_eq_true']
      rintro ⟨hletter, hcount⟩
      rw [(isEmpty_count s).2 (hc hletter)] at hcount
      cases hcount
    rw [scan_cons, if_neg hnone, ih]
  | @term letter blanks digits pairs s hletter hblanks hne hdigits hs h ih =>
    have hblank : ∀ c ∈ (digits ++ s).head?, isBlank c = false := by
      intro c hc
      rw [List.head?_append_of_ne_nil digits hne] at hc
      exact isBlank_of_isDigit (hdigits c (List.mem_of_mem_head? hc))
    have hdrop : (blanks ++ (digits ++ s)).dropWhile isBlank = digits ++ s := by
      rw [List.dropWhile_append_of_pos hblanks, dropWhile_eq_self hblank]
    have hcount : (count (blanks ++ (digits ++ s))).1 = digits := by
      rw [count_eq, hdrop, takeWhile_append_of_head hdigits hs]
    have hrest : (blanks ++ (digits ++ s)).drop (count (blanks ++ (digits ++ s))).2 = s := by
      rw [drop_count, hdrop, List.dropWhile_append_of_pos hdigits, dropWhile_eq_self hs]
    rw [scan_cons, hcount, if_pos (by simp [hletter, hne]), scan_eq_scan_drop, hrest, ih]

/-- The terms that a text is scanned for are those that it spells. -/
theorem scan_eq_iff : scan 0 s = pairs ↔ Spells pairs s := by
  constructor
  · rintro rfl
    exact spells_scan 0 s
  · exact Spells.scan_eq

end Spells

/-- The commands that are understood are those that spell a term and no term without a meaning. -/
theorem toNotation_ok_iff {command formula : String} : toNotation command = .ok formula ↔
    ∃ pairs dice, Spells pairs (lower command.toList) ∧ (∀ pair ∈ pairs, pair.2.length ≤ maxNumeralDigits) ∧
      List.Forall₂ Means pairs dice ∧ dice ≠ [] ∧ formula = String.intercalate "&" (dice.map written) := by
  constructor
  · intro h
    obtain ⟨terms, hterms, h⟩ := ok_of_bind h
    obtain ⟨dice, hshort, hdice, rfl⟩ := terms_ok_iff.1 hterms
    cases dice with
    | nil => cases h
    | cons d dice =>
      cases h
      exact ⟨_, d :: dice, spells_scan 0 _, hshort, hdice, List.cons_ne_nil d dice, rfl⟩
  · rintro ⟨pairs, dice, hspells, hshort, hdice, hne, rfl⟩
    rw [toNotation, scan_eq_iff.2 hspells, terms_ok_iff.2 ⟨dice, hshort, hdice, rfl⟩]
    exact if_neg (by simpa using hne)

/-! ### Trees -/

namespace Handful

variable {α : Type} (word : Fin (maxArgument + 1) → α)

def dice (h : Handful) : Kind × Nat := (h.kind, h.count)

/-- The sizes of narrative dice are small numbers. -/
def sides (h : Handful) : Fin (maxArgument + 1) := ⟨h.kind.sides, by cases h.kind <;> decide⟩

def tree (h : Handful) : Tree α :=
  .unary (.genesys h.kind) (.binary .dice (.leaf (word h.count)) (.leaf (word h.sides)))

end Handful

/-- More handfuls merged with a tree, one after the other. -/
def mergedTree {α : Type} (word : Fin (maxArgument + 1) → α) (x : Tree α) (hs : List Handful) : Tree α :=
  hs.foldl (fun x h => .binary (.operator .ampersand) x (h.tree word)) x

def constant (n : Fin (maxArgument + 1)) : Constant := .argument (.single n)

variable {h : Handful} {hs : List Handful}

theorem Handful.written_tree (h : Handful) : (h.tree constant).Written (written h.dice) := by
  -- an operation on dice needs no brackets around literals, nor a kind around an operation on dice
  have hpieces : (h.tree Literal.ofFin).pieces =
      [⟨.numeral (smallNumeral h.count), .argument (.single h.count)⟩, .ofToken .dice,
        ⟨.numeral (smallNumeral h.sides), .argument (.single h.sides)⟩, .ofToken (.genesys h.kind)] := rfl
  refine ⟨h.tree Literal.ofFin, String.toList_injective ?_, show 4 ≤ 10 by decide, rfl⟩
  rw [Tree.text, hpieces, String.toList_ofList]
  simp [written, dice, Piece.ofToken, Lexeme.text, smallNumeral, Token.text, sides]
  rfl

theorem exists_text_mergedTree (h : Handful) (hs : List Handful) :
    ∃ x : Tree Literal, x.text = String.intercalate "&" (((h :: hs).map Handful.dice).map written) ∧
      x.postorder Literal.token = (mergedTree constant (h.tree constant) hs).postorder Constant.token := by
  have hall : List.Forall₂ Tree.Written (hs.map (Handful.tree constant)) ((hs.map Handful.dice).map written) := by
    rw [List.map_map, List.forall₂_map_left_iff, List.forall₂_map_right_iff]
    exact List.forall₂_same.2 fun h _ => h.written_tree
  have hmerged : mergedTree constant (h.tree constant) hs =
      (h.tree constant).merged (hs.map (Handful.tree constant)) := List.foldl_map.symm
  rw [hmerged]
  exact h.written_tree.exists_merged hall

/-! ### Tallies -/

/-- The tree rolls without failing, and comes to the net tally of these symbols. -/
def Tallies (cap : Int) (y : Tree Constant) (s s' : Faces) (symbols : List Symbol) : Prop :=
  ∃ log o, (y.eval cap).on s = (.ok (log, o), s') ∧ o.toValue = .ok (.genesys (Tally.net symbols)) ∧
    o.rawPool? = none

variable {cap : Int} {s s' s'' : Faces}

theorem Handful.tallies {block : List Int} (hblock : block.length = h.count) (htakes : s.Takes block s') :
    Tallies cap (h.tree constant) s s' (symbolsOn h.kind block) := by
  have hsides : h.kind.sides ≠ 0 := by cases h.kind <;> decide
  have hcount : h.count.val ≤ maxPoolSize := Nat.le_trans (Nat.le_of_lt_succ h.count.isLt) (by decide)
  let p : Pool := ⟨block.map fun face => .plain h.kind.sides (Die.clamp h.kind.sides face),
    [⟨h.count, h.kind.sides⟩]⟩
  have hroll : (Pool.roll (.single h.count) (.single h.kind.sides)).on s = (.ok p, s') :=
    (Pool.roll_single_ok_iff hsides hcount).2 ⟨block, hblock, htakes, rfl⟩
  have hrolled : (Operand.rolled (.argument (.single h.count)) (.argument (.single h.sides))).on s =
      (.ok (.thrown (.rolled p)), s') := (Operand.rolled_ok_iff rfl rfl).2 ⟨p, hroll, rfl⟩
  refine ⟨[.thrown (.rolled p), .thrown (.read h.kind p)], .thrown (.read h.kind p), ?_, ?_, rfl⟩
  · refine Rolling.on_bind_ok_iff.2 ⟨([.thrown (.rolled p)], .thrown (.rolled p)), s', ?_, rfl⟩
    exact Tree.eval_binary_ok_iff.2 ⟨[], _, s, [], _, s, _, rfl, rfl, hrolled, rfl, rfl⟩
  · have hresults : p.results = block.map (Die.clamp h.kind.sides) := by
      simp [p, Pool.results, Die.result]
    have hsymbols : h.kind.poolSymbols p = symbolsOn h.kind block := by
      rw [Kind.poolSymbols, hresults, List.flatMap_map]
      rfl
    change Except.ok (Value.genesys (Tally.ofSymbols (h.kind.poolSymbols p))) = _
    rw [hsymbols, Tally.ofSymbols_eq_net]

/-- Tallies that are merged are netted together. -/
theorem Tallies.merge {x y : Tree Constant} {xs ys : List Symbol} (hx : Tallies cap x s s' xs)
    (hy : Tallies cap y s' s'' ys) :
    Tallies cap (.binary (.operator .ampersand) x y) s s'' (xs ++ ys) := by
  obtain ⟨logx, l, hrunx, hvaluex, hrawx⟩ := hx
  obtain ⟨logy, r, hruny, hvaluey, -⟩ := hy
  let op : Operation := .combined .ampersand (.genesys (Tally.net xs)) (.genesys (Tally.net ys))
    (.genesys (Tally.net (xs ++ ys)))
  have hcombined : l.combined .ampersand r = .ok op := by
    rw [Operand.combined_of_not_raw hrawx, Operand.joined, hvaluex, hvaluey]
    change (do pure (Operation.combined .ampersand _ _ (← (Value.genesys _).add (.genesys _)))) = _
    rw [Value.add, Tally.net_add_net]
    rfl
  refine ⟨logx ++ logy ++ [op], op.operand, ?_, rfl, rfl⟩
  refine Tree.eval_binary_ok_iff.2 ⟨logx, l, s', logy, r, s'', op, hrunx, hruny, ?_, rfl, rfl⟩
  change (liftM (l.combined .ampersand r) : Rolling Operation).on s'' = _
  rw [hcombined]
  rfl

theorem tallies_mergedTree {y : Tree Constant} {ys : List Symbol} {faces : List Int} {n : Nat}
    (hy : Tallies cap y s ⟨faces, n⟩ ys) (hfaces : totalCount (hs.map Handful.dice) ≤ faces.length) :
    let total := totalCount (hs.map Handful.dice)
    Tallies cap (mergedTree constant y hs) s ⟨faces.drop total, n + total⟩
      (ys ++ symbolsShown (hs.map Handful.dice) faces) := by
  intro total
  induction hs generalizing y ys faces n with
  | nil => simpa [total, totalCount, symbolsShown, mergedTree] using hy
  | cons h hs ih =>
    have htotal : total = h.count + totalCount (hs.map Handful.dice) := by
      simp [total, totalCount, Handful.dice]
    have hle : h.count + totalCount (hs.map Handful.dice) ≤ faces.length := by
      rw [← htotal]
      exact hfaces
    have hblock : (faces.take h.count).length = h.count := List.length_take_of_le (by omega)
    have htakes : Faces.Takes ⟨faces, n⟩ (faces.take h.count) ⟨faces.drop h.count, n + h.count⟩ :=
      ⟨(List.take_append_drop ..).symm, by rw [hblock]⟩
    have hmerged := hy.merge (h.tallies hblock htakes)
    have := ih hmerged (by rw [List.length_drop]; omega)
    rw [htotal]
    simpa [mergedTree, symbolsShown, Handful.dice, List.append_assoc, Nat.add_assoc] using this

theorem exists_handfuls {dice : List (Kind × Nat)} (h : ∀ d ∈ dice, d.2 ≤ maxArgument) :
    ∃ hs : List Handful, dice = hs.map Handful.dice := by
  induction dice with
  | nil => exact ⟨[], rfl⟩
  | cons d dice ih =>
    obtain ⟨hd, hdice⟩ := List.forall_mem_cons.1 h
    obtain ⟨hs, rfl⟩ := ih hdice
    exact ⟨⟨d.1, d.2, Nat.lt_succ_of_le hd⟩ :: hs, rfl⟩

/-- What the notation of some dice rolls is the net tally of all symbols shown. -/
theorem exists_roll {Owner : Type} {order : Order Owner} {dice : List (Kind × Nat)} {faces : List Int}
    (hne : dice ≠ []) (hcommand : order.command = String.intercalate "&" (dice.map written))
    (hsmall : ∀ d ∈ dice, d.2 ≤ maxArgument) (hfaces : totalCount dice ≤ faces.length) :
    ∃ roll, order.roll.on (.ofList faces) = (.ok roll, ⟨faces.drop (totalCount dice), totalCount dice⟩) ∧
      roll.result = .genesys (Tally.net (symbolsShown dice faces)) := by
  obtain ⟨hs, rfl⟩ := exists_handfuls hsmall
  cases hs with
  | nil => exact absurd rfl hne
  | cons f hs =>
    have htotal : totalCount ((f :: hs).map Handful.dice) = f.count + totalCount (hs.map Handful.dice) := by
      simp [totalCount, Handful.dice]
    have hblock : (faces.take f.count).length = f.count := List.length_take_of_le (by omega)
    have htakes : Faces.Takes (.ofList faces) (faces.take f.count) ⟨faces.drop f.count, f.count⟩ :=
      ⟨(List.take_append_drop ..).symm, by rw [hblock]; exact (Nat.zero_add _).symm⟩
    have hfirst : Tallies maxGenerations (f.tree constant) (.ofList faces) _ _ := f.tallies hblock htakes
    have hrest : totalCount (hs.map Handful.dice) ≤ (faces.drop f.count).length := by
      rw [List.length_drop]
      omega
    obtain ⟨log, final, hrun, hvalue, -⟩ := tallies_mergedTree hfirst hrest
    obtain ⟨x, htext, htokens⟩ := exists_text_mergedTree f hs
    refine ⟨⟨order.command, order.comment, log, .genesys _, order.owner⟩, ?_, rfl⟩
    rw [htotal, ← List.drop_drop]
    exact order.on_roll (hcommand.trans htext.symm) htokens hrun hvalue

/-- A command as it is written: terms with a meaning, of which none is too long to be read or too large for an
argument. It has a notation, and this rolls without failing on any faces that suffice for all dice, and comes to
the net tally of their symbols. -/
theorem roll_written {Owner : Type} {command : String} {pairs : List (Char × List Char)} {dice : List (Kind × Nat)}
    (hspells : Spells pairs (lower command.toList)) (hshort : ∀ pair ∈ pairs, pair.2.length ≤ maxNumeralDigits)
    (hmeans : List.Forall₂ Means pairs dice) (hne : dice ≠ []) (hsmall : ∀ d ∈ dice, d.2 ≤ maxArgument) :
    ∃ formula, toNotation command = .ok formula ∧
      ∀ (order : Order Owner) (faces : List Int), order.command = formula → totalCount dice ≤ faces.length →
        ∃ roll, order.roll.on (.ofList faces) = (.ok roll, ⟨faces.drop (totalCount dice), totalCount dice⟩) ∧
          roll.result = .genesys (Tally.net (symbolsShown dice faces)) :=
  ⟨_, toNotation_ok_iff.2 ⟨pairs, dice, hspells, hshort, hmeans, hne, rfl⟩,
    fun _ _ hcommand hfaces => exists_roll hne hcommand hsmall hfaces⟩

end Shorthand.Narrative
end Tabletop
