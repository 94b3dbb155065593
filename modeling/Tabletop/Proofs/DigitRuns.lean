import Tabletop.Proofs.Bounded
import Tabletop.Proofs.CommandParts
import Tabletop.Proofs.LexBack
import Tabletop.Shorthand.Narrative

/-!
# Runs of digits

How many digits stand side by side in a text (`hasRun`) decides whether a number can be read from it.
Readers take their numbers out of the text, out of its lower case, or out of the text without blanks.
None of this brings digits together that did not stand together with blanks aside: lower case leaves
digits and blanks alone, and puts none in the place of other characters (`Alike`).
-/

namespace Tabletop
open Text

namespace Text

/-- So many digits, or more, stand side by side in the text. -/
def hasRun (n : Nat) : List Char → Bool
  | [] => n = 0
  | c :: s => n ≤ ((c :: s).takeWhile isDigit).length || hasRun n s

variable {n : Nat} {c : Char} {s t : List Char}

theorem hasRun_zero (s : List Char) : hasRun 0 s = true := by
  cases s with
  | nil => rfl
  | cons c s => simp [hasRun]

theorem hasRun_of_le {m : Nat} (hnm : n ≤ m) (h : hasRun m s = true) : hasRun n s = true := by
  induction s with
  | nil =>
    obtain rfl : m = 0 := of_decide_eq_true h
    exact decide_eq_true (Nat.le_zero.1 hnm)
  | cons c s ih =>
    rw [hasRun, Bool.or_eq_true, decide_eq_true_iff] at h ⊢
    exact h.imp (Nat.le_trans hnm) ih

theorem hasRun_cons (h : hasRun n s = true) : hasRun n (c :: s) = true := by
  rw [hasRun, h, Bool.or_true]

theorem hasRun_takeWhile (s : List Char) : hasRun (s.takeWhile isDigit).length s = true := by
  cases s with
  | nil => rfl
  | cons c s => rw [hasRun, decide_eq_true (Nat.le_refl _), Bool.true_or]

theorem hasRun_append_left (h : hasRun n s = true) (t : List Char) : hasRun n (t ++ s) = true := by
  induction t with
  | nil => exact h
  | cons c t ih => exact hasRun_cons ih

theorem length_takeWhile_append_le (p : Char → Bool) (s t : List Char) :
    (s.takeWhile p).length ≤ ((s ++ t).takeWhile p).length := by
  rw [List.takeWhile_append]
  split
  · rename_i hall
    rw [hall, List.length_append]
    exact Nat.le_add_right _ _
  · exact Nat.le_refl _

theorem hasRun_append_right (h : hasRun n s = true) (t : List Char) : hasRun n (s ++ t) = true := by
  induction s with
  | nil =>
    obtain rfl : n = 0 := of_decide_eq_true h
    exact hasRun_zero _
  | cons c s ih =>
    rw [hasRun, Bool.or_eq_true, decide_eq_true_iff] at h
    rw [List.cons_append, hasRun, Bool.or_eq_true, decide_eq_true_iff]
    exact h.imp (fun h => Nat.le_trans h (length_takeWhile_append_le isDigit (c :: s) t)) ih

theorem hasRun_of_isInfix (hst : s <:+: t) (h : hasRun n s = true) : hasRun n t = true := by
  obtain ⟨before, after, rfl⟩ := hst
  exact hasRun_append_right (hasRun_append_left h before) after

/-! ### Blanks aside -/

theorem length_takeWhile_squeeze_le (s : List Char) :
    (s.takeWhile isDigit).length ≤ ((squeeze s).takeWhile isDigit).length := by
  induction s with
  | nil => exact Nat.le_refl _
  | cons c s ih =>
    by_cases hc : isDigit c = true
    · have hkeep : squeeze (c :: s) = c :: squeeze s := List.filter_cons_of_pos (by simp [isBlank_of_isDigit hc])
      rw [hkeep, List.takeWhile_cons_of_pos hc, List.takeWhile_cons_of_pos hc]
      exact Nat.succ_le_succ ih
    · rw [List.takeWhile_cons_of_neg hc]
      exact Nat.zero_le _

theorem hasRun_squeeze (h : hasRun n s = true) : hasRun n (squeeze s) = true := by
  induction s with
  | nil => exact h
  | cons c s ih =>
    rw [hasRun, Bool.or_eq_true, decide_eq_true_iff] at h
    rcases h with h | h
    · exact hasRun_of_le (Nat.le_trans h (length_takeWhile_squeeze_le _)) (hasRun_takeWhile _)
    · by_cases hc : isBlank c = true
      · have hdrop : squeeze (c :: s) = squeeze s := List.filter_cons_of_neg (by simp [hc])
        rw [hdrop]
        exact ih h
      · have hkeep : squeeze (c :: s) = c :: squeeze s := List.filter_cons_of_pos (by simp [hc])
        rw [hkeep]
        exact hasRun_cons (ih h)

/-! ### Lower case -/

open Shorthand

/-- The second text is the first one with other characters in place of some that do not belong in an
expression, as all digits and blanks do; the others do not belong there either. -/
inductive Alike : List Char → List Char → Prop
  | nil : Alike [] []
  | keep {c : Char} {s t : List Char} (h : Alike s t) : Alike (c :: s) (c :: t)
  | change {c a : Char} {w s t : List Char} (hc : isDiceCharacter c = false)
      (hw : ∀ b ∈ a :: w, isDiceCharacter b = false) (h : Alike s t) : Alike (c :: s) (a :: w ++ t)

theorem not_isDigit_of_not_isDiceCharacter (h : isDiceCharacter c = false) : isDigit c = false := by
  rw [isDiceCharacter, Bool.or_eq_false_iff, Bool.or_eq_false_iff] at h
  exact h.1.1

theorem not_isBlank_of_not_isDiceCharacter (h : isDiceCharacter c = false) : isBlank c = false := by
  rw [isDiceCharacter, Bool.or_eq_false_iff, Bool.or_eq_false_iff] at h
  exact h.1.2

namespace Alike

theorem takeWhile_isDigit (h : Alike s t) : (t.takeWhile isDigit).length = (s.takeWhile isDigit).length := by
  induction h with
  | nil => rfl
  | @keep c s t h ih =>
    by_cases hc : isDigit c = true
    · rw [List.takeWhile_cons_of_pos hc, List.takeWhile_cons_of_pos hc, List.length_cons, List.length_cons, ih]
    · rw [List.takeWhile_cons_of_neg hc, List.takeWhile_cons_of_neg hc]
  | change hc hw h ih =>
    have ha := not_isDigit_of_not_isDiceCharacter (hw _ List.mem_cons_self)
    rw [List.cons_append, List.takeWhile_cons_of_neg (by simp [ha]),
      List.takeWhile_cons_of_neg (by simp [not_isDigit_of_not_isDiceCharacter hc])]

theorem squeeze (h : Alike s t) : Alike (squeeze s) (squeeze t) := by
  induction h with
  | nil => exact .nil
  | @keep c s t h ih =>
    by_cases hc : isBlank c = true
    · simpa [Text.squeeze, hc] using ih
    · simpa [Text.squeeze, hc] using ih.keep
  | @change c a w s t hc hw h ih =>
    have hblank : ∀ b ∈ a :: w, isBlank b = false := fun b hb => not_isBlank_of_not_isDiceCharacter (hw b hb)
    have hword : Text.squeeze (a :: w) = a :: w := List.filter_eq_self.2 fun b hb => by simp [hblank b hb]
    have hkeep : Text.squeeze (c :: s) = c :: Text.squeeze s :=
      List.filter_cons_of_pos (by simp [not_isBlank_of_not_isDiceCharacter hc])
    rw [squeeze_append, hword, hkeep]
    exact ih.change hc hw

theorem hasRun (h : Alike s t) (ht : hasRun n t = true) : hasRun n s = true := by
  rcases Nat.eq_zero_or_pos n with rfl | hn
  · exact hasRun_zero s
  induction h with
  | nil => exact ht
  | keep h ih =>
    rw [Text.hasRun, Bool.or_eq_true, decide_eq_true_iff] at ht ⊢
    exact ht.imp (fun ht => by rwa [(Alike.keep h).takeWhile_isDigit] at ht) ih
  | @change c a w s t hc hw h ih =>
    -- no digit stands in the word, so that the run is in what follows it
    have hafter : ∀ w : List Char, (∀ b ∈ w, isDiceCharacter b = false) → Text.hasRun n (w ++ t) = true →
        Text.hasRun n t = true := by
      intro w hw ht
      induction w with
      | nil => exact ht
      | cons b w ihw =>
        obtain ⟨hb, hw⟩ := List.forall_mem_cons.1 hw
        have hb := not_isDigit_of_not_isDiceCharacter hb
        rw [List.cons_append, Text.hasRun, List.takeWhile_cons_of_neg (by simp [hb]), Bool.or_eq_true,
          decide_eq_true_iff] at ht
        exact ihw hw (ht.resolve_left (Nat.not_le_of_lt hn))
    exact hasRun_cons (ih (hafter _ hw ht))

end Alike

theorem toNat_ofNat_cases (m : Nat) : (Char.ofNat m).toNat = m ∨ (Char.ofNat m).toNat = 0 := by
  by_cases hvalid : m.isValidChar
  · refine .inl ?_
    rw [Char.ofNat, dif_pos hvalid]
    rfl
  · refine .inr ?_
    rw [Char.ofNat, dif_neg hvalid]
    rfl

/-- No character of an expression is the lower case form of another character. -/
theorem not_isDiceCharacter_lowerChar (h : isDiceCharacter c = false) : isDiceCharacter (lowerChar c) = false := by
  have table : (capitalRuns.all fun capital => diceRuns.all fun run =>
      Apart run ((capital.1 + capital.2.2.2).toNat, (capital.2.1 + capital.2.2.2).toNat) && Apart run (0, 0)) =
        true := by
    set_option maxRecDepth 1000 in decide
  unfold lowerChar
  dsimp only
  split
  · rename_i first last step shift hfind
    have hin := List.find?_some hfind
    have hmem := List.mem_of_find?_eq_some hfind
    simp only [Bool.and_eq_true, decide_eq_true_eq] at hin
    rw [← Bool.not_eq_true]
    intro hdice
    obtain ⟨run, hrun, hlow, hhigh⟩ := exists_diceRun hdice
    have hrow := List.all_eq_true.1 (List.all_eq_true.1 table _ hmem) run hrun
    simp only [Apart, Bool.and_eq_true, Bool.or_eq_true, Nat.blt_eq] at hrow
    rcases toNat_ofNat_cases ((c.toNat : Int) + shift).toNat with hform | hform <;> omega
  · exact h

theorem alike_lower (s : List Char) : Alike s (lower s) := by
  have hafter (before : List Char) : Alike s (lowerAfter before s) := by
    induction s generalizing before with
    | nil => exact .nil
    | cons c s ih =>
      have hrest := ih (c :: before)
      rw [lowerAfter]
      by_cases hc : isDiceCharacter c = true
      · obtain ⟨hlower, hdot, hsigma, -⟩ := caseless_of_isDiceCharacter hc
        rw [if_neg hdot, if_neg hsigma, hlower]
        exact hrest.keep
      · have hc := eq_false_of_ne_true hc
        split
        · exact hrest.change hc (List.forall_mem_cons.2 ⟨by decide, List.forall_mem_singleton.2 (by decide)⟩)
        · split
          · split
            · exact hrest.change hc (List.forall_mem_singleton.2 (by decide))
            · exact hrest.change hc (List.forall_mem_singleton.2 (by decide))
          · exact hrest.change hc (List.forall_mem_singleton.2 (not_isDiceCharacter_lowerChar hc))
  exact hafter []

end Text

/-! ### What is found in a text -/

section Found

variable {skip : Nat} {c : Char} {s digits : List Char}

theorem Lexeme.hasRun_of_numeral? (h : numeral? s = some (numeral digits)) (hpoint : '.' ∉ digits) :
    hasRun digits.length s = true := by
  unfold numeral? at h
  dsimp only at h
  split at h
  · split at h <;> cases h
    simp at hpoint
  · split at h <;> cases h
    exact hasRun_takeWhile s

theorem Lexeme.hasRun_of_first {cs : List Char} (h : first c cs = numeral digits) (hpoint : '.' ∉ digits) :
    hasRun digits.length (c :: cs) = true := by
  have hwords : ∀ w ∈ words, (match w with | numeral _ => true | _ => false) = false := by decide
  have hcases := first_cases c cs
  rw [h] at hcases
  rcases hcases with hl | hl | hl | hl
  · obtain ⟨inner, hlist, -⟩ := list?_ok hl
    cases hlist
  · exact hasRun_of_numeral? hl hpoint
  · cases hwords _ hl
  · cases hl

/-- A whole number among the lexemes is a run of digits of the text. -/
theorem Lexeme.hasRun_of_scan (h : numeral digits ∈ scan skip s) (hpoint : '.' ∉ digits) :
    hasRun digits.length s = true := by
  obtain ⟨c, cs, hsuffix, hfirst⟩ := exists_first_of_mem_scan h
  exact hasRun_of_isInfix hsuffix.isInfix (hasRun_of_first hfirst hpoint)

namespace Shorthand

theorem Flag.hasRun_of_scan {letters : List Char} {letter : Char} (h : numbered letter digits ∈ scan letters skip s) :
    hasRun digits.length s = true := by
  induction s generalizing skip with
  | nil => cases h
  | cons c cs ih =>
    cases skip with
    | succ skip => exact hasRun_cons (ih h)
    | zero =>
      rw [scan] at h
      split at h
      · exact hasRun_cons (ih h)
      · rcases List.mem_cons.1 h with h | h
        · unfold first at h
          dsimp only at h
          split at h
          · cases h
            exact hasRun_cons (hasRun_takeWhile cs)
          · split at h <;> cases h
        · exact hasRun_cons (ih h)

theorem Narrative.hasRun_of_scan {letter : Char} (h : (letter, digits) ∈ scan skip s) :
    hasRun digits.length s = true := by
  induction s generalizing skip with
  | nil => cases h
  | cons c cs ih =>
    cases skip with
    | succ skip => exact hasRun_cons (ih h)
    | zero =>
      rw [scan] at h
      dsimp only at h
      split at h
      · rcases List.mem_cons.1 h with h | h
        · cases h
          exact hasRun_cons (hasRun_of_isInfix (List.drop_suffix _ _).isInfix (hasRun_takeWhile _))
        · exact hasRun_cons (ih h)
      · exact hasRun_cons (ih h)

end Shorthand

end Found

end Tabletop
