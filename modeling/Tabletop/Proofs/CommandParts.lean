import Tabletop.Proofs.SmallNumbers
import Tabletop.Proofs.Trimming
import Tabletop.Request
import Tabletop.Shorthand.Parts

/-!
# The parts of a command

A shorthand is written as an expression that says how many dice to roll, then flags. Lower case and
trimming leave the expression as it is but for blanks, and the flags come out as they do alone
(`Shorthand.ofCommand_ok_iff`). The sigma is why that is not plain: its lower case form hangs on the
letters beside it. But a character of an expression counts there neither as a letter nor as one that
is passed over.
-/

namespace Tabletop

open Text

namespace Shorthand

/-- The first and last of each run of characters of an expression. -/
def diceRuns : List (Nat × Nat) :=
  zeros.map (fun z => (z, z + 9)) ++ blanks.map (fun b => (b, b)) ++
    ['+', '-', '*', '/', '(', ')'].map fun c => (c.toNat, c.toNat)

theorem exists_diceRun {c : Char} (h : isDiceCharacter c = true) :
    ∃ run ∈ diceRuns, run.1 ≤ c.toNat ∧ c.toNat ≤ run.2 := by
  simp only [isDiceCharacter, Bool.or_eq_true] at h
  rcases h with (h | h) | h
  · rw [isDigit, digit?, Option.isSome_map, List.find?_isSome] at h
    obtain ⟨z, hz, hc⟩ := h
    simp only [Bool.and_eq_true, decide_eq_true_eq] at hc
    exact ⟨(z, z + 9), by simp [diceRuns, hz], hc.1, by omega⟩
  · refine ⟨(c.toNat, c.toNat), ?_, Nat.le_refl _, Nat.le_refl _⟩
    have hc : c.toNat ∈ blanks := by simpa [isBlank] using h
    simp [diceRuns, hc]
  · refine ⟨(c.toNat, c.toNat), ?_, Nat.le_refl _, Nat.le_refl _⟩
    rw [List.contains_iff_mem] at h
    exact List.mem_append_right _ (List.mem_map.2 ⟨c, h, rfl⟩)

def Apart (r r' : Nat × Nat) : Bool := r.2.blt r'.1 || r'.2.blt r.1

/-- Characters of an expression have no case, and count beside a sigma. -/
theorem caseless_of_isDiceCharacter {c : Char} (h : isDiceCharacter c = true) :
    lowerChar c = c ∧ c.toNat ≠ 0x130 ∧ c.toNat ≠ 0x3A3 ∧ isCased c = false ∧ isCaseIgnorable c = false := by
  have table : (diceRuns.all fun run => Apart run (0x130, 0x130) && Apart run (0x3A3, 0x3A3) &&
      (capitalRuns.all fun r => Apart run (r.1, r.2.1)) && casedRuns.all (Apart run) &&
      caseIgnorableRuns.all (Apart run)) = true := by decide +kernel
  obtain ⟨run, hrun, hfirst, hlast⟩ := exists_diceRun h
  have hrow := List.all_eq_true.1 table run hrun
  have hout {r : Nat × Nat} (hr : Apart run r = true) : ¬(r.1 ≤ c.toNat ∧ c.toNat ≤ r.2) := by
    simp only [Apart, Bool.or_eq_true, Nat.blt_eq] at hr
    omega
  simp only [Bool.and_eq_true, List.all_eq_true] at hrow
  obtain ⟨⟨⟨⟨hdot, hsigma⟩, hcapital⟩, hcased⟩, hignorable⟩ := hrow
  have hruns {runs : List (Nat × Nat)} (h : ∀ r ∈ runs, Apart run r = true) : inRuns runs c = false := by
    rw [inRuns, List.any_eq_false]
    intro r hr
    have := hout (h r hr)
    simpa using this
  refine ⟨?_, fun hc => hout hdot (by simp [hc]), fun hc => hout hsigma (by simp [hc]), hruns hcased,
    hruns hignorable⟩
  unfold lowerChar
  dsimp only
  split
  · rename_i hfind
    have hin := List.find?_some hfind
    have hmem := List.mem_of_find?_eq_some hfind
    simp only [Bool.and_eq_true, decide_eq_true_eq] at hin
    exact absurd hin.1 (hout (hcapital _ hmem))
  · rfl

/-! ### Lower case -/

theorem meetsCased_append {e : List Char} (he : ∀ c ∈ e, isDiceCharacter c = true) (w : List Char) :
    meetsCased (w ++ e) = meetsCased w := by
  have hself : meetsCased e = false := by
    cases e with
    | nil => rfl
    | cons c e =>
      obtain ⟨-, -, -, hcased, hignorable⟩ := caseless_of_isDiceCharacter (he c List.mem_cons_self)
      rw [meetsCased, List.dropWhile_cons_of_neg (by simp [hignorable])]
      exact hcased
  induction w with
  | nil => exact hself
  | cons c w ih =>
    rw [List.cons_append]
    unfold meetsCased at ih ⊢
    by_cases hc : isCaseIgnorable c = true
    · rw [List.dropWhile_cons_of_pos hc, List.dropWhile_cons_of_pos hc, ih]
    · rw [List.dropWhile_cons_of_neg hc, List.dropWhile_cons_of_neg hc]

theorem lowerAfter_append {e : List Char} (he : ∀ c ∈ e, isDiceCharacter c = true) (before s : List Char) :
    lowerAfter (before ++ e) s = lowerAfter before s := by
  induction s generalizing before with
  | nil => rfl
  | cons c s ih =>
    rw [lowerAfter, lowerAfter, meetsCased_append he, ← List.cons_append, ih]

/-- An expression is in lower case, and does not change the case of what follows. -/
theorem lower_append {e : List Char} (he : ∀ c ∈ e, isDiceCharacter c = true) (s : List Char) :
    lower (e ++ s) = e ++ lower s := by
  have hafter (before : List Char) : lowerAfter before (e ++ s) = e ++ lowerAfter (e.reverse ++ before) s := by
    induction e generalizing before with
    | nil => rfl
    | cons c e ih =>
      obtain ⟨hlower, hdot, hsigma, -⟩ := caseless_of_isDiceCharacter (he c List.mem_cons_self)
      rw [List.cons_append, lowerAfter, ih fun a ha => he a (List.mem_cons_of_mem _ ha)]
      simp [hlower, hdot, hsigma]
  rw [lower, hafter, List.append_nil]
  have := lowerAfter_append (fun c hc => he c (List.mem_reverse.1 hc)) [] s
  rw [List.nil_append] at this
  rw [this, lower]

/-! ### The parts -/

theorem isDiceCharacter_of_isBlank {c : Char} (h : isBlank c = true) : isDiceCharacter c = true := by
  simp [isDiceCharacter, h]

theorem exists_normal_append {d : List Char} (hd : ∀ c ∈ d, isDiceCharacter c = true) (f : List Char) :
    ∃ e, Request.normal (d ++ f) = e ++ Request.normal f ∧ trim e = trim d ∧
      ∀ c ∈ e, isDiceCharacter c = true := by
  obtain ⟨e, htext, htrim, hmem⟩ := exists_trim_append d f
  have he : ∀ c ∈ e, isDiceCharacter c = true := fun c hc =>
    (hmem c hc).elim (hd c) isDiceCharacter_of_isBlank
  exact ⟨e, by rw [Request.normal, htext, lower_append he, Request.normal], htrim, he⟩

/-- A text that begins with no character of an expression does not when it is trimmed. -/
theorem head?_trim_of_head? {f : List Char} (hf : ∀ c ∈ f.head?, isDiceCharacter c = false) :
    ∀ c ∈ (trim f).head?, isDiceCharacter c = false := by
  have hblank : ∀ c ∈ f.head?, isBlank c = false := by
    intro c hc
    rw [← Bool.not_eq_true]
    intro hblank
    have hfalse := hf c hc
    rw [isDiceCharacter_of_isBlank hblank] at hfalse
    cases hfalse
  exact fun c hc => hf c (mem_head?_of_isPrefix (trim_isPrefix hblank) hc)

/-- The flags that follow an expression, as far as a bonus. -/
def flagText (f : List Char) : List Char := trim (cut ';' (Request.normal f)).1

/-- The bonus that follows the flags, if there is one. -/
def bonusText (f : List Char) : List Char := trim (cut ';' (Request.normal f)).2

/-- The parts of a command that is an expression, and flags and a bonus after it. There must be an
expression, and the flags must be on the line where it ends. -/
theorem ofCommand_ok_iff {d f : List Char} {p : Parts} (hd : ∀ c ∈ d, isDiceCharacter c = true)
    (hf : ∀ c ∈ (cut ';' (Request.normal f)).1.head?, isDiceCharacter c = false) :
    Parts.ofCommand (Request.normal (d ++ f)) = .ok p ↔
      trim d ≠ [] ∧ '\n' ∉ flagText f ∧ p = ⟨trim d, flagText f, bonusText f⟩ := by
  obtain ⟨e, htext, htrim, he⟩ := exists_normal_append hd f
  have hmark : ';' ∉ e := fun hmem => absurd (he _ hmem) (by decide)
  -- the bonus is cut off, and what is left is trimmed once more
  obtain ⟨e', hmain, htrim', hmem'⟩ := exists_trim_append e (cut ';' (Request.normal f)).1
  have he' : ∀ c ∈ e', isDiceCharacter c = true := fun c hc =>
    (hmem' c hc).elim (he c) isDiceCharacter_of_isBlank
  have hdice := takeWhile_append_of_head he' (head?_trim_of_head? hf)
  have hnil : e' = [] ↔ trim d = [] := by
    rw [← htrim, ← htrim', trim_eq_nil_iff_of_isPrefix ⟨_, hmain.symm⟩]
  rw [htext]
  simp only [Parts.ofCommand, cut_append hmark, hmain, hdice, List.drop_left]
  rw [htrim', htrim, trim_trim, ← flagText, ← bonusText]
  split
  · rename_i h
    simp only [Bool.or_eq_true, List.isEmpty_iff, List.contains_iff_mem, hnil] at h
    refine ⟨nofun, fun hp => ?_⟩
    exact (h.elim hp.1 hp.2.1).elim
  · rename_i h
    simp only [Bool.or_eq_true, List.isEmpty_iff, List.contains_iff_mem, hnil, not_or] at h
    exact ⟨fun hp => ⟨h.1, h.2, (Except.ok.inj hp).symm⟩, fun hp => by rw [hp.2.2]⟩

end Shorthand

end Tabletop
