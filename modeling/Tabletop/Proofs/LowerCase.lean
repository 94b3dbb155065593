import Tabletop.Proofs.DigitRuns
import Tabletop.Proofs.Trimming

/-!
# What is in lower case stays as it is

In lower case each character of a text becomes one or two others (`exists_lowerAfter_cons`), which do not
change any more, whatever stands beside them (`Settled`). So lower case is reached at once
(`lower_lower`). Blanks are kept and none are added, so that a text without blanks at its ends gets none
(`trim_lower`), and no colon comes up that was not there.
-/

namespace Tabletop.Text

open Shorthand

variable {c d : Char} {s before : List Char}

/-! ### The table of capitals -/

/-- The number belongs to a capital of the run. -/
def InRun (run : Nat × Nat × Nat × Int) (n : Nat) : Prop :=
  run.1 ≤ n ∧ n ≤ run.2.1 ∧ (n - run.1) % run.2.2.1 = 0

/-- The number of the lower case form of a capital of the run. -/
def formOf (run : Nat × Nat × Nat × Int) (n : Nat) : Nat := (n + run.2.2.2).toNat

theorem lowerChar_cases (c : Char) :
    ((∀ run ∈ capitalRuns, ¬ InRun run c.toNat) ∧ lowerChar c = c) ∨
      ∃ run ∈ capitalRuns, InRun run c.toNat ∧ lowerChar c = Char.ofNat (formOf run c.toNat) := by
  unfold lowerChar
  dsimp only
  split
  · rename_i hfind
    have hin := List.find?_some hfind
    simp only [Bool.and_eq_true, decide_eq_true_eq, beq_iff_eq] at hin
    exact .inr ⟨_, List.mem_of_find?_eq_some hfind, ⟨hin.1.1, hin.1.2, hin.2⟩, rfl⟩
  · rename_i hfind
    refine .inl ⟨fun run hrun hin => ?_, rfl⟩
    have hnone := List.find?_eq_none.1 hfind run hrun
    obtain ⟨hfirst, hlast, hstep⟩ := hin
    simp [hfirst, hlast, hstep] at hnone

/-- The capitals of the run are an even number apart. -/
def IsEven (run : Nat × Nat × Nat × Int) : Bool := run.2.2.1 == 2 || run.1 == run.2.1

/-- No capital of the second run is a lower case form of the first: they lie apart, or between each other. -/
def Avoids (run other : Nat × Nat × Nat × Int) : Bool :=
  (formOf run run.2.1).blt other.1 || other.2.1.blt (formOf run run.1) ||
    (IsEven run && IsEven other && (formOf run run.1 + other.1) % 2 == 1)

theorem not_inRun_of_avoids {run other : Nat × Nat × Nat × Int} {n : Nat} (h : Avoids run other = true)
    (hpos : 0 < formOf run run.1) (hn : InRun run n) : ¬ InRun other (formOf run n) := by
  obtain ⟨first, last, step, shift⟩ := run
  obtain ⟨first', last', step', shift'⟩ := other
  obtain ⟨hfirst, hlast, hstep⟩ := hn
  rintro ⟨hfirst', hlast', hstep'⟩
  simp only [Avoids, IsEven, formOf, Bool.or_eq_true, Bool.and_eq_true, Nat.blt_eq, beq_iff_eq] at *
  rcases h with (h | h) | ⟨⟨h, h'⟩, hodd⟩
  · omega
  · omega
  · have heven : (n - first) % 2 = 0 := by
      rcases h with h | h
      · rwa [h] at hstep
      · omega
    have heven' : ((n + shift).toNat - first') % 2 = 0 := by
      rcases h' with h' | h'
      · rwa [h'] at hstep'
      · omega
    omega

/-- A lower case form that the table gives is in no run itself, and is none of these three. -/
theorem not_inRun_form {run : Nat × Nat × Nat × Int} (hrun : run ∈ capitalRuns) (hin : InRun run c.toNat) :
    let n := (Char.ofNat (formOf run c.toNat)).toNat
    (∀ other ∈ capitalRuns, ¬ InRun other n) ∧ n ≠ 0x130 ∧ n ≠ 0x3A3 ∧ n ≠ ':'.toNat := by
  have table : (capitalRuns.all fun run => capitalRuns.all (Avoids run)) = true := by set_option maxRecDepth 1000 in decide
  have bounds : (capitalRuns.all fun run => Nat.blt 0 run.1 && Nat.blt 0 (formOf run run.1) &&
      [0x130, 0x3A3, ':'.toNat].all fun n => Apart (n, n) (formOf run run.1, formOf run run.2.1)) = true := by
    decide
  have hbounds (other) (hother : other ∈ capitalRuns) := List.all_eq_true.1 bounds other hother
  simp only [Bool.and_eq_true, Nat.blt_eq, List.all_cons, List.all_nil, Bool.and_true, Apart,
    Bool.or_eq_true] at hbounds
  obtain ⟨⟨-, hpos⟩, hdot, hsigma, hcolon⟩ := hbounds run hrun
  intro n
  have hform : formOf run run.1 ≤ formOf run c.toNat ∧ formOf run c.toNat ≤ formOf run run.2.1 := by
    obtain ⟨hfirst, hlast, -⟩ := hin
    simp only [formOf]
    omega
  rcases toNat_ofNat_cases (formOf run c.toNat) with hn | hn
  · refine ⟨fun other hother => ?_, ?_, ?_, ?_⟩
    · rw [show n = formOf run c.toNat from hn]
      exact not_inRun_of_avoids (List.all_eq_true.1 (List.all_eq_true.1 table run hrun) other hother) hpos hin
    all_goals omega
  · refine ⟨fun other hother hzero => ?_, ?_, ?_, ?_⟩
    · have := (hbounds other hother).1.1
      have := hzero.1
      omega
    all_goals first | omega | (rw [show n = 0 from hn]; decide)

/-! ### One character -/

/-- The character is its own lower case, whatever stands beside it. -/
structure Settled (c : Char) : Prop where
  dot : c.toNat ≠ 0x130
  sigma : c.toNat ≠ 0x3A3
  lower : lowerChar c = c

theorem settled_lowerChar (hdot : c.toNat ≠ 0x130) (hsigma : c.toNat ≠ 0x3A3) : Settled (lowerChar c) := by
  rcases lowerChar_cases c with ⟨-, hself⟩ | ⟨run, hrun, hin, hform⟩
  · exact ⟨by rwa [hself], by rwa [hself], by rw [hself, hself]⟩
  · obtain ⟨hout, hdot', hsigma', -⟩ := not_inRun_form hrun hin
    rw [hform]
    refine ⟨hdot', hsigma', ?_⟩
    rcases lowerChar_cases (Char.ofNat (formOf run c.toNat)) with ⟨-, hself⟩ | ⟨other, hother, hin', -⟩
    · exact hself
    · exact absurd hin' (hout other hother)

theorem eq_colon_of_lowerChar (h : lowerChar c = ':') : c = ':' := by
  rcases lowerChar_cases c with ⟨-, hself⟩ | ⟨run, hrun, hin, hform⟩
  · rwa [hself] at h
  · obtain ⟨-, -, -, hcolon⟩ := not_inRun_form hrun hin
    rw [← hform, h] at hcolon
    exact absurd rfl hcolon

theorem isBlank_lowerChar (c : Char) : isBlank (lowerChar c) = isBlank c := by
  cases hc : isDiceCharacter c with
  | true => rw [(caseless_of_isDiceCharacter hc).1]
  | false =>
    rw [not_isBlank_of_not_isDiceCharacter hc, not_isBlank_of_not_isDiceCharacter (not_isDiceCharacter_lowerChar hc)]

/-- What stands in lower case for a character. -/
structure LowersTo (c : Char) (b : List Char) : Prop where
  ne_nil : b ≠ []
  settled : ∀ d ∈ b, Settled d
  isBlank : ∀ d ∈ b, isBlank d = isBlank c
  colon : ':' ∈ b → c = ':'

theorem lowersTo_of_mem {b : List Char} (hblank : isBlank c = false) (hb : b ≠ [])
    (hmem : ∀ d ∈ b, d ∈ ['i', Char.ofNat 0x307, Char.ofNat 0x3C2, Char.ofNat 0x3C3]) : LowersTo c b := by
  have table : ∀ d ∈ ['i', Char.ofNat 0x307, Char.ofNat 0x3C2, Char.ofNat 0x3C3],
      (d.toNat ≠ 0x130 ∧ d.toNat ≠ 0x3A3 ∧ lowerChar d = d) ∧ isBlank d = false ∧ d ≠ ':' :=
    List.all_iff_forall_prop.1 (by decide)
  refine ⟨hb, fun d hd => ?_, fun d hd => ?_, fun hcolon => absurd rfl (table _ (hmem _ hcolon)).2.2⟩
  · obtain ⟨hdot, hsigma, hlower⟩ := (table d (hmem d hd)).1
    exact ⟨hdot, hsigma, hlower⟩
  · rw [hblank, (table d (hmem d hd)).2.1]

theorem lowersTo_lowerChar (hdot : c.toNat ≠ 0x130) (hsigma : c.toNat ≠ 0x3A3) : LowersTo c [lowerChar c] where
  ne_nil := List.cons_ne_nil _ _
  settled := List.forall_mem_singleton.2 (settled_lowerChar hdot hsigma)
  isBlank := List.forall_mem_singleton.2 (isBlank_lowerChar c)
  colon := fun h => eq_colon_of_lowerChar (List.mem_singleton.1 h).symm

/-- A character becomes a word of its own, and the others do not change that word any more. -/
theorem exists_lowerAfter_cons (before : List Char) (c : Char) (s : List Char) :
    ∃ b, LowersTo c b ∧ lowerAfter before (c :: s) = b ++ lowerAfter (c :: before) s := by
  rw [lowerAfter]
  refine ⟨_, ?_, rfl⟩
  split
  · rename_i hdot
    exact lowersTo_of_mem (by rw [Text.isBlank, hdot]; decide) (List.cons_ne_nil _ _) (by simp)
  · split
    · rename_i hsigma
      have hblank : Text.isBlank c = false := by
        rw [Text.isBlank, hsigma]
        decide
      split <;> exact lowersTo_of_mem hblank (List.cons_ne_nil _ _) (by simp)
    · exact lowersTo_lowerChar ‹_› ‹_›

/-! ### Whole texts -/

theorem settled_lowerAfter (before s : List Char) : ∀ d ∈ lowerAfter before s, Settled d := by
  induction s generalizing before with
  | nil => exact List.forall_mem_nil _
  | cons c s ih =>
    obtain ⟨b, hb, htext⟩ := exists_lowerAfter_cons before c s
    rw [htext]
    exact List.forall_mem_append.2 ⟨hb.settled, ih _⟩

theorem lowerAfter_of_settled (h : ∀ c ∈ s, Settled c) : lowerAfter before s = s := by
  induction s generalizing before with
  | nil => rfl
  | cons c s ih =>
    obtain ⟨hc, hs⟩ := List.forall_mem_cons.1 h
    rw [lowerAfter, if_neg hc.dot, if_neg hc.sigma, hc.lower, ih hs]
    rfl

/-- A text is in lower case when all its characters are. -/
theorem lower_eq_self_iff : lower s = s ↔ ∀ c ∈ s, Settled c := by
  refine ⟨fun h => ?_, lowerAfter_of_settled⟩
  rw [← h]
  exact settled_lowerAfter [] s

@[simp] theorem lower_lower (s : List Char) : lower (lower s) = lower s :=
  lower_eq_self_iff.2 (settled_lowerAfter [] s)

theorem lowerAfter_eq_nil_iff : lowerAfter before s = [] ↔ s = [] := by
  cases s with
  | nil => exact iff_of_true rfl rfl
  | cons c s =>
    obtain ⟨b, hb, htext⟩ := exists_lowerAfter_cons before c s
    rw [htext, List.append_eq_nil_iff]
    exact iff_of_false (fun h => hb.ne_nil h.1) (List.cons_ne_nil c s)

theorem colon_mem_of_lowerAfter (h : ':' ∈ lowerAfter before s) : ':' ∈ s := by
  induction s generalizing before with
  | nil => exact h
  | cons c s ih =>
    obtain ⟨b, hb, htext⟩ := exists_lowerAfter_cons before c s
    rw [htext] at h
    rcases List.mem_append.1 h with h | h
    · rw [hb.colon h]
      exact List.mem_cons_self
    · exact List.mem_cons_of_mem _ (ih h)

theorem isBlank_head?_lowerAfter (h : ∀ c ∈ s.head?, isBlank c = false) :
    ∀ d ∈ (lowerAfter before s).head?, isBlank d = false := by
  cases s with
  | nil => exact h
  | cons c s =>
    obtain ⟨b, hb, htext⟩ := exists_lowerAfter_cons before c s
    intro d hd
    rw [htext, List.head?_append_of_ne_nil _ hb.ne_nil] at hd
    rw [hb.isBlank d (List.mem_of_mem_head? hd)]
    exact h c rfl

theorem isBlank_getLast?_lowerAfter (h : ∀ c ∈ s.getLast?, isBlank c = false) :
    ∀ d ∈ (lowerAfter before s).getLast?, isBlank d = false := by
  induction s generalizing before with
  | nil => exact h
  | cons c s ih =>
    obtain ⟨b, hb, htext⟩ := exists_lowerAfter_cons before c s
    intro d hd
    rw [htext, List.getLast?_append, Option.mem_def, Option.or_eq_some_iff] at hd
    rcases hd with hd | ⟨hnone, hd⟩
    · refine ih (fun e he => h e ?_) d hd
      rw [List.getLast?_cons, Option.mem_def.1 he]
      rfl
    · obtain rfl := lowerAfter_eq_nil_iff.1 (List.getLast?_eq_none_iff.1 hnone)
      rw [hb.isBlank d (List.mem_of_getLast? hd)]
      exact h c rfl

theorem trim_lower (h : trim s = s) : trim (lower s) = lower s := by
  obtain ⟨hhead, hlast⟩ := trim_eq_self_iff.1 h
  exact trim_eq_self_iff.2 ⟨isBlank_head?_lowerAfter hhead, isBlank_getLast?_lowerAfter hlast⟩

end Tabletop.Text
