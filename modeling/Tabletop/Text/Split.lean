import Tabletop.Text.Blank

/-!
# Cutting texts at a mark
-/

namespace Tabletop.Text

/-- What stands before the first mark and what stands after it; without a mark, all and nothing. -/
def cut (mark : Char) : List Char → List Char × List Char
  | [] => ([], [])
  | c :: cs =>
    if c = mark then ([], cs) else
      let (before, after) := cut mark cs
      (c :: before, after)

/-- `cut` on strings. -/
def cutString (mark : Char) (s : String) : String × String :=
  let (before, after) := cut mark s.toList
  (String.ofList before, String.ofList after)

/-- The parts between the marks, in order; there is one part more than marks. -/
def splitAt (mark : Char) : List Char → List (List Char)
  | [] => [[]]
  | c :: cs =>
    if c = mark then [] :: splitAt mark cs else
      match splitAt mark cs with
      | [] => [[c]]
      | part :: parts => (c :: part) :: parts

/-- The mark stands, if anywhere, in the second text. -/
theorem cut_append {mark : Char} {s : List Char} (h : mark ∉ s) (t : List Char) :
    cut mark (s ++ t) = (s ++ (cut mark t).1, (cut mark t).2) := by
  induction s with
  | nil => rfl
  | cons c s ih =>
    simp only [List.mem_cons, not_or] at h
    rw [List.cons_append, cut, if_neg (Ne.symm h.1), ih h.2]
    rfl

theorem cut_append_mark {mark : Char} {s : List Char} (h : mark ∉ s) (t : List Char) :
    cut mark (s ++ mark :: t) = (s, t) := by
  simp [cut_append h, cut]

theorem notMem_cut_fst (mark : Char) (s : List Char) : mark ∉ (cut mark s).1 := by
  induction s with
  | nil => simp [cut]
  | cons c s ih =>
    by_cases hc : c = mark
    · simp [cut, hc]
    · simp [cut, hc, ih, Ne.symm hc]

theorem cut_fst_isPrefix (mark : Char) (s : List Char) : (cut mark s).1 <+: s := by
  induction s with
  | nil => exact List.prefix_rfl
  | cons c s ih =>
    rw [cut]
    split
    · exact List.nil_prefix
    · exact (List.prefix_cons_inj c).2 ih

end Tabletop.Text
