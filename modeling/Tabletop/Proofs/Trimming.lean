import Mathlib.Data.List.DropRight
import Tabletop.Proofs.Basic
import Tabletop.Text.Blank

/-!
# Blanks at the ends of a text

`trim` cuts blanks off on the left and then on the right. What stands in front of a text keeps its
blanks towards that text and loses those on its left (`exists_trim_append`).
-/

namespace Tabletop.Text

variable {s t : List Char}

theorem trim_eq_rdropWhile (s : List Char) : trim s = (s.dropWhile isBlank).rdropWhile isBlank := rfl

theorem mem_head?_of_isPrefix {c : Char} (h : s <+: t) (hc : c ∈ s.head?) : c ∈ t.head? := by
  obtain ⟨more, rfl⟩ := h
  rw [List.head?_append, Option.mem_def.1 hc]
  rfl

/-- A text that does not begin with a blank only loses blanks on its right. -/
theorem trim_isPrefix (h : ∀ c ∈ s.head?, isBlank c = false) : trim s <+: s := by
  rw [trim_eq_rdropWhile, dropWhile_eq_self h]
  exact List.rdropWhile_prefix isBlank s

theorem trim_isInfix (s : List Char) : trim s <:+: s :=
  ((List.rdropWhile_prefix isBlank _).isInfix).trans (List.dropWhile_suffix isBlank).isInfix

theorem head?_trim (s : List Char) : ∀ c ∈ (trim s).head?, isBlank c = false := fun c hc =>
  head?_dropWhile isBlank s c (mem_head?_of_isPrefix (List.rdropWhile_prefix isBlank _) hc)

theorem getLast?_trim (s : List Char) : ∀ c ∈ (trim s).getLast?, isBlank c = false := by
  intro c hc
  obtain ⟨hne, rfl⟩ := List.mem_getLast?_eq_getLast hc
  exact eq_false_of_ne_true (List.rdropWhile_last_not isBlank (s.dropWhile isBlank) hne)

/-- A text is trimmed when it has no blank at either end. -/
theorem trim_eq_self_iff :
    trim s = s ↔ (∀ c ∈ s.head?, isBlank c = false) ∧ ∀ c ∈ s.getLast?, isBlank c = false := by
  constructor
  · intro h
    rw [← h]
    exact ⟨head?_trim s, getLast?_trim s⟩
  · rintro ⟨hhead, hlast⟩
    rw [trim_eq_rdropWhile, dropWhile_eq_self hhead]
    exact List.rdropWhile_eq_self_iff.2 fun hne => by simp [hlast _ (List.getLast_mem_getLast? hne)]

theorem trim_surrounded {a b : Char} (ha : isBlank a = false) (hb : isBlank b = false) (s : List Char) :
    trim (a :: (s ++ [b])) = a :: (s ++ [b]) := by
  refine trim_eq_self_iff.2 ⟨fun c hc => ?_, fun c hc => ?_⟩
  · obtain rfl := Option.some.inj hc
    exact ha
  · rw [← List.cons_append, List.getLast?_concat] at hc
    obtain rfl := Option.some.inj hc
    exact hb

@[simp] theorem trim_trim (s : List Char) : trim (trim s) = trim s :=
  trim_eq_self_iff.2 ⟨head?_trim s, getLast?_trim s⟩

theorem trim_eq_self (h : ∀ c ∈ s, isBlank c = false) : trim s = s :=
  trim_eq_self_iff.2 ⟨fun c hc => h c (List.mem_of_mem_head? hc), fun c hc => h c (List.mem_of_mem_getLast? hc)⟩

theorem trim_eq_nil_iff : trim s = [] ↔ ∀ c ∈ s, isBlank c = true := by
  rw [trim_eq_rdropWhile, List.rdropWhile_eq_nil_iff]
  refine ⟨fun h => ?_, fun h c hc => h c ((List.dropWhile_sublist isBlank).mem hc)⟩
  cases hdrop : s.dropWhile isBlank with
  | nil => exact List.dropWhile_eq_nil_iff.1 hdrop
  | cons c cs =>
    have hfalse := head?_dropWhile isBlank s c (by rw [hdrop]; rfl)
    have htrue := h c (by rw [hdrop]; exact List.mem_cons_self)
    rw [hfalse] at htrue
    cases htrue

/-- The beginning of a trimmed text has more than blanks, if it has anything. -/
theorem trim_eq_nil_iff_of_isPrefix (h : t <+: trim s) : t = [] ↔ trim t = [] := by
  refine ⟨fun ht => by rw [ht]; rfl, fun ht => ?_⟩
  cases t with
  | nil => rfl
  | cons c t =>
    have hhead := head?_trim s c (mem_head?_of_isPrefix h rfl)
    rw [trim_eq_nil_iff.1 ht c List.mem_cons_self] at hhead
    cases hhead

theorem trim_ne_nil {c : Char} (h : isBlank c = false) (cs : List Char) : trim (c :: cs) ≠ [] := by
  intro hnil
  have := trim_eq_nil_iff.1 hnil c List.mem_cons_self
  rw [h] at this
  cases this

theorem trim_cons_of_isBlank {c : Char} (h : isBlank c = true) (s : List Char) : trim (c :: s) = trim s := by
  rw [trim, trim, List.dropWhile_cons_of_pos h]

theorem trim_append_of_isBlank (s : List Char) (h : ∀ c ∈ t, isBlank c = true) : trim (s ++ t) = trim s := by
  rw [trim_eq_rdropWhile, trim_eq_rdropWhile, List.dropWhile_append]
  split
  · rename_i hnil
    rw [List.isEmpty_iff.1 hnil, List.dropWhile_eq_nil_iff.2 h]
  · rw [List.rdropWhile, List.rdropWhile, List.reverse_append,
      List.dropWhile_append_of_pos fun c hc => h c (List.mem_reverse.1 hc)]

/-- What stands in front of a text, when both are trimmed together. -/
theorem exists_trim_append (s t : List Char) :
    ∃ e, trim (s ++ t) = e ++ trim t ∧ trim e = trim s ∧ ∀ c ∈ e, c ∈ s ∨ isBlank c = true := by
  by_cases hnil : trim t = []
  · refine ⟨trim s, ?_, trim_trim s, fun c hc => .inl ?_⟩
    · rw [hnil, List.append_nil, trim_append_of_isBlank s (trim_eq_nil_iff.1 hnil)]
    · have hright := (List.rdropWhile_prefix isBlank (s.dropWhile isBlank)).subset
      exact (List.dropWhile_sublist isBlank).mem (hright hc)
  · -- the blanks in front of the second text now stand between both
    let between := t.takeWhile isBlank
    let rest := t.dropWhile isBlank
    have hbetween : ∀ c ∈ between, isBlank c = true := fun c hc => List.mem_takeWhile_imp hc
    have hsplit : s ++ t = s ++ between ++ rest := by
      rw [List.append_assoc, List.takeWhile_append_dropWhile]
    have hleft : (s ++ t).dropWhile isBlank = (s ++ between).dropWhile isBlank ++ rest := by
      rw [hsplit, List.dropWhile_append, List.dropWhile_idempotent]
      split
      · rename_i hempty
        rw [List.isEmpty_iff.1 hempty, List.nil_append]
      · rfl
    have hright : ((s ++ between).dropWhile isBlank ++ rest).rdropWhile isBlank =
        (s ++ between).dropWhile isBlank ++ trim t := by
      have hne : (rest.reverse.dropWhile isBlank).isEmpty = false := by
        rw [trim_eq_rdropWhile, List.rdropWhile, List.reverse_eq_nil_iff] at hnil
        simpa using hnil
      rw [List.rdropWhile, List.reverse_append, List.dropWhile_append, if_neg (ne_true_of_eq_false hne),
        List.reverse_append, List.reverse_reverse]
      rfl
    refine ⟨(s ++ between).dropWhile isBlank, ?_, ?_, fun c hc => ?_⟩
    · rw [trim_eq_rdropWhile, hleft, hright]
    · rw [trim_eq_rdropWhile, List.dropWhile_idempotent, ← trim_eq_rdropWhile, trim_append_of_isBlank s hbetween]
    · have hmem := (List.dropWhile_sublist isBlank).mem hc
      exact (List.mem_append.1 hmem).imp_right (hbetween c)

theorem squeeze_dropWhile (s : List Char) : squeeze (s.dropWhile isBlank) = squeeze s := by
  have hblanks : squeeze (s.takeWhile isBlank) = [] := by
    rw [squeeze, List.filter_eq_nil_iff]
    intro c hc
    simp [List.mem_takeWhile_imp hc]
  conv => rhs; rw [← s.takeWhile_append_dropWhile (p := isBlank), squeeze_append, hblanks, List.nil_append]

theorem squeeze_trim (s : List Char) : squeeze (trim s) = squeeze s := by
  have hreverse (t : List Char) : squeeze t.reverse = (squeeze t).reverse := List.filter_reverse
  rw [trim, hreverse, squeeze_dropWhile, hreverse, List.reverse_reverse, squeeze_dropWhile]

end Tabletop.Text
