import Tabletop.Request
import Tabletop.Proofs.Basic
import Tabletop.Proofs.LowerCase
import Tabletop.Proofs.SmallNumbers

/-!
# Requests are read back

A request is read in a normal form (`Request.Normal`), and a request in normal form that is written down is
read as itself, whatever blanks are put around its parts (`Request.parse_padded`). The first colon ends the
command and the first hash after digits ends the number, so that hashes in the command, and both in the
comment, do no harm. Only a command that begins with digits and a hash needs its number in front
(`Request.parse_unnumbered_iff`).
-/

namespace Tabletop

open Text

/-! ### Blanks around a text -/

namespace Text

variable {s t : List Char} {x : Char}

/-- The second text is the first one with blanks around it, or as it is. -/
def Pads (s t : List Char) : Prop :=
  ∃ before after, (∀ c ∈ before, isBlank c = true) ∧ (∀ c ∈ after, isBlank c = true) ∧ t = before ++ (s ++ after)

theorem Pads.refl (s : List Char) : Pads s s :=
  ⟨[], [], List.forall_mem_nil _, List.forall_mem_nil _, (List.append_nil s).symm⟩

theorem dropWhile_isBlank_append {before : List Char} (hbefore : ∀ c ∈ before, isBlank c = true)
    (hs : ∀ c ∈ s.head?, isBlank c = false) : (before ++ s).dropWhile isBlank = s := by
  rw [List.dropWhile_append_of_pos hbefore, dropWhile_eq_self hs]

theorem Pads.trim (h : Pads s t) : trim t = trim s := by
  obtain ⟨before, after, hbefore, hafter, rfl⟩ := h
  rw [Text.trim, List.dropWhile_append_of_pos hbefore, ← Text.trim, trim_append_of_isBlank s hafter]

theorem Pads.notMem (h : Pads s t) (hs : x ∉ s) (hx : isBlank x = false) : x ∉ t := by
  obtain ⟨before, after, hbefore, hafter, rfl⟩ := h
  intro hmem
  have hblank : isBlank x = true := by
    rcases List.mem_append.1 hmem with hmem | hmem
    · exact hbefore x hmem
    · exact (List.mem_append.1 hmem).elim (fun hmem => absurd hmem hs) (hafter x)
  rw [hx] at hblank
  cases hblank

end Text

namespace Request

variable {s rest digits after : List Char}

/-! ### The number in front -/

/-- The text is digits, blanks if any, a hash and the rest. -/
structure Numbered (digits rest s : List Char) : Prop where
  ne_nil : digits ≠ []
  isDigit : ∀ c ∈ digits, isDigit c = true
  split : ∃ blanks, (∀ c ∈ blanks, isBlank c = true) ∧ s = digits ++ (blanks ++ '#' :: rest)

theorem repeat?_eq_some_iff : repeat? s = some (digits, rest) ↔ Numbered digits rest (s.dropWhile isBlank) := by
  rw [repeat?]
  generalize s.dropWhile isBlank = t
  constructor
  · intro h
    split at h
    · rename_i rest' hrest
      split at h
      · cases h
      · rename_i hne
        obtain ⟨rfl, rfl⟩ := Prod.mk.inj (Option.some.inj h)
        refine ⟨mt List.isEmpty_iff.2 hne, fun c hc => List.mem_takeWhile_imp hc, ?_⟩
        have hafter := (t.drop (t.takeWhile isDigit).length).takeWhile_append_dropWhile (p := isBlank)
        have hall := List.prefix_iff_eq_append.1 (t.takeWhile_prefix isDigit)
        rw [hrest] at hafter
        rw [← hafter] at hall
        exact ⟨_, fun c hc => List.mem_takeWhile_imp hc, hall.symm⟩
    · cases h
  · rintro ⟨hne, hdigits, blanks, hblanks, rfl⟩
    have hhead : ∀ c ∈ (blanks ++ '#' :: rest).head?, isDigit c = false := by
      intro c hc
      rw [← Bool.not_eq_true]
      intro hdigit
      cases blanks with
      | nil =>
        obtain rfl := Option.some.inj hc
        revert hdigit
        decide
      | cons b blanks =>
        obtain rfl := Option.some.inj hc
        have hblank := hblanks b List.mem_cons_self
        rw [isBlank_of_isDigit hdigit] at hblank
        cases hblank
    have htake := takeWhile_append_of_head hdigits hhead
    rw [htake, List.drop_left, List.dropWhile_append_of_pos hblanks, List.dropWhile_cons_of_neg (by decide)]
    exact if_neg (mt List.isEmpty_iff.1 hne)

/-- Blanks behind a text do not belong to its number. -/
theorem numbered_append_iff (hafter : ∀ c ∈ after, isBlank c = true) :
    Numbered digits rest (s ++ after) ↔ ∃ rest', rest = rest' ++ after ∧ Numbered digits rest' s := by
  constructor
  · rintro ⟨hne, hdigits, blanks, hblanks, hs⟩
    have hhash : s ++ after = digits ++ (blanks ++ ['#']) ++ rest := by
      rw [hs, List.append_assoc, List.append_assoc]
      rfl
    rcases List.append_eq_append_iff.1 hhash with ⟨more, hmore, hrest⟩ | ⟨more, hs', hrest⟩
    · cases more using List.reverseRecOn with
      | nil =>
        rw [List.append_nil] at hmore
        exact ⟨[], hrest.symm, hne, hdigits, blanks, hblanks, hmore.symm⟩
      | append_singleton more c =>
        have hlast : '#' = c := by simpa using congrArg List.getLast? hmore
        have hblank : isBlank '#' = true := hlast ▸ hafter c (by rw [hrest]; simp)
        exact absurd hblank (by decide)
    · exact ⟨more, hrest, hne, hdigits, blanks, hblanks, by rw [hs']; simp⟩
  · rintro ⟨rest', rfl, hne, hdigits, blanks, hblanks, rfl⟩
    exact ⟨hne, hdigits, blanks, hblanks, by simp⟩

/-! ### Reading -/

theorem splitRepeat_ok {n : Nat} (h : splitRepeat s = .ok (n, rest)) :
    1 ≤ n ∧ n ≤ trayCapacity ∧ rest <:+ s := by
  rw [splitRepeat] at h
  split at h
  · cases h
    exact ⟨Nat.le_refl 1, by decide, List.suffix_rfl⟩
  · rename_i digits rest' hrepeat
    obtain ⟨times, -, h⟩ := ok_of_bind h
    split at h
    · rename_i htimes
      cases h
      obtain ⟨-, -, blanks, -, hs⟩ := repeat?_eq_some_iff.1 hrepeat
      refine ⟨htimes.1, htimes.2, .trans ?_ (List.dropWhile_suffix isBlank)⟩
      rw [hs]
      exact (List.suffix_cons _ _).trans ((List.suffix_append _ _).trans (List.suffix_append _ _))
    · cases h

theorem parse_ok_iff {text : String} {r : Request} :
    parse text = .ok r ↔ ∃ command, splitRepeat (cut ':' text.toList).1 = .ok (r.times, command) ∧
      normal command ≠ [] ∧ r.command = String.ofList (normal command) ∧
      r.comment = String.ofList (trim (cut ':' text.toList).2) := by
  constructor
  · intro h
    obtain ⟨⟨times, command⟩, hsplit, h⟩ := ok_of_bind h
    dsimp only at h
    split at h
    · cases h
    · rename_i hne
      cases h
      exact ⟨command, hsplit, mt List.isEmpty_iff.2 hne, rfl, rfl⟩
  · rintro ⟨command, hsplit, hne, hcommand, hcomment⟩
    obtain ⟨times, _, _⟩ := r
    cases hcommand
    cases hcomment
    have hempty : (normal command).isEmpty = false := by simpa using hne
    simp only [parse, hsplit]
    change (if (normal command).isEmpty = true then _ else _) = _
    rw [if_neg (by simp [hempty])]
    rfl

/-! ### The normal form -/

theorem normal_eq_self_iff : normal s = s ↔ trim s = s ∧ lower s = s := by
  constructor
  · intro h
    have htrim : trim s = s := by
      rw [← h, normal]
      exact trim_lower (trim_trim s)
    rw [normal, htrim] at h
    exact ⟨htrim, h⟩
  · rintro ⟨htrim, hlower⟩
    rw [normal, htrim, hlower]

@[simp] theorem normal_normal (s : List Char) : normal (normal s) = normal s :=
  normal_eq_self_iff.2 ⟨trim_lower (trim_trim s), lower_lower _⟩

/-- The parts of the request are as they are stored. -/
structure Normal (r : Request) : Prop where
  times : 1 ≤ r.times ∧ r.times ≤ trayCapacity
  ne_nil : r.command.toList ≠ []
  command : normal r.command.toList = r.command.toList
  colon : ':' ∉ r.command.toList
  comment : trim r.comment.toList = r.comment.toList

theorem normal_of_parse {text : String} {r : Request} (h : parse text = .ok r) : r.Normal := by
  obtain ⟨command, hsplit, hne, hcommand, hcomment⟩ := parse_ok_iff.1 h
  obtain ⟨hone, htimes, hsuffix⟩ := splitRepeat_ok hsplit
  rw [← String.toList_inj, String.toList_ofList] at hcommand hcomment
  refine ⟨⟨hone, htimes⟩, by rwa [hcommand], by rw [hcommand, normal_normal], ?_, by rw [hcomment, trim_trim]⟩
  rw [hcommand]
  intro hcolon
  exact notMem_cut_fst ':' text.toList (hsuffix.mem ((trim_isInfix _).mem (colon_mem_of_lowerAfter hcolon)))

variable {r : Request} {n c m : String}

theorem toList_toString_times (h : r.Normal) :
    (toString r.times).toList ≠ [] ∧ (∀ c ∈ (toString r.times).toList, isDigit c = true) ∧
      Number.natural (toString r.times).toList = .ok r.times := by
  have hle : r.times ≤ maxArgument := Nat.le_trans h.times.2 (by decide)
  obtain ⟨hne, hdigits, hnumeral, hlength⟩ := smallNumeral_digits ⟨r.times, Nat.lt_succ_of_le hle⟩
  refine ⟨hne, hdigits, ?_⟩
  rw [Number.natural, if_pos (by exact hlength)]
  exact congrArg Except.ok hnumeral

/-- A request in normal form is read back from its parts. -/
theorem Normal.parse_padded (h : r.Normal) (hn : Pads (toString r.times).toList n.toList)
    (hc : Pads r.command.toList c.toList) (hm : Pads r.comment.toList m.toList) :
    parse (n ++ "#" ++ c ++ ":" ++ m) = .ok r := by
  obtain ⟨hne, hdigits, hnatural⟩ := toList_toString_times h
  have hnumber : ':' ∉ (toString r.times).toList := fun hmem => by cases hdigits _ hmem
  have hfront : ':' ∉ n.toList ++ '#' :: c.toList := by
    rw [List.mem_append, List.mem_cons, not_or, not_or]
    exact ⟨hn.notMem hnumber (by decide), by decide, hc.notMem h.colon (by decide)⟩
  have hcut : cut ':' (n ++ "#" ++ c ++ ":" ++ m).toList = (n.toList ++ '#' :: c.toList, m.toList) := by
    simpa using cut_append_mark hfront m.toList
  have hrepeat : repeat? (n.toList ++ '#' :: c.toList) = some ((toString r.times).toList, c.toList) := by
    obtain ⟨before, after, hbefore, hafter, htext⟩ := hn
    have hhead : ∀ x ∈ ((toString r.times).toList ++ (after ++ '#' :: c.toList)).head?, isBlank x = false := by
      intro x hx
      rw [List.head?_append_of_ne_nil _ hne] at hx
      exact isBlank_of_isDigit (hdigits x (List.mem_of_mem_head? hx))
    rw [repeat?_eq_some_iff, htext, List.append_assoc, List.append_assoc, dropWhile_isBlank_append hbefore hhead]
    exact ⟨hne, hdigits, after, hafter, rfl⟩
  refine parse_ok_iff.2 ⟨c.toList, ?_, ?_, ?_, ?_⟩
  · rw [hcut, splitRepeat, hrepeat]
    simp only [hnatural]
    exact if_pos h.times
  · rw [normal, hc.trim, ← normal, h.command]
    exact h.ne_nil
  · rw [normal, hc.trim, ← normal, h.command, String.ofList_toList]
  · rw [hcut, hm.trim, h.comment, String.ofList_toList]

/-- What would be left of a command without a number in front is shorter than the command. -/
theorem Numbered.normal_ne (h : Numbered digits rest s) (hlower : lower s = s)
    (hafter : ∀ c ∈ after, isBlank c = true) : normal (rest ++ after) ≠ s := by
  obtain ⟨blanks, -, hs⟩ := h.split
  have hrest : normal (rest ++ after) = trim rest := by
    rw [normal, trim_append_of_isBlank rest hafter, lower_eq_self_iff]
    refine fun x hx => lower_eq_self_iff.1 hlower x ?_
    rw [hs]
    have := (trim_isInfix rest).mem hx
    simp [this]
  have hle := (trim_isInfix rest).length_le
  intro heq
  have hlength := congrArg List.length heq
  rw [hrest, hs] at hlength
  simp only [List.length_append, List.length_cons] at hlength
  omega

/-- Blanks around a command in normal form do not belong to a number in front of it. -/
theorem Normal.repeat?_padded_iff (h : r.Normal) {before : List Char} (hbefore : ∀ c ∈ before, isBlank c = true)
    (hafter : ∀ c ∈ after, isBlank c = true) :
    repeat? (before ++ (r.command.toList ++ after)) = some (digits, rest) ↔
      ∃ rest', rest = rest' ++ after ∧ Numbered digits rest' r.command.toList := by
  have hhead : ∀ x ∈ (r.command.toList ++ after).head?, isBlank x = false := by
    rw [List.head?_append_of_ne_nil _ h.ne_nil]
    exact (trim_eq_self_iff.1 (normal_eq_self_iff.1 h.command).1).1
  rw [repeat?_eq_some_iff, dropWhile_isBlank_append hbefore hhead, numbered_append_iff hafter]

/-- Without the number it is read as a request to roll once, unless the command begins as a number does. -/
theorem Normal.parse_unnumbered_iff (h : r.Normal)
    (hc : Pads r.command.toList c.toList) (hm : Pads r.comment.toList m.toList) :
    parse (c ++ ":" ++ m) = .ok { r with times := 1 } ↔
      ¬ ∃ digits rest, Numbered digits rest r.command.toList := by
  have hcut : cut ':' (c ++ ":" ++ m).toList = (c.toList, m.toList) := by
    simpa using cut_append_mark (hc.notMem h.colon (by decide)) m.toList
  have hnormal : normal c.toList = r.command.toList := by rw [normal, hc.trim, ← normal, h.command]
  obtain ⟨before, after, hbefore, hafter, htext⟩ := hc
  have hrepeat {digits rest : List Char} : repeat? c.toList = some (digits, rest) ↔ _ :=
    htext ▸ h.repeat?_padded_iff hbefore hafter
  constructor
  · rintro hparse ⟨digits, rest, hnumbered⟩
    obtain ⟨command, hsplit, -, hcommand, -⟩ := parse_ok_iff.1 hparse
    rw [hcut, splitRepeat, hrepeat.2 ⟨rest, rfl, hnumbered⟩] at hsplit
    obtain ⟨times, -, hsplit⟩ := ok_of_bind hsplit
    split at hsplit
    · cases hsplit
      refine hnumbered.normal_ne (normal_eq_self_iff.1 h.command).2 hafter ?_
      rw [← String.toList_ofList (l := normal _), ← hcommand]
    · cases hsplit
  · intro hnone
    have hnumber : repeat? c.toList = none := by
      refine Option.eq_none_iff_forall_ne_some.2 fun found hsome => hnone ?_
      obtain ⟨digits, rest⟩ := found
      obtain ⟨rest', -, hnumbered⟩ := hrepeat.1 hsome
      exact ⟨digits, rest', hnumbered⟩
    refine parse_ok_iff.2 ⟨c.toList, ?_, ?_, ?_, ?_⟩
    · rw [hcut, splitRepeat, hnumber]
    · rw [hnormal]
      exact h.ne_nil
    · rw [hnormal, String.ofList_toList]
    · rw [hcut, hm.trim, h.comment, String.ofList_toList]

/-- Whatever is read is in normal form and is read again from its parts. Any request in normal form is read
from its parts, with any blanks around them, and so is its command as one to roll once, except where the
command begins with digits and a hash. -/
theorem parse_normal_form :
    (∀ text r, parse text = .ok r →
      r.Normal ∧ trim r.command.toList = r.command.toList ∧ lower r.command.toList = r.command.toList ∧
        parse (toString r.times ++ "#" ++ r.command ++ ":" ++ r.comment) = .ok r) ∧
    ∀ r : Request, r.Normal → ∀ n c m : String, Pads (toString r.times).toList n.toList →
      Pads r.command.toList c.toList → Pads r.comment.toList m.toList →
      parse (n ++ "#" ++ c ++ ":" ++ m) = .ok r ∧
        (parse (c ++ ":" ++ m) = .ok { r with times := 1 } ↔
          ¬ ∃ digits rest, Numbered digits rest r.command.toList) := by
  refine ⟨fun text r h => ?_, fun r h n c m hn hc hm => ⟨h.parse_padded hn hc hm, h.parse_unnumbered_iff hc hm⟩⟩
  have hnormal := normal_of_parse h
  obtain ⟨htrim, hlower⟩ := normal_eq_self_iff.1 hnormal.command
  exact ⟨hnormal, htrim, hlower, hnormal.parse_padded (.refl _) (.refl _) (.refl _)⟩

/-- A command with a number of its own and a comment with both marks. -/
theorem parse_normal_form_marks :
    let r : Request := ⟨3, "2 #1d6", "To: #1"⟩
    parse "\t3 # 2 #1D6 :To: #1 " = .ok r ∧ parse "3#2 #1d6:To: #1" = .ok r ∧ parse "3 #2 #1d6: To: #1" = .ok r ∧
      parse "2 #1d6: To: #1" ≠ .ok { r with times := 1 } := by
  intro r
  have hread : parse "\t3 # 2 #1D6 :To: #1 " = .ok r := eq_ok_of_toOption (by decide)
  obtain ⟨hnormal, -, -, hagain⟩ := parse_normal_form.1 _ r hread
  have hspace : ∀ c ∈ [' '], isBlank c = true := List.forall_mem_singleton.2 rfl
  have hnone : ∀ c ∈ ([] : List Char), isBlank c = true := List.forall_mem_nil _
  obtain ⟨hpadded, hbare⟩ := parse_normal_form.2 r hnormal "3 " "2 #1d6" " To: #1"
    ⟨[], [' '], hnone, hspace, by decide⟩ (.refl _) ⟨[' '], [], hspace, hnone, by decide⟩
  have hnumber : Numbered ['2'] "1d6".toList "2 #1d6".toList :=
    ⟨List.cons_ne_nil _ _, List.forall_mem_singleton.2 rfl, [' '], hspace, by decide⟩
  refine ⟨hread, ?_, ?_, fun honce => hbare.1 ?_ ⟨_, _, hnumber⟩⟩
  · rw [show "3#2 #1d6:To: #1" = toString r.times ++ "#" ++ r.command ++ ":" ++ r.comment by decide]
    exact hagain
  · rw [show "3 #2 #1d6: To: #1" = "3 " ++ "#" ++ "2 #1d6" ++ ":" ++ " To: #1" by decide]
    exact hpadded
  · rw [show "2 #1d6" ++ ":" ++ " To: #1" = "2 #1d6: To: #1" by decide]
    exact honce

end Request

end Tabletop
