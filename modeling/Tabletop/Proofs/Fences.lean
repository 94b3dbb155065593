import Tabletop.Proofs.AllOrNothing
import Tabletop.Proofs.ChainRun

/-!
# No text gets out of a code block

A code block ends where its fence comes again, so no text that is put into one may hold a fence or
join with one. Between fences of three backticks no text does (`fenced_codeBlock`): each of its
backticks has an invisible space behind it. A single backtick as a fence does not guard against other
backticks, but what is put between two of those was read as dice notation before, and notation has no
backticks (`backtick_notMem_of_tokenize`). For the commands of stored rolls that is an invariant of the
trays: every stored roll is one that was made (`Session.made_after`).
-/

namespace Tabletop

open Text

/-! ### Fences -/

namespace Text

variable {n i : Nat} {s x : List Char}

/-- So many backticks stand in a row from this place on. -/
def FenceAt (n i : Nat) (s : List Char) : Prop := ∀ k < n, s[i + k]? = some backtick

/-- A text with a fence at either end, the two apart, and none anywhere else. -/
structure Fenced (n : Nat) (s : List Char) : Prop where
  apart : n + n < s.length
  only : ∀ i, FenceAt n i s ↔ i = 0 ∨ i + n = s.length

/-- What stands between the two ends of a text. -/
def between (n : Nat) (s : List Char) : List Char := (s.drop n).take (s.length - (n + n))

/-- What is left of a text without its invisible spaces. -/
def seen (s : List Char) : List Char := s.filter (· ≠ invisibleSpace)

/-- Another character than a backtick stands at this place. -/
def QuietAt (i : Nat) (s : List Char) : Prop := ∃ c, s[i]? = some c ∧ c ≠ backtick

/-- No fence begins in the text, and none that began before goes on in it. -/
structure Loose (n : Nat) (x : List Char) : Prop where
  head : QuietAt 0 x
  next : ∀ i < x.length, ∃ k < n, QuietAt (i + k) x

theorem QuietAt.not_fenceAt {k : Nat} (h : QuietAt (i + k) s) (hk : k < n) : ¬ FenceAt n i s := by
  obtain ⟨c, hc, hne⟩ := h
  intro hfence
  rw [hfence k hk] at hc
  exact hne (Option.some.inj hc).symm

theorem FenceAt.add_le (h : FenceAt n i s) (hn : 0 < n) : i + n ≤ s.length := by
  obtain ⟨hlt, -⟩ := List.getElem?_eq_some_iff.1 (h (n - 1) (by omega))
  omega

theorem toList_fenced (n : Nat) (s : String) :
    (fenced n s).toList = List.replicate n backtick ++ (blockInside s.toList ++ List.replicate n backtick) := by
  rw [fenced, String.toList_ofList, List.append_assoc]

theorem between_fenced (n : Nat) (s : String) : between n (fenced n s).toList = blockInside s.toList := by
  rw [between, toList_fenced, List.drop_left' (List.length_replicate ..)]
  refine List.take_left' ?_
  simp only [List.length_append, List.length_replicate]
  omega

/-- Loose text keeps the fences that are put around it apart. -/
theorem Loose.fenced {s : String} (h : Loose n (blockInside s.toList)) (hn : 0 < n) : Fenced n (fenced n s).toList := by
  generalize hx : blockInside s.toList = x at h
  have htext := toList_fenced n s
  rw [hx] at htext
  have hlen : (Text.fenced n s).toList.length = n + (x.length + n) := by simp [htext]
  have hfirst : ∀ k < n, (Text.fenced n s).toList[k]? = some backtick := by
    intro k hk
    rw [htext, List.getElem?_append_left (by simpa using hk), List.getElem?_replicate_of_lt hk]
  have hlast : ∀ k < n, (Text.fenced n s).toList[n + x.length + k]? = some backtick := by
    intro k hk
    rw [htext, List.getElem?_append_right (by simp; omega), List.getElem?_append_right (by simp; omega)]
    simp only [List.length_replicate]
    exact List.getElem?_replicate_of_lt (by omega)
  have hinside : ∀ j, QuietAt j x → QuietAt (n + j) (Text.fenced n s).toList := by
    rintro j ⟨c, hc, hne⟩
    obtain ⟨hj, -⟩ := List.getElem?_eq_some_iff.1 hc
    refine ⟨c, ?_, hne⟩
    rw [htext, List.getElem?_append_right (by simp), List.length_replicate, Nat.add_sub_cancel_left,
      List.getElem?_append_left hj, hc]
  obtain ⟨c, hhead, hc⟩ := h.head
  obtain ⟨hpos, -⟩ := List.getElem?_eq_some_iff.1 hhead
  refine ⟨by omega, fun i => ⟨fun hfence => ?_, ?_⟩⟩
  · have hfits := hfence.add_le hn
    by_contra hne
    rw [not_or] at hne
    -- A fence that begins in the first one reaches the head of what is inside.
    by_cases hi : i ≤ n
    · refine QuietAt.not_fenceAt (k := n - i) ?_ (by omega) hfence
      have hquiet := hinside 0 h.head
      rwa [show n + 0 = i + (n - i) by omega] at hquiet
    · obtain ⟨k, hk, hquiet⟩ := h.next (i - n) (by omega)
      refine QuietAt.not_fenceAt (k := k) ?_ hk hfence
      have hquiet := hinside _ hquiet
      rwa [show n + (i - n + k) = i + k by omega] at hquiet
  · rintro (rfl | hi) k hk
    · rw [Nat.zero_add]
      exact hfirst k hk
    · rw [show i + k = n + x.length + k by omega]
      exact hlast k hk

/-! ### What is put inside -/

theorem backtick_ne_invisibleSpace : backtick ≠ invisibleSpace := by decide

/-- Behind each backtick comes an invisible space. -/
theorem spaced_next (h : (spaced s)[i]? = some backtick) : (spaced s)[i + 1]? = some invisibleSpace := by
  induction s generalizing i with
  | nil => simp [spaced] at h
  | cons c cs ih =>
    rw [spaced, List.flatMap_cons, ← spaced] at h ⊢
    split at h
    · rename_i hc
      rw [if_pos hc]
      rcases i with _ | _ | i
      · rfl
      · exact absurd (Option.some.inj h).symm backtick_ne_invisibleSpace
      · exact ih h
    · rename_i hc
      rw [if_neg hc]
      rcases i with _ | i
      · exact absurd (Option.some.inj h) hc
      · exact ih h

theorem blockInside_eq (s : List Char) :
    blockInside s = spaced s ∧ QuietAt 0 (spaced s) ∨ blockInside s = invisibleSpace :: spaced s := by
  rw [blockInside]
  split
  · exact .inr rfl
  · rename_i hhead
    refine .inl ⟨rfl, ?_⟩
    cases hs : spaced s with
    | nil => simp [hs] at hhead
    | cons c cs => exact ⟨c, rfl, by simpa [hs] using hhead⟩

theorem quietAt_head_blockInside (s : List Char) : QuietAt 0 (blockInside s) := by
  rcases blockInside_eq s with ⟨h, hquiet⟩ | h
  · rwa [h]
  · exact ⟨invisibleSpace, by rw [h]; rfl, backtick_ne_invisibleSpace.symm⟩

theorem blockInside_next (h : (blockInside s)[i]? = some backtick) :
    (blockInside s)[i + 1]? = some invisibleSpace := by
  rcases blockInside_eq s with ⟨hs, -⟩ | hs
  · rw [hs] at h ⊢
    exact spaced_next h
  · rw [hs] at h ⊢
    rcases i with _ | i
    · exact absurd (Option.some.inj h).symm backtick_ne_invisibleSpace
    · exact spaced_next h

theorem loose_blockInside (s : List Char) (hn : 2 ≤ n) : Loose n (blockInside s) where
  head := quietAt_head_blockInside s
  next := by
    intro i hi
    by_cases hc : (blockInside s)[i] = backtick
    · refine ⟨1, hn, invisibleSpace, blockInside_next ?_, backtick_ne_invisibleSpace.symm⟩
      rw [List.getElem?_eq_getElem hi, hc]
    · exact ⟨0, by omega, _, List.getElem?_eq_getElem hi, hc⟩

theorem fenced_codeBlock (s : String) : Fenced 3 (codeBlock s).toList :=
  (loose_blockInside s.toList (by decide)).fenced (by decide)

theorem seen_spaced (s : List Char) : seen (spaced s) = seen s := by
  induction s with
  | nil => rfl
  | cons c cs ih =>
    rw [spaced, List.flatMap_cons, ← spaced, seen, List.filter_append, ← seen, ← seen, ih]
    split
    · rename_i hc
      rw [hc]
      simp [seen, backtick_ne_invisibleSpace]
    · simp only [seen, List.filter_cons, List.filter_nil]
      split <;> rfl

theorem seen_blockInside (s : List Char) : seen (blockInside s) = seen s := by
  rcases blockInside_eq s with ⟨h, -⟩ | h
  · rw [h, seen_spaced]
  · rw [h, seen, List.filter_cons_of_neg (by simp), ← seen, seen_spaced]

/-- Only invisible spaces are added. -/
theorem count_backtick_blockInside (s : List Char) : (blockInside s).count backtick = s.count backtick := by
  have hseen (x : List Char) : (seen x).count backtick = x.count backtick :=
    List.count_filter (by simp [backtick_ne_invisibleSpace])
  rw [← hseen, seen_blockInside, hseen]

/-- A block within a line that is read as it should be: its only backticks are its two ends. -/
def Tight (s : String) : Prop := Fenced 1 s.toList ∧ s.toList.count backtick = 2

theorem tight_code_iff {s : String} : Tight (code s) ↔ backtick ∉ s.toList := by
  have hcount : (code s).toList.count backtick = s.toList.count backtick + 2 := by
    rw [code, toList_fenced, List.count_append, List.count_append, List.count_replicate_self,
      count_backtick_blockInside]
    omega
  constructor
  · rintro ⟨-, h⟩
    exact List.count_eq_zero.1 (by omega)
  · intro h
    have hinside : backtick ∉ blockInside s.toList := by
      rwa [← List.count_eq_zero, count_backtick_blockInside, List.count_eq_zero]
    refine ⟨Loose.fenced ⟨quietAt_head_blockInside _, fun i hi => ?_⟩ Nat.one_pos, ?_⟩
    · exact ⟨0, Nat.one_pos, _, List.getElem?_eq_getElem hi, fun hc => hinside (hc ▸ List.getElem_mem hi)⟩
    · rw [hcount, List.count_eq_zero.2 h]

end Text

/-! ### Dice notation has no backticks -/

/-- A backtick belongs to no lexeme that stands for something. -/
theorem Lexeme.Proper.backtick_notMem {l : Lexeme} (h : l.Proper) (hstray : ∀ c, l ≠ stray c) :
    backtick ∉ l.text := by
  have hwords : ∀ w ∈ words, backtick ∉ w.text := by decide
  have hlist : isListCharacter backtick = false := by decide
  intro hmem
  cases l with
  | list text =>
    obtain ⟨inner, htext, hinner⟩ := h
    rw [Lexeme.text, htext] at hmem
    simp only [List.mem_cons, List.mem_append, List.not_mem_nil, or_false] at hmem
    rcases hmem with hmem | hmem | hmem
    · exact absurd hmem (by decide)
    · rw [hinner _ hmem] at hlist
      cases hlist
    · exact absurd hmem (by decide)
  | numeral text =>
    rcases h.2 _ hmem with hdigit | hpoint
    · rw [isListCharacter, hdigit] at hlist
      cases hlist
    · exact absurd hpoint (by decide)
  | pi text => exact hwords _ h hmem
  | word t => exact hwords _ h hmem
  | stray c => exact hstray c rfl

/-- What is read without a failure has a meaning at every place. -/
theorem ne_stray_of_tokensOf {mode : Mode} {bare : Bool} {ls : List Lexeme} {ts : List Token}
    (h : tokensOf mode bare ls = .ok ts) : ∀ l ∈ ls, ∀ c, l ≠ .stray c := by
  rintro _ hl c rfl
  obtain ⟨_, now, hnow⟩ := exists_tokens_of_tokensOf h _ hl
  cases Lexeme.gives_of_tokens hnow

theorem backtick_notMem_of_tokenize {mode : Mode} {text : String} {ts : List Token}
    (h : tokenize mode text = .ok ts) : backtick ∉ text.toList := by
  intro hmem
  have hsqueezed : backtick ∈ squeeze text.toList := mem_squeeze.2 ⟨hmem, by decide⟩
  rw [← Lexeme.flatMap_text_ofText (squeeze text.toList)] at hsqueezed
  obtain ⟨l, hl, hmem⟩ := List.mem_flatMap.1 hsqueezed
  exact (Lexeme.proper_of_mem_ofText hl).backtick_notMem (ne_stray_of_tokensOf h l hl) hmem

theorem backtick_notMem_of_evaluate {text : String} {x : Float} (h : Calculator.evaluate text = .ok x) :
    backtick ∉ text.toList := by
  obtain ⟨ts, hts, -⟩ := ok_of_bind h
  exact backtick_notMem_of_tokenize hts

/-- A roll that was made has a command that could be read. -/
theorem Roll.Made.backtick_notMem {Owner : Type} {r : Roll Owner} (h : r.Made) :
    backtick ∉ r.command.toList := by
  obtain ⟨s, s', hroll⟩ := h
  obtain ⟨-, log, final, hrun, -⟩ := Order.roll_ok hroll
  obtain ⟨ts, x, hts, -⟩ := evaluateText_ok hrun
  exact backtick_notMem_of_tokenize hts

/-- A text in a block on lines of its own is the text, and no three backticks in a row are there but at its
two ends. A text that can be read as notation, for dice or without them, has none but its two ends as a block
within a line; among those are the command of every stored roll and every text that has a value. -/
theorem code_blocks_hold :
    (∀ text, Fenced 3 (codeBlock text).toList ∧ seen (between 3 (codeBlock text).toList) = seen text.toList) ∧
    (∀ mode text ts, tokenize mode text = .ok ts → Tight (code text)) ∧
    (∀ escape faces calls scope, ∀ r ∈ ((Chat.Session.start faces).after escape calls).rolls scope,
      Tight (code r.command)) ∧
    ∀ text x, Calculator.evaluate text = .ok x → Tight (code text) := by
  refine ⟨fun text => ⟨fenced_codeBlock text, ?_⟩, fun mode text ts h => ?_, fun escape faces calls scope r hr => ?_,
    fun text x h => ?_⟩
  · rw [codeBlock, between_fenced, seen_blockInside]
  · exact tight_code_iff.2 (backtick_notMem_of_tokenize h)
  · exact tight_code_iff.2 (Chat.Session.made_after escape faces calls scope r hr).backtick_notMem
  · exact tight_code_iff.2 (backtick_notMem_of_evaluate h)

/-- A calculation, and a roll with backticks in its comment. -/
theorem code_blocks_hold_comment :
    Tight (code "2 ** 3") ∧
      ∃ r ∈ ((Chat.Session.start [4]).after Text.escape [⟨.roll, "1d6 : `hit`", 1, "Ann", none, 7, none⟩]).rolls 7,
        r.command = "1d6" ∧ Tight (code r.command) := by
  obtain ⟨-, hread, hstored, -⟩ := code_blocks_hold
  have hcommands : (((Chat.Session.start [4]).after Text.escape
      [⟨.roll, "1d6 : `hit`", 1, "Ann", none, 7, none⟩]).rolls 7).map Roll.command = ["1d6"] := by
    decide +kernel
  obtain ⟨r, hr, hcommand⟩ := List.mem_map.1 (hcommands ▸ List.mem_cons_self : "1d6" ∈ _)
  exact ⟨hread .math "2 ** 3" _ rfl, r, hr, hcommand, hstored _ _ _ _ r hr⟩

end Tabletop
