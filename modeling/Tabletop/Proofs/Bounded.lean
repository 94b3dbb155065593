import Tabletop.Evaluation
import Tabletop.Proofs.Lexemes
import Tabletop.Proofs.Nesting

/-!
# Arguments are bounded

Every argument that can be read in a text is at most `maxArgument`, and so are all numbers of a
list. The tokens keep their arguments on the way into postfix order, which only moves tokens.
-/

namespace Tabletop

/-! ### Reading arguments -/

/-- No number of the argument is larger than an argument may be. -/
def Argument.Bounded (a : Argument) : Prop := ∀ n ∈ a.values, n ≤ maxArgument

theorem Scalar.toArgument_le {what : String} {x : Scalar} {n : Nat} (h : x.toArgument what = .ok n) :
    n ≤ maxArgument := by
  unfold toArgument at h
  dsimp only at h
  split at h
  · split at h
    · cases h
      omega
    · cases h
  · cases h

namespace Argument

variable {a : Argument}

theorem bounded_single {n : Nat} (h : n ≤ maxArgument) : (single n).Bounded := by
  simpa [Bounded, values] using h

theorem bounded_of_ofScalar {x : Scalar} (h : ofScalar x = .ok a) : a.Bounded := by
  obtain ⟨n, hn, h⟩ := ok_of_bind h
  cases h
  exact bounded_single (Scalar.toArgument_le hn)

theorem bounded_of_ofParts {parts : List (List Char)} (h : ofParts parts = .ok a) : a.Bounded := by
  obtain ⟨ns, hns, h⟩ := ok_of_bind h
  cases h
  refine forall_of_mapM (fun part n hn => ?_) hns
  obtain ⟨x, -, hx⟩ := ok_of_bind hn
  exact Scalar.toArgument_le hx

/-- What is read is a list of some parts, or a number. -/
theorem ok_of_parse {s : List Char} (h : parse s = .ok a) :
    (∃ parts, parts ≠ [] ∧ ofParts parts = .ok a) ∨ ∃ x, ofScalar x = .ok a := by
  rw [parse] at h
  dsimp only at h
  split at h
  · split at h
    · cases h
    · rename_i hparts
      exact .inl ⟨_, mt List.isEmpty_iff.2 hparts, h⟩
  · obtain ⟨x, -, h⟩ := ok_of_bind h
    exact .inr ⟨x, h⟩

theorem bounded_of_parse {s : List Char} (h : parse s = .ok a) : a.Bounded := by
  rcases ok_of_parse h with ⟨parts, -, h⟩ | ⟨x, h⟩
  · exact bounded_of_ofParts h
  · exact bounded_of_ofScalar h

end Argument

/-! ### Reading tokens -/

def Token.Bounded (t : Token) : Prop := ∀ a, t = .argument a → a.Bounded

theorem Token.bounded_of_isOperand {t : Token} (h : t.isOperand = false) : t.Bounded := by
  rintro a rfl
  cases h

theorem bounded_of_tokenOfNumeral {s : List Char} {t : Token} (h : tokenOfNumeral s = .ok t) :
    t.Bounded := by
  rw [tokenOfNumeral] at h
  split at h
  · cases h
  · split at h
    · obtain ⟨n, -, h⟩ := ok_of_bind h
      cases ha : Argument.ofScalar (.integer n) with
      | error e =>
        rw [ha] at h
        cases h
      | ok a =>
        rw [ha] at h
        cases h
        rintro _ ⟨⟩
        exact Argument.bounded_of_ofScalar ha
    · cases h
      rintro _ ⟨⟩

namespace Lexeme

theorem isOperand_of_mem_words {t : Token} (h : word t ∈ words) : t.isOperand = false := by
  have hwords : ∀ w ∈ words, w.token?.any Token.isOperand = false := by decide
  exact hwords _ h

theorem bounded_of_tokens {mode : Mode} {bare : Bool} {l : Lexeme} {ts : List Token}
    (hl : ∀ t, l = word t → word t ∈ words) (h : l.tokens mode bare = .ok ts) : ∀ t ∈ ts, t.Bounded := by
  have hother {t : Token} (ht : t.isOperand = false) : ∀ t' ∈ [t], t'.Bounded :=
    List.forall_mem_singleton.2 (Token.bounded_of_isOperand ht)
  cases gives_of_tokens h with
  | list ha =>
    refine List.forall_mem_singleton.2 ?_
    rintro _ ⟨⟩
    exact Argument.bounded_of_parse ha
  | numeral ht => exact List.forall_mem_singleton.2 (bounded_of_tokenOfNumeral ht)
  | pi text => exact List.forall_mem_singleton.2 nofun
  | word t => exact hother (isOperand_of_mem_words (hl t rfl))
  | plus => exact List.forall_mem_nil _
  | minus => exact hother rfl
  | dice =>
    refine List.forall_mem_cons.2 ⟨?_, hother rfl⟩
    rintro _ ⟨⟩
    exact Argument.bounded_single (by decide)

end Lexeme

theorem bounded_of_tokensOf {mode : Mode} {bare : Bool} {ls : List Lexeme} {ts : List Token}
    (hls : ∀ t, .word t ∈ ls → .word t ∈ Lexeme.words) (h : tokensOf mode bare ls = .ok ts) :
    ∀ t ∈ ts, t.Bounded := by
  intro t ht
  obtain ⟨l, hl, _, now, hnow, ht⟩ := exists_lexeme_of_tokensOf h t ht
  exact Lexeme.bounded_of_tokens (fun t' hword => hls t' (hword ▸ hl)) hnow t ht

theorem bounded_of_tokenize {mode : Mode} {text : String} {ts : List Token}
    (h : tokenize mode text = .ok ts) : ∀ t ∈ ts, t.Bounded :=
  bounded_of_tokensOf (fun _ ht => Lexeme.word_mem_of_scan ht) h

/-! ### Postfix order -/

namespace Postfix

variable {ts waiting waiting' out : List Token} {t : Token}

theorem subset_of_step (h : step t waiting = .ok (out, waiting')) : out ++ waiting' ⊆ t :: waiting := by
  rcases step_ok h with ⟨-, rfl, rfl⟩ | ⟨rest, -, -, -, rfl, -, rfl⟩ |
    ⟨b, inside, below, rfl, rfl, -, rfl, rfl⟩
  · exact List.Subset.refl _
  · exact List.perm_middle.subset
  · rw [List.append_assoc, afterClosing_append]
    refine List.subset_cons_of_subset _ (List.append_subset.2 ⟨List.subset_append_left _ _, ?_⟩)
    exact List.subset_append_of_subset_right _ (List.subset_cons_self _ _)

theorem subset_of_order (h : order ts waiting = .ok out) : out ⊆ ts ++ waiting := by
  induction ts generalizing waiting out with
  | nil =>
    obtain ⟨rfl, -⟩ := drain_ok h
    exact List.Subset.refl _
  | cons t ts ih =>
    obtain ⟨⟨out₁, waiting'⟩, h₁, h⟩ := ok_of_bind h
    obtain ⟨out₂, h₂, h⟩ := ok_of_bind h
    cases h
    have hstep : out₁ ++ waiting' ⊆ t :: ts ++ waiting := by
      refine List.Subset.trans (subset_of_step h₁) ?_
      rw [List.cons_append]
      exact List.cons_subset_cons t (List.subset_append_right ts waiting)
    obtain ⟨hout, hwaiting⟩ := List.append_subset.1 hstep
    refine List.append_subset.2 ⟨hout, List.Subset.trans (ih h₂) (List.append_subset.2 ⟨?_, hwaiting⟩)⟩
    exact List.Subset.trans (List.subset_cons_self t ts) (List.subset_append_left _ _)

end Postfix

theorem subset_of_toPostfix {ts out : List Token} (h : toPostfix ts = .ok out) : out ⊆ ts := by
  have := Postfix.subset_of_order h
  rwa [List.append_nil] at this

end Tabletop
