import Tabletop.Proofs.Legible

/-!
# Small numbers are read back

The numbers that are small enough for arguments, written in decimal, are read as these arguments.
-/

namespace Tabletop

open Text

theorem Text.digit?_of_isDigit {c : Char} (h : c.isDigit = true) : digit? c = some (c.toNat - '0'.toNat) := by
  have hrun : (0x30 ≤ c.toNat && c.toNat < 0x30 + 10) = true := by
    simp only [Char.isDigit, Bool.and_eq_true, decide_eq_true_eq, ge_iff_le, UInt32.le_iff_toNat_le] at h
    have hfirst : 48 ≤ c.toNat := h.1
    have hlast : c.toNat ≤ 57 := h.2
    simp only [Bool.and_eq_true, decide_eq_true_eq]
    omega
  have hfind : (zeros.find? fun z => z ≤ c.toNat && c.toNat < z + 10) = some 0x30 := List.find?_cons_of_pos hrun
  rw [digit?, hfind]
  rfl

theorem Text.numeral_of_isDigit {ds : List Char} (h : ∀ c ∈ ds, c.isDigit = true) :
    numeral ds = Nat.ofDigitChars 10 ds 0 := by
  have hfold (n : Nat) : ds.foldl (fun n c => 10 * n + (digit? c).getD 0) n = Nat.ofDigitChars 10 ds n := by
    induction ds generalizing n with
    | nil => rfl
    | cons c ds ih =>
      obtain ⟨hc, hds⟩ := List.forall_mem_cons.1 h
      rw [List.foldl_cons, ih hds, digit?_of_isDigit hc]
      rfl
  exact hfold 0

variable (n : Fin (maxArgument + 1))

def smallNumeral : List Char := (toString n.val).toList

theorem smallNumeral_digits : smallNumeral n ≠ [] ∧ (∀ c ∈ smallNumeral n, isDigit c = true) ∧
    numeral (smallNumeral n) = n ∧ (smallNumeral n).length ≤ maxNumeralDigits := by
  have htext : smallNumeral n = Nat.toDigits 10 n := by
    rw [smallNumeral, Nat.toString_eq_repr, Nat.toList_repr]
  have hdigits : ∀ c ∈ smallNumeral n, c.isDigit = true := by
    rw [htext]
    exact fun c hc => Nat.isDigit_of_mem_toDigits (by decide) (by decide) hc
  refine ⟨?_, fun c hc => ?_, ?_, ?_⟩
  · rw [htext]
    exact Nat.toDigits_ne_nil
  · rw [isDigit, digit?_of_isDigit (hdigits c hc)]
    rfl
  · rw [numeral_of_isDigit hdigits, htext, Nat.ofDigitChars_ten_toDigits]
  · have hthree : n.val < 10 ^ 3 := Nat.lt_of_lt_of_le n.isLt (by decide)
    have hlength : (smallNumeral n).length ≤ 3 := htext ▸ (Nat.length_toDigits_le_iff (by decide) (by decide)).2 hthree
    exact Nat.le_trans hlength (by decide)

/-- The doubles that are small enough for arguments. -/
theorem double_of_small {n : Nat} (hn : n ≤ maxArgument) : (Float.ofNat n).isInf = false ∧
    Float.ofNat n ≤ Float.ofNat maxArgument ∧ Number.whole? (Float.ofNat n) = some (n : Int) := by
  have table : ((List.range (maxArgument + 1)).all fun n => !(Float.ofNat n).isInf &&
      decide (Float.ofNat n ≤ Float.ofNat maxArgument) && Number.whole? (Float.ofNat n) == some (n : Int)) = true := by
    decide +kernel
  have hrow := List.all_eq_true.1 table n (List.mem_range.2 (Nat.lt_succ_of_le hn))
  simpa [and_assoc] using hrow

theorem Scalar.toArgument_of_whole {what : String} {x : Scalar} {n : Nat} (hx : x.whole? = some (n : Int))
    (hn : n ≤ maxArgument) : x.toArgument what = .ok n := by
  have hbound : (0 : Int) ≤ n ∧ (n : Int) ≤ maxArgument := by omega
  simp only [toArgument, hx, if_pos hbound]
  rfl

theorem Argument.ofScalar_of_whole {x : Scalar} {n : Nat} (hx : x.whole? = some (n : Int))
    (hn : n ≤ maxArgument) : ofScalar x = .ok (single n) := by
  rw [ofScalar, Scalar.toArgument_of_whole hx hn]
  rfl

theorem Number.natural_ok_iff {ds : List Char} {n : Nat} :
    natural ds = .ok n ↔ ds.length ≤ maxNumeralDigits ∧ n = numeral ds := by
  rw [natural]
  split
  · exact ⟨fun h => ⟨‹_›, (Except.ok.inj h).symm⟩, fun h => by rw [h.2]⟩
  · exact ⟨nofun, fun h => absurd h.1 ‹_›⟩

theorem Number.natural_ok {ds : List Char} {n : Nat} (h : natural ds = .ok n) : n = numeral ds :=
  (natural_ok_iff.1 h).2

theorem Argument.ofScalar_integer_ok {n : Nat} {a : Argument} (h : ofScalar (.integer n) = .ok a) :
    a = single n := by
  obtain ⟨m, hm, h⟩ := ok_of_bind h
  cases h
  simp only [Scalar.toArgument, Scalar.whole?] at hm
  split at hm
  · cases hm
    rfl
  · cases hm

/-- A numeral without a point may be an argument; any other is a number as it was written. -/
theorem tokenOfNumeral_ok {s : List Char} {t : Token} (h : tokenOfNumeral s = .ok t) :
    ('.' ∉ s ∧ t = .argument (.single (numeral s))) ∨ ∃ x, t = .number x (String.ofList s) := by
  unfold tokenOfNumeral at h
  dsimp only at h
  split at h
  · cases h
  split at h
  · rename_i hwhole
    obtain ⟨n, hn, h⟩ := ok_of_bind h
    rw [map_eq_pure_bind] at h
    obtain ⟨a, ha, h⟩ := ok_of_bind h
    cases h
    obtain rfl := Number.natural_ok hn
    obtain rfl := Argument.ofScalar_integer_ok ha
    simp only [Bool.and_eq_true, Bool.not_eq_true', ← Bool.not_eq_true, List.contains_iff_mem] at hwhole
    exact .inl ⟨hwhole.1, rfl⟩
  · cases h
    exact .inr ⟨_, rfl⟩

/-- Digits that write a small number are read as a whole number, however many they are. -/
theorem tokenOfNumeral_of_small {ds : List Char} (hdigits : ∀ c ∈ ds, isDigit c = true)
    (hsmall : numeral ds ≤ maxArgument) :
    tokenOfNumeral ds = (do
      let n ← Number.natural ds
      Token.argument <$> Argument.ofScalar (.integer n)) := by
  obtain ⟨hfinite, hle, -⟩ := double_of_small hsmall
  have hwhole : ds.takeWhile isDigit = ds := List.takeWhile_eq_self_iff.2 hdigits
  have hpoint : ds.contains '.' = false := by
    rw [← Bool.not_eq_true, List.contains_iff_mem]
    intro hmem
    cases hdigits _ hmem
  have hx : Number.nearest ds [] 0 = Float.ofNat (numeral ds) := by
    change Float.ofScientific (numeral (ds ++ [])) false 0 = _
    rw [List.append_nil]
    rfl
  rw [tokenOfNumeral, hwhole, List.drop_length, List.drop_nil]
  simp only [hx, hfinite, hpoint, hle, Bool.false_eq_true, ↓reduceIte, Bool.not_false, Bool.true_and, decide_true]

theorem tokenOfNumeral_of_le {ds : List Char} (hdigits : ∀ c ∈ ds, isDigit c = true)
    (hsmall : numeral ds ≤ maxArgument) (hlength : ds.length ≤ maxNumeralDigits) :
    tokenOfNumeral ds = .ok (.argument (.single (numeral ds))) := by
  rw [tokenOfNumeral_of_small hdigits hsmall, Number.natural, if_pos hlength]
  change (do Token.argument <$> Argument.ofScalar (.integer (numeral ds))) = _
  rw [Argument.ofScalar_of_whole rfl hsmall]
  rfl

/-- Digits of any script that write a small number. -/
def Literal.ofDigits (ds : List Char) (hne : ds ≠ []) (hdigits : ∀ c ∈ ds, isDigit c = true)
    (hsmall : numeral ds ≤ maxArgument) (hlength : ds.length ≤ maxNumeralDigits) : Literal where
  lexeme := .numeral ds
  token := .argument (.single (numeral ds))
  isLiteral := by
    have hwhole : Lexeme.numeral? (ds ++ []) = some (.numeral ds) := Lexeme.numeral?_whole hdigits hne (by simp)
    rwa [List.append_nil] at hwhole
  reads := by
    change (do pure [← tokenOfNumeral ds]) = _
    rw [tokenOfNumeral_of_le hdigits hsmall hlength]
    rfl

theorem tokenOfNumeral_small : tokenOfNumeral (smallNumeral n) = .ok (.argument (.single n)) := by
  obtain ⟨-, hdigits, hnumeral, hlength⟩ := smallNumeral_digits n
  have hsmall : numeral (smallNumeral n) ≤ maxArgument := hnumeral ▸ Nat.le_of_lt_succ n.isLt
  rw [tokenOfNumeral_of_le hdigits hsmall hlength, hnumeral]

/-- A small number as it is written. -/
def Literal.ofFin : Literal where
  lexeme := .numeral (smallNumeral n)
  token := .argument (.single n)
  isLiteral := by
    obtain ⟨hne, hdigits, -⟩ := smallNumeral_digits n
    have hwhole : Lexeme.numeral? (smallNumeral n ++ []) = some (.numeral (smallNumeral n)) :=
      Lexeme.numeral?_whole hdigits hne (by simp)
    rwa [List.append_nil] at hwhole
  reads := by
    change (do pure [← tokenOfNumeral (smallNumeral n)]) = _
    rw [tokenOfNumeral_small]
    rfl

end Tabletop
