import Mathlib.Tactic.NormNum
import Tabletop.Proofs.RunWeights

/-!
# Showing within the limit on digits

The texts of values, dice, pools and operations are total functions. Here is how they are made where a
whole number with too many digits cannot be written (`shown`), and that it makes no difference where
the weights are below `showable`.
-/

namespace Tabletop

/-! ### Texts that may fail -/

namespace Number

/-- The digits of a whole number, unless there are too many. -/
def printed (n : Int) : Except Error String :=
  let digits := (Nat.toDigits 10 n.natAbs).length
  if digits ≤ maxNumeralDigits then .ok (toString n) else .error (.tooManyDigits digits)

def shown (x : Float) : Except Error String :=
  match whole? x with
  | some n => printed n
  | none => .ok (written x)

end Number

open Number (printed)

def Genesys.Tally.shown (t : Tally) : Except Error String :=
  if t.isEmpty then .ok "no net symbols"
  else do
    let present := Symbol.all.filter fun s => 0 < t.count s
    let entries ← present.mapM fun s => do
      let count ← printed (t.count s)
      pure s!"{count} {s.name}"
    pure (String.intercalate ", " entries)

def Value.shown : Value → Except Error String
  | decimal x => Number.shown x
  | successes n => do
    let count ← printed n
    pure (s!"{count} success" ++ (if n.natAbs = 1 then "" else "es"))
  | genesys t => t.shown

namespace Die

def shown (d : Die) : Except Error String := printed d.result

def shownParts : Die → Except Error String
  | d@(plain ..) => d.shown
  | d@(compound _ parts) =>
    if parts.length = 1 then d.shown
    else do
      let terms ← parts.mapM printed
      let total ← d.shown
      pure (String.intercalate "+" terms ++ "=" ++ total)

end Die

def Entry.shown (e : Entry) : Except Error String := do
  let text ← e.die.shownParts
  let text := if e.dropped then "~~" ++ text ++ "~~" else text
  pure (if e.added then "_" ++ text ++ "_" else text)

def Breakdown.shown (b : Breakdown) : Except Error String := do
  let entries ← b.mapM Entry.shown
  pure ("[" ++ String.intercalate ", " entries ++ "]")

def Shape.shown (s : Shape) : Except Error String := do
  let count ← printed s.count
  let sides ← printed s.sides
  pure s!"{count}d{sides}"

def Pool.shown (p : Pool) : Except Error String := do
  let shapes ← p.shapes.mapM Shape.shown
  let dice ← p.dice.mapM Die.shown
  pure (String.intercalate "&" shapes ++ " -> [" ++ String.intercalate ", " dice ++ "]")

def Argument.shown : Argument → Except Error String
  | single n => printed n
  | list ns => do
    let texts ← ns.mapM fun (n : Nat) => printed n
    pure ("[" ++ String.intercalate ", " texts ++ "]")

def Genesys.Kind.shown (k : Kind) (p : Pool) : Except Error String := do
  let entries ← p.results.mapM fun result => do
    let text ← printed result
    pure (s!"{text}:" ++ String.intercalate "+" ((k.symbols result).map Symbol.name))
  pure ("[" ++ String.intercalate ", " entries ++ "]")

def Throw.shown : Throw → Except Error String
  | rolled pool => pool.shown
  | changed op arg change => do
    let arg ← arg.shown
    let breakdown ← change.breakdown.shown
    let total ← printed change.pool.total
    pure s!"{op.symbol}{arg} -> {breakdown} = {total}"
  | t@(counted c arg pool _) => do
    let written ← arg.shown
    let breakdown ← (c.count pool arg).breakdown.shown
    let value ← t.value.shown
    pure s!"{c.symbol}{written} -> {breakdown} = {value}"
  | read kind pool => do
    let breakdown ← kind.shown pool
    let tally ← (kind.tally pool).shown
    pure s!"{kind.name} -> {breakdown} = {tally}"

/-! ### Small numbers have few digits -/

/-- The weights below which everything can be shown. -/
def showable : Nat := 10 ^ 110

namespace Number

theorem printed_of_lt {n : Int} (h : n.natAbs < 10 ^ maxNumeralDigits) : printed n = .ok (toString n) := by
  have hdigits : (Nat.toDigits 10 n.natAbs).length ≤ maxNumeralDigits :=
    (Nat.length_toDigits_le_iff (by decide) (by decide)).2 h
  rw [printed, if_pos hdigits]

/-- No whole number is too long to be written if it is at most a pool of showable dice comes to. -/
theorem printed_ok {n : Int} {w : Nat} (hn : n.natAbs ≤ growth * w) (hw : w ≤ showable) :
    printed n = .ok (toString n) := by
  refine printed_of_lt (Nat.lt_of_le_of_lt hn ?_)
  calc
    growth * w ≤ growth * showable := Nat.mul_le_mul_left _ hw
    _ < 10 ^ 116 := by
      unfold growth showable maxArgument maxPoolSize
      norm_num
    _ ≤ 10 ^ maxNumeralDigits := Nat.pow_le_pow_right (by decide) (by decide)

theorem printed_natCast {n : Nat} (h : n ≤ showable) : printed n = .ok (toString n) :=
  printed_ok (by rw [Int.natAbs_natCast]; exact Nat.le_mul_of_pos_left n (by decide)) h

theorem size_of_ofFloat? {x : Float} {d : Dyadic} (h : Dyadic.ofFloat? x = some d) :
    d.mantissa < 2 ^ 53 ∧ d.exponent ≤ 971 := by
  unfold Dyadic.ofFloat? at h
  dsimp only at h
  have hfraction : x.toBits.toNat % twoTo 52 < twoTo 52 := Nat.mod_lt _ (by decide)
  have hbiased : x.toBits.toNat / twoTo 52 % twoTo 11 < twoTo 11 := Nat.mod_lt _ (by decide)
  have h52 : twoTo 52 = 2 ^ 52 := rfl
  have h11 : twoTo 11 = 2048 := rfl
  rw [h11] at hbiased h
  rw [h52] at hfraction h
  split at h
  · cases h
  · split at h <;> cases h
    · refine ⟨?_, ?_⟩ <;> dsimp only <;> omega
    · refine ⟨?_, ?_⟩ <;> dsimp only <;> omega

/-- A double that is whole has fewer digits than the limit. -/
theorem natAbs_of_whole? {x : Float} {n : Int} (h : whole? x = some n) : n.natAbs < 10 ^ maxNumeralDigits := by
  obtain ⟨d, hd, hn⟩ := Option.bind_eq_some_iff.1 h
  obtain ⟨hmantissa, hexponent⟩ := size_of_ofFloat? hd
  have hpower {e : Nat} (he : e ≤ 971) : d.mantissa * 2 ^ e < 10 ^ maxNumeralDigits :=
    calc
      d.mantissa * 2 ^ e < 2 ^ 53 * 2 ^ e := Nat.mul_lt_mul_of_pos_right hmantissa (Nat.two_pow_pos e)
      _ = 2 ^ (53 + e) := (Nat.pow_add 2 53 e).symm
      _ ≤ 10 ^ (53 + e) := Nat.pow_le_pow_left (by decide) _
      _ ≤ 10 ^ maxNumeralDigits :=
        Nat.pow_le_pow_right (by decide) (Nat.le_trans (Nat.add_le_add_left he 53) (by decide))
  have hsize {size : Nat} (hsize : size < 10 ^ maxNumeralDigits) :
      (if d.negative then -(size : Int) else size).natAbs < 10 ^ maxNumeralDigits := by
    split
    · rwa [Int.natAbs_neg, Int.natAbs_natCast]
    · rwa [Int.natAbs_natCast]
  rw [Dyadic.whole?] at hn
  cases he : d.exponent with
  | ofNat e =>
    rw [he] at hn hexponent
    rw [← Option.some.inj hn]
    exact hsize (hpower (Int.ofNat_le.1 hexponent))
  | negSucc e =>
    rw [he] at hn
    by_cases hwhole : d.mantissa % twoTo (e + 1) = 0
    · simp only [if_pos hwhole] at hn
      rw [← Option.some.inj hn]
      have hmantissa := hpower (Nat.zero_le 971)
      rw [Nat.pow_zero, Nat.mul_one] at hmantissa
      exact hsize (Nat.lt_of_le_of_lt (Nat.div_le_self _ _) hmantissa)
    · simp only [if_neg hwhole] at hn
      cases hn

theorem shown_ok (x : Float) : shown x = .ok (displayed x) := by
  unfold shown displayed
  cases h : whole? x with
  | none => rfl
  | some n => exact printed_of_lt (natAbs_of_whole? h)

end Number

/-! ### Light things are shown -/

variable {w : Nat}

theorem Genesys.Tally.shown_ok {t : Tally} (h : t.weight ≤ showable) : t.shown = .ok t.text := by
  unfold shown text
  split
  · rfl
  · have hentry (s : Symbol) : (do
        let count ← printed (t.count s)
        pure s!"{count} {s.name}" : Except Error String) = .ok s!"{t.count s} {s.name}" := by
      rw [Number.printed_natCast (Nat.le_trans (t.count_le_weight s) h)]
      rfl
    dsimp only
    rw [mapM_ok fun s _ => hentry s]
    rfl

theorem Value.shown_ok {v : Value} (h : v.weight ≤ showable) : v.shown = .ok v.text := by
  cases v with
  | decimal x => exact Number.shown_ok x
  | successes n =>
    have hn : printed n = .ok (toString n) :=
      Number.printed_ok (Nat.le_mul_of_pos_left _ (by decide)) h
    rw [shown, hn]
    rfl
  | genesys t => exact t.shown_ok h

theorem Argument.shown_ok {a : Argument} (h : a.Bounded) : a.shown = .ok a.text := by
  have hsmall : maxArgument ≤ showable := by decide
  cases a with
  | single n => exact Number.printed_natCast (Nat.le_trans (h n List.mem_cons_self) hsmall)
  | list ns =>
    have hns : ns.mapM (fun (n : Nat) => printed n) = .ok (ns.map toString) :=
      mapM_ok fun n hn => Number.printed_natCast (Nat.le_trans (h n hn) hsmall)
    rw [shown, hns]
    rfl

namespace Die

variable {d : Die}

theorem Sound.parts_le (hd : d.Sound) : ∀ part ∈ d.parts, part.natAbs ≤ maxArgument := by
  intro part hpart
  have hsides := hd.sides_le
  by_cases hzero : d.sides = 0
  · rw [hd.valid.eq_of_sides hzero] at hpart
    obtain rfl := List.mem_singleton.1 hpart
    exact Nat.zero_le _
  · have := hd.valid.parts (Nat.pos_of_ne_zero hzero) part hpart
    omega

theorem Sound.natAbs_result_le (hd : d.Sound) : d.result.natAbs ≤ d.weight * maxArgument := by
  rw [d.result_eq_sum]
  exact natAbs_sum_le hd.parts_le

theorem Sound.shown_ok (hd : d.Sound) (hw : d.weight ≤ showable) : d.shown = .ok d.text := by
  refine Number.printed_ok (Nat.le_trans hd.natAbs_result_le ?_) hw
  rw [Nat.mul_comm]
  exact Nat.mul_le_mul_right _ (by decide)

theorem Sound.shownParts_ok (hd : d.Sound) (hw : d.weight ≤ showable) : d.shownParts = .ok d.breakdown := by
  have hshown := hd.shown_ok hw
  cases d with
  | plain sides shown => exact hshown
  | compound sides parts =>
    have hpart {part : Int} (hpart : part ∈ parts) : part.natAbs ≤ growth * 1 :=
      Nat.le_trans (hd.parts_le part hpart) (by decide)
    have hparts : parts.mapM printed = .ok (parts.map toString) :=
      mapM_ok fun part hmem => Number.printed_ok (hpart hmem) (by decide)
    rw [shownParts, breakdown]
    by_cases hone : parts.length = 1
    · rw [if_pos hone, if_pos hone]
      exact hshown
    · rw [if_neg hone, if_neg hone, hparts, hshown]
      rfl

end Die

theorem Breakdown.shown_ok {b : Breakdown} (hsound : ∀ e ∈ b, e.die.Sound) (hw : ∀ e ∈ b, e.die.weight ≤ showable) :
    b.shown = .ok b.text := by
  have hentries : b.mapM Entry.shown = .ok (b.map Entry.text) := mapM_ok fun e he => by
    rw [Entry.shown, (hsound e he).shownParts_ok (hw e he)]
    rfl
  rw [shown, hentries]
  rfl

namespace Pool

variable {p : Pool}

theorem shown_ok (hp : p.Sound) (hasked : p.Asked) (hw : p.weight ≤ showable) : p.shown = .ok p.text := by
  have hsmall : maxArgument ≤ showable := by decide
  have hshapes : p.shapes.mapM Shape.shown = .ok (p.shapes.map Shape.text) := mapM_ok fun s hs => by
    obtain ⟨hcount, hsides⟩ := hasked s hs
    rw [Shape.shown, Number.printed_natCast (Nat.le_trans hcount hsmall),
      Number.printed_natCast (Nat.le_trans hsides hsmall)]
    rfl
  have hdice : p.dice.mapM Die.shown = .ok (p.dice.map Die.text) := mapM_ok fun d hd =>
    (hp.dice d hd).shown_ok (Nat.le_trans (weight_le_of_mem hd) hw)
  rw [shown, hshapes, hdice]
  rfl

theorem printed_total (hp : p.Sound) (hw : p.weight ≤ showable) : printed p.total = .ok (toString p.total) := by
  have hresults : ∀ n ∈ p.results, n.natAbs ≤ maxArgument * p.weight := by
    intro n hn
    obtain ⟨d, hd, rfl⟩ := List.mem_map.1 hn
    refine Nat.le_trans (hp.dice d hd).natAbs_result_le ?_
    rw [Nat.mul_comm]
    exact Nat.mul_le_mul_left _ (weight_le_of_mem hd)
  have hlength : p.results.length ≤ maxPoolSize := by
    rw [results, List.length_map]
    exact hp.size
  refine Number.printed_ok (Nat.le_trans (natAbs_sum_le hresults) ?_) hw
  calc
    p.results.length * (maxArgument * p.weight) ≤ maxPoolSize * (maxArgument * p.weight) :=
      Nat.mul_le_mul_right _ hlength
    _ = growth * p.weight := by rw [growth, ← Nat.mul_assoc, Nat.mul_comm maxPoolSize]

end Pool

theorem Genesys.Kind.shown_ok (k : Kind) {p : Pool} (hp : p.Sound) (hw : p.weight ≤ showable) :
    k.shown p = .ok (k.breakdown p) := by
  have hresult : ∀ n ∈ p.results, printed n = .ok (toString n) := by
    intro n hn
    obtain ⟨d, hd, rfl⟩ := List.mem_map.1 hn
    exact (hp.dice d hd).shown_ok (Nat.le_trans (Pool.weight_le_of_mem hd) hw)
  have hentry {n : Int} (hn : n ∈ p.results) : (do
      let text ← printed n
      pure (s!"{text}:" ++ String.intercalate "+" ((k.symbols n).map Symbol.name)) : Except Error String) =
        .ok (s!"{n}:" ++ String.intercalate "+" ((k.symbols n).map Symbol.name)) := by
    rw [hresult n hn]
    rfl
  rw [shown, mapM_ok fun n hn => hentry hn]
  rfl

/-- A throw that ran can be shown. -/
theorem Throw.shown_ok {t : Throw} {n : Nat} (h : (Operation.thrown t).Within n) (hn : n ≤ showable) :
    t.shown = .ok t.text := by
  have hpool : t.pool.Sound := h.sound.pools _ List.mem_cons_self
  have hweight : t.pool.weight + t.value.weight ≤ showable := Nat.le_trans h.weight hn
  have hp : t.pool.weight ≤ showable := by omega
  have hv : t.value.shown = .ok t.value.text := Value.shown_ok (by omega)
  cases t with
  | rolled pool => exact Pool.shown_ok hpool (h.asked _ List.mem_cons_self) hp
  | changed op arg change =>
    have hbreakdown : change.breakdown.shown = .ok change.breakdown.text :=
      Breakdown.shown_ok (fun e he => h.sound.shown _ (List.mem_map_of_mem he))
        fun e he => Nat.le_trans (h.shown _ (List.mem_map_of_mem he)) hn
    have htotal : printed change.pool.total = .ok (toString change.pool.total) := Pool.printed_total hpool hp
    rw [shown, Argument.shown_ok (h.argument arg rfl), hbreakdown, htotal]
    rfl
  | counted c arg pool base =>
    have hmem {e : Entry} (he : e ∈ (c.count pool arg).breakdown) : e.die ∈ pool.dice := by
      obtain ⟨d, hd, rfl⟩ := List.mem_map.1 he
      exact hd
    have hbreakdown : (c.count pool arg).breakdown.shown = .ok (c.count pool arg).breakdown.text :=
      Breakdown.shown_ok (fun e he => hpool.dice _ (hmem he))
        fun e he => Nat.le_trans (Pool.weight_le_of_mem (hmem he)) hp
    rw [shown, Argument.shown_ok (h.argument arg rfl), hbreakdown, hv]
    rfl
  | read kind pool =>
    have htally : (kind.tally pool).shown = .ok (kind.tally pool).text := hv
    have hread : kind.shown pool = .ok (kind.breakdown pool) := kind.shown_ok hpool hp
    rw [shown, hread, htally]
    rfl

end Tabletop
