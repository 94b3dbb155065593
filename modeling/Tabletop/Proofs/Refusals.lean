import Mathlib.Tactic.ByContra
import Tabletop.Evaluation
import Tabletop.Proofs.Basic

/-!
# What is refused without dice

Reading a text and reckoning with operands take no faces, and each refuses with errors of its own
kind (`Error.isOfReading`, `Error.isOfReckoning`). `Refuses E r` says that `r` fails with errors of
the kind `E` alone. In particular nothing here complains about the supply of faces.
-/

namespace Tabletop

variable {α β : Type}

/-- The text itself is at fault. -/
def Error.isOfReading : Error → Bool
  | unknownSymbol _ | emptyList | notArgument _ | numeralTooBig _ | tooManyDigits _ => true
  | noOpener _ | wrongCloser .. | neverClosed _ | unexpectedToken _ => true
  | _ => false

/-- The operands of an operation do not suit it. -/
def Error.isOfReckoning : Error → Bool
  | notNumber _ | notPool _ | notReal | uncomputable .. | outsideDomain .. | notArgument _ => true
  | unpaired .. | poolTooLarge _ | everyFaceTriggers .. => true
  | _ => false

/-- There are too many dice, or their faces are of no use. -/
def Error.isOfPools : Error → Bool
  | poolTooLarge _ | everyFaceTriggers .. => true
  | _ => false

theorem Error.isOfReckoning_of_isOfPools (e : Error) (h : e.isOfPools = true) : e.isOfReckoning = true := by
  cases e <;> first | rfl | cases h

/-- Whatever the check fails with is of such a kind. -/
def Refuses (E : Error → Bool) (r : Except Error α) : Prop := ∀ e, r = .error e → E e = true

namespace Refuses

variable {E : Error → Bool} {r : Except Error α}

theorem ok (a : α) : Refuses E (.ok a) := fun _ h => by cases h

theorem error {e : Error} (he : E e = true) : Refuses E (.error e : Except Error α) := by
  rintro _ ⟨⟩
  exact he

theorem mono {E' : Error → Bool} (hr : Refuses E r) (h : ∀ e, E e = true → E' e = true) : Refuses E' r :=
  fun e he => h e (hr e he)

theorem bind_of_ok {f : α → Except Error β} (hr : Refuses E r) (hf : ∀ a, r = .ok a → Refuses E (f a)) :
    Refuses E (r >>= f) := by
  intro e h
  rcases error_of_bind h with h | ⟨a, ha, h⟩
  · exact hr e h
  · exact hf a ha e h

theorem bind {f : α → Except Error β} (hr : Refuses E r) (hf : ∀ a, Refuses E (f a)) :
    Refuses E (r >>= f) :=
  hr.bind_of_ok fun a _ => hf a

theorem mapM {f : α → Except Error β} {l : List α} (hf : ∀ a ∈ l, Refuses E (f a)) :
    Refuses E (l.mapM f) := by
  induction l with
  | nil => exact ok _
  | cons a l ih =>
    have hl := ih fun b hb => hf b (by simp [hb])
    rw [List.mapM_cons]
    exact (hf a (by simp)).bind fun _ => hl.bind fun _ => ok _

theorem foldlM {f : β → α → Except Error β} {l : List α} (hf : ∀ b, ∀ a ∈ l, Refuses E (f b a)) (b : β) :
    Refuses E (l.foldlM f b) := by
  induction l generalizing b with
  | nil => exact ok _
  | cons a l ih =>
    rw [List.foldlM_cons]
    exact (hf b a List.mem_cons_self).bind fun b => ih (fun b a ha => hf b a (List.mem_cons_of_mem _ ha)) b

end Refuses

open Refuses

/-! ### Reading -/

/-- The errors of a reader of tokens are of such a kind, apart from numerals with too many digits. -/
structure Error.OfTokens (E : Error → Bool) : Prop where
  symbol : ∀ s, E (.unknownSymbol s) = true
  list : E .emptyList = true
  argument : ∀ s, E (.notArgument s) = true
  numeral : ∀ s, E (.numeralTooBig s) = true

theorem Error.ofTokens_isOfReading : Error.OfTokens isOfReading :=
  ⟨fun _ => rfl, rfl, fun _ => rfl, fun _ => rfl⟩

variable {E : Error → Bool}

theorem refuses_natural (ds : List Char) : Refuses Error.isOfReading (Number.natural ds) := by
  rw [Number.natural]
  split
  exacts [ok _, error rfl]

/-- Both readers and reckoners turn numbers into arguments. -/
theorem refuses_toArgument (hE : ∀ s, E (.notArgument s) = true) (what : String)
    (x : Scalar) : Refuses E (x.toArgument what) := by
  unfold Scalar.toArgument
  dsimp only
  split
  · split
    exacts [ok _, error (hE _)]
  · exact error (hE _)

namespace Argument

theorem refuses_ofScalar (hE : ∀ s, E (.notArgument s) = true) (x : Scalar) :
    Refuses E (ofScalar x) := (refuses_toArgument hE _ x).bind fun _ => ok _

theorem refuses_ofText (hE : ∀ s, E (.notArgument s) = true) (s : List Char) : Refuses E (Scalar.ofText s) := by
  rw [Scalar.ofText]
  split
  · exact ok _
  · split
    exacts [ok _, error (hE _)]

theorem refuses_parse (hE : Error.OfTokens E) (s : List Char) : Refuses E (parse s) := by
  have hpart : ∀ part, Refuses E (do (← Scalar.ofText part).toArgument "argument") := fun part =>
    (refuses_ofText hE.argument part).bind (refuses_toArgument hE.argument _)
  rw [parse]
  dsimp only
  split
  · split
    · exact error hE.list
    · exact (mapM fun part _ => hpart part).bind fun _ => ok _
  · exact (refuses_ofText hE.argument _).bind (refuses_ofScalar hE.argument)

end Argument

/-- A numeral is read as a whole number only if it has no point. -/
theorem refuses_tokenOfNumeral (hE : Error.OfTokens E) {s : List Char}
    (hs : '.' ∉ s → Refuses E (Number.natural s)) : Refuses E (tokenOfNumeral s) := by
  rw [tokenOfNumeral]
  split
  · exact error (hE.numeral _)
  · split
    · rename_i hwhole
      have hpoint : '.' ∉ s := by
        simp only [Bool.and_eq_true, Bool.not_eq_true'] at hwhole
        simpa using hwhole.1
      refine (hs hpoint).bind fun n => ?_
      rw [map_eq_pure_bind]
      exact (Argument.refuses_ofScalar hE.argument _).bind fun _ => ok _
    · exact ok _

theorem refuses_tokens (hE : Error.OfTokens E) (mode : Mode) (bare : Bool) {l : Lexeme}
    (hl : ∀ s, l = .numeral s → '.' ∉ s → Refuses E (Number.natural s)) : Refuses E (l.tokens mode bare) := by
  unfold Lexeme.tokens
  split
  · exact error (hE.symbol _)
  · split
    · exact (Argument.refuses_parse hE _).bind fun _ => ok _
    · exact (refuses_tokenOfNumeral hE (hl _ rfl)).bind fun _ => ok _
    all_goals first | exact ok _ | exact error (hE.symbol _)

theorem refuses_tokensOf (hE : Error.OfTokens E) (mode : Mode) (bare : Bool) {ls : List Lexeme}
    (hls : ∀ s, .numeral s ∈ ls → '.' ∉ s → Refuses E (Number.natural s)) : Refuses E (tokensOf mode bare ls) := by
  induction ls generalizing bare with
  | nil => exact ok _
  | cons l ls ih =>
    have hl : Refuses E (l.tokens mode bare) :=
      refuses_tokens hE mode bare fun s hs => hls s (hs ▸ List.mem_cons_self)
    exact hl.bind fun _ => (ih _ fun s hs => hls s (List.mem_cons_of_mem _ hs)).bind fun _ => ok _

theorem refuses_tokenize (mode : Mode) (text : String) :
    Refuses Error.isOfReading (tokenize mode text) :=
  refuses_tokensOf Error.ofTokens_isOfReading mode true fun s _ _ => refuses_natural s

/-- The brackets of the formula do not match. -/
def Error.isOfBrackets : Error → Bool
  | noOpener _ | wrongCloser .. | neverClosed _ | unexpectedToken _ => true
  | _ => false

theorem Error.isOfReading_of_isOfBrackets (e : Error) (h : e.isOfBrackets = true) : e.isOfReading = true := by
  cases e <;> first | rfl | cases h

namespace Postfix

theorem refuses_drain (waiting : List Token) : Refuses Error.isOfBrackets (drain waiting) := by
  induction waiting with
  | nil => exact ok _
  | cons t waiting ih =>
    cases t with
    | opening b => exact error rfl
    | _ => exact ih.bind fun _ => ok _

theorem refuses_step (t : Token) (waiting : List Token) :
    Refuses Error.isOfBrackets (step t waiting) := by
  cases t with
  | closing b =>
    unfold step close
    dsimp only
    split
    · split
      exacts [ok _, error rfl]
    · exact error rfl
  | blank => exact error rfl
  | _ => exact ok _

theorem refuses_order (ts waiting : List Token) :
    Refuses Error.isOfBrackets (order ts waiting) := by
  induction ts generalizing waiting with
  | nil => exact refuses_drain waiting
  | cons t ts ih => exact (refuses_step t waiting).bind fun _ => (ih _).bind fun _ => ok _

end Postfix

theorem refuses_toPostfix (ts : List Token) : Refuses Error.isOfBrackets (toPostfix ts) :=
  Postfix.refuses_order ts []

/-! ### Reckoning -/

namespace Value

/-- If the value is a count that is no double, and its opposite neither, that is a failure of the kind `E`. -/
def Tame (E : Error → Bool) : Value → Prop
  | successes n => Refuses E (doubleOfCount n) ∧ Refuses E (doubleOfCount (-n))
  | _ => True

theorem refuses_ofFloat (x : Float) : Refuses Error.isOfReckoning (ofFloat x) := by
  rw [ofFloat]
  split
  exacts [ok _, error rfl]

theorem tame (h : E .tooLargeForDouble = true) (v : Value) : v.Tame E := by
  have hcount (n : Int) : Refuses E (doubleOfCount n) := by
    rw [doubleOfCount]
    split
    exacts [ok _, error h]
  cases v with
  | successes n => exact ⟨hcount n, hcount (-n)⟩
  | _ => trivial

section

variable {v w : Value} (hE : ∀ e, e.isOfReckoning = true → E e = true)

include hE

theorem refuses_toDecimal (hv : v.Tame E) : Refuses E v.toDecimal := by
  cases v with
  | decimal x => exact ok _
  | successes n => exact hv.1
  | genesys t => exact error (hE _ rfl)

theorem refuses_add (hv : v.Tame E) (hw : w.Tame E) : Refuses E (v.add w) := by
  have hdecimal (x : Float) : Refuses E (ofFloat x) := (refuses_ofFloat x).mono hE
  cases v with
  | decimal x => exact (refuses_toDecimal hE hw).bind fun _ => hdecimal _
  | successes n =>
    cases w with
    | successes m => exact ok _
    | decimal y => exact hv.1.bind fun _ => hdecimal _
    | genesys t => exact error (hE _ rfl)
  | genesys t =>
    cases w with
    | genesys u => exact ok _
    | decimal y => exact error (hE _ rfl)
    | successes m => exact error (hE _ rfl)

end

theorem refuses_negate (v : Value) : Refuses Error.isOfReckoning v.negate := by
  cases v with
  | decimal x => exact refuses_ofFloat _
  | successes n => exact ok _
  | genesys t => exact error rfl

theorem Tame.negate {v w : Value} (hv : v.Tame E) (h : v.negate = .ok w) : w.Tame E := by
  cases v with
  | decimal x =>
    have h : ofFloat (-x) = .ok w := h
    rw [ofFloat] at h
    split at h <;> cases h
    trivial
  | successes n =>
    cases h
    exact ⟨hv.2, by rw [Int.neg_neg]; exact hv.1⟩
  | genesys t => cases h

theorem refuses_subtract (hE : ∀ e, e.isOfReckoning = true → E e = true) {v w : Value} (hv : v.Tame E)
    (hw : w.Tame E) : Refuses E (v.subtract w) :=
  ((refuses_negate w).mono hE).bind_of_ok fun _ h => refuses_add hE hv (hw.negate h)

end Value

theorem Argument.refuses_scalar (a : Argument) : Refuses Error.isOfReckoning a.scalar := by
  cases a with
  | single n => exact ok _
  | list ns => exact error rfl

namespace Pool

variable (p : Pool)

theorem refuses_checkSize (n : Nat) : Refuses Error.isOfPools (checkSize n) := by
  rw [checkSize]
  split
  exacts [ok _, error rfl]

theorem refuses_ofDice (ds : List Die) (shapes : List Shape) :
    Refuses Error.isOfPools (ofDice ds shapes) := (refuses_checkSize _).bind fun _ => ok _

theorem refuses_changeTo (ds : List Die) (b : Breakdown) :
    Refuses Error.isOfPools (p.changeTo ds b) := (refuses_ofDice ds _).bind fun _ => ok _

theorem refuses_checkTermination (faces : List Int) (what : String) :
    Refuses Error.isOfPools (p.checkTermination faces what) := by
  rw [checkTermination]
  split
  exacts [error rfl, ok _]

theorem refuses_shapesOf (counts sides : Argument) :
    Refuses Error.isOfReckoning (shapesOf counts sides) := by
  unfold shapesOf
  split
  · exact ok _
  · exact ok _
  · exact ok _
  · split
    exacts [ok _, error rfl]

end Pool

namespace Operand

/-- The value of the operand, if it has one, is tame. -/
def Tame (E : Error → Bool) (o : Operand) : Prop := ∀ v, o.toValue = .ok v → v.Tame E

variable {l r o : Operand}

theorem refuses_toValue (o : Operand) : Refuses Error.isOfReckoning o.toValue := by
  cases o with
  | argument a => exact a.refuses_scalar.bind fun _ => Value.refuses_ofFloat _
  | number v written => exact ok _
  | thrown t => exact ok _

theorem refuses_toPool (o : Operand) : Refuses Error.isOfReckoning o.toPool := by
  cases o with
  | thrown t => exact ok _
  | argument a => exact error rfl
  | number v written => exact error rfl

theorem refuses_negated (o : Operand) : Refuses Error.isOfReckoning o.negated :=
  o.refuses_toValue.bind fun x => x.refuses_negate.bind fun _ => ok _

theorem refuses_read (o : Operand) (k : Genesys.Kind) : Refuses Error.isOfReckoning (o.read k) :=
  o.refuses_toPool.bind fun _ => ok _

section

variable (hE : ∀ e, e.isOfReckoning = true → E e = true)

include hE

theorem refuses_toDecimal (ho : o.Tame E) : Refuses E o.toDecimal :=
  (o.refuses_toValue.mono hE).bind_of_ok fun _ h => Value.refuses_toDecimal hE (ho _ h)

theorem refuses_toArgument (ho : o.Tame E) : Refuses E o.toArgument := by
  have hvalue {o : Operand} (ho : o.Tame E) : Refuses E (do Argument.ofScalar (.real (← o.toDecimal))) :=
    (refuses_toDecimal hE ho).bind fun _ => Argument.refuses_ofScalar (fun _ => hE _ rfl) _
  cases o with
  | argument a => exact ok _
  | number v written => exact hvalue ho
  | thrown t => exact hvalue ho

theorem refuses_applied (ho : o.Tame E) (f : MathFunction) : Refuses E (o.applied f) := by
  refine (o.refuses_toValue.mono hE).bind_of_ok fun v hv => ?_
  refine (Value.refuses_toDecimal hE (ho v hv)).bind fun x => ?_
  dsimp only
  split
  exacts [ok _, error (hE _ rfl)]

theorem refuses_counted (hr : r.Tame E) (c : Conversion) : Refuses E (l.counted c r) :=
  (refuses_toArgument hE hr).bind fun _ => (l.refuses_toPool.mono hE).bind fun _ => ok _

theorem refuses_joined (hl : l.Tame E) (hr : r.Tame E) (op : Operator) {f : Value → Value → Except Error Value}
    (hf : ∀ {x y : Value}, x.Tame E → y.Tame E → Refuses E (f x y)) : Refuses E (joined op f l r) :=
  (l.refuses_toValue.mono hE).bind_of_ok fun x hx => (r.refuses_toValue.mono hE).bind_of_ok fun y hy =>
    (hf (hl x hx) (hr y hy)).bind fun _ => ok _

theorem refuses_computed (hl : l.Tame E) (hr : r.Tame E) (op : Operator) (a : Arithmetic) :
    Refuses E (computed op a l r) := by
  refine (l.refuses_toValue.mono hE).bind_of_ok fun v hv => (Value.refuses_toDecimal hE (hl v hv)).bind fun x => ?_
  refine (r.refuses_toValue.mono hE).bind_of_ok fun w hw => (Value.refuses_toDecimal hE (hr w hw)).bind fun y => ?_
  split
  · exact ((Value.refuses_ofFloat _).mono hE).bind fun _ => ok _
  · exact error (hE _ rfl)

theorem refuses_combined (hl : l.Tame E) (hr : r.Tame E) (op : Operator) : Refuses E (l.combined op r) := by
  unfold combined
  split
  · split
    · exact ((Pool.refuses_ofDice _ _).mono fun e he => hE e (e.isOfReckoning_of_isOfPools he)).bind fun _ => ok _
    · exact refuses_joined hE hl hr op (Value.refuses_add hE)
  · exact refuses_joined hE hl hr op (Value.refuses_add hE)
  · exact refuses_joined hE hl hr op (Value.refuses_subtract hE)
  · exact refuses_computed hE hl hr op _

end

end Operand

end Tabletop
