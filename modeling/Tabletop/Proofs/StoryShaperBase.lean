import Tabletop.Proofs.CalculatorRolls
import Tabletop.Proofs.Grouping
import Tabletop.Proofs.PoolRolls
import Tabletop.Proofs.Sentences
import Tabletop.Proofs.SoundRoll
import Tabletop.Shorthand.StoryShaper

/-!
# The base of Story Shaper

Modifiers are written right behind the base, and the whole is read anew. Digits in front of them, and a point
with its digits, go on with the number of sides (`Lexeme.carried`); all else is read as it is after an operand
(`StoryShaper.tokenize_base_ok_iff`). So the base is read as it stands exactly where the modifiers begin
neither with a digit nor with a point. Its two dice are then rolled before any others, unless another
operand stands side by side with it (`StoryShaper.base_stands_and_rolls`).
-/

namespace Tabletop

open Text

/-! ### Numerals that go on -/

namespace Lexeme

/-- What a numeral in front of the text takes of it. -/
def carried (s : List Char) : List Char :=
  let whole := s.takeWhile isDigit
  match s.drop whole.length with
  | '.' :: cs => whole ++ '.' :: cs.takeWhile isDigit
  | _ => whole

variable {s ds : List Char}

theorem carried_eq_nil_iff : carried s = [] ↔ ∀ c ∈ s.head?, isDigit c = false ∧ c ≠ '.' := by
  cases s with
  | nil => exact ⟨fun _ c hc => (Option.not_mem_none c hc).elim, fun _ => rfl⟩
  | cons c cs =>
    have hhead : (∀ b ∈ (c :: cs).head?, isDigit b = false ∧ b ≠ '.') ↔ isDigit c = false ∧ c ≠ '.' := by simp
    rw [hhead]
    cases hc : isDigit c with
    | true =>
      refine ⟨fun h => ?_, fun h => Bool.noConfusion h.1⟩
      unfold carried at h
      dsimp only at h
      split at h <;> simp [hc] at h
    | false =>
      unfold carried
      simp only [List.takeWhile_cons, hc, Bool.false_eq_true, ↓reduceIte, List.length_nil, List.drop_zero,
        List.nil_append, true_and]
      split
      · rename_i heq
        simp [(List.cons.inj heq).1]
      · rename_i hne
        exact ⟨fun _ hpoint => hne cs (by rw [hpoint]), fun _ => rfl⟩

theorem numeral?_append (hds : ∀ c ∈ ds, isDigit c = true) (hne : ds ≠ []) (s : List Char) :
    numeral? (ds ++ s) = some (numeral (ds ++ carried s)) := by
  have hdrop : (ds ++ s).drop (ds ++ s.takeWhile isDigit).length = s.drop (s.takeWhile isDigit).length := by
    rw [List.length_append, ← List.drop_drop, List.drop_left]
  unfold numeral? carried
  simp only [List.takeWhile_append_of_pos hds, hdrop]
  generalize s.drop (s.takeWhile isDigit).length = rest
  split <;> simp [hne]

theorem carried_append_drop (s : List Char) : carried s ++ s.drop (carried s).length = s := by
  -- The numeral that goes on with the text is a prefix of it.
  have hzero : ∀ c ∈ ['0'], isDigit c = true := List.forall_mem_singleton.2 rfl
  have hprefix : ['0'] ++ carried s <+: ['0'] ++ s :=
    isPrefix_of_numeral? (numeral?_append hzero (List.cons_ne_nil _ _) s)
  exact List.prefix_iff_eq_append.1 ((List.prefix_append_right_inj _).1 hprefix)

theorem stands_carried (hds : ∀ c ∈ ds, isDigit c = true) (hne : ds ≠ []) (s : List Char) :
    Stands (numeral (ds ++ carried s)) (s.drop (carried s).length) := by
  have hnumeral := numeral?_append hds hne s
  obtain ⟨d, ds, rfl⟩ := List.exists_cons_of_ne_nil hne
  have hd : d ≠ '[' := by
    rintro rfl
    exact Bool.noConfusion (hds _ List.mem_cons_self)
  refine ⟨d, ds ++ carried s, rfl, ?_⟩
  rw [List.cons_append] at hnumeral
  rw [List.append_assoc, carried_append_drop, first, list?_of_ne hd, hnumeral]
  rfl

end Lexeme

/-- More digits write a larger number. -/
theorem numeral_lt_append {ds cs : List Char} (hpos : 0 < numeral ds) (hcs : cs ≠ []) :
    numeral ds < numeral (ds ++ cs) := by
  induction cs using List.reverseRecOn with
  | nil => exact (hcs rfl).elim
  | append_singleton cs c ih =>
    rw [← List.append_assoc, numeral_append_singleton]
    rcases eq_or_ne cs [] with rfl | hne
    · rw [List.append_nil]
      omega
    · have := ih hne
      omega

/-! ### Dice that wait -/

namespace Postfix

/-- Dice whose operands are there go out next, unless another operand begins. -/
theorem order_dice_ok {later out : List Token} (hlater : ∀ t ∈ later.head?, t.begins = false)
    (h : order later [.dice] = .ok out) : ∃ rest, out = .dice :: rest := by
  cases later with
  | nil =>
    cases h
    exact ⟨[], rfl⟩
  | cons t later =>
    have ht := hlater t rfl
    obtain ⟨⟨now, waiting⟩, hstep, h⟩ := ok_of_bind h
    obtain ⟨rest, -, h⟩ := ok_of_bind h
    cases h
    have hnow : ∃ more, now = .dice :: more := by
      cases t with
      | binary op => cases op <;> cases hstep <;> exact ⟨[], rfl⟩
      | dice | pool _ | conversion _ | genesys _ =>
        cases hstep
        exact ⟨[], rfl⟩
      | closing _ | blank => cases hstep
      | _ => cases ht
    obtain ⟨more, rfl⟩ := hnow
    exact ⟨more ++ rest, rfl⟩

end Postfix

theorem toPostfix_dice_ok {a b : Argument} {later out : List Token} (hlater : ∀ t ∈ later.head?, t.begins = false)
    (h : toPostfix (.argument a :: .dice :: .argument b :: later) = .ok out) :
    ∃ rest, out = .argument a :: .argument b :: .dice :: rest := by
  obtain ⟨out₁, h₁, rfl⟩ := (Postfix.order_cons_ok_iff rfl).1 h
  obtain ⟨out₂, h₂, rfl⟩ := (Postfix.order_cons_ok_iff rfl).1 h₁
  obtain ⟨out₃, h₃, rfl⟩ := (Postfix.order_cons_ok_iff rfl).1 h₂
  obtain ⟨rest, rfl⟩ := Postfix.order_dice_ok hlater h₃
  exact ⟨rest, rfl⟩

/-! ### What is rolled first -/

theorem Machine.log_isPrefix_of_run {cap : Int} {m : Machine} (ts : List Token) :
    (ts.foldlM (step cap) m).Yields fun m' => m.log <+: m'.log := by
  refine .foldlM List.prefix_rfl fun m' hm t _ s m'' s' ht => ?_
  rcases step_ok ht with ⟨c, -, rfl, -⟩ | ⟨u, o, stack, op, -, -, -, rfl⟩ | ⟨b, l, r, stack, op, -, -, -, rfl⟩
  · exact hm
  · exact hm.trans (List.prefix_append _ _)
  · exact hm.trans (List.prefix_append _ _)

variable {cap : Int} {s s' : Faces} {log : List Operation} {o : Operand}

/-- Dice that come out first are rolled first. -/
theorem log_of_evaluate_dice {a b : Argument} {rest : List Token}
    (h : (evaluate (.argument a :: .argument b :: .dice :: rest) cap).on s = (.ok (log, o), s')) :
    ∃ p s₁ more, (Pool.roll a b).on s = (.ok p, s₁) ∧ log = .thrown (.rolled p) :: more := by
  have hrun := evaluate_ok_iff.1 h
  obtain ⟨m, s₁, hdice, hrest⟩ := Rolling.on_bind_ok (show
    (Machine.step cap ⟨[.argument b, .argument a], []⟩ .dice >>= fun m => rest.foldlM (Machine.step cap) m).on s = _
    from hrun)
  have hstep : Machine.step cap ⟨[.argument b, .argument a], []⟩ .dice = _ :=
    Machine.step_binary .dice (.argument a) (.argument b) [] []
  rw [hstep] at hdice
  obtain ⟨op, s₂, hop, hdice⟩ := Rolling.on_bind_ok hdice
  obtain ⟨rfl, rfl⟩ := Rolling.on_pure_ok hdice
  obtain ⟨p, hroll, rfl⟩ := (Operand.rolled_ok_iff rfl rfl).1 hop
  obtain ⟨more, hmore⟩ := Machine.log_isPrefix_of_run rest hrest
  exact ⟨p, s₂, more, hroll, hmore.symm⟩

/-! ### The base -/

namespace Shorthand.StoryShaper

/-- What is written behind the base. -/
def modifiers (command : String) : List Char := squeeze (lower command.toList)

/-- Two ten-sided dice that show these faces. -/
def basePool (a b : Int) : Pool := ⟨[a, b].map fun face => .plain 10 (Die.clamp 10 face), [⟨2, 10⟩]⟩

variable {command text : String} {m : List Char} {ts : List Token}

theorem text_of_toNotation (h : toNotation command = .ok text) :
    text = base ++ String.ofList (modifiers command) := by
  unfold toNotation at h
  dsimp only at h
  split at h
  · cases h
  · cases h
    rfl

theorem ofText_base (m : List Char) :
    Lexeme.ofText ("2d10".toList ++ m) =
      .numeral ['2'] :: .word .dice :: .numeral (['1', '0'] ++ Lexeme.carried m) ::
        Lexeme.ofText (m.drop (Lexeme.carried m).length) := by
  have hdigits : ∀ c ∈ ['1', '0'], isDigit c = true := List.all_iff_forall_prop.1 (by decide)
  have hsides := Lexeme.stands_carried hdigits (List.cons_ne_nil _ _) m
  have hcount : Lexeme.Stands (.numeral ['2']) ('d' :: '1' :: '0' :: m) := Lexeme.stands_numeral rfl (by
    intro c hc
    obtain rfl := Option.some.inj hc
    decide)
  have hdice : Lexeme.Stands (.word .dice) ('1' :: '0' :: m) :=
    Lexeme.stands_of_nil (Lexeme.binary_mem_words .dice) rfl _
  have hm := Lexeme.scan_text_append hsides
  rw [Lexeme.text, List.append_assoc, Lexeme.carried_append_drop] at hm
  calc Lexeme.ofText ("2d10".toList ++ m)
      = .numeral ['2'] :: Lexeme.scan 0 ('d' :: '1' :: '0' :: m) := Lexeme.scan_text_append hcount
    _ = .numeral ['2'] :: .word .dice :: Lexeme.scan 0 (['1', '0'] ++ m) :=
      congrArg (_ :: ·) (Lexeme.scan_text_append hdice)
    _ = _ := by rw [hm]; rfl

/-- The base and its modifiers are read as two numerals with a die between them, and what the second one leaves. -/
theorem tokenize_base_ok_iff (hm : squeeze m = m) :
    tokenize .dice (base ++ String.ofList m) = .ok ts ↔
      ∃ t later, tokenOfNumeral (['1', '0'] ++ Lexeme.carried m) = .ok t ∧
        tokensOf .dice false (Lexeme.ofText (m.drop (Lexeme.carried m).length)) = .ok later ∧
        ts = .argument (.single 2) :: .dice :: t :: later := by
  have htext : squeeze (base ++ String.ofList m).toList = "2d10".toList ++ m := by
    rw [String.toList_append, String.toList_ofList, squeeze_append, hm]
    rfl
  have hbare {t : Token} (ht : tokenOfNumeral (['1', '0'] ++ Lexeme.carried m) = .ok t) : t.wantsOperand = false :=
    Token.not_wantsOperand_of_isOperand (tokenOfNumeral_isOperand ht)
  rw [tokenize, htext, ofText_base]
  constructor
  · intro h
    obtain ⟨_, us, hcount, hus, rfl⟩ := tokensOf_cons_ok_iff.1 h
    cases hcount
    obtain ⟨_, vs, hdice, hvs, rfl⟩ := tokensOf_cons_ok_iff.1 hus
    cases hdice
    obtain ⟨_, later, hsides, hlater, rfl⟩ := tokensOf_cons_ok_iff.1 hvs
    obtain ⟨t, ht, hsides⟩ := ok_of_bind hsides
    cases hsides
    have hlater : tokensOf .dice t.wantsOperand _ = .ok later := hlater
    rw [hbare ht] at hlater
    exact ⟨t, later, ht, hlater, rfl⟩
  · rintro ⟨t, later, ht, hlater, rfl⟩
    refine tokensOf_cons_ok_iff.2 ⟨[.argument (.single 2)], _, rfl, ?_, rfl⟩
    refine tokensOf_cons_ok_iff.2 ⟨[.dice], _, rfl, ?_, rfl⟩
    refine tokensOf_cons_ok_iff.2 ⟨[t], later, ?_, ?_, rfl⟩
    · change (do pure [← tokenOfNumeral (['1', '0'] ++ Lexeme.carried m)]) = _
      rw [ht]
      rfl
    · change tokensOf .dice t.wantsOperand _ = _
      rwa [hbare ht]

/-- The dice of the base have ten sides unless the modifiers go on with their number. -/
theorem eq_ten_iff {t : Token} (h : tokenOfNumeral (['1', '0'] ++ Lexeme.carried m) = .ok t) :
    t = .argument (.single 10) ↔ Lexeme.carried m = [] := by
  constructor
  · rintro rfl
    by_contra hne
    have hten : numeral ['1', '0'] = 10 := rfl
    have hmore := numeral_lt_append (by decide : 0 < numeral ['1', '0']) hne
    obtain ⟨-, hsides⟩ | ⟨x, hx⟩ := tokenOfNumeral_ok h
    · injection hsides with hsides
      injection hsides with hsides
      omega
    · cases hx
  · intro hnil
    have hread : tokenOfNumeral ['1', '0'] = .ok (.argument (.single 10)) := rfl
    rw [hnil, List.append_nil, hread] at h
    cases h
    rfl

theorem tokens_eq_base_iff (hm : squeeze m = m) (hts : tokenize .dice (base ++ String.ofList m) = .ok ts) :
    (∃ later, tokensOf .dice false (Lexeme.ofText m) = .ok later ∧
        ts = .argument (.single 2) :: .dice :: .argument (.single 10) :: later) ↔
      ∀ c ∈ m.head?, isDigit c = false ∧ c ≠ '.' := by
  obtain ⟨t, later, ht, hlater, rfl⟩ := (tokenize_base_ok_iff hm).1 hts
  rw [← Lexeme.carried_eq_nil_iff, ← eq_ten_iff ht]
  constructor
  · rintro ⟨later', -, heq⟩
    exact (List.cons.inj (List.cons.inj (List.cons.inj heq).2).2).1
  · intro hten
    rw [(eq_ten_iff ht).1 hten] at hlater
    exact ⟨later, hlater, by rw [hten]⟩

theorem log_of_base {later : List Token} (hts : tokenize .dice text = .ok ts)
    (hbase : ts = .argument (.single 2) :: .dice :: .argument (.single 10) :: later)
    (hlater : ∀ t ∈ later.head?, t.begins = false)
    (h : (evaluateText text cap).on s = (.ok (log, o), s')) :
    ∃ a b s₁ more, s.Takes [a, b] s₁ ∧ log = .thrown (.rolled (basePool a b)) :: more := by
  obtain ⟨ts', x, hts', hout, hx⟩ := evaluateText_ok h
  obtain rfl := Except.ok.inj (hts.symm.trans hts')
  rw [hbase] at hout
  obtain ⟨rest, hrest⟩ := toPostfix_dice_ok hlater hout
  rw [← Tree.evaluate_postorder, hrest] at hx
  obtain ⟨p, s₁, more, hroll, rfl⟩ := log_of_evaluate_dice hx
  obtain ⟨block, hblock, htakes, rfl⟩ := (Pool.roll_single_ok_iff (by decide) (by decide)).1 hroll
  obtain ⟨a, b, rfl⟩ := List.length_eq_two.1 hblock
  exact ⟨a, b, s₁, more, htakes, rfl⟩

/-- The tokens of a translation are those of the base, whose second number goes on with what digits and point
the modifiers begin with, and what the rest of the modifiers give after an operand. So they begin with those of
the base as it stands exactly where the modifiers begin neither with a digit nor with a point. If no other operand
comes right after the base, every roll begins with its two ten-sided dice. -/
theorem base_stands_and_rolls (htext : toNotation command = .ok text) (hts : tokenize .dice text = .ok ts) :
    (∃ t later, tokenOfNumeral (['1', '0'] ++ Lexeme.carried (modifiers command)) = .ok t ∧
        tokensOf .dice false
          (Lexeme.ofText ((modifiers command).drop (Lexeme.carried (modifiers command)).length)) = .ok later ∧
        ts = .argument (.single 2) :: .dice :: t :: later) ∧
    ((∃ later, tokensOf .dice false (Lexeme.ofText (modifiers command)) = .ok later ∧
        ts = .argument (.single 2) :: .dice :: .argument (.single 10) :: later) ↔
      ∀ c ∈ (modifiers command).head?, isDigit c = false ∧ c ≠ '.') ∧
    ∀ later, ts = .argument (.single 2) :: .dice :: .argument (.single 10) :: later →
      (∀ t ∈ later.head?, t.begins = false) → ∀ cap s log o s',
        (evaluateText text cap).on s = (.ok (log, o), s') →
          ∃ a b s₁ more, s.Takes [a, b] s₁ ∧ log = .thrown (.rolled (basePool a b)) :: more := by
  have hm : squeeze (modifiers command) = modifiers command := squeeze_squeeze _
  have hbase := hts
  rw [text_of_toNotation htext] at hbase
  exact ⟨(tokenize_base_ok_iff hm).1 hbase, tokens_eq_base_iff hm hbase,
    fun later hshape hlater cap s log o s' hrun => log_of_base hts hshape hlater hrun⟩

/-- A die taken off the base. -/
theorem base_stands_and_rolls_minus :
    toNotation " - D6" = .ok "2d10-d6" ∧
      ∃ log o s', (evaluateText "2d10-d6" 100).on (.ofList [4, 9, 6]) = (.ok (log, o), s') ∧
        ∃ a b s₁ more, (Faces.ofList [4, 9, 6]).Takes [a, b] s₁ ∧ log = .thrown (.rolled (basePool a b)) :: more := by
  have htext : toNotation " - D6" = .ok "2d10-d6" := eq_ok_of_toOption (by set_option maxRecDepth 2000 in decide)
  have hts : tokenize .dice "2d10-d6" = .ok [.argument (.single 2), .dice, .argument (.single 10), .binary .minus,
    .argument (.single 1), .dice, .argument (.single 6)] := rfl
  have hrun : (((evaluateText "2d10-d6" 100).on (.ofList [4, 9, 6])).1.toOption.bind fun _ => some ()) = some () := by
    set_option maxRecDepth 1000 in decide
  obtain ⟨⟨log, o⟩, s', hok, -⟩ := Rolling.exists_ok_of_toOption hrun
  exact ⟨htext, log, o, s', hok, (base_stands_and_rolls htext hts).2.2 _ rfl (by simp [Token.begins]) _ _ _ _ _ hok⟩

/-- A digit behind the base makes dice with a hundred and five sides. An operand behind it is the number of sides
if an operator misses its own: these are ten dice with six sides. -/
theorem base_does_not_stand :
    (toNotation "5" = .ok "2d105" ∧
      tokenize .dice "2d105" = .ok [.argument (.single 2), .dice, .argument (.single 105)] ∧
      (((evaluateText "2d105" 100).on (.ofList [60, 70])).1.toOption.map fun answer =>
        answer.1.flatMap Operation.pools) = some [⟨[.plain 105 60, .plain 105 70], [⟨2, 105⟩]⟩]) ∧
    toNotation "[6]+" = .ok "2d10[6]+" ∧
      (((evaluateText "2d10[6]+" 100).on (.ofList [1, 2, 3, 4, 5, 6, 1, 2, 3, 4])).1.toOption.map fun answer =>
        (answer.1.flatMap Operation.pools).map Pool.shapes) = some [[⟨10, 6⟩]] := by
  have hdigit : toNotation "5" = .ok "2d105" := eq_ok_of_toOption (by decide)
  have hlist : toNotation "[6]+" = .ok "2d10[6]+" := eq_ok_of_toOption (by set_option maxRecDepth 2000 in decide)
  exact ⟨⟨hdigit, rfl, by decide⟩, hlist, by decide⟩

end Shorthand.StoryShaper

end Tabletop
