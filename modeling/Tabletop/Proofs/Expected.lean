import Tabletop.Proofs.Failures
import Tabletop.Proofs.Guarded
import Tabletop.Proofs.Locality

/-!
# Evaluation fails as expected

What a player may run into is a mistake in the formula or the end of the faces (`Error.isExpected`). The
machine with every check fails in no other way, and the log that it leaves can be shown: an operation adds
a fixed weight at most, and a formula has no more than two operations for a character, so that nothing
becomes too heavy to be shown.
-/

namespace Tabletop

open Rolling

/-- The player made a mistake that the notation knows of, or the faces ran out. -/
def Error.isExpected : Error → Bool
  | notRolled _ | unknownSymbol _ => false
  | outOfFaces _ => true
  | e => e.isForPlayers

theorem Error.isExpected_of_isOfBrackets (e : Error) (h : e.isOfBrackets = true) : e.isExpected = true := by
  cases e <;> first | rfl | cases h

theorem Error.isExpected_of_isOfReckoning (e : Error) (h : e.isOfReckoning = true) : e.isExpected = true := by
  cases e <;> first | rfl | cases h

theorem Error.isExpected_of_isOfDice (e : Error) (h : e.isOfDice = true) : e.isExpected = true := by
  cases e <;> first | rfl | cases h

theorem Error.ofRun_isExpected : Error.OfRun isExpected :=
  ⟨isExpected_of_isOfReckoning, fun _ => rfl, fun _ => rfl, fun _ => rfl⟩

/-! ### How many tokens there are -/

namespace Lexeme

theorem length_scan_le (skip : Nat) (s : List Char) : (scan skip s).length ≤ s.length := by
  induction s generalizing skip with
  | nil => cases skip <;> exact Nat.le_refl _
  | cons c cs ih =>
    cases skip with
    | zero => exact Nat.succ_le_succ (ih _)
    | succ skip => exact Nat.le_succ_of_le (ih skip)

theorem length_tokens_le {mode : Mode} {bare : Bool} {l : Lexeme} {ts : List Token} (h : l.tokens mode bare = .ok ts) :
    ts.length ≤ 2 := by
  cases gives_of_tokens h with
  | plus => exact Nat.zero_le 2
  | dice => exact Nat.le_refl 2
  | _ => exact Nat.le_succ 1

end Lexeme

theorem length_le_of_tokensOf {mode : Mode} {bare : Bool} {ls : List Lexeme} {ts : List Token}
    (h : tokensOf mode bare ls = .ok ts) : ts.length ≤ 2 * ls.length := by
  induction ls generalizing bare ts with
  | nil =>
    cases h
    exact Nat.le_refl _
  | cons l ls ih =>
    obtain ⟨ts₁, ts₂, h₁, h₂, rfl⟩ := tokensOf_cons_ok_iff.1 h
    have := Lexeme.length_tokens_le h₁
    have := ih h₂
    rw [List.length_append, List.length_cons]
    omega

theorem length_le_of_tokenize {mode : Mode} {formula : String} {ts : List Token} (h : tokenize mode formula = .ok ts) :
    ts.length ≤ 2 * formula.length := by
  have htokens := length_le_of_tokensOf h
  have hscan := Lexeme.length_scan_le 0 (Text.squeeze formula.toList)
  have hsqueeze : (Text.squeeze formula.toList).length ≤ formula.toList.length := List.length_filter_le _ _
  rw [String.length_toList] at hsqueeze
  rw [Lexeme.ofText] at htokens
  omega

/-! ### Failures -/

theorem showable_lt : showable < 2 ^ (200 * 2) := by
  rw [Nat.pow_mul, showable]
  norm_num

/-- A run fails as expected if all that it may come to can be shown. -/
theorem failsOnly_isExpected {ps : List Token} (hmachine : ∀ t ∈ ps, t.isForMachine = true)
    (hbounded : ∀ t ∈ ps, t.Bounded) (hlength : growth * ps.length ≤ showable) (cap : Int) :
    (evaluate ps cap).FailsOnly (·.isExpected) := by
  refine failsOnly_evaluate Error.ofRun_isExpected
    (I := fun ts m => ts ⊆ ps ∧ ∃ n, m.Within n ∧ n + growth * ts.length ≤ showable) ?_ ?_ ?_ hmachine
    fun _ _ _ => Error.isExpected_of_isOfDice
  · rintro ts m ⟨-, n, hm, hn⟩ o ho
    have hweight : o.weight ≤ showable := Nat.le_trans (hm.weight_le ho) (by omega)
    exact Operand.tame_of_weight (Nat.lt_of_le_of_lt hweight showable_lt) (Nat.le_refl _)
  · rintro t ts m ⟨hsub, n, hm, hn⟩
    rw [List.length_cons, Nat.mul_succ] at hn
    refine (hm.step (hbounded t (hsub List.mem_cons_self)) cap).mono fun m' hm' => ⟨?_, n + growth, hm', by omega⟩
    exact List.Subset.trans (List.subset_cons_self t ts) hsub
  · exact ⟨List.Subset.refl ps, 0, Machine.within_empty, by omega⟩

/-- A run that complains about the supply of faces has used it up. -/
theorem Rolling.Local.coming_eq_nil {α : Type} {m : Rolling α} (hm : m.Local) {s s' : Faces} {n : Nat}
    (h : m.on s = (.error (.outOfFaces n), s')) : s'.coming = [] := by
  obtain ⟨faces, used⟩ := s
  rcases hm faces with ⟨taken, rest, r, rfl, hends⟩ | hout
  · rw [hends.on_append] at h
    exact absurd (Prod.mk.inj h).1 (hends.enough n)
  · rw [hout.on_eq] at h
    obtain ⟨-, rfl⟩ := Prod.mk.inj h
    rfl

/-! ### The log -/

namespace Guarded

/-- What is left of a run without the operands of its operations. -/
def erased (run : List Record × Operand) : List Operation × Operand := (run.1.map Record.operation, run.2)

/-- The checks change nothing, and leave a log that can be described. -/
theorem evaluate_erased {ps : List Token} (hbounded : ∀ t ∈ ps, t.Bounded) (hlength : growth * ps.length ≤ showable)
    (cap : Int) : erased <$> evaluate ps cap = Tabletop.evaluate ps cap ∧
      (evaluate ps cap).Yields fun (log, o) => (∀ r ∈ log, r.Described) ∧ o.weight ≤ showable := by
  have hlength' : 0 + growth * ps.length ≤ showable := by omega
  obtain ⟨hplain, hdescribed⟩ :=
    foldlM_plain hbounded (m := {}) (List.forall_mem_nil _) Tabletop.Machine.within_empty hlength' cap
  have hwithin : (ps.foldlM (Machine.step cap) {}).Yields fun m => m.plain.Within (growth * ps.length) := by
    refine Yields.of_map ?_
    rw [hplain]
    exact Tabletop.Machine.run_within hbounded cap
  refine ⟨?_, ?_⟩
  · rw [Tabletop.evaluate]
    change _ = ps.foldlM (Tabletop.Machine.step cap) (Machine.plain {}) >>= _
    rw [← hplain, evaluate, map_bind, bind_map_left]
    refine bind_congr fun m => ?_
    obtain ⟨stack, log⟩ := m
    rcases stack with _ | ⟨o, _ | ⟨o', stack⟩⟩ <;> rfl
  · have hboth : (ps.foldlM (Machine.step cap) {}).Yields fun m => m.Described ∧ m.plain.Within (growth * ps.length) :=
      fun _ _ _ h => ⟨hdescribed h, hwithin h⟩
    refine hboth.bind fun m hm => ?_
    obtain ⟨hlog, hm⟩ := hm
    split
    · rename_i o hstack
      have ho : o ∈ m.plain.stack := List.mem_of_mem_head? (by rw [Machine.plain, hstack]; rfl)
      exact .pure ⟨hlog, Nat.le_trans (hm.weight_le ho) hlength⟩
    · exact .throw _

/-- A described log is formatted as the roll is. -/
theorem format_ok {Owner : Type} {log : List Record} (hlog : ∀ r ∈ log, r.Described) {v : Value}
    (hv : v.weight ≤ showable) (o : Order Owner) (escape : String → String) (roller : String) :
    format o log v escape roller =
      .ok (Roll.format ⟨o.command, o.comment, log.map Record.operation, v, o.owner⟩ escape roller true) := by
  have hlines : (log.mapM fun r => do
      let text ← r.describe
      pure ("> " ++ text) : Except Error (List String)) = .ok (log.map fun r => "> " ++ r.operation.text) :=
    mapM_ok fun r hr => by
      rw [show r.describe = _ from hlog r hr]
      rfl
  rw [format, Value.shown_ok hv, hlines]
  cases log with
  | nil => rfl
  | cons r log =>
    rw [Roll.format]
    simp only [List.map_map]
    rfl

end Guarded

/-- Reading a formula into postfix order, running it and taking its value fail for the player's mistakes or
for want of faces only, with all dice made and copied through their checks. After a run every entry of
the log is described, every pool in it is there, and the roll is shown with all its operations. -/
theorem evaluation_fails_as_expected {mode : Mode} {formula : String} {ts : List Token}
    (hlength : formula.length < 10 ^ 100) (hts : tokenize mode formula = .ok ts) (cap : Int) :
    (∀ sides, Die.roll sides = Die.rollChecked sides) ∧ Refuses Error.isExpected (toPostfix ts) ∧
      ∀ ps, toPostfix ts = .ok ps →
        Guarded.erased <$> Guarded.evaluate ps cap = evaluate ps cap ∧
        (∀ s e s', (Guarded.evaluate ps cap).on s = (.error e, s') →
          e.isExpected = true ∧ ∀ n, e = .outOfFaces n → s'.remaining = 0) ∧
        ∀ s log o s', (Guarded.evaluate ps cap).on s = (.ok (log, o), s') →
          Refuses Error.isExpected o.toValue ∧
          (∀ r ∈ log, r.describe = .ok r.operation.text ∧
            ∀ t, r.operation = .thrown t → r.operation.operand.toPool = .ok t.pool) ∧
          ∀ v, o.toValue = .ok v → ∀ (Owner : Type) (order : Order Owner) (escape : String → String) (roller : String),
            Guarded.format order log v escape roller =
              .ok (Roll.format ⟨order.command, order.comment, log.map Guarded.Record.operation, v, order.owner⟩ escape
                roller true) := by
  refine ⟨Die.roll_eq_rollChecked, (refuses_toPostfix ts).mono Error.isExpected_of_isOfBrackets, fun ps hps => ?_⟩
  have hbounded : ∀ t ∈ ps, t.Bounded := fun t ht => bounded_of_tokenize hts t (subset_of_toPostfix hps ht)
  have hsize : growth * ps.length ≤ showable := by
    have htokens := length_le_of_tokenize hts
    have hpostfix := length_le_of_toPostfix hps
    have hbudget : growth * (2 * 10 ^ 100) ≤ showable := by
      unfold growth showable maxArgument maxPoolSize
      norm_num
    exact Nat.le_trans (Nat.mul_le_mul_left _ (by omega)) hbudget
  obtain ⟨herased, hyields⟩ := Guarded.evaluate_erased hbounded hsize cap
  refine ⟨herased, fun s e s' h => ?_, fun s log o s' h => ?_⟩
  · have hplain : (evaluate ps cap).on s = (.error e, s') := by
      rw [← herased, map_eq_pure_bind, on_bind, h]
    refine ⟨failsOnly_isExpected (isForMachine_of_toPostfix hps) hbounded hsize cap hplain, ?_⟩
    rintro n rfl
    rw [Faces.remaining, (local_evaluate ps cap).coming_eq_nil hplain, List.length_nil]
  · obtain ⟨hlog, ho⟩ := hyields h
    refine ⟨o.refuses_toValue.mono Error.isExpected_of_isOfReckoning, fun r hr => ⟨hlog r hr, ?_⟩, ?_⟩
    · rintro t ht
      rw [ht]
      rfl
    · intro v hv Owner order escape roller
      exact Guarded.format_ok hlog (Nat.le_trans (Operand.weight_of_toValue hv) ho) order escape roller

/-- A die that grows by explosion is described by its parts. -/
theorem evaluation_fails_as_expected_explosion :
    "2d6ea6".length < 10 ^ 100 ∧ ∃ ts ps log o s', tokenize .dice "2d6ea6" = .ok ts ∧ toPostfix ts = .ok ps ∧
      (Guarded.evaluate ps 100).on (.ofList [6, 3, 5]) = (.ok (log, o), s') ∧
      log.map Guarded.Record.describe = [.ok "2d6 -> [6, 3]", .ok "ea6 -> [6+5=11, 3] = 14"] := by
  have hlength : "2d6ea6".length < 10 ^ 100 := by decide
  have hrun : ((tokenize .dice "2d6ea6").toOption.bind fun ts => (toPostfix ts).toOption.bind fun ps =>
      ((Guarded.evaluate ps 100).on (.ofList [6, 3, 5])).1.toOption.map fun run =>
        run.1.map fun r => r.operation.text) = some ["2d6 -> [6, 3]", "ea6 -> [6+5=11, 3] = 14"] := by
    decide +kernel
  obtain ⟨ts, hts, hrun⟩ := Option.bind_eq_some_iff.1 hrun
  obtain ⟨ps, hps, hrun⟩ := Option.bind_eq_some_iff.1 hrun
  obtain ⟨⟨log, o⟩, hok, htexts⟩ := Option.map_eq_some_iff.1 hrun
  have hts := eq_ok_of_toOption hts
  have hps := eq_ok_of_toOption hps
  obtain ⟨-, -, hruns⟩ := evaluation_fails_as_expected hlength hts 100
  obtain ⟨-, -, hlogs⟩ := hruns ps hps
  have hon : (Guarded.evaluate ps 100).on (.ofList [6, 3, 5]) =
      (.ok (log, o), ((Guarded.evaluate ps 100).on (.ofList [6, 3, 5])).2) := Prod.ext (eq_ok_of_toOption hok) rfl
  obtain ⟨-, hlog, -⟩ := hlogs _ log o _ hon
  refine ⟨hlength, ts, ps, log, o, _, hts, hps, hon, ?_⟩
  have hdescribed : log.map Guarded.Record.describe = (log.map fun r => r.operation.text).map .ok := by
    rw [List.map_map]
    exact List.map_congr_left fun r hr => (hlog r hr).1
  rw [hdescribed, htexts]
  rfl

end Tabletop
