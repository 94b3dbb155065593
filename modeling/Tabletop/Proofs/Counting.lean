import Mathlib.Data.List.GetD
import Mathlib.Logic.Basic
import Tabletop.Proofs.PoolRolls
import Tabletop.Proofs.StackRun

/-!
# Counts add up

A count is a sum over the dice, so that a merged pool counts what its parts count (`count_merge`).
Conversions in a row all count the same pool, and each adds to what was counted before it
(`Machine.turns_chain`), so that their order does not matter. A table of ones counts the dice that a
threshold counts: a table of successes ends at the highest face (`Die.successes_replicate`), and a table
of botches begins at the lowest one (`Die.botches_replicate`).
-/

namespace Tabletop

/-! ### Merged pools -/

namespace Conversion

variable {p q m : Pool}

theorem count_merge (h : p.merge q = .ok m) (c : Conversion) (arg : Argument) :
    (c.count m arg).value = (c.count p arg).value + (c.count q arg).value ∧
      (c.count m arg).breakdown = (c.count p arg).breakdown ++ (c.count q arg).breakdown := by
  obtain ⟨-, rfl⟩ := Pool.ofDice_ok_iff.1 h
  refine ⟨?_, List.map_append⟩
  simp only [count, List.map_append, sum_append, Int.mul_add]

/-! ### Conversions in a row -/

/-- The tokens of conversions in a row, each after its argument. -/
def chain (cs : List (Conversion × Argument)) : List Token :=
  cs.flatMap fun c => [.argument c.2, .conversion c.1]

/-- What the conversions count of one pool, taken together. -/
def total (p : Pool) (cs : List (Conversion × Argument)) : Int :=
  sum (cs.map fun c => (c.1.count p c.2).value)

theorem total_nil (p : Pool) : total p [] = 0 := rfl

theorem total_cons (p : Pool) (c : Conversion × Argument) (cs : List (Conversion × Argument)) :
    total p (c :: cs) = (c.1.count p c.2).value + total p cs := rfl

theorem total_of_perm {cs cs' : List (Conversion × Argument)} (h : cs.Perm cs') (p : Pool) :
    total p cs = total p cs' := sum_of_perm (h.map _)

end Conversion

/-- A pool of which so many successes were counted. -/
structure Operand.Counted (p : Pool) (n : Int) (o : Operand) : Prop where
  pool : o.toPool = .ok p
  successes : o.successes = n
  value : o.toValue = .ok (.successes n)

namespace Machine

open Conversion

variable {cap : Int} {ts ts' : List Token} {o o₁ o' : Operand} {ops ops' : List Operation} {p : Pool}

/-- On any stack, the tokens turn the latest operand into another one. They take no faces and log these
operations. -/
def Turns (cap : Int) (ts : List Token) (o : Operand) (ops : List Operation) (o' : Operand) : Prop :=
  ∀ stack log, ts.foldlM (step cap) ⟨o :: stack, log⟩ = pure ⟨o' :: stack, log ++ ops⟩

theorem Turns.append (h : Turns cap ts o ops o₁) (h' : Turns cap ts' o₁ ops' o') :
    Turns cap (ts ++ ts') o (ops ++ ops') o' := fun stack log => by
  rw [List.foldlM_append, h, pure_bind, h', List.append_assoc]

/-- A run goes on from the operand that the tokens before it leave. -/
theorem Turns.evaluate (h : Turns cap ts' o ops o') {s s' : Faces} {log : List Operation}
    (hrun : (evaluate ts cap).on s = (.ok (log, o), s')) :
    (evaluate (ts ++ ts') cap).on s = (.ok (log ++ ops, o'), s') := by
  rw [evaluate_ok_iff] at hrun ⊢
  rw [List.foldlM_append, Rolling.on_bind_ok_iff]
  refine ⟨_, s', hrun, ?_⟩
  rw [h, Rolling.on_pure]

theorem turns_conversion (cap : Int) (h : o.toPool = .ok p) (c : Conversion × Argument) :
    ∃ op o', Turns cap [.argument c.2, .conversion c.1] o [op] o' ∧
      Operand.Counted p (o.successes + (c.1.count p c.2).value) o' := by
  refine ⟨.thrown (.counted c.1 c.2 p o.successes), .thrown (.counted c.1 c.2 p o.successes),
    fun stack log => ?_, rfl, rfl, rfl⟩
  have hcounted : o.counted c.1 (.argument c.2) = .ok (.thrown (.counted c.1 c.2 p o.successes)) := by
    rw [Operand.counted, h]
    rfl
  change (do
    let op ← (liftM (o.counted c.1 (.argument c.2)) : Rolling Operation)
    pure (⟨op.operand :: stack, log ++ [op]⟩ : Machine)) >>= pure = _
  rw [hcounted]
  rfl

/-- Conversions in a row count one pool, each on top of those before it. -/
theorem turns_chain (h : o.toPool = .ok p) {cs : List (Conversion × Argument)} (hne : cs ≠ []) :
    ∃ ops o', Turns cap (chain cs) o ops o' ∧ Operand.Counted p (o.successes + total p cs) o' := by
  -- every conversion leaves another operand, but the pool in it stays the same
  induction cs generalizing o with
  | nil => exact absurd rfl hne
  | cons c cs ih =>
    obtain ⟨op, o₁, hturn, hcounted⟩ := turns_conversion cap h c
    cases cs with
    | nil => exact ⟨[op], o₁, hturn, by rwa [total_cons, total_nil, Int.add_zero]⟩
    | cons c' cs =>
      obtain ⟨ops, o', hturns, hcounted'⟩ := ih hcounted.pool (List.cons_ne_nil c' cs)
      refine ⟨op :: ops, o', hturn.append hturns, ?_⟩
      rwa [total_cons, ← Int.add_assoc, ← hcounted.successes]

end Machine

/-! ### Tables of ones -/

theorem length_le_sum {ns : List Int} (h : ∀ n ∈ ns, 1 ≤ n) : (ns.length : Int) ≤ sum ns := by
  induction ns with
  | nil => exact Int.le_refl 0
  | cons n ns ih =>
    obtain ⟨hn, hns⟩ := List.forall_mem_cons.1 h
    have := ih hns
    rw [List.length_cons, sum_cons]
    omega

namespace Die

variable {d : Die}

theorem Valid.one_le_result (h : d.Valid) (hd : 1 ≤ d.sides) : 1 ≤ d.result := by
  have hlength : 0 < d.parts.length := List.length_pos_iff.2 h.parts_ne_nil
  have hsum := length_le_sum fun part hpart => (h.parts hd part hpart).1
  rw [result_eq_sum]
  omega

/-- Such a table counts the dice that show more than the faces before it. -/
theorem successes_replicate {n : Nat} (hn : n ≠ 0) (d : Die) :
    d.successes (List.replicate n 1) = if (d.sides : Int) - n < d.result then 1 else 0 := by
  simp only [successes, List.length_replicate]
  by_cases hd : (d.sides : Int) - n < d.result
  · rw [if_pos hd, if_neg (by omega), List.getD_replicate _ (by omega)]
  · rw [if_neg hd, if_pos (by omega)]

theorem botches_replicate (n : Nat) (d : Die) :
    d.botches (List.replicate n 1) = if 1 ≤ d.result ∧ d.result ≤ n then 1 else 0 := by
  simp only [botches]
  by_cases hd : 1 ≤ d.result
  · by_cases hn : d.result ≤ n
    · rw [if_neg (by omega), if_pos ⟨hd, hn⟩, List.getD_replicate _ (by omega)]
    · rw [if_neg (by omega), if_neg fun h => hn h.2, List.getD_eq_default _ _ (by rw [List.length_replicate]; omega)]
  · rw [if_pos (by omega), if_neg fun h => hd h.1]

end Die

namespace Conversion

/-- Conversions that give every die of a pool the same score count the same, and show it alike. -/
theorem count_congr {c : Conversion} {p : Pool} {arg arg' : Argument}
    (h : ∀ d ∈ p.dice, c.score arg d = c.score arg' d) : c.count p arg = c.count p arg' := by
  have hscores : p.dice.map (c.score arg) = p.dice.map (c.score arg') := List.map_congr_left h
  have hentries : (p.dice.map fun die => ({ die, dropped := c.score arg die = 0 } : Entry)) =
      p.dice.map fun die => { die, dropped := c.score arg' die = 0 } :=
    List.map_congr_left fun d hd => by rw [h d hd]
  rw [count, count, hscores, hentries]

theorem count_target_ones {p : Pool} {sides n : Nat} (hp : ∀ d ∈ p.dice, d.sides = sides) (hsides : n ≤ sides) :
    target.count p (.list (List.replicate (sides - n + 1) 1)) = target.count p (.single n) := by
  refine count_congr fun d hd => ?_
  have hreach : (d.sides : Int) - (sides - n + 1 : Nat) < d.result ↔ (n : Int) ≤ d.result := by
    rw [hp d hd]
    omega
  simp only [score, List.map_replicate]
  exact (Die.successes_replicate (by omega) d).trans (if_congr hreach rfl rfl)

theorem count_botch_ones {p : Pool} (hp : ∀ d ∈ p.dice, 1 ≤ d.result) (n : Nat) :
    botch.count p (.list (List.replicate n 1)) = botch.count p (.single n) := by
  refine count_congr fun d hd => ?_
  simp only [score, List.map_replicate]
  exact (Die.botches_replicate n d).trans (if_congr (and_iff_right (hp d hd)) rfl rfl)

/-! ### The laws together -/

/-- Counts add up over merged pools, and over conversions in any order, all of which count the same pool
and leave it to be read. Tables of ones count what thresholds count. -/
theorem counts_add_up :
    (∀ (c : Conversion) (p q : Pool) (arg : Argument), p.size + q.size ≤ maxPoolSize →
      ∃ m, p.merge q = .ok m ∧ (c.count m arg).value = (c.count p arg).value + (c.count q arg).value ∧
        (c.count m arg).breakdown = (c.count p arg).breakdown ++ (c.count q arg).breakdown) ∧
    (∀ (p : Pool) (o : Operand) (cs cs' : List (Conversion × Argument)) (cap : Int),
      o.toPool = .ok p → o.successes = 0 → cs ≠ [] → cs'.Perm cs →
        ∃ ops o', o'.toValue = .ok (.successes (sum (cs.map fun c => (c.1.count p c.2).value))) ∧
          o'.toPool = .ok p ∧ Machine.Turns cap (chain cs') o ops o' ∧
          ∀ ts s s' log, (evaluate ts cap).on s = (.ok (log, o), s') →
            (evaluate (ts ++ chain cs') cap).on s = (.ok (log ++ ops, o'), s')) ∧
    ∀ (p : Pool) (sides n : Nat), (∀ d ∈ p.dice, d.Valid ∧ d.sides = sides) → 1 ≤ n → n ≤ sides →
      target.count p (.list (List.replicate (sides - n + 1) 1)) = target.count p (.single n) ∧
        botch.count p (.list (List.replicate n 1)) = botch.count p (.single n) := by
  refine ⟨fun c p q arg hsize => ?_, fun p o cs cs' cap hpool hnone hne hperm => ?_,
    fun p sides n hp hn hsides => ⟨?_, ?_⟩⟩
  · have hmerge : p.merge q = .ok ⟨p.dice ++ q.dice, p.shapes ++ q.shapes⟩ :=
      Pool.ofDice_ok_iff.2 ⟨by rwa [List.length_append], rfl⟩
    exact ⟨_, hmerge, count_merge hmerge c arg⟩
  · have hne' : cs' ≠ [] := fun hnil => hne (List.nil_perm.1 (hnil ▸ hperm))
    obtain ⟨ops, o', hturns, hcounted⟩ := Machine.turns_chain hpool hne'
    rw [hnone, Int.zero_add, total_of_perm hperm] at hcounted
    exact ⟨ops, o', hcounted.value, hcounted.pool, hturns, fun ts s s' log => hturns.evaluate⟩
  · exact count_target_ones (fun d hd => (hp d hd).2) hsides
  · exact count_botch_ones (fun d hd => (hp d hd).1.one_le_result (by rw [(hp d hd).2]; omega)) n

/-- Botches before successes on three dice, and a table of ones where a die exploded. -/
theorem counts_add_up_three_dice :
    let p : Pool := ⟨[.plain 6 5, .plain 6 1, .plain 6 6], [⟨3, 6⟩]⟩
    let q : Pool := ⟨[.compound 6 [6, 3], .plain 6 4], [⟨2, 6⟩]⟩
    (∃ m, p.merge q = .ok m ∧ (target.count m (.single 5)).value = 3) ∧
      (∃ log o, (evaluate [.argument (.single 3), .argument (.single 6), .dice, .argument (.single 1),
            .conversion botch, .argument (.single 5), .conversion target] 100).on (.ofList [5, 1, 6]) =
          (.ok (log, o), ⟨[], 3⟩) ∧
        o.toValue = .ok (.successes 1) ∧ o.toPool = .ok p) ∧
      target.count q (.list [1, 1]) = target.count q (.single 5) ∧
      (target.count q (.single 5)).value = 1 := by
  intro p q
  obtain ⟨hmerge, hchain, htables⟩ := counts_add_up
  refine ⟨?_, ?_, ?_, rfl⟩
  · obtain ⟨m, hm, hvalue, -⟩ := hmerge target p q (.single 5) (by decide)
    exact ⟨m, hm, hvalue⟩
  · obtain ⟨ops, o, hvalue, hpool, -, hrun⟩ := hchain p (.thrown (.rolled p)) [(target, .single 5), (botch, .single 1)]
      [(botch, .single 1), (target, .single 5)] 100 rfl rfl (by decide) (.swap _ _ _)
    exact ⟨_, o, hrun [.argument (.single 3), .argument (.single 6), .dice] (.ofList [5, 1, 6]) ⟨[], 3⟩ _ rfl,
      hvalue, hpool⟩
  · have hq : ∀ d ∈ q.dice, d.Valid ∧ d.sides = 6 := by
      simp [q, Die.Valid, Die.sides]
    exact (htables q 6 5 hq (by decide) (by decide)).1

end Conversion

end Tabletop
