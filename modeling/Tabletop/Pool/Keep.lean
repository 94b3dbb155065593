import Tabletop.Pool.Breakdown

/-!
# Keeping dice

The highest and the lowest dice are cut from the ascending order of the pool, in which equal dice
keep their places. The breakdown shows all dice in pool order.
-/

namespace Tabletop.Pool

/-- The dice with their places, from the lowest result to the highest. -/
def ascending (p : Pool) : List (Die × Nat) :=
  p.dice.zipIdx.mergeSort fun a b => a.1.result ≤ b.1.result

/-- Keeps chosen dice, in the order of the choice. -/
def keep (p : Pool) (chosen : List (Die × Nat)) : Except Error Change :=
  let places := chosen.map Prod.snd
  p.changeTo (chosen.map Prod.fst)
    (p.dice.zipIdx.map fun (die, i) => { die, dropped := !places.contains i })

/-- Keeps the `n` highest dice, or all if there are fewer; for a negative `n` none. -/
def keepHigh (p : Pool) (n : Int) : Except Error Change :=
  p.keep (p.ascending.drop (p.size - (min n p.size).toNat))

/-- Keeps the `n` lowest dice, or all if there are fewer; for a negative `n` all but the `-n`
highest. -/
def keepLow (p : Pool) (n : Int) : Except Error Change :=
  let count := if n < 0 then p.size + n else n
  p.keep (p.ascending.take count.toNat)

/-- Keeps the dice that show one of the results, in pool order. -/
def keepExact (p : Pool) (results : List Int) : Except Error Change :=
  p.keep (p.dice.zipIdx.filter fun (die, _) => results.contains die.result)

end Tabletop.Pool
