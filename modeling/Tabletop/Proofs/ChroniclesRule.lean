import Tabletop.Pool.Count
import Tabletop.Proofs.Explosions
import Tabletop.Proofs.PoolRolls

/-!
# The rule of Chronicles

The game itself is a few functions on faces (`deal`, `rerollFailures`, `explode`): dice are only the
numbers they show. The operations on pools do the same to pools of ten-sided dice. An explosion lays its
dice out chain by chain and the rule generation by generation, so that only the order is another one
(`Pool.Grows.perm`), and counting does not depend on it.
-/

namespace Tabletop

/-! ### What explosions add -/

namespace Pool

variable {faces : List Int} {block : List Int} {blocks : List (List Int)} {cs cs' : List Chain}

/-- The dice that are dealt join those that were there. -/
theorem Deals.perm (h : Deals faces cs block cs') :
    (cs'.flatMap Chain.dice).Perm (cs.flatMap Chain.dice ++ showing (liveSizes faces cs) block) := by
  induction h with
  | nil => exact .refl _
  | @live c face cs cs' block hc h ih =>
    let d : Die := .plain c.last.sides (Die.clamp c.last.sides face)
    have hshow : showing (c.last.sides :: liveSizes faces cs) (face :: block) =
        d :: showing (liveSizes faces cs) block := rfl
    rw [List.flatMap_cons, List.flatMap_cons, liveSizes_cons_of_live hc, hshow, Chain.dice_add,
      List.append_assoc, List.append_assoc]
    exact ((ih.cons d).trans List.perm_middle.symm).append_left c.dice
  | @still c cs cs' block hc h ih =>
    rw [List.flatMap_cons, List.flatMap_cons, liveSizes_cons_of_still hc, List.append_assoc]
    exact ih.append_left c.dice

theorem Grows.perm (h : Grows faces cs blocks cs') :
    (cs'.flatMap Chain.dice).Perm
      (cs.flatMap Chain.dice ++ (generations faces (liveSizes faces cs) blocks).flatten) := by
  induction h with
  | settled h =>
    rw [generations, List.flatten_nil, List.append_nil]
  | next hlive hdeals h ih =>
    refine ih.trans ?_
    rw [generations, List.flatten_cons, ← List.append_assoc, hdeals.liveSizes_eq]
    exact hdeals.perm.append_right _

end Pool

namespace Shorthand.Chronicles

/-! ### The game -/

/-- What a ten-sided die shows of a face. -/
def shown (face : Int) : Int := Die.clamp 10 face

/-- So many dice are rolled: what they show, and the faces that are left. -/
def deal (n : Nat) (faces : List Int) : Option (List Int × List Int) :=
  if n ≤ faces.length then some ((faces.take n).map shown, faces.drop n) else none

/-- A die that shows 7 or less is rolled once more. -/
def rerollFailure (r : Int) (faces : List Int) : Option (List Int × List Int) :=
  if r ≤ 7 then deal 1 faces else some ([r], faces)

/-- All failures are rolled once more, in order. -/
def rerollFailures : List Int → List Int → Option (List Int × List Int)
  | [], faces => some ([], faces)
  | r :: rs, faces => do
    let (now, faces) ← rerollFailure r faces
    let (later, faces) ← rerollFailures rs faces
    some (now ++ later, faces)

/-- Every die of the last generation that shows `again` or more adds a die to the next one: the dice
that are added. -/
def explode (again : Nat) (generation faces : List Int) : Option (List Int × List Int) :=
  let n := generation.countP fun r => (again : Int) ≤ r
  if n = 0 then some ([], faces)
  else if faces.length < n then none
  else do
    let next := (faces.take n).map shown
    let (later, faces) ← explode again next (faces.drop n)
    some (next ++ later, faces)
termination_by faces.length
decreasing_by
  rw [List.length_drop]
  omega

def rerollIf (rote : Bool) (rs faces : List Int) : Option (List Int × List Int) :=
  if rote then rerollFailures rs faces else some (rs, faces)

def explodeIf (again : Option Nat) (rs faces : List Int) : Option (List Int × List Int) :=
  match again with
  | some a => explode a rs faces
  | none => some ([], faces)

/-- The game on a list of faces: how many dice show 8 or more in the end, and the faces that are
left. -/
def simulate (again : Option Nat) (rote : Bool) (n : Nat) (faces : List Int) : Option (Nat × List Int) := do
  let (dice, faces) ← deal n faces
  let (dice, faces) ← rerollIf rote dice faces
  let (added, faces) ← explodeIf again dice faces
  some ((dice ++ added).countP fun r => 8 ≤ r, faces)

/-! ### The same on pools -/

def tenSided (rs : List Int) : List Die := rs.map (Die.plain 10)

theorem results_tenSided (rs : List Int) : (tenSided rs).map Die.result = rs := by
  rw [tenSided, List.map_map]
  exact List.map_id rs

/-- Results that a ten-sided die can have. -/
def Tens (rs : List Int) : Prop := ∀ r ∈ rs, 1 ≤ r ∧ r ≤ 10

theorem tens_shown (block : List Int) : Tens (block.map shown) := by
  intro r hr
  obtain ⟨face, -, rfl⟩ := List.mem_map.1 hr
  exact ⟨Die.one_le_clamp (by decide) face, Die.clamp_le face⟩

variable {rs : List Int} {s s' : Faces}

theorem deal_of_takes {block : List Int} (h : s.Takes block s') :
    deal block.length s.coming = some (block.map shown, s'.coming) := by
  rw [deal, h.coming, List.take_left, List.drop_left, if_pos (by simp)]

theorem deal_of_roll {n : Nat} (hn : n ≤ maxPoolSize) {p : Pool}
    (h : (Pool.roll (.single n) (.single 10)).on s = (.ok p, s')) :
    ∃ rs, deal n s.coming = some (rs, s'.coming) ∧ p.dice = tenSided rs ∧ Tens rs := by
  obtain ⟨block, rfl, htakes, rfl⟩ := (Pool.roll_single_ok_iff (by decide) hn).1 h
  refine ⟨block.map shown, deal_of_takes htakes, ?_, tens_shown block⟩
  rw [tenSided, List.map_map]
  rfl

/-! #### Rerolls -/

def rerollDie (again : Int → Bool) (r : Int) (faces : List Int) : Option (List Int × List Int) :=
  if again r then deal 1 faces else some ([r], faces)

/-- The dice with some results are rolled once more, in order. -/
def rerollWhere (again : Int → Bool) : List Int → List Int → Option (List Int × List Int)
  | [], faces => some ([], faces)
  | r :: rs, faces => do
    let (now, faces) ← rerollDie again r faces
    let (later, faces) ← rerollWhere again rs faces
    some (now ++ later, faces)

theorem rerollWhere_failure (rs faces : List Int) :
    rerollWhere (fun r => r ≤ 7) rs faces = rerollFailures rs faces := by
  have hone (r : Int) (faces : List Int) : rerollDie (fun r => r ≤ 7) r faces = rerollFailure r faces := by
    simp only [rerollDie, rerollFailure, decide_eq_true_eq]
  induction rs generalizing faces with
  | nil => rfl
  | cons r rs ih => simp only [rerollWhere, rerollFailures, hone, ih]

theorem length_deal {n : Nat} {faces rest : List Int} (h : deal n faces = some (rs, rest)) : rs.length = n := by
  rw [deal] at h
  split at h
  · cases h
    rw [List.length_map, List.length_take]
    omega
  · cases h

theorem length_rerollWhere {again : Int → Bool} {faces rs' rest : List Int}
    (h : rerollWhere again rs faces = some (rs', rest)) : rs'.length = rs.length := by
  induction rs generalizing faces rs' rest with
  | nil =>
    cases h
    rfl
  | cons r rs ih =>
    obtain ⟨⟨now, faces₁⟩, hnow, h⟩ := Option.bind_eq_some_iff.1 h
    obtain ⟨⟨later, faces₂⟩, hlater, h⟩ := Option.bind_eq_some_iff.1 h
    cases h
    have hone : now.length = 1 := by
      rw [rerollDie] at hnow
      split at hnow
      · exact length_deal hnow
      · cases hnow
        rfl
    rw [List.length_append, hone, ih hlater, List.length_cons, Nat.add_comm]

section Reroll

variable {chosen : List Int} {again : Int → Bool} (hagain : ∀ r, 1 ≤ r → chosen.contains r = again r)
include hagain

theorem deal_of_rerollDie {r : Int} (hr : 1 ≤ r ∧ r ≤ 10) {rep : Pool.Replacement}
    (h : (Pool.rerollDie .newer chosen (.plain 10 r)).on s = (.ok rep, s')) :
    ∃ r', rerollDie again r s.coming = some ([r'], s'.coming) ∧ rep.die = .plain 10 r' ∧ 1 ≤ r' ∧ r' ≤ 10 := by
  have hface : chosen.contains (Die.plain 10 r).face = again r := hagain r hr.1
  rw [Pool.rerollDie, hface] at h
  split at h
  · rename_i hwhere
    obtain ⟨d, s₁, hroll, h⟩ := Rolling.on_bind_ok h
    obtain ⟨rfl, rfl⟩ := Rolling.on_pure_ok h
    obtain ⟨face, htakes, rfl⟩ := (Die.roll_ok_iff (by decide)).1 hroll
    rw [rerollDie, if_pos hwhere]
    exact ⟨shown face, deal_of_takes htakes, rfl, Die.one_le_clamp (by decide) face, Die.clamp_le face⟩
  · rename_i hwhere
    obtain ⟨rfl, rfl⟩ := Rolling.on_pure_ok h
    rw [rerollDie, if_neg hwhere]
    exact ⟨r, rfl, rfl, hr⟩

theorem rerollWhere_of_mapM (hrs : Tens rs) {reps : List Pool.Replacement}
    (h : ((tenSided rs).mapM (Pool.rerollDie .newer chosen)).on s = (.ok reps, s')) :
    ∃ rs', rerollWhere again rs s.coming = some (rs', s'.coming) ∧
      reps.map Pool.Replacement.die = tenSided rs' ∧ Tens rs' := by
  induction rs generalizing s reps with
  | nil =>
    obtain ⟨rfl, rfl⟩ := Rolling.on_pure_ok h
    exact ⟨[], rfl, rfl, hrs⟩
  | cons r rs ih =>
    obtain ⟨hr, hrs⟩ := List.forall_mem_cons.1 hrs
    obtain ⟨rep, s₁, reps, hrep, hreps, rfl⟩ := Rolling.on_mapM_cons_ok_iff.1 h
    obtain ⟨r', hnow, hdie, hr'⟩ := deal_of_rerollDie hagain hr hrep
    obtain ⟨rs', hlater, hdice, hrs'⟩ := ih hrs hreps
    refine ⟨r' :: rs', ?_, ?_, List.forall_mem_cons.2 ⟨hr', hrs'⟩⟩
    · rw [rerollWhere, hnow]
      show (do let (later, faces) ← rerollWhere again rs s₁.coming; some ([r'] ++ later, faces)) = _
      rw [hlater]
      rfl
    · rw [List.map_cons, hdie, hdice]
      rfl

theorem rerollWhere_of_rerollOnce {p : Pool} (hp : p.dice = tenSided rs) (hrs : Tens rs) {c : Change}
    (h : (p.rerollOnce chosen).on s = (.ok c, s')) :
    ∃ rs', rerollWhere again rs s.coming = some (rs', s'.coming) ∧ c.pool.dice = tenSided rs' ∧ Tens rs' := by
  obtain ⟨reps, s₁, hreps, h⟩ := Rolling.on_bind_ok h
  obtain ⟨hchange, rfl⟩ := Rolling.on_liftM_ok h
  rw [hp] at hreps
  obtain ⟨rs', hlater, hdice, hrs'⟩ := rerollWhere_of_mapM hagain hrs hreps
  obtain ⟨pool, hpool, hchange⟩ := ok_of_bind hchange
  obtain ⟨-, -, hpool⟩ := ok_of_bind hpool
  cases hpool
  cases hchange
  exact ⟨rs', hlater, hdice, hrs'⟩

end Reroll

/-! #### Explosions -/

section Explode

variable {again : Nat} {tops : List Int}
  (htops : ∀ r, 1 ≤ r → r ≤ 10 → (tops.contains r = true ↔ (again : Int) ≤ r))
include htops

theorem triggers_tenSided (hrs : Tens rs) :
    Pool.triggers tops (tenSided rs) = List.replicate (rs.countP fun r => (again : Int) ≤ r) 10 := by
  induction rs with
  | nil => rfl
  | cons r rs ih =>
    obtain ⟨⟨hlow, hhigh⟩, hrs⟩ := List.forall_mem_cons.1 hrs
    have htop := htops r hlow hhigh
    rw [tenSided, List.map_cons]
    by_cases hr : (again : Int) ≤ r
    · rw [Pool.triggers_cons_of_pos (htop.2 hr), List.countP_cons_of_pos (by simpa using hr),
        List.replicate_succ]
      exact congrArg (10 :: ·) (ih hrs)
    · rw [Pool.triggers_cons_of_neg (eq_false_of_ne_true (mt htop.1 hr)),
        List.countP_cons_of_neg (by simpa using hr)]
      exact ih hrs

/-- Generations of ten-sided dice go as the rule says. -/
theorem explode_of_settles {blocks : List (List Int)} (hrs : Tens rs)
    (h : Pool.Settles tops (Pool.triggers tops (tenSided rs)) blocks) (rest : List Int) :
    explode again rs (blocks.flatten ++ rest) = some (blocks.flatten.map shown, rest) ∧
      (Pool.generations tops (Pool.triggers tops (tenSided rs)) blocks).flatten =
        tenSided (blocks.flatten.map shown) := by
  induction blocks generalizing rs with
  | nil =>
    have hnone : Pool.triggers tops (tenSided rs) = [] := h
    rw [triggers_tenSided htops hrs, List.replicate_eq_nil_iff] at hnone
    refine ⟨?_, rfl⟩
    rw [explode]
    simp [hnone]
  | cons block blocks ih =>
    -- the block has a face for every die that triggered, and shows the next generation
    obtain ⟨hne, hlen, h⟩ := h
    rw [triggers_tenSided htops hrs] at hne hlen
    rw [List.length_replicate] at hlen
    have hnext : Pool.showing (Pool.triggers tops (tenSided rs)) block = tenSided (block.map shown) := by
      rw [triggers_tenSided htops hrs, ← hlen, Pool.showing_replicate, tenSided, List.map_map]
      rfl
    rw [hnext] at h
    obtain ⟨hexplode, hgenerations⟩ := ih (tens_shown block) h
    have hsome : (rs.countP fun r => (again : Int) ≤ r) ≠ 0 := by simpa using hne
    constructor
    · rw [explode]
      dsimp only
      rw [if_neg hsome, if_neg (by rw [← hlen]; simp), ← hlen, List.flatten_cons, List.append_assoc,
        List.take_left, List.drop_left, hexplode, List.map_append]
      rfl
    · rw [Pool.generations, List.flatten_cons, hnext, hgenerations, List.flatten_cons, List.map_append,
        tenSided, tenSided, tenSided, List.map_append]

theorem explode_of_explodeRecursive {p : Pool} (hp : p.dice = tenSided rs) (hrs : Tens rs) {cap : Int}
    {c : Change} (h : (p.explodeRecursive tops cap).on s = (.ok c, s')) :
    ∃ added, explode again rs s.coming = some (added, s'.coming) ∧ c.pool.dice.Perm (tenSided (rs ++ added)) := by
  have hvalid : ∀ d ∈ p.dice, d.Valid := by
    rw [hp]
    intro d hd
    obtain ⟨r, hr, rfl⟩ := List.mem_map.1 hd
    exact .inr (hrs r hr)
  obtain ⟨cs, s₁, hexplosion, h⟩ := Rolling.on_bind_ok h
  obtain ⟨hline, rfl⟩ := Rolling.on_liftM_ok h
  obtain ⟨⟨⟩, -, hsettle⟩ := Rolling.on_liftM_bind_ok hexplosion
  obtain ⟨blocks, -, htakes, hgrows⟩ := Pool.settle_ok (Pool.linked_chains hvalid) hsettle
  obtain ⟨-, rfl⟩ := Pool.lineUp_ok_iff.1 hline
  have hsettles := hgrows.settles
  have hperm := hgrows.perm
  have hstart : p.chains.flatMap Pool.Chain.dice = p.dice := by
    rw [Pool.chains, List.flatMap_map]
    exact List.flatMap_singleton' _
  rw [Pool.liveSizes_chains, hp] at hsettles
  rw [Pool.liveSizes_chains, hstart, hp] at hperm
  obtain ⟨hexplode, hgenerations⟩ := explode_of_settles htops hrs hsettles s₁.coming
  refine ⟨blocks.flatten.map shown, ?_, ?_⟩
  · rw [htakes.coming]
    exact hexplode
  · rw [tenSided, List.map_append, ← tenSided, ← tenSided, ← hgenerations]
    exact hperm

end Explode

/-! #### Counting -/

theorem sum_score (rs : List Int) :
    sum ((tenSided rs).map (Conversion.target.score (.single 8))) =
      ((rs.countP fun r => 8 ≤ r : Nat) : Int) := by
  induction rs with
  | nil => rfl
  | cons r rs ih =>
    have hscore : Conversion.target.score (.single 8) (.plain 10 r) = if 8 ≤ r then 1 else 0 := rfl
    rw [tenSided, List.map_cons, List.map_cons, sum_cons, hscore, ← tenSided, ih]
    by_cases hr : 8 ≤ r
    · rw [if_pos hr, List.countP_cons_of_pos (by simpa using hr)]
      omega
    · rw [if_neg hr, List.countP_cons_of_neg (by simpa using hr), Int.zero_add]

theorem count_of_perm {p : Pool} (hp : p.dice.Perm (tenSided rs)) :
    (Conversion.target.count p (.single 8)).value = ((rs.countP fun r => 8 ≤ r : Nat) : Int) := by
  show 1 * sum (p.dice.map (Conversion.target.score (.single 8))) = _
  rw [Int.one_mul, sum_of_perm (hp.map _), sum_score]

end Shorthand.Chronicles

end Tabletop
