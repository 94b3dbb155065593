import Tabletop.Proofs.ChroniclesRolls
import Tabletop.Proofs.SoundPool

/-!
# Dice that grow

Where a die is rolled on and the new face is added to it, a game knows the die by two numbers: what it
counts for, and the face that came last (`Growing`). Every die whose last face is the top one grows, all
of a generation before the next one (`explode`). An additive explosion of ten-sided dice does the same to
its chains (`explode_of_explodeAdditive`): the sum of a chain is what its die counts for.
-/

namespace Tabletop

open Shorthand.Chronicles

/-! ### Sums of chains -/

namespace Pool

variable {tops : List Int} {block : List Int} {cs cs' : List Chain} {n : Nat}

namespace Chain

theorem isLive_singleton {top : Int} {c : Chain} : c.isLive [top] = true ↔ c.last.face = top := by
  simp [isLive]

end Chain

theorem Deals.sides_last (h : Deals tops cs block cs') (hcs : ∀ c ∈ cs, c.last.sides = n) :
    ∀ c ∈ cs', c.last.sides = n := by
  induction h with
  | nil => exact hcs
  | live _ _ ih =>
    obtain ⟨hc, hcs⟩ := List.forall_mem_cons.1 hcs
    refine List.forall_mem_cons.2 ⟨?_, ih hcs⟩
    rw [Chain.last_add]
    exact hc
  | still _ _ ih =>
    obtain ⟨hc, hcs⟩ := List.forall_mem_cons.1 hcs
    exact List.forall_mem_cons.2 ⟨hc, ih hcs⟩

end Pool

namespace Shorthand

/-! ### The rule -/

/-- A die that further faces are added to. -/
structure Growing where
  value : Int
  /-- The face that came last. -/
  last : Int
deriving DecidableEq

namespace Growing

/-- A die that was rolled once. -/
def fresh (r : Int) : Growing := ⟨r, r⟩

def add (d : Growing) (face : Int) : Growing := ⟨d.value + shown face, shown face⟩

/-- The faces go to the dice that showed the top last, one to each, in order. -/
def addFaces (top : Int) : List Growing → List Int → List Growing
  | [], _ => []
  | ds, [] => ds
  | d :: ds, face :: faces =>
    if d.last = top then d.add face :: addFaces top ds faces else d :: addFaces top ds (face :: faces)

/-- Every die that showed the top last grows, until no die does: the dice, and the faces that are
left. -/
def explode (top : Int) (ds : List Growing) (faces : List Int) : Option (List Growing × List Int) :=
  let n := ds.countP fun d => d.last = top
  if n = 0 then some (ds, faces)
  else if faces.length < n then none
  else explode top (addFaces top ds (faces.take n)) (faces.drop n)
termination_by faces.length
decreasing_by
  rw [List.length_drop]
  omega

/-! ### Chains grow as the rule says -/

/-- A chain as one die. -/
def ofChain (c : Pool.Chain) : Growing := ⟨c.sum.result, c.last.face⟩

variable {top : Int} {block : List Int} {blocks : List (List Int)} {cs cs' : List Pool.Chain}

theorem ofChain_add {c : Pool.Chain} (hc : c.last.sides = 10) (face : Int) :
    ofChain (c.add face) = (ofChain c).add face := by
  have hlast : (c.add face).last = .plain 10 (shown face) := by
    rw [Pool.Chain.last_add, hc]
    rfl
  have hextras : (c.add face).extras = c.extras ++ [.plain 10 (shown face)] := by
    rw [Pool.Chain.add, hc]
    rfl
  have hvalue : (c.add face).sum.result = c.sum.result + shown face := by
    rw [Pool.Chain.result_sum, Pool.Chain.result_sum, hextras, List.map_append, sum_append, Int.add_assoc,
      Pool.Chain.root_add]
    simp [Die.result]
  rw [ofChain, hvalue, hlast]
  rfl

theorem addFaces_of_deals (h : Pool.Deals [top] cs block cs') (hcs : ∀ c ∈ cs, c.last.sides = 10) :
    addFaces top (cs.map ofChain) block = cs'.map ofChain := by
  induction h with
  | nil => rfl
  | live hc _ ih =>
    obtain ⟨hsides, hcs⟩ := List.forall_mem_cons.1 hcs
    have htop : (ofChain _).last = top := Pool.Chain.isLive_singleton.1 hc
    rw [List.map_cons, addFaces, if_pos htop, ih hcs, ← ofChain_add hsides]
    rfl
  | @still c cs cs' block hc h ih =>
    obtain ⟨-, hcs⟩ := List.forall_mem_cons.1 hcs
    cases block with
    | nil =>
      rw [h.eq_of_nil]
      rfl
    | cons face block =>
      have hstill : (ofChain c).last ≠ top := mt Pool.Chain.isLive_singleton.2 (ne_true_of_eq_false hc)
      rw [List.map_cons, addFaces, if_neg hstill, ih hcs]
      rfl

theorem countP_ofChain (top : Int) (cs : List Pool.Chain) :
    (cs.map ofChain).countP (fun d => d.last = top) = (Pool.liveSizes [top] cs).length := by
  rw [List.countP_map, ← Pool.countP_isLive]
  refine List.countP_congr fun c _ => ?_
  rw [Pool.Chain.isLive_singleton]
  exact decide_eq_true_iff

/-- Generations of ten-sided dice go as the rule says. -/
theorem explode_of_grows (h : Pool.Grows [top] cs blocks cs') (hcs : ∀ c ∈ cs, c.last.sides = 10)
    (rest : List Int) :
    explode top (cs.map ofChain) (blocks.flatten ++ rest) = some (cs'.map ofChain, rest) := by
  induction h with
  | settled h =>
    rw [explode, countP_ofChain, h]
    rfl
  | @next cs cs₁ cs' block blocks hlive hdeals _ ih =>
    have hsome : (Pool.liveSizes [top] cs).length ≠ 0 := mt List.length_eq_zero_iff.1 hlive
    rw [← hdeals.length_eq] at hsome
    rw [explode, countP_ofChain, ← hdeals.length_eq, if_neg hsome, if_neg (by simp), List.flatten_cons,
      List.append_assoc, List.take_left, List.drop_left, addFaces_of_deals hdeals hcs, ih (hdeals.sides_last hcs)]

/-- An additive explosion of ten-sided dice plays the rule, and leaves as many ten-sided dice. -/
theorem explode_of_explodeAdditive {p : Pool} {rs : List Int} (hp : p.dice = tenSided rs) (hrs : Tens rs)
    {cap : Int} {c : Change} {s s' : Faces} (h : (p.explodeAdditive [top] cap).on s = (.ok c, s')) :
    ∃ ds, explode top (rs.map fresh) s.coming = some (ds, s'.coming) ∧ c.pool.results = ds.map value ∧
      ds.length = rs.length ∧ ∀ d ∈ c.pool.dice, d.sides = 10 := by
  have hten : ∀ d ∈ p.dice, d.Valid ∧ d.sides = 10 := by
    rw [hp]
    intro d hd
    obtain ⟨r, hr, rfl⟩ := List.mem_map.1 hd
    exact ⟨.inr (hrs r hr), rfl⟩
  obtain ⟨cs, s₁, hexplosion, h⟩ := Rolling.on_bind_ok h
  obtain ⟨hchange, rfl⟩ := Rolling.on_liftM_ok h
  obtain ⟨-, rfl⟩ := Pool.changeTo_ok_iff.1 hchange
  have hvalid : ∀ d ∈ p.dice, d.Valid := fun d hd => (hten d hd).1
  obtain ⟨blocks, -, htakes, hgrows⟩ := Pool.explosion_ok hvalid hexplosion
  have hroots := (hgrows.explosion hvalid).roots
  have hsides : ∀ c ∈ p.chains, c.last.sides = 10 := by
    intro c hc
    obtain ⟨d, hd, rfl⟩ := List.mem_map.1 hc
    exact (hten d hd).2
  have hstart : p.chains.map ofChain = rs.map fresh := by
    rw [Pool.chains, hp, tenSided, List.map_map, List.map_map]
    rfl
  refine ⟨cs.map ofChain, ?_, ?_, ?_, fun d hd => ?_⟩
  · rw [htakes.coming, ← hstart]
    exact explode_of_grows hgrows hsides s₁.coming
  · rw [Pool.results, List.map_map, List.map_map]
    rfl
  · rw [List.length_map, ← List.length_map Pool.Chain.root, hroots, hp, tenSided, List.length_map]
  · obtain ⟨c, hc, rfl⟩ := List.mem_map.1 hd
    rw [Pool.Chain.sides_sum]
    exact (hten c.root (hroots ▸ List.mem_map_of_mem hc)).2

/-- Dice that have grown, in a pool that was not counted yet. -/
structure Shown (o : Operand) (ds : List Growing) : Prop where
  uncounted : o.successes = 0
  pool : ∃ p, o.toPool = .ok p ∧ p.results = ds.map value ∧ ∀ d ∈ p.dice, d.sides = 10

/-- An additive explosion in a chain. -/
theorem explode_of_eval {cap : Int} {y : Tree Constant} {link : Link} {log : List Operation} {o : Operand}
    {s s' : Faces} {n : Nat} (hop : link.op = .pool (.explode (some .additive))) (harg : link.arg = .single n)
    (h : ((y.chain [link]).eval cap).on s = (.ok (log, o), s')) :
    ∃ log' l s₁, (y.eval cap).on s = (.ok (log', l), s₁) ∧
      ∀ rs, Shows l (tenSided rs) → Tens rs → ∃ ds, explode n (rs.map fresh) s₁.coming = some (ds, s'.coming) ∧
        Shown o ds ∧ ds.length = rs.length := by
  obtain ⟨log', l, s₁, pool, change, hrun, hpool, happly, rfl⟩ := Tree.eval_chain_pool_ok hop h
  refine ⟨log', l, s₁, hrun, fun rs hshows hrs => ?_⟩
  obtain ⟨-, p, hp, hdice⟩ := hshows
  cases hp.symm.trans hpool
  rw [harg] at happly
  obtain ⟨ds, hexplode, hresults, hlen, hsides⟩ := explode_of_explodeAdditive hdice hrs happly
  exact ⟨ds, hexplode, ⟨rfl, change.pool, rfl, hresults, hsides⟩, hlen⟩

end Growing

end Shorthand

end Tabletop
