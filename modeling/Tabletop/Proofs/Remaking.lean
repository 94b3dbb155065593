import Tabletop.Proofs.SoundRoll

/-!
# Dice made through their checks

A die is checked when it is made: a face is refused that a die of its size does not have, and so is a
compound die without parts. Here dice are made through these checks wherever they are rolled
(`Die.rollChecked`), copied (`Die.remade`) or added up (`Pool.Chain.built`), and none is refused.
-/

namespace Tabletop

open Rolling

/-! ### Dice -/

namespace Die

/-- Rolls a die whose face is checked. -/
def rollChecked (sides : Nat) : Rolling Die :=
  if sides = 0 then ofFace 0 0
  else do
    let face ← Rolling.draw
    ofFace sides (clamp sides face)

variable {d : Die} {sides : Nat} {parts : List Int}

theorem ofFace_ok {shown : Int} (h : 1 ≤ shown ∧ shown ≤ sides) : ofFace sides shown = .ok (plain sides shown) := by
  have hsides : (sides : Int) ≠ 0 := by omega
  rw [ofFace, if_neg hsides, if_neg (by omega)]
  rfl

theorem ofParts_ok (hparts : parts ≠ []) (h : ∀ part ∈ parts, 1 ≤ part ∧ part ≤ sides) :
    ofParts sides parts = .ok (compound sides parts) := by
  have hbad : badPart? sides parts = none := by
    rw [badPart?]
    split
    · rfl
    · refine List.find?_eq_none.2 fun part hpart => ?_
      have := h part hpart
      simp only [decide_eq_true_eq]
      omega
  rw [ofParts, if_neg (by simpa using hparts), hbad]
  rfl

theorem Valid.remade (h : d.Valid) : d.remade = .ok d := by
  cases d with
  | plain sides shown =>
    rcases h with ⟨rfl, rfl⟩ | h
    · rfl
    · exact ofFace_ok h
  | compound sides parts => exact ofParts_ok h.1 h.2

/-- Whatever face is taken, the die that is rolled can show it. -/
theorem roll_eq_rollChecked (sides : Nat) : roll sides = rollChecked sides := by
  rw [roll, rollChecked]
  split
  · rfl
  · refine bind_congr fun face => ?_
    have hface : 1 ≤ clamp sides face ∧ clamp sides face ≤ sides :=
      ⟨one_le_clamp (Nat.pos_of_ne_zero ‹_›) face, clamp_le face⟩
    exact (liftM_ok (ofFace_ok hface)).symm

end Die

/-! ### Pools and changes -/

def Pool.remade (p : Pool) : Except Error Pool := do p.withDice (← p.dice.mapM Die.remade)

def Entry.remade (e : Entry) : Except Error Entry := do pure { e with die := ← e.die.remade }

def Change.remade (c : Change) : Except Error Change := do
  let pool ← c.pool.remade
  let breakdown ← c.breakdown.mapM Entry.remade
  pure ⟨pool, breakdown⟩

theorem Pool.Sound.remade {p : Pool} (hp : p.Sound) : p.remade = .ok p := by
  have hdice : p.dice.mapM Die.remade = .ok p.dice := mapM_ok_self fun d hd => (hp.dice d hd).valid.remade
  have hsize : checkSize p.dice.length = .ok () := checkSize_ok_iff.2 hp.size
  rw [Pool.remade, hdice]
  change ofDice p.dice p.shapes = .ok p
  rw [ofDice, hsize]
  rfl

theorem Change.Sound.remade {c : Change} (hc : c.Sound) : c.remade = .ok c := by
  have hbreakdown : c.breakdown.mapM Entry.remade = .ok c.breakdown := mapM_ok_self fun e he => by
    rw [Entry.remade, (hc.shown e he).valid.remade]
    rfl
  rw [Change.remade, hc.pool.remade, hbreakdown]
  rfl

/-! ### Additive explosion -/

namespace Pool

variable {p : Pool} {faces : List Int}

/-- The die that shows the whole chain, part by part. -/
def Chain.built (c : Chain) : Except Error Die :=
  if c.extras.isEmpty then c.root.remade
  else do
    let first ← Die.ofParts c.root.sides c.root.parts
    c.extras.foldlM (fun d extra => d.withPart extra.result) first

theorem foldlM_withPart {sides : Nat} {parts : List Int} {extras : List Die} (hparts : parts ≠ [])
    (h : ∀ part ∈ parts ++ extras.map Die.result, 1 ≤ part ∧ part ≤ sides) :
    extras.foldlM (fun (d : Die) extra => d.withPart extra.result) (.compound sides parts) =
      .ok (.compound sides (parts ++ extras.map Die.result)) := by
  induction extras generalizing parts with
  | nil => rw [List.map_nil, List.append_nil]; rfl
  | cons extra extras ih =>
    rw [List.map_cons, List.append_cons] at h ⊢
    have hpart : (Die.compound sides parts).withPart extra.result = .ok (.compound sides (parts ++ [extra.result])) :=
      Die.ofParts_ok (List.append_ne_nil_of_left_ne_nil hparts _) fun part hpart =>
        h part (List.mem_append_left _ hpart)
    rw [List.foldlM_cons, hpart]
    exact ih (List.append_ne_nil_of_left_ne_nil hparts _) h

/-- A chain is built without a refusal if the die that it makes can be. -/
theorem Chain.built_of_valid {c : Chain} (hroot : c.root.Valid) (hsum : c.sum.Valid) : c.built = .ok c.sum := by
  unfold Chain.built Chain.sum
  unfold Chain.sum at hsum
  split
  · exact hroot.remade
  · rw [if_neg ‹_›] at hsum
    obtain ⟨-, hparts⟩ := hsum
    rw [Die.ofParts_ok hroot.parts_ne_nil fun part hpart => hparts part (List.mem_append_left _ hpart)]
    exact foldlM_withPart hroot.parts_ne_nil hparts

def explodeAdditiveChecked (p : Pool) (faces : List Int) (cap : Int) : Rolling Change := do
  let cs ← p.explosion faces cap
  let dice ← (cs.mapM Chain.built : Except Error (List Die))
  p.changeTo dice (dice.map fun die => { die })

theorem explodeAdditiveChecked_eq {cap : Int}
    (h : (p.explosion faces cap).Yields fun cs => ∀ c ∈ cs, c.root.Valid ∧ c.sum.Valid) :
    p.explodeAdditiveChecked faces cap = p.explodeAdditive faces cap := by
  refine bind_congr_of_yields h fun cs hcs => ?_
  have hbuilt : cs.mapM Chain.built = .ok (cs.map Chain.sum) :=
    mapM_ok fun c hc => Chain.built_of_valid (hcs c hc).1 (hcs c hc).2
  rw [liftM_ok hbuilt, pure_bind]

theorem Sound.explodeAdditiveChecked (hp : p.Sound) (faces : List Int) (cap : Int) :
    p.explodeAdditiveChecked faces cap = p.explodeAdditive faces cap :=
  explodeAdditiveChecked_eq ((hp.explosion cap).mono fun _ hcs c hc =>
    ⟨(hcs c hc).1.root.valid, ((hcs c hc).1.sum (hcs c hc).2).valid⟩)

end Pool

/-- An operation whose dice are made through their checks. -/
def PoolMode.applyChecked (mode : PoolMode) (p : Pool) (arg : Argument) (cap : Int) : Rolling Change :=
  match mode with
  | explode .additive => p.explodeAdditiveChecked arg.faces cap
  | mode => mode.apply p arg cap

theorem PoolMode.applyChecked_eq (mode : PoolMode) {p : Pool} (hp : p.Sound) (arg : Argument) (cap : Int) :
    mode.applyChecked p arg cap = mode.apply p arg cap := by
  unfold applyChecked
  split
  · exact hp.explodeAdditiveChecked arg.faces cap
  · rfl

/-! ### Operands and operations -/

def Throw.remade : Throw → Except Error Throw
  | rolled pool => do pure (rolled (← pool.remade))
  | changed op arg change => do pure (changed op arg (← change.remade))
  | counted c arg pool base => do pure (counted c arg (← pool.remade) base)
  | read kind pool => do pure (read kind (← pool.remade))

/-- The copies that an operation works on. -/
def Operand.copies (o : Operand) : Except Error (List Pool) := o.pools.mapM Pool.remade

def Operation.remade : Operation → Except Error Operation
  | merged pool => do pure (merged (← pool.remade))
  | thrown t => do pure (thrown (← t.remade))
  | op => pure op

theorem Operand.Sound.copies {o : Operand} (h : o.Sound) : o.copies = .ok o.pools :=
  mapM_ok_self fun p hp => (h.pools p hp).remade

theorem Throw.remade_ok {t : Throw} (hpool : t.pool.Sound) (hshown : ∀ d ∈ (Operation.thrown t).shown, d.Sound) :
    t.remade = .ok t := by
  cases t with
  | rolled pool =>
    have hpool : pool.remade = .ok pool := Pool.Sound.remade hpool
    rw [remade, hpool]
    rfl
  | changed op arg change =>
    have hchange : change.Sound := ⟨hpool, fun e he => hshown e.die (List.mem_map_of_mem he)⟩
    rw [remade, hchange.remade]
    rfl
  | counted c arg pool base =>
    have hpool : pool.remade = .ok pool := Pool.Sound.remade hpool
    rw [remade, hpool]
    rfl
  | read kind pool =>
    have hpool : pool.remade = .ok pool := Pool.Sound.remade hpool
    rw [remade, hpool]
    rfl

theorem Operation.Sound.remade {op : Operation} (h : op.Sound) : op.remade = .ok op := by
  cases op with
  | merged pool =>
    rw [Operation.remade, (h.pools pool List.mem_cons_self).remade]
    rfl
  | thrown t =>
    rw [Operation.remade, Throw.remade_ok (h.pools _ List.mem_cons_self) h.shown]
    rfl
  | negated | combined | applied => rfl

end Tabletop
