import Tabletop.Proofs.Generations

/-!
# Explosions settle as their chains grow

`Grows` deals block after block to the chains of a pool. An explosion settles where its chains grow
within the limits, and only there (`settle_ok`, `settle_of_grows`). So what a recursive explosion makes
can be read along the chains, which it lays out in pool order, and across them, which is the order
in which the faces were taken.
-/

namespace Tabletop.Pool

open Rolling

variable {faces : List Int} {block : List Int} {blocks : List (List Int)}
variable {cs cs' : List Chain} {c : Chain}

/-- Block after block is dealt, until no chain is live. -/
inductive Grows (faces : List Int) : List Chain → List (List Int) → List Chain → Prop
  | settled {cs : List Chain} (h : liveSizes faces cs = []) : Grows faces cs [] cs
  | next {cs cs₁ cs' : List Chain} {block : List Int} {blocks : List (List Int)}
      (hlive : liveSizes faces cs ≠ []) (hdeals : Deals faces cs block cs₁)
      (h : Grows faces cs₁ blocks cs') : Grows faces cs (block :: blocks) cs'

namespace Grows

variable {k : Nat}

theorem settles (h : Grows faces cs blocks cs') : Settles faces (liveSizes faces cs) blocks := by
  induction h with
  | settled h => exact h
  | next hlive hdeals _ ih => exact ⟨hlive, hdeals.length_eq, hdeals.liveSizes_eq ▸ ih⟩

theorem still (h : Grows faces cs blocks cs') : liveSizes faces cs' = [] := by
  induction h with
  | settled h => exact h
  | next _ _ _ ih => exact ih

theorem map_root (h : Grows faces cs blocks cs') : cs'.map Chain.root = cs.map Chain.root := by
  induction h with
  | settled => rfl
  | next _ hdeals _ ih => rw [ih, hdeals.map_root]

theorem linked (h : Grows faces cs blocks cs') (hcs : ∀ c ∈ cs, c.Linked faces) :
    ∀ c ∈ cs', c.Linked faces := by
  induction h with
  | settled => exact hcs
  | next _ hdeals _ ih => exact ih (hdeals.linked hcs)

theorem length_dice (h : Grows faces cs blocks cs') :
    (cs'.flatMap Chain.dice).length = (cs.flatMap Chain.dice).length + blocks.flatten.length := by
  induction h with
  | settled => rfl
  | next _ hdeals _ ih =>
    rw [ih, hdeals.length_dice, List.flatten_cons, List.length_append]
    omega

theorem column_of_lt {j : Nat} (h : Grows faces cs blocks cs') (hcs : Even faces k cs) (hj : j < k) :
    column cs' j = column cs j := by
  induction h generalizing k with
  | settled => rfl
  | next _ hdeals _ ih =>
    rw [ih (hdeals.even hcs) (Nat.lt_succ_of_lt hj), hdeals.column_of_lt hcs hj]

/-- The columns of the chains are the generations, one after the other. -/
theorem column_eq (h : Grows faces cs blocks cs') (hcs : Even faces k cs) (j : Nat) :
    column cs' (k + j) = (generations faces (liveSizes faces cs) blocks).getD j [] := by
  induction h generalizing k j with
  | @settled cs h =>
    have hnone : ∀ c ∈ cs, c.extras[k + j]? = none := fun c hc =>
      List.getElem?_eq_none (Nat.le_add_right_of_le (hcs c hc).1)
    exact List.filterMap_eq_nil_iff.2 hnone
  | next _ hdeals h ih =>
    -- the first block fills column `k`, which the later blocks leave alone
    cases j with
    | zero =>
      rw [Nat.add_zero, h.column_of_lt (hdeals.even hcs) (Nat.lt_succ_self k), hdeals.column_eq hcs]
      rfl
    | succ j =>
      have hcol := ih (hdeals.even hcs) j
      rw [Nat.add_right_comm, Nat.add_assoc, hdeals.liveSizes_eq] at hcol
      exact hcol

/-- If there is one generation at most, a single block is dealt, which may be empty. -/
theorem once (h : Grows faces cs blocks cs') (hlen : blocks.length ≤ 1) :
    Deals faces cs blocks.flatten cs' := by
  cases h with
  | settled h =>
    have hnone : ([] : List Int).length = (liveSizes faces cs).length := by rw [h]; rfl
    obtain ⟨cs₁, hdeals⟩ := exists_deals hnone
    obtain rfl := hdeals.eq_of_nil
    exact hdeals
  | next _ hdeals h =>
    cases h with
    | settled => simpa using hdeals
    | next => simp at hlen

end Grows

theorem exists_grows (h : Settles faces (liveSizes faces cs) blocks) :
    ∃ cs', Grows faces cs blocks cs' := by
  induction blocks generalizing cs with
  | nil => exact ⟨cs, .settled h⟩
  | cons block blocks ih =>
    obtain ⟨hlive, hlen, h⟩ := h
    obtain ⟨cs₁, hdeals⟩ := exists_deals hlen
    rw [← hdeals.liveSizes_eq] at h
    obtain ⟨cs', hgrows⟩ := ih h
    exact ⟨cs', .next hlive hdeals hgrows⟩

/-! ### Settling -/

variable {cap : Int} {left rolled : Nat}

theorem settle_of_still (h : liveSizes faces cs = []) : settle faces cap left rolled cs = pure cs := by
  unfold settle
  rw [countP_isLive, h]
  rfl

theorem settle_zero_of_live (h : liveSizes faces cs ≠ []) :
    settle faces cap 0 rolled cs = throw (.neverSettled "explosion" cap) := by
  unfold settle
  rw [countP_isLive]
  exact if_neg (mt List.length_eq_zero_iff.1 h)

theorem settle_succ_of_live (h : liveSizes faces cs ≠ []) :
    settle faces cap (left + 1) rolled cs = (do
      checkSize (rolled + (liveSizes faces cs).length)
      let cs₁ ← cs.mapM (Chain.grow faces)
      settle faces cap left (rolled + (liveSizes faces cs).length) cs₁) := by
  conv => lhs; unfold settle
  rw [countP_isLive]
  dsimp only
  rw [if_neg (mt List.length_eq_zero_iff.1 h)]

theorem blank_of_zero_mem (hcs : ∀ c ∈ cs, c.Linked faces) (hzero : 0 ∈ liveSizes faces cs) :
    faces.contains 0 = true ∧ ∃ c ∈ cs, c.last = .plain 0 0 := by
  obtain ⟨d, hd, hsides⟩ := List.mem_map.1 hzero
  obtain ⟨hd, htriggers⟩ := List.mem_filter.1 hd
  obtain ⟨c, hc, rfl⟩ := List.mem_map.1 hd
  have hblank : c.last = .plain 0 0 := (hcs c hc).last.1.eq_of_sides hsides
  rw [hblank] at htriggers
  exact ⟨htriggers, c, hc, hblank⟩

theorem Grows.zero_notMem (h : Grows faces cs blocks cs') (hcs : ∀ c ∈ cs, c.Linked faces) :
    0 ∉ liveSizes faces cs := by
  intro hzero
  have hfaces := (blank_of_zero_mem hcs hzero).1
  exact h.settles.zero_notMem hfaces hzero

/-- A live chain of dice without sides keeps the explosion from settling. -/
theorem settle_blank (hfaces : faces.contains 0 = true) (hblank : ∃ c ∈ cs, c.last = .plain 0 0) :
    (settle faces cap left rolled cs).Yields fun _ => False := by
  refine Yields.mono (settle_yields_of (I := fun _ cs => ∃ c ∈ cs, c.last = .plain 0 0)
    (fun _ _ ⟨c, hc, hlast⟩ _ _ => Yields.mapM_mem hc (Chain.grow_blank hlast)) hblank) ?_
  rintro cs ⟨⟨-, c, hc, hlast⟩, hstill⟩
  have hlive : c.isLive faces = true := by rw [Chain.isLive, hlast]; exact hfaces
  exact absurd hlive (ne_true_of_eq_false (hstill c hc))

/-- The faces that a settled explosion took are those of its generations. -/
theorem settle_ok (hcs : ∀ c ∈ cs, c.Linked faces) {s s' : Faces}
    (h : (settle faces cap left rolled cs).on s = (.ok cs', s')) :
    ∃ blocks, blocks.length ≤ left ∧ s.Takes blocks.flatten s' ∧ Grows faces cs blocks cs' := by
  induction left generalizing rolled cs s with
  | zero =>
    by_cases hlive : liveSizes faces cs = []
    · rw [settle_of_still hlive] at h
      obtain ⟨rfl, rfl⟩ := on_pure_ok h
      exact ⟨[], Nat.le_refl 0, .refl s, .settled hlive⟩
    · rw [settle_zero_of_live hlive] at h
      exact (on_throw_ok h).elim
  | succ left ih =>
    by_cases hlive : liveSizes faces cs = []
    · rw [settle_of_still hlive] at h
      obtain ⟨rfl, rfl⟩ := on_pure_ok h
      exact ⟨[], Nat.zero_le _, .refl s, .settled hlive⟩
    · -- dice without sides take no face, but with one of them live nothing would settle
      have hzero : 0 ∉ liveSizes faces cs := by
        intro hzero
        obtain ⟨hfaces, hblank⟩ := blank_of_zero_mem hcs hzero
        exact settle_blank hfaces hblank h
      rw [settle_succ_of_live hlive] at h
      obtain ⟨⟨⟩, -, h⟩ := on_liftM_bind_ok h
      obtain ⟨cs₁, s₁, hmap, h⟩ := on_bind_ok h
      obtain ⟨block, hblock, hdeals⟩ := (mapM_grow_ok_iff hzero).1 hmap
      obtain ⟨blocks, hlen, hrest, hgrows⟩ := ih (hdeals.linked hcs) h
      exact ⟨block :: blocks, Nat.succ_le_succ hlen, hblock.append hrest, .next hlive hdeals hgrows⟩

theorem settle_of_grows (hcs : ∀ c ∈ cs, c.Linked faces) (hgrows : Grows faces cs blocks cs')
    (hleft : blocks.length ≤ left) (hsize : rolled + blocks.flatten.length ≤ maxPoolSize)
    {s s' : Faces} (htakes : s.Takes blocks.flatten s') :
    (settle faces cap left rolled cs).on s = (.ok cs', s') := by
  induction hgrows generalizing left rolled s with
  | settled h =>
    obtain rfl := htakes.eq_of_nil
    rw [settle_of_still h]
    rfl
  | @next cs cs₁ cs' block blocks hlive hdeals hgrows ih =>
    obtain ⟨left, rfl⟩ := Nat.exists_eq_add_one_of_ne_zero (Nat.ne_zero_of_lt hleft)
    rw [List.flatten_cons] at hsize htakes
    rw [List.length_append, hdeals.length_eq] at hsize
    obtain ⟨s₁, hblock, hrest⟩ := htakes.split
    have hcheck : checkSize (rolled + (liveSizes faces cs).length) = .ok () :=
      checkSize_ok_iff.2 (by omega)
    have hzero := (Grows.next hlive hdeals hgrows).zero_notMem hcs
    have hmap := (mapM_grow_ok_iff hzero).2 ⟨block, hblock, hdeals⟩
    have hsize' : rolled + (liveSizes faces cs).length + blocks.flatten.length ≤ maxPoolSize := by omega
    have hsettle := ih (hdeals.linked hcs) (Nat.le_of_succ_le_succ hleft) hsize' hrest
    rw [settle_succ_of_live hlive, hcheck]
    exact on_bind_ok_iff.2 ⟨(), s, rfl, on_bind_ok_iff.2 ⟨cs₁, s₁, hmap, hsettle⟩⟩

/-! ### The whole explosion -/

/-- The chains of an explosion that has settled after the given blocks: one for each die of the pool,
with the dice of the generations across them. -/
structure Explosion (faces : List Int) (p : Pool) (blocks : List (List Int)) (cs : List Chain) : Prop where
  settles : Settles faces (triggers faces p.dice) blocks
  roots : cs.map Chain.root = p.dice
  linked : ∀ c ∈ cs, c.Linked faces ∧ c.isLive faces = false
  columns : ∀ k, column cs k = (generations faces (triggers faces p.dice) blocks).getD k []

variable {p : Pool}

theorem linked_chains (hp : ∀ d ∈ p.dice, d.Valid) : ∀ c ∈ p.chains, c.Linked faces := by
  intro c hc
  obtain ⟨d, hd, rfl⟩ := List.mem_map.1 hc
  exact Chain.linked_start (hp d hd)

theorem Grows.explosion (hp : ∀ d ∈ p.dice, d.Valid) (h : Grows faces p.chains blocks cs') :
    Explosion faces p blocks cs' where
  settles := by
    rw [← liveSizes_chains]
    exact h.settles
  roots := by
    have hstart : Chain.root ∘ Chain.start = id := rfl
    rw [h.map_root, chains, List.map_map, hstart, List.map_id]
  linked := by
    intro c hc
    refine ⟨h.linked (linked_chains hp) c hc, ?_⟩
    have hcount : cs'.countP (Chain.isLive faces) = 0 := by rw [countP_isLive, h.still]; rfl
    exact eq_false_of_ne_true (List.countP_eq_zero.1 hcount c hc)
  columns := by
    intro k
    have heven : Even faces 0 p.chains := by
      intro c hc
      obtain ⟨d, -, rfl⟩ := List.mem_map.1 hc
      exact ⟨Nat.le_refl 0, fun _ => rfl⟩
    rw [← liveSizes_chains, ← h.column_eq heven, Nat.zero_add]

theorem Grows.size_eq (h : Grows faces p.chains blocks cs') :
    (cs'.flatMap Chain.dice).length = p.size + blocks.flatten.length := by
  have hstart : p.chains.flatMap Chain.dice = p.dice := by
    rw [chains, List.flatMap_map]
    exact List.flatMap_singleton' _
  rw [h.length_dice, hstart]
  rfl

/-- An explosion that succeeds has grown its chains, and no longer than the cap allows. -/
theorem explosion_ok (hp : ∀ d ∈ p.dice, d.Valid) {s s' : Faces} (h : (p.explosion faces cap).on s = (.ok cs, s')) :
    ∃ blocks, blocks.length ≤ cap.toNat ∧ s.Takes blocks.flatten s' ∧ Grows faces p.chains blocks cs := by
  obtain ⟨⟨⟩, -, hsettle⟩ := on_liftM_bind_ok h
  exact settle_ok (linked_chains hp) hsettle

theorem lineUp_ok_iff {c : Change} : p.lineUp cs = .ok c ↔
    (cs.flatMap Chain.dice).length ≤ maxPoolSize ∧
      c = ⟨⟨cs.flatMap Chain.dice, p.shapes⟩, cs.flatMap Chain.entries⟩ :=
  changeTo_ok_iff

theorem explodeOnce_of_deals
    (hcheck : p.checkTermination faces "explosion" = .ok ()) (hzero : 0 ∉ liveSizes faces p.chains)
    (hdeals : Deals faces p.chains block cs) {s s' : Faces} (htakes : s.Takes block s') {c : Change}
    (hc : p.lineUp cs = .ok c) : (p.explodeOnce faces).on s = (.ok c, s') := by
  have hmap := (mapM_grow_ok_iff hzero).2 ⟨block, htakes, hdeals⟩
  rw [explodeOnce, hcheck]
  exact on_bind_ok_iff.2 ⟨(), s, rfl, on_bind_ok_iff.2 ⟨cs, s', hmap, by rw [hc]; rfl⟩⟩

/-- A recursive explosion that succeeds has gone by generations, no more of them than its cap allows
(a cap below 0 allows none), and has added a die for every face it took. It succeeds whenever the
generations come to an end within the limits. -/
theorem explodeRecursive_generations (hp : ∀ d ∈ p.dice, d.Valid) (faces : List Int) (cap : Int)
    (s s' : Faces) :
    (∀ c, (p.explodeRecursive faces cap).on s = (.ok c, s') →
      ∃ blocks cs, blocks.length ≤ cap.toNat ∧ s.Takes blocks.flatten s' ∧
        Explosion faces p blocks cs ∧
        c = ⟨⟨cs.flatMap Chain.dice, p.shapes⟩, cs.flatMap Chain.entries⟩ ∧
        c.pool.size = p.size + blocks.flatten.length ∧ c.pool.size ≤ maxPoolSize ∧
        (blocks.length ≤ 1 → (p.explodeOnce faces).on s = (.ok c, s'))) ∧
    (∀ blocks, p.checkTermination faces "explosion" = .ok () →
      Settles faces (triggers faces p.dice) blocks → blocks.length ≤ cap.toNat →
      p.size + blocks.flatten.length ≤ maxPoolSize → s.Takes blocks.flatten s' →
      ∃ c, (p.explodeRecursive faces cap).on s = (.ok c, s')) := by
  refine ⟨fun c h => ?_, fun blocks hcheck hsettles hcap hsize htakes => ?_⟩
  · obtain ⟨cs, s₁, hexplosion, hlift⟩ := on_bind_ok h
    obtain ⟨hline, rfl⟩ := on_liftM_ok hlift
    obtain ⟨⟨⟩, hcheck, hsettle⟩ := on_liftM_bind_ok hexplosion
    obtain ⟨blocks, hcap, htakes, hgrows⟩ := settle_ok (linked_chains hp) hsettle
    obtain ⟨hsize, rfl⟩ := lineUp_ok_iff.1 hline
    refine ⟨blocks, cs, hcap, htakes, hgrows.explosion hp, rfl, hgrows.size_eq, hsize, fun hone => ?_⟩
    exact explodeOnce_of_deals hcheck (hgrows.zero_notMem (linked_chains hp)) (hgrows.once hone) htakes
      hline
  · rw [← liveSizes_chains] at hsettles
    obtain ⟨cs, hgrows⟩ := exists_grows hsettles
    have hsettle : (settle faces cap cap.toNat p.size p.chains).on s = (.ok cs, s') :=
      settle_of_grows (linked_chains hp) hgrows hcap hsize htakes
    have hline := (lineUp_ok_iff (p := p)).2 ⟨hgrows.size_eq ▸ hsize, rfl⟩
    refine ⟨_, on_bind_ok_iff.2 ⟨cs, s', ?_, by rw [hline]; rfl⟩⟩
    rw [explosion, hcheck]
    exact on_bind_ok_iff.2 ⟨(), s, rfl, hsettle⟩

/-- Two sixes explode side by side, and one of them twice. -/
theorem explodeRecursive_two_chains :
    ∃ c, (explodeRecursive ⟨[.plain 6 6, .plain 6 2, .plain 6 6], [⟨3, 6⟩]⟩ [6] 10).on
        (.ofList [6, 3, 1, 5]) = (.ok c, ⟨[5], 3⟩) ∧
      ∃ blocks cs, Faces.Takes (.ofList [6, 3, 1, 5]) blocks.flatten ⟨[5], 3⟩ ∧
        Explosion [6] ⟨[.plain 6 6, .plain 6 2, .plain 6 6], [⟨3, 6⟩]⟩ blocks cs := by
  let p : Pool := ⟨[.plain 6 6, .plain 6 2, .plain 6 6], [⟨3, 6⟩]⟩
  have hvalid : ∀ d ∈ p.dice, d.Valid := by simp [p, Die.Valid]
  have hsizes : p.sizes = [6] := by decide +kernel
  have hcheck : p.checkTermination [6] "explosion" = .ok () := by
    rw [checkTermination, hsizes]
    rfl
  have hsettles : Settles [6] [6, 6] [[6, 3], [1]] := ⟨by decide, rfl, by decide, rfl, rfl⟩
  have h := explodeRecursive_generations hvalid [6] 10 (.ofList [6, 3, 1, 5]) ⟨[5], 3⟩
  obtain ⟨c, hc⟩ := h.2 [[6, 3], [1]] hcheck hsettles (by decide) (by decide) ⟨rfl, rfl⟩
  obtain ⟨blocks, cs, -, htakes, hexplosion, -⟩ := h.1 c hc
  exact ⟨c, hc, blocks, cs, htakes, hexplosion⟩

end Tabletop.Pool
