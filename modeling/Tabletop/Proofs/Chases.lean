import Tabletop.Proofs.Rerolls
import Tabletop.Proofs.Stopping

/-!
# A chased die stops at its first good face

A recursive reroll chases the dice one after the other. So its faces fall into one block for each die of the
pool: a matching die takes faces until one of them is not in the set, and shows that one alone
(`Pool.Chased`). As no die of the new pool matches, chasing it again changes nothing.
-/

namespace Tabletop.Pool

open Rolling

variable {p : Pool} {faces : List Int} {cap : Int} {d e : Die} {face : Int} {block : List Int} {s s' : Faces}

/-! ### One die, face by face -/

/-- The die is rolled for each face of a block while it matches, and then it does not match any more. -/
def Follows (faces : List Int) : Die → List Int → Die → Prop
  | d, [], e => faces.contains d.face = false ∧ e = d
  | d, face :: block, e => faces.contains d.face = true ∧ d.sides ≠ 0 ∧ Follows faces (d.turn face) block e

theorem chase_of_live (hd : faces.contains d.face = true) (left : Nat) (again : Bool) :
    chase faces cap (left + 1) again d = (do
      let r ← chase faces cap left true (← d.reroll)
      pure { r with entries := { die := d, dropped := true } :: r.entries }) := by
  rw [chase, if_pos hd]

theorem Follows.still (h : Follows faces d block e) : faces.contains e.face = false := by
  induction block generalizing d with
  | nil =>
    obtain ⟨hstill, rfl⟩ := h
    exact hstill
  | cons face block ih => exact ih h.2.2

theorem chase_zero_of_live (hd : faces.contains d.face = true) (again : Bool) :
    chase faces cap 0 again d = throw (.neverSettled "reroll" cap) := by
  rw [chase, if_pos hd]

/-- A blank that matches would be chased for ever. -/
theorem sides_ne_zero_of_chase (hd : d.Valid) (hlive : faces.contains d.face = true) {left : Nat} {again : Bool}
    {r : Replacement} (h : (chase faces cap left again d).on s = (.ok r, s')) : d.sides ≠ 0 := by
  intro hsides
  obtain rfl := hd.eq_of_sides hsides
  exact chase_blank hlive left again h

theorem chase_ok (hd : d.Valid) {left : Nat} {again : Bool} {r : Replacement}
    (h : (chase faces cap left again d).on s = (.ok r, s')) :
    ∃ block, s.Takes block s' ∧ block.length ≤ left ∧ Follows faces d block r.die := by
  induction left generalizing again d s r with
  | zero =>
    cases hlive : faces.contains d.face with
    | false =>
      rw [chase_of_still faces cap hlive] at h
      obtain ⟨rfl, rfl⟩ := on_pure_ok h
      exact ⟨[], .refl s, Nat.zero_le _, hlive, rfl⟩
    | true =>
      rw [chase_zero_of_live hlive] at h
      exact (on_throw_ok h).elim
  | succ left ih =>
    cases hlive : faces.contains d.face with
    | false =>
      rw [chase_of_still faces cap hlive] at h
      obtain ⟨rfl, rfl⟩ := on_pure_ok h
      exact ⟨[], .refl s, Nat.zero_le _, hlive, rfl⟩
    | true =>
      have hsides := sides_ne_zero_of_chase hd hlive h
      rw [chase_of_live hlive] at h
      obtain ⟨new, s₁, hreroll, h⟩ := on_bind_ok h
      obtain ⟨r', s₂, hchase, h⟩ := on_bind_ok h
      obtain ⟨rfl, rfl⟩ := on_pure_ok h
      obtain ⟨face, hface, rfl⟩ := (Die.reroll_ok_iff hsides).1 hreroll
      obtain ⟨block, hblock, hlen, hfollows⟩ := ih (hd.turn face) hchase
      exact ⟨face :: block, hface.append hblock, Nat.succ_le_succ hlen, hlive, hsides, hfollows⟩

theorem chase_of_follows {left : Nat} (again : Bool) (h : Follows faces d block e) (hlen : block.length ≤ left)
    (htakes : s.Takes block s') : ∃ r, (chase faces cap left again d).on s = (.ok r, s') ∧ r.die = e := by
  induction block generalizing left again d s with
  | nil =>
    obtain ⟨hstill, rfl⟩ := h
    obtain rfl := htakes.eq_of_nil
    rw [chase_of_still faces cap hstill]
    exact ⟨_, rfl, rfl⟩
  | cons face block ih =>
    obtain ⟨hlive, hsides, h⟩ := h
    obtain ⟨left, rfl⟩ := Nat.exists_eq_add_one_of_ne_zero (Nat.ne_zero_of_lt hlen)
    obtain ⟨s₁, hface, hblock⟩ := htakes.split_cons
    obtain ⟨r, hchase, rfl⟩ := ih true h (Nat.le_of_succ_le_succ hlen) hblock
    have hreroll := (Die.reroll_ok_iff hsides).2 ⟨face, hface, rfl⟩
    rw [chase_of_live hlive]
    exact ⟨_, on_bind_ok_iff.2 ⟨_, s₁, hreroll, on_bind_ok_iff.2 ⟨r, s', hchase, rfl⟩⟩, rfl⟩

/-! ### One die, by its block -/

/-- A die that does not match stays as it is and takes no face. Any other die takes as many faces as the cap
allows at most: all of them match but the last, and the die ends with that one alone. -/
structure Chased (faces : List Int) (cap : Int) (d : Die) (block : List Int) (e : Die) : Prop where
  still : faces.contains d.face = false → block = [] ∧ e = d
  again : faces.contains d.face = true → ∃ bad good, block = bad ++ [good] ∧ (block.length : Int) ≤ cap ∧
    (∀ face ∈ bad, faces.contains (Die.clamp d.sides face) = true) ∧
    faces.contains (Die.clamp d.sides good) = false ∧ e = d.turn good ∧ e.parts = [Die.clamp d.sides good]

/-- After its first face, a die that was rolled shows the last of its faces. -/
theorem Follows.exists_good (h : Follows faces d (face :: block) e) :
    ∃ bad good, face :: block = bad ++ [good] ∧
      (∀ face ∈ bad, faces.contains (Die.clamp d.sides face) = true) ∧
      faces.contains (Die.clamp d.sides good) = false ∧ e = d.turn good := by
  obtain ⟨-, hsides, h⟩ := h
  induction block generalizing d face with
  | nil =>
    obtain ⟨hstill, rfl⟩ := h
    rw [Die.face_turn hsides] at hstill
    exact ⟨[], face, rfl, List.forall_mem_nil _, hstill, rfl⟩
  | cons next block ih =>
    obtain ⟨hlive, hsides', h⟩ := h
    rw [Die.face_turn hsides] at hlive
    obtain ⟨bad, good, hblock, hbad, hgood, rfl⟩ := ih hsides' h
    rw [Die.sides_turn] at hbad hgood
    exact ⟨face :: bad, good, congrArg (face :: ·) hblock, List.forall_mem_cons.2 ⟨hlive, hbad⟩, hgood,
      Die.turn_turn d face good⟩

theorem follows_of_good {bad : List Int} {good : Int} (hsides : d.sides ≠ 0) (hlive : faces.contains d.face = true)
    (hbad : ∀ face ∈ bad, faces.contains (Die.clamp d.sides face) = true)
    (hgood : faces.contains (Die.clamp d.sides good) = false) : Follows faces d (bad ++ [good]) (d.turn good) := by
  induction bad generalizing d with
  | nil => exact ⟨hlive, hsides, by rwa [Die.face_turn hsides], rfl⟩
  | cons face bad ih =>
    obtain ⟨hface, hbad⟩ := List.forall_mem_cons.1 hbad
    rw [← Die.turn_turn d face good]
    rw [← Die.face_turn hsides] at hface
    rw [← Die.sides_turn d face] at hsides hbad hgood
    exact ⟨hlive, by rwa [← Die.sides_turn d face], ih hsides hface hbad hgood⟩

theorem Follows.chased (h : Follows faces d block e) (hlen : block.length ≤ cap.toNat) : Chased faces cap d block e := by
  cases block with
  | nil =>
    obtain ⟨hstill, rfl⟩ := h
    refine ⟨fun _ => ⟨rfl, rfl⟩, fun hlive => ?_⟩
    rw [hstill] at hlive
    cases hlive
  | cons face block =>
    refine ⟨fun hstill => ?_, fun _ => ?_⟩
    · rw [h.1] at hstill
      cases hstill
    · obtain ⟨bad, good, hblock, hbad, hgood, he⟩ := h.exists_good
      rw [List.length_cons] at hlen
      refine ⟨bad, good, hblock, ?_, hbad, hgood, he, he ▸ Die.parts_turn h.2.1 good⟩
      rw [List.length_cons]
      omega

theorem Chased.follows (hd : d.Valid) (h : Chased faces cap d block e) :
    Follows faces d block e ∧ block.length ≤ cap.toNat := by
  cases hlive : faces.contains d.face with
  | false =>
    obtain ⟨rfl, rfl⟩ := h.still hlive
    exact ⟨⟨hlive, rfl⟩, Nat.zero_le _⟩
  | true =>
    obtain ⟨bad, good, rfl, hlen, hbad, hgood, rfl, -⟩ := h.again hlive
    have hsides : d.sides ≠ 0 := by
      -- a blank shows 0 whatever its face
      intro hsides
      rw [hd.eq_of_sides hsides] at hlive hgood
      have hclamp : Die.clamp 0 good = 0 := by
        unfold Die.clamp
        omega
      rw [show (Die.plain 0 0).sides = 0 from rfl, hclamp] at hgood
      cases hlive.symm.trans hgood
    exact ⟨follows_of_good hsides hlive hbad hgood, by omega⟩

theorem Chased.sides_eq (h : Chased faces cap d block e) : e.sides = d.sides := by
  cases hlive : faces.contains d.face with
  | false => rw [(h.still hlive).2]
  | true =>
    obtain ⟨bad, good, -, -, -, -, rfl, -⟩ := h.again hlive
    exact d.sides_turn good

/-! ### The whole pool -/

theorem sides_of_chased {ds es : List Die} {blocks : List (List Int)} (h : Blockwise (Chased faces cap) ds blocks es) :
    es.map Die.sides = ds.map Die.sides := by
  induction h with
  | nil => rfl
  | cons hchased _ ih => rw [List.map_cons, List.map_cons, hchased.sides_eq, ih]

/-- Dice that do not match are chased nowhere. -/
theorem mapM_chase_of_still {ds : List Die} (h : ∀ d ∈ ds, faces.contains d.face = false) (left : Nat) :
    ds.mapM (chase faces cap left false) = pure (ds.map Replacement.unchanged) := by
  induction ds with
  | nil => rfl
  | cons d ds ih =>
    obtain ⟨hd, hds⟩ := List.forall_mem_cons.1 h
    rw [List.mapM_cons, chase_of_still faces cap hd, ih hds]
    rfl

theorem rerollRecursive_of_still (hsize : p.size ≤ maxPoolSize) (hcheck : p.checkTermination faces "reroll" = .ok ())
    (h : ∀ d ∈ p.dice, faces.contains d.face = false) (cap : Int) (s : Faces) :
    ∃ c, (p.rerollRecursive faces cap).on s = (.ok c, s) ∧ c.pool = p := by
  have hdice : (p.dice.map Replacement.unchanged).map Replacement.die = p.dice := by
    rw [List.map_map]
    exact List.map_id _
  have hchange : p.replaceAll (p.dice.map Replacement.unchanged) =
      .ok ⟨p, (p.dice.map Replacement.unchanged).flatMap Replacement.entries⟩ := by
    rw [replaceAll, changeTo_ok p (by rw [hdice]; exact hsize), hdice]
  rw [rerollRecursive, hcheck, mapM_chase_of_still h, pure_bind, hchange]
  exact ⟨_, rfl, rfl⟩

theorem on_replaceAll {rs : List Replacement} (hsize : (rs.map Replacement.die).length ≤ maxPoolSize) (s : Faces) :
    (liftM (p.replaceAll rs) : Rolling Change).on s =
      (.ok ⟨⟨rs.map Replacement.die, p.shapes⟩, rs.flatMap Replacement.entries⟩, s) := by
  rw [on_liftM, replaceAll, changeTo_ok p hsize]

/-- A die that took one face at most was rolled once at most. -/
theorem rerollDie_of_follows (h : Follows faces d block e) (hone : block.length ≤ 1) (htakes : s.Takes block s') :
    ∃ r, (rerollDie .newer faces d).on s = (.ok r, s') ∧ r.die = e := by
  rw [rerollDie]
  cases block with
  | nil =>
    obtain ⟨hstill, rfl⟩ := h
    obtain rfl := htakes.eq_of_nil
    rw [if_neg (ne_true_of_eq_false hstill)]
    exact ⟨_, rfl, rfl⟩
  | cons face block =>
    obtain rfl : block = [] := List.length_eq_zero_iff.1 (Nat.le_zero.1 (Nat.le_of_succ_le_succ hone))
    obtain ⟨hlive, hsides, -, rfl⟩ := h
    rw [if_pos hlive]
    exact ⟨_, on_bind_ok_iff.2 ⟨_, s', (Die.reroll_ok_iff hsides).2 ⟨face, htakes, rfl⟩, rfl⟩, rfl⟩

theorem follows_of_mapM_chase {ds : List Die} {rs : List Replacement} {left : Nat} (hds : ∀ d ∈ ds, d.Valid)
    (h : (ds.mapM (chase faces cap left false)).on s = (.ok rs, s')) :
    ∃ blocks, s.Takes blocks.flatten s' ∧
      Blockwise (fun d block e => Follows faces d block e ∧ block.length ≤ left) ds blocks (rs.map Replacement.die) := by
  let R : Die → List Int → Replacement → Prop := fun d block r => Follows faces d block r.die ∧ block.length ≤ left
  have hchase : ∀ d ∈ ds, ∀ s s' r, (chase faces cap left false d).on s = (.ok r, s') →
      ∃ block, s.Takes block s' ∧ R d block r := fun d hd s s' r hr => by
    obtain ⟨block, htakes, hlen, hfollows⟩ := chase_ok (hds d hd) hr
    exact ⟨block, htakes, hfollows, hlen⟩
  obtain ⟨blocks, htakes, hblocks⟩ := Blockwise.of_mapM hchase h
  exact ⟨blocks, htakes, hblocks.map fun _ _ _ hR => hR⟩

theorem rerollOnce_of_follows {blocks : List (List Int)} {es : List Die} {left : Nat} (hsize : es.length ≤ maxPoolSize)
    (h : Blockwise (fun d block e => Follows faces d block e ∧ block.length ≤ left) p.dice blocks es)
    (hone : ∀ block ∈ blocks, block.length ≤ 1) (htakes : s.Takes blocks.flatten s') :
    ∃ c, (p.rerollOnce faces).on s = (.ok c, s') ∧ c.pool = ⟨es, p.shapes⟩ := by
  obtain ⟨rs, hrs, rfl⟩ := h.exists_mapM htakes (f := rerollDie .newer faces) (g := Replacement.die)
    fun d _ block hblock e s s' hR htakes => rerollDie_of_follows hR.1 (hone block hblock) htakes
  exact ⟨_, on_bind_ok_iff.2 ⟨rs, s', hrs, on_replaceAll hsize s'⟩, rfl⟩

/-- A recursive reroll of valid dice that succeeds has chased the dice one by one, each with a block of the
faces of its own. No die of the new pool matches, so that another recursive reroll changes nothing and takes
no face; and if no die took more than one face, a plain reroll does the same. Conversely, it succeeds whenever
there are blocks that the dice can be chased with. -/
theorem rerollRecursive_chases (hp : ∀ d ∈ p.dice, d.Valid) (faces : List Int) (cap : Int) (s s' : Faces) :
    (∀ c, (p.rerollRecursive faces cap).on s = (.ok c, s') →
      (∃ blocks, s.Takes blocks.flatten s' ∧ Blockwise (Chased faces cap) p.dice blocks c.pool.dice ∧
        ((∀ block ∈ blocks, block ≠ [] → block.length = 1) →
          ∃ c', (p.rerollOnce faces).on s = (.ok c', s') ∧ c'.pool = c.pool)) ∧
      c.pool.shapes = p.shapes ∧ (∀ d ∈ c.pool.dice, faces.contains d.face = false) ∧
      ∀ cap' s₁, ∃ c', (c.pool.rerollRecursive faces cap').on s₁ = (.ok c', s₁) ∧ c'.pool = c.pool) ∧
    (∀ blocks dice, p.checkTermination faces "reroll" = .ok () → p.size ≤ maxPoolSize →
      Blockwise (Chased faces cap) p.dice blocks dice → s.Takes blocks.flatten s' →
      ∃ c, (p.rerollRecursive faces cap).on s = (.ok c, s') ∧ c.pool = ⟨dice, p.shapes⟩) := by
  refine ⟨fun c h => ?_, fun blocks dice hcheck hsize hblocks htakes => ?_⟩
  · obtain ⟨⟨⟩, hcheck, h⟩ := on_liftM_bind_ok h
    obtain ⟨rs, s₁, hmap, hchange⟩ := on_bind_ok h
    obtain ⟨hreplace, rfl⟩ := on_liftM_ok hchange
    obtain ⟨hsize, rfl⟩ := changeTo_ok_iff.1 hreplace
    obtain ⟨blocks, htakes, hblocks⟩ := follows_of_mapM_chase hp hmap
    have hchased : Blockwise (Chased faces cap) p.dice blocks (rs.map Replacement.die) := by
      rw [← List.map_id (rs.map Replacement.die)]
      exact hblocks.map fun d block e hR => hR.1.chased hR.2
    have hstill := hblocks.forall_mem fun d block e hR => hR.1.still
    refine ⟨⟨blocks, htakes, hchased, fun hone => ?_⟩, rfl, hstill, fun cap' s₁ => ?_⟩
    · refine rerollOnce_of_follows hsize hblocks (fun block hblock => ?_) htakes
      by_cases hnil : block = []
      · rw [hnil]
        exact Nat.zero_le 1
      · exact Nat.le_of_eq (hone block hblock hnil)
    · let q : Pool := ⟨rs.map Replacement.die, p.shapes⟩
      have hsizes : q.sizes = p.sizes := by
        rw [sizes, sizes, sides_of_chased hchased]
      have hcheck' : q.checkTermination faces "reroll" = .ok () := by
        rw [checkTermination, hsizes]
        exact hcheck
      exact rerollRecursive_of_still (p := q) hsize hcheck' hstill cap' s₁
  · obtain ⟨rs, hrs, rfl⟩ := hblocks.exists_mapM htakes (f := chase faces cap cap.toNat false) (g := Replacement.die)
      fun d hd block _ e s s' hchased htakes => by
        obtain ⟨hfollows, hlen⟩ := hchased.follows (hp d hd)
        exact chase_of_follows false hfollows hlen htakes
    have hlen : (rs.map Replacement.die).length ≤ maxPoolSize := hblocks.length_eq ▸ hsize
    rw [rerollRecursive, hcheck]
    exact ⟨_, on_bind_ok_iff.2 ⟨(), s, rfl, on_bind_ok_iff.2 ⟨rs, s', hrs, on_replaceAll hlen s'⟩⟩, rfl⟩

/-- The first die takes two faces, and the compound one a single face, which is clamped. -/
theorem rerollRecursive_chases_twice :
    let p : Pool := ⟨[.plain 6 1, .plain 6 4, .compound 6 [6, 2]], [⟨3, 6⟩]⟩
    let s : Faces := .ofList [2, 3, 9]
    (∀ d ∈ p.dice, d.Valid) ∧ ∃ c, (p.rerollRecursive [1, 2] 2).on s = (.ok c, ⟨[], 3⟩) ∧
      c.pool = ⟨[.plain 6 3, .plain 6 4, .compound 6 [6]], [⟨3, 6⟩]⟩ ∧
      ∀ cap' s₁, ∃ c', (c.pool.rerollRecursive [1, 2] cap').on s₁ = (.ok c', s₁) ∧ c'.pool = c.pool := by
  intro p s
  have hvalid : ∀ d ∈ p.dice, d.Valid := by simp [p, Die.Valid]
  have hsizes : p.sizes = [6] := by decide +kernel
  have hcheck : p.checkTermination [1, 2] "reroll" = .ok () := by
    rw [checkTermination, hsizes]
    rfl
  have hstill : Chased [1, 2] 2 (.plain 6 4) [] (.plain 6 4) := ⟨fun _ => ⟨rfl, rfl⟩, fun h => absurd h (by decide)⟩
  have hfirst : Chased [1, 2] 2 (.plain 6 1) [2, 3] (.plain 6 3) :=
    ⟨by decide, fun _ => ⟨[2], 3, rfl, by decide, by decide, by decide, rfl, rfl⟩⟩
  have hlast : Chased [1, 2] 2 (.compound 6 [6, 2]) [9] (.compound 6 [6]) :=
    ⟨by decide, fun _ => ⟨[], 9, rfl, by decide, by decide, by decide, rfl, rfl⟩⟩
  have h := rerollRecursive_chases hvalid [1, 2] 2 s ⟨[], 3⟩
  obtain ⟨c, hc, hpool⟩ := h.2 _ _ hcheck (by decide) (.cons hfirst (.cons hstill (.cons hlast .nil))) ⟨rfl, rfl⟩
  exact ⟨hvalid, c, hc, hpool, (h.1 c hc).2.2.2⟩

end Tabletop.Pool
