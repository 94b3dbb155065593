import Mathlib.Tactic.Choose
import Tabletop.Proofs.Endless
import Tabletop.Proofs.Explosions
import Tabletop.Proofs.Material

/-!
# Explosions and rerolls stop

A pool is `Blocked` by a set that holds every face of one of its dice, and it is `Spinning` if it has a
die without sides and the set holds the 0 that such a die always shows. A blocked pool is refused before
any face is taken, and a spinning one is given up at the limits. With any other set there are faces on
which each triggering die is followed by one die that does not trigger, so that all settle after one
generation.
-/

namespace Tabletop

open Rolling

/-- The dice would never stop, or become too many. -/
def Error.isOfExcess : Error → Bool
  | everyFaceTriggers .. | neverSettled .. | poolTooLarge _ => true
  | _ => false

theorem Error.isOfExcess_of_isOfDice {e : Error} (h : e.isOfDice = true) (hfaces : ∀ n, e ≠ .outOfFaces n) :
    e.isOfExcess = true := by
  cases e with
  | outOfFaces n => exact absurd rfl (hfaces n)
  | poolTooLarge | everyFaceTriggers | neverSettled => rfl
  | _ => cases h

namespace Pool

variable {p : Pool} {faces : List Int} {cap : Int}

/-- The set holds every face of a die of the pool. -/
def Blocked (p : Pool) (faces : List Int) : Prop :=
  ∃ d ∈ p.dice, 1 ≤ d.sides ∧ ∀ face : Int, 1 ≤ face → face ≤ d.sides → face ∈ faces

/-- The set holds the 0 that a die without sides shows for ever. -/
def Spinning (p : Pool) (faces : List Int) : Prop := (0 : Int) ∈ faces ∧ ∃ d ∈ p.dice, d.sides = 0

/-! ### The check -/

theorem covers_iff {sides : Nat} :
    covers faces sides = true ↔ ∀ face : Int, 1 ≤ face → face ≤ sides → face ∈ faces := by
  simp only [covers, List.all_eq_true, List.mem_range, List.contains_iff_mem]
  constructor
  · intro h face hone hle
    have hface := h (face - 1).toNat (by omega)
    rwa [show ((face - 1).toNat : Int) + 1 = face by omega] at hface
  · intro h i hi
    exact h (i + 1) (by omega) (by omega)

theorem mem_sizes {sides : Nat} : sides ∈ p.sizes ↔ ∃ d ∈ p.dice, d.sides = sides := by
  rw [sizes, List.mem_mergeSort, List.mem_eraseDups, List.mem_map]

theorem exists_error_of_blocked (h : p.Blocked faces) :
    ∃ sides, ∀ what, p.checkTermination faces what = .error (.everyFaceTriggers sides what) := by
  obtain ⟨d, hd, hsides, hcovers⟩ := h
  have hsome : (p.sizes.find? fun sides => 0 < sides && covers faces sides).isSome := by
    refine List.find?_isSome.2 ⟨d.sides, mem_sizes.2 ⟨d, hd, rfl⟩, ?_⟩
    rw [covers_iff.2 hcovers, Bool.and_true]
    exact decide_eq_true hsides
  obtain ⟨sides, hfind⟩ := Option.isSome_iff_exists.1 hsome
  exact ⟨sides, fun what => by rw [checkTermination, hfind]⟩

theorem checkTermination_of_not_blocked (h : ¬p.Blocked faces) (what : String) :
    p.checkTermination faces what = .ok () := by
  have hnone : (p.sizes.find? fun sides => 0 < sides && covers faces sides) = none := by
    refine List.find?_eq_none.2 fun sides hsides hcheck => h ?_
    obtain ⟨d, hd, rfl⟩ := mem_sizes.1 hsides
    rw [Bool.and_eq_true, decide_eq_true_eq] at hcheck
    exact ⟨d, hd, hcheck.1, covers_iff.1 hcheck.2⟩
  rw [checkTermination, hnone]

/-! ### Dice that spin -/

theorem Spinning.exists_blank (h : p.Spinning faces) (hp : ∀ d ∈ p.dice, d.Valid) :
    faces.contains 0 = true ∧ .plain 0 0 ∈ p.dice := by
  obtain ⟨hzero, d, hd, hsides⟩ := h
  rw [(hp d hd).eq_of_sides hsides] at hd
  exact ⟨List.contains_iff_mem.2 hzero, hd⟩

theorem explosion_spinning (h : p.Spinning faces) (hp : ∀ d ∈ p.dice, d.Valid) :
    (p.explosion faces cap).Yields fun _ => False := by
  obtain ⟨hfaces, hblank⟩ := h.exists_blank hp
  refine (Yields.any _).bind fun _ _ => settle_blank hfaces ⟨.start (.plain 0 0), ?_, rfl⟩
  exact List.mem_map_of_mem hblank

theorem chase_blank (hfaces : faces.contains 0 = true) (left : Nat) (again : Bool) :
    (chase faces cap left again (.plain 0 0)).Yields fun _ => False := by
  refine chase_yields_of (I := fun d => d = .plain 0 0) (R := fun _ _ => False) ?_ ?_ rfl
  · rintro _ _ rfl hstill
    exact absurd hfaces (ne_true_of_eq_false hstill)
  · rintro _ rfl -
    exact .pure ⟨rfl, fun _ h => h⟩

theorem rerollRecursive_spinning (h : p.Spinning faces) (hp : ∀ d ∈ p.dice, d.Valid) :
    (p.rerollRecursive faces cap).Yields fun _ => False := by
  obtain ⟨hfaces, hblank⟩ := h.exists_blank hp
  have hchase : (chase faces cap cap.toNat false (.plain 0 0)).Yields fun _ => False := chase_blank hfaces _ _
  have hmap := Yields.mapM_mem hblank hchase
  refine (Yields.any _).bind fun _ _ => hmap.bind fun rs hrs => ?_
  obtain ⟨_, -, hfalse⟩ := hrs
  exact hfalse.elim

/-- What never succeeds and fails with errors of dice alone ends in excess on an endless supply. -/
theorem stops_in_excess {m : Rolling Change} {k : Nat} (hlocal : m.Local) (hk : m.TakesAtMost k)
    (hfails : m.FailsOnly (·.isOfDice)) (hyields : m.Yields fun _ => False) (supply : Nat → Int) :
    ∃ e, e.isOfExcess = true ∧ m.Stops supply k (.error e) := by
  obtain ⟨r, hstops⟩ := hlocal.stops hk supply
  obtain ⟨s, s', hrun⟩ := hstops.exists_on
  cases r with
  | ok c => exact (hyields hrun).elim
  | error e =>
    have henough : ∀ n, e ≠ .outOfFaces n := by
      obtain ⟨n, -, hends⟩ := hstops
      exact fun n he => hends.enough n (congrArg _ he)
    exact ⟨e, Error.isOfExcess_of_isOfDice (hfails hrun) henough, hstops⟩

/-! ### Faces that settle -/

/-- A die that triggers, unless its pool is spinning or blocked, has a face that does not. -/
theorem exists_quiet_face {d : Die} (hp : ∀ d ∈ p.dice, d.Valid) (hblocked : ¬p.Blocked faces)
    (hspinning : ¬p.Spinning faces) (hd : d ∈ p.dice) (htriggers : faces.contains d.face = true) :
    d.sides ≠ 0 ∧ ∃ face : Int, faces.contains (Die.clamp d.sides face) = false := by
  have hsides : d.sides ≠ 0 := by
    intro hzero
    rw [(hp d hd).eq_of_sides hzero] at htriggers
    exact hspinning ⟨List.contains_iff_mem.1 htriggers, d, hd, hzero⟩
  refine ⟨hsides, ?_⟩
  by_contra hall
  refine hblocked ⟨d, hd, Nat.pos_of_ne_zero hsides, fun face hone hle => ?_⟩
  have hclamp : Die.clamp d.sides face = face := by
    unfold Die.clamp
    omega
  by_contra hmem
  refine hall ⟨face, ?_⟩
  rw [hclamp]
  simpa using hmem

/-- One face for each size of die, quiet on every die of the pool that triggers. -/
theorem exists_quiet (hp : ∀ d ∈ p.dice, d.Valid) (hblocked : ¬p.Blocked faces) (hspinning : ¬p.Spinning faces) :
    ∃ quiet : Nat → Int, ∀ d ∈ p.dice, faces.contains d.face = true →
      d.sides ≠ 0 ∧ faces.contains (Die.clamp d.sides (quiet d.sides)) = false := by
  have hface (sides : Nat) : ∃ face : Int, ∀ d ∈ p.dice, d.sides = sides → faces.contains d.face = true →
      d.sides ≠ 0 ∧ faces.contains (Die.clamp d.sides face) = false := by
    by_cases h : ∃ d ∈ p.dice, d.sides = sides ∧ faces.contains d.face = true
    · obtain ⟨d, hd, rfl, htriggers⟩ := h
      obtain ⟨hsides, face, hquiet⟩ := exists_quiet_face hp hblocked hspinning hd htriggers
      refine ⟨face, fun e _ he _ => ?_⟩
      rw [he]
      exact ⟨hsides, hquiet⟩
    · exact ⟨0, fun d hd hsides htriggers => absurd ⟨d, hd, hsides, htriggers⟩ h⟩
  choose quiet hquiet using hface
  exact ⟨quiet, fun d hd => hquiet d.sides d hd rfl⟩

/-- All explosions settle in the generation that shows quiet faces. -/
theorem settles_of_quiet {sizes : List Nat} {quiet : Nat → Int}
    (h : ∀ sides ∈ sizes, faces.contains (Die.clamp sides (quiet sides)) = false) :
    ∃ blocks, blocks.length ≤ 1 ∧ blocks.flatten.length = sizes.length ∧ Settles faces sizes blocks := by
  cases sizes with
  | nil => exact ⟨[], Nat.zero_le 1, rfl, rfl⟩
  | cons sides sizes =>
    refine ⟨[(sides :: sizes).map quiet], Nat.le_refl 1, by simp, List.cons_ne_nil _ _, List.length_map _, ?_⟩
    have hshown : showing (sides :: sizes) ((sides :: sizes).map quiet) =
        (sides :: sizes).map fun n => .plain n (Die.clamp n (quiet n)) := by
      rw [showing, List.zipWith_map_right, List.zipWith_self]
    have hnone : ((sides :: sizes).map fun n => Die.plain n (Die.clamp n (quiet n))).filter
        (fun d => faces.contains d.face) = [] := by
      refine List.filter_eq_nil_iff.2 fun d hd => ?_
      obtain ⟨n, hn, rfl⟩ := List.mem_map.1 hd
      exact ne_true_of_eq_false (h n hn)
    rw [hshown]
    change triggers faces _ = []
    rw [triggers, hnone, List.map_nil]

/-- Each live chain grows by one quiet die. -/
theorem exists_explosion_of_quiet (hp : p.Valid) (hblocked : ¬p.Blocked faces) (hspinning : ¬p.Spinning faces)
    (hcap : 1 ≤ cap) (hroom : p.size + (p.dice.countP fun d => faces.contains d.face) ≤ maxPoolSize) :
    ∃ taken cs, (cs.flatMap Chain.dice).length ≤ maxPoolSize ∧ cs.length = p.size ∧
      (p.explosion faces cap).EndsAfter taken (.ok cs) := by
  obtain ⟨quiet, hquiet⟩ := exists_quiet hp.1 hblocked hspinning
  have hsizes : ∀ sides ∈ triggers faces p.dice, faces.contains (Die.clamp sides (quiet sides)) = false := by
    intro sides hsides
    obtain ⟨d, hd, rfl⟩ := List.mem_map.1 hsides
    obtain ⟨hd, htriggers⟩ := List.mem_filter.1 hd
    exact (hquiet d hd htriggers).2
  obtain ⟨blocks, hone, hlen, hsettles⟩ := settles_of_quiet hsizes
  have htriggers : (triggers faces p.dice).length = p.dice.countP fun d => faces.contains d.face := by
    rw [triggers, List.length_map, List.countP_eq_length_filter]
  rw [← liveSizes_chains] at hsettles
  obtain ⟨cs, hgrows⟩ := exists_grows hsettles
  have hsize : p.size + blocks.flatten.length ≤ maxPoolSize := by omega
  have hlength : cs.length = p.size := by
    have hroots := congrArg List.length (hgrows.explosion hp.1).roots
    rwa [List.length_map] at hroots
  refine ⟨blocks.flatten, cs, hgrows.size_eq ▸ hsize, hlength, ?_⟩
  refine .check (checkTermination_of_not_blocked hblocked _) (.of_takes fun s s' htakes => ?_)
  exact settle_of_grows (linked_chains hp.1) hgrows (by omega) hsize htakes

theorem reroll_endsAfter {d : Die} (hsides : d.sides ≠ 0) (face : Int) :
    ∃ d', d.reroll.EndsAfter [face] (.ok d') ∧ d'.face = Die.clamp d.sides face := by
  cases d with
  | plain sides shown =>
    refine ⟨.plain sides (Die.clamp sides face), ?_, rfl⟩
    have hsides : sides ≠ 0 := hsides
    rw [Die.reroll, Die.roll, if_neg hsides]
    exact (EndsAfter.draw face).andThen (.pure _)
  | compound sides parts =>
    exact ⟨.compound sides [Die.clamp sides face], (EndsAfter.draw face).andThen (.pure _), rfl⟩

/-- A quiet face ends the chase of a die. -/
theorem exists_chase_of_quiet {d : Die} {face : Int} (hcap : 1 ≤ cap)
    (hquiet : faces.contains d.face = true → d.sides ≠ 0 ∧ faces.contains (Die.clamp d.sides face) = false) :
    ∃ taken r, (chase faces cap cap.toNat false d).EndsAfter taken (.ok r) := by
  cases htriggers : faces.contains d.face with
  | false =>
    rw [chase_of_still faces cap htriggers]
    exact ⟨[], _, .pure _⟩
  | true =>
    obtain ⟨hsides, hface⟩ := hquiet htriggers
    obtain ⟨d', hreroll, hd'⟩ := reroll_endsAfter hsides face
    obtain ⟨left, hleft⟩ := Nat.exists_eq_add_one_of_ne_zero (show cap.toNat ≠ 0 by omega)
    rw [hleft, chase, if_pos htriggers]
    have hstill : (chase faces cap left true d').EndsAfter [] (.ok ⟨d', [{ die := d', added := true }]⟩) := by
      rw [← hd'] at hface
      rw [chase_of_still faces cap hface]
      exact .pure _
    exact ⟨[face], _, hreroll.andThen (hstill.andThen (.pure _))⟩

theorem exists_rerollRecursive_of_quiet (hp : p.Valid) (hblocked : ¬p.Blocked faces)
    (hspinning : ¬p.Spinning faces) (hcap : 1 ≤ cap) :
    ∃ taken c, (p.rerollRecursive faces cap).EndsAfter taken (.ok c) := by
  obtain ⟨quiet, hquiet⟩ := exists_quiet hp.1 hblocked hspinning
  obtain ⟨taken, rs, hlen, hmap⟩ := EndsAfter.exists_mapM (f := chase faces cap cap.toNat false) fun d hd =>
    exists_chase_of_quiet hcap (hquiet d hd)
  have hsize : (rs.map Replacement.die).length ≤ maxPoolSize := by
    rw [List.length_map, hlen]
    exact hp.2
  exact ⟨taken, _, .check (checkTermination_of_not_blocked hblocked _) (hmap.andThen (.liftM (p.changeTo_ok hsize _)))⟩

/-! ### When explosions and rerolls stop, and when they are refused -/

/-- With any endless supply of faces, explosions and recursive rerolls stop: an explosion rolls no more dice
than the pool has room for, and each die is rolled again no more often than the cap allows. A blocked pool
is refused at once, and a spinning one in the end. Any other pool settles on some faces. -/
theorem stops_and_settles (hp : p.Valid) (faces : List Int) (cap : Int) :
    (∀ supply, (∃ r, (p.explodeRecursive faces cap).Stops supply (maxPoolSize - p.size) r) ∧
      (∃ r, (p.explodeAdditive faces cap).Stops supply (maxPoolSize - p.size) r) ∧
      ∃ r, (p.rerollRecursive faces cap).Stops supply (cap.toNat * p.size) r) ∧
    (p.Blocked faces → ∃ sides, ∀ s,
      (p.explodeOnce faces).on s = (.error (.everyFaceTriggers sides "explosion"), s) ∧
      (p.explodeRecursive faces cap).on s = (.error (.everyFaceTriggers sides "explosion"), s) ∧
      (p.explodeAdditive faces cap).on s = (.error (.everyFaceTriggers sides "explosion"), s) ∧
      (p.rerollRecursive faces cap).on s = (.error (.everyFaceTriggers sides "reroll"), s)) ∧
    (p.Spinning faces → ∀ supply,
      (∃ e, e.isOfExcess = true ∧ (p.explodeRecursive faces cap).Stops supply (maxPoolSize - p.size) (.error e)) ∧
      (∃ e, e.isOfExcess = true ∧ (p.explodeAdditive faces cap).Stops supply (maxPoolSize - p.size) (.error e)) ∧
      ∃ e, e.isOfExcess = true ∧ (p.rerollRecursive faces cap).Stops supply (cap.toNat * p.size) (.error e)) ∧
    (¬p.Blocked faces → ¬p.Spinning faces → 1 ≤ cap →
      (∃ taken c, (p.rerollRecursive faces cap).EndsAfter taken (.ok c)) ∧
      (p.size + (p.dice.countP fun d => faces.contains d.face) ≤ maxPoolSize → ∃ taken c c',
        (p.explodeRecursive faces cap).EndsAfter taken (.ok c) ∧
        (p.explodeAdditive faces cap).EndsAfter taken (.ok c'))) := by
  have hreroll : (p.rerollRecursive faces cap).TakesAtMost (cap.toNat * p.size) :=
    (p.takesAtMost_rerollRecursive faces cap).mono (Nat.mul_le_mul_left _ List.countP_le_length)
  have hrecursive := p.takesAtMost_explodeRecursive faces cap
  have hadditive := p.takesAtMost_explodeAdditive faces cap
  refine ⟨fun supply => ?_, fun hblocked => ?_, fun hspinning supply => ?_, fun hblocked hspinning hcap => ?_⟩
  · exact ⟨(p.local_explodeRecursive faces cap).stops hrecursive supply,
      (p.local_explodeAdditive faces cap).stops hadditive supply,
      (p.local_rerollRecursive faces cap).stops hreroll supply⟩
  · obtain ⟨sides, hcheck⟩ := exists_error_of_blocked hblocked
    refine ⟨sides, fun s => ?_⟩
    simp only [explodeOnce, explodeRecursive, explodeAdditive, explosion, rerollRecursive, hcheck]
    exact ⟨rfl, rfl, rfl, rfl⟩
  · have hexplosion : (p.explosion faces cap).Yields fun _ => False := explosion_spinning hspinning hp.1
    exact ⟨stops_in_excess (p.local_explodeRecursive faces cap) hrecursive (failsOnly_explodeRecursive cap)
        (hexplosion.bind fun _ h => h.elim) supply,
      stops_in_excess (p.local_explodeAdditive faces cap) hadditive (failsOnly_explodeAdditive cap)
        (hexplosion.bind fun _ h => h.elim) supply,
      stops_in_excess (p.local_rerollRecursive faces cap) hreroll (failsOnly_rerollRecursive cap)
        (rerollRecursive_spinning hspinning hp.1) supply⟩
  · refine ⟨exists_rerollRecursive_of_quiet hp hblocked hspinning hcap, fun hroom => ?_⟩
    obtain ⟨taken, cs, hsize, hlength, hends⟩ := exists_explosion_of_quiet hp hblocked hspinning hcap hroom
    have hsize' : (cs.map Chain.sum).length ≤ maxPoolSize := by
      rw [List.length_map, hlength]
      exact hp.2
    exact ⟨taken, _, _, hends.andThen (.liftM (p.changeTo_ok hsize _)), hends.andThen (.liftM (p.changeTo_ok hsize' _))⟩

/-- A six and a blank: rerolling sixes settles, exploding on all faces of the six is refused, and exploding
on the 0 of the blank is given up. -/
theorem stops_and_settles_six_and_blank :
    let p : Pool := ⟨[.plain 6 6, .plain 0 0], [⟨1, 6⟩, ⟨1, 0⟩]⟩
    p.Valid ∧ (∃ taken c, (p.rerollRecursive [6] 5).EndsAfter taken (.ok c)) ∧
      (∃ sides, ∀ s, (p.explodeOnce [1, 2, 3, 4, 5, 6]).on s = (.error (.everyFaceTriggers sides "explosion"), s)) ∧
      ∀ supply, ∃ e, e.isOfExcess = true ∧ (p.explodeRecursive [0, 6] 5).Stops supply 998 (.error e) := by
  intro p
  have hp : p.Valid := ⟨by simp [p, Die.Valid], by decide⟩
  have hquiet : ¬p.Blocked [6] := by
    rintro ⟨d, hd, hsides, hall⟩
    have hone := hall 1 (by decide) (by omega)
    simp at hone
  have hstill : ¬p.Spinning [6] := fun h => by simpa using h.1
  have hblocked : p.Blocked [1, 2, 3, 4, 5, 6] := by
    refine ⟨.plain 6 6, by simp [p], by decide, fun face hone hle => ?_⟩
    have hsix : face ≤ 6 := hle
    simp only [List.mem_cons, List.not_mem_nil, or_false]
    omega
  have hspinning : p.Spinning [0, 6] := ⟨by decide, .plain 0 0, by simp [p], rfl⟩
  refine ⟨hp, ((stops_and_settles hp [6] 5).2.2.2 hquiet hstill (by decide)).1, ?_, fun supply => ?_⟩
  · obtain ⟨sides, h⟩ := (stops_and_settles hp [1, 2, 3, 4, 5, 6] 5).2.1 hblocked
    exact ⟨sides, fun s => (h s).1⟩
  · exact ((stops_and_settles hp [0, 6] 5).2.2.1 hspinning supply).1

end Pool

end Tabletop
