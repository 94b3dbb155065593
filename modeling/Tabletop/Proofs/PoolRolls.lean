import Tabletop.Proofs.Generations

/-!
# Rolling a pool

The dice of a pool take a block of faces, one for each die that has sides, in order
(`Pool.mapM_roll_ok_iff`). So a roll is told by its shapes: it succeeds if its dice are not too many and
the faces suffice (`Pool.roll_ok_iff`), and the dice of more shapes are those of the first ones merged
with those of the rest (`Pool.rolls_append_iff`).
-/

namespace Tabletop.Pool

open Rolling

/-- Dice of the given sizes, each of which shows the next face, clamped onto it. A die without sides
shows 0 and takes no face. -/
def dealt : List Nat → List Int → List Die
  | [], _ => []
  | 0 :: sizes, faces => .plain 0 0 :: dealt sizes faces
  | (sides + 1) :: sizes, face :: faces =>
    .plain (sides + 1) (Die.clamp (sides + 1) face) :: dealt sizes faces
  | (_ + 1) :: _, [] => []

/-- How many dice of the given sizes take a face. -/
def takers (sizes : List Nat) : Nat := sizes.countP (· ≠ 0)

/-- The dice of these shapes are no more than a pool may hold. They take their faces, and make this pool. -/
def Rolls (shapes : List Shape) (s : Faces) (p : Pool) (s' : Faces) : Prop :=
  let sizes := shapes.flatMap Shape.sizes
  sizes.length ≤ maxPoolSize ∧
    ∃ block, block.length = takers sizes ∧ s.Takes block s' ∧ p = ⟨dealt sizes block, shapes⟩

variable {sizes sizes' : List Nat} {block block' : List Int} {ds : List Die} {s s' : Faces}

@[simp] theorem takers_nil : takers [] = 0 := rfl

@[simp] theorem takers_zero_cons : takers (0 :: sizes) = takers sizes := by simp [takers]

@[simp] theorem takers_succ_cons (sides : Nat) : takers ((sides + 1) :: sizes) = takers sizes + 1 := by
  simp [takers]

@[simp] theorem takers_append : takers (sizes ++ sizes') = takers sizes + takers sizes' :=
  List.countP_append

theorem takers_of_notMem (h : 0 ∉ sizes) : takers sizes = sizes.length :=
  List.countP_eq_length.2 fun sides hsides => by
    rw [decide_eq_true_eq]
    rintro rfl
    exact h hsides

theorem dealt_append (h : block.length = takers sizes) :
    dealt (sizes ++ sizes') (block ++ block') = dealt sizes block ++ dealt sizes' block' := by
  induction sizes generalizing block with
  | nil =>
    obtain rfl := List.length_eq_zero_iff.1 h
    rfl
  | cons sides sizes ih =>
    cases sides with
    | zero =>
      rw [takers_zero_cons] at h
      simp only [List.cons_append, dealt, ih h]
    | succ sides =>
      rw [takers_succ_cons] at h
      obtain ⟨face, block, rfl⟩ := List.exists_cons_of_length_eq_add_one h
      simp only [List.cons_append, dealt, ih (Nat.succ.inj h)]

theorem length_dealt (h : block.length = takers sizes) : (dealt sizes block).length = sizes.length := by
  induction sizes generalizing block with
  | nil => rfl
  | cons sides sizes ih =>
    cases sides with
    | zero =>
      rw [takers_zero_cons] at h
      rw [dealt, List.length_cons, List.length_cons, ih h]
    | succ sides =>
      rw [takers_succ_cons] at h
      obtain ⟨face, block, rfl⟩ := List.exists_cons_of_length_eq_add_one h
      rw [dealt, List.length_cons, List.length_cons, ih (Nat.succ.inj h)]

theorem dealt_of_notMem (h : 0 ∉ sizes) (block : List Int) : dealt sizes block = showing sizes block := by
  induction sizes generalizing block with
  | nil => rfl
  | cons sides sizes ih =>
    simp only [List.mem_cons, not_or] at h
    obtain ⟨sides, rfl⟩ := Nat.exists_eq_succ_of_ne_zero (Ne.symm h.1)
    cases block with
    | nil => rfl
    | cons face block =>
      rw [dealt, ih h.2]
      rfl

theorem showing_replicate (sides : Nat) (block : List Int) :
    showing (List.replicate block.length sides) block =
      block.map fun face => .plain sides (Die.clamp sides face) := by
  induction block with
  | nil => rfl
  | cons face block ih =>
    rw [List.length_cons, List.replicate_succ, List.map_cons, ← ih]
    rfl

/-! ### Rolling dice of given sizes -/

theorem mapM_roll_ok_iff :
    (sizes.mapM Die.roll).on s = (.ok ds, s') ↔
      ∃ block, block.length = takers sizes ∧ s.Takes block s' ∧ ds = dealt sizes block := by
  induction sizes generalizing s ds with
  | nil =>
    rw [List.mapM_nil]
    constructor
    · intro h
      obtain ⟨rfl, rfl⟩ := on_pure_ok h
      exact ⟨[], rfl, .refl s, rfl⟩
    · rintro ⟨block, hlen, htakes, rfl⟩
      obtain rfl := List.length_eq_zero_iff.1 hlen
      obtain rfl := htakes.eq_of_nil
      rfl
  | cons sides sizes ih =>
    rw [on_mapM_cons_ok_iff]
    cases sides with
    | zero =>
      -- a die without sides takes nothing
      constructor
      · rintro ⟨d, s₁, ds', hd, hds, rfl⟩
        obtain ⟨rfl, rfl⟩ := on_pure_ok (show (pure (.plain 0 0) : Rolling Die).on s = _ from hd)
        obtain ⟨block, hlen, htakes, rfl⟩ := ih.1 hds
        exact ⟨block, by simpa using hlen, htakes, rfl⟩
      · rintro ⟨block, hlen, htakes, rfl⟩
        exact ⟨_, s, _, rfl, ih.2 ⟨block, by simpa using hlen, htakes, rfl⟩, rfl⟩
    | succ sides =>
      constructor
      · rintro ⟨d, s₁, ds', hd, hds, rfl⟩
        obtain ⟨face, hface, rfl⟩ := (Die.roll_ok_iff (Nat.succ_ne_zero sides)).1 hd
        obtain ⟨block, hlen, hblock, rfl⟩ := ih.1 hds
        exact ⟨face :: block, by simp [hlen], hface.append hblock, rfl⟩
      · rintro ⟨block, hlen, htakes, rfl⟩
        rw [takers_succ_cons] at hlen
        obtain ⟨face, block, rfl⟩ := List.exists_cons_of_length_eq_add_one hlen
        obtain ⟨s₁, hface, hblock⟩ := htakes.split_cons
        exact ⟨_, s₁, _, (Die.roll_ok_iff (Nat.succ_ne_zero sides)).2 ⟨face, hface, rfl⟩,
          ih.2 ⟨block, Nat.succ.inj hlen, hblock, rfl⟩, rfl⟩

/-! ### Rolling shapes -/

variable {shapes shapes' : List Shape} {p : Pool}

theorem roll_ok_iff {counts sides : Argument} (h : shapesOf counts sides = .ok shapes) :
    (roll counts sides).on s = (.ok p, s') ↔ Rolls shapes s p s' := by
  rw [roll, liftM_ok h, pure_bind, on_bind_ok_iff]
  constructor
  · rintro ⟨⟨⟩, s₁, hcheck, hroll⟩
    obtain ⟨hsize, rfl⟩ := on_liftM_ok hcheck
    obtain ⟨ds, s₂, hds, hdice⟩ := on_bind_ok hroll
    obtain ⟨hpool, rfl⟩ := on_liftM_ok hdice
    obtain ⟨block, hlen, htakes, rfl⟩ := mapM_roll_ok_iff.1 hds
    exact ⟨checkSize_ok_iff.1 hsize, block, hlen, htakes, (ofDice_ok_iff.1 hpool).2⟩
  · rintro ⟨hsize, block, hlen, htakes, rfl⟩
    refine ⟨(), s, ?_, on_bind_ok_iff.2 ⟨_, s', mapM_roll_ok_iff.2 ⟨block, hlen, htakes, rfl⟩, ?_⟩⟩
    · rw [checkSize_ok_iff.2 hsize]
      rfl
    · rw [on_liftM, ofDice_ok_iff.2 ⟨by rwa [length_dealt hlen], rfl⟩]

/-- The dice of two lists of shapes are those of the one merged with those of the other. -/
theorem rolls_append_iff :
    Rolls (shapes ++ shapes') s p s' ↔
      ∃ q r s₁, Rolls shapes s q s₁ ∧ Rolls shapes' s₁ r s' ∧ q.merge r = .ok p := by
  simp only [Rolls, List.flatMap_append, List.length_append, takers_append]
  constructor
  · rintro ⟨hsize, block, hlen, htakes, rfl⟩
    rw [← block.take_append_drop (takers (shapes.flatMap Shape.sizes))] at htakes ⊢
    have hfirst : (block.take (takers (shapes.flatMap Shape.sizes))).length =
        takers (shapes.flatMap Shape.sizes) := List.length_take_of_le (by omega)
    have hsecond : (block.drop (takers (shapes.flatMap Shape.sizes))).length =
        takers (shapes'.flatMap Shape.sizes) := by
      rw [List.length_drop]
      omega
    obtain ⟨s₁, htakes, htakes'⟩ := htakes.split
    refine ⟨_, _, s₁, ⟨by omega, _, hfirst, htakes, rfl⟩, ⟨by omega, _, hsecond, htakes', rfl⟩, ?_⟩
    rw [merge, ofDice_ok_iff, dealt_append hfirst, List.length_append, length_dealt hfirst,
      length_dealt hsecond]
    exact ⟨hsize, rfl⟩
  · rintro ⟨_, _, s₁, ⟨-, block, hlen, htakes, rfl⟩, ⟨-, block', hlen', htakes', rfl⟩, hmerge⟩
    obtain ⟨hsize, rfl⟩ := ofDice_ok_iff.1 hmerge
    rw [List.length_append, length_dealt hlen, length_dealt hlen'] at hsize
    refine ⟨hsize, block ++ block', by rw [List.length_append, hlen, hlen'], htakes.append htakes', ?_⟩
    rw [dealt_append hlen]

theorem roll_single_ok_iff {n sides : Nat} (hsides : sides ≠ 0) (hn : n ≤ maxPoolSize) :
    (roll (.single n) (.single sides)).on s = (.ok p, s') ↔
      ∃ block, block.length = n ∧ s.Takes block s' ∧
        p = ⟨block.map fun face => .plain sides (Die.clamp sides face), [⟨n, sides⟩]⟩ := by
  have hsizes : [Shape.mk n sides].flatMap Shape.sizes = List.replicate n sides := by
    simp [Shape.sizes]
  have hzero : 0 ∉ List.replicate n sides := fun h => hsides (List.eq_of_mem_replicate h).symm
  have htakers : takers (List.replicate n sides) = n := by
    rw [takers_of_notMem hzero, List.length_replicate]
  rw [roll_ok_iff rfl, Rolls]
  simp only [hsizes, htakers, List.length_replicate, hn, true_and]
  refine exists_congr fun block => and_congr_right fun hlen => ?_
  rw [dealt_of_notMem hzero, ← hlen, showing_replicate]

end Tabletop.Pool
