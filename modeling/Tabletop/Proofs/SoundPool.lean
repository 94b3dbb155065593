import Tabletop.Proofs.Changes

/-!
# Operators make sound pools of sound pools

A sound die shows a face that it has, and has no more sides than an argument may ask for; a sound
pool holds sound dice and not too many. Rolling a pool makes a sound one, and every operator on
pools makes a sound one of a sound one.

Additive explosion would make an unsound die of one without sides, which shows 0 and no part may be
0. But such a die, once it triggers, triggers for ever (`Chain.Sound.blank`), so that the explosion
never settles.
-/

namespace Tabletop

open Rolling

namespace Die

/-- The die shows what it can, and is one that may be asked for. -/
structure Sound (d : Die) : Prop where
  valid : d.Valid
  sides_le : d.sides ≤ maxArgument

variable {d : Die} {sides : Nat}

theorem one_le_clamp (h : 1 ≤ sides) (face : Int) : 1 ≤ clamp sides face := by
  unfold clamp
  omega

theorem clamp_le (face : Int) : clamp sides face ≤ sides := by
  unfold clamp
  omega

theorem Valid.one_le {parts : List Int} (h : (compound sides parts).Valid) : 1 ≤ sides := by
  obtain ⟨part, hpart⟩ := List.exists_mem_of_ne_nil parts h.1
  have := h.2 part hpart
  omega

theorem Valid.eq_of_sides (h : d.Valid) (hd : d.sides = 0) : d = plain 0 0 := by
  cases d with
  | plain sides shown =>
    obtain rfl : sides = 0 := hd
    rcases h with ⟨-, rfl⟩ | h
    · rfl
    · omega
  | compound sides parts => exact absurd hd (Nat.ne_of_gt h.one_le)

theorem Valid.parts_ne_nil (h : d.Valid) : d.parts ≠ [] := by
  cases d with
  | plain sides shown => exact List.cons_ne_nil _ _
  | compound sides parts => exact h.1

theorem Valid.parts (h : d.Valid) (hd : 1 ≤ d.sides) : ∀ part ∈ d.parts, 1 ≤ part ∧ part ≤ d.sides := by
  cases d with
  | plain sides shown =>
    intro part hpart
    obtain rfl := List.mem_singleton.1 hpart
    rcases h with ⟨rfl, -⟩ | h
    · exact absurd hd (Nat.not_succ_le_zero 0)
    · exact h
  | compound sides parts => exact h.2

theorem result_eq_sum (d : Die) : d.result = Tabletop.sum d.parts := by
  cases d with
  | plain sides shown => simp [result, parts, Tabletop.sum]
  | compound sides parts => rfl

theorem roll_yields (h : sides ≤ maxArgument) :
    (roll sides).Yields fun d => d.Sound ∧ ∃ shown, d = plain sides shown := by
  rw [roll]
  split
  · subst sides
    exact .pure ⟨⟨.inl ⟨rfl, rfl⟩, h⟩, 0, rfl⟩
  · have hs : 1 ≤ sides := by omega
    exact (Yields.any _).bind fun face _ =>
      .pure ⟨⟨.inr ⟨one_le_clamp hs face, clamp_le face⟩, h⟩, _, rfl⟩

theorem Sound.reroll (h : d.Sound) : d.reroll.Yields Sound := by
  cases d with
  | plain sides shown => exact (roll_yields h.sides_le).mono fun _ hd => hd.1
  | compound sides parts =>
    have hs : 1 ≤ sides := h.valid.one_le
    refine (Yields.any _).bind fun face _ => .pure ⟨⟨List.cons_ne_nil _ _, ?_⟩, h.sides_le⟩
    intro part hpart
    obtain rfl := List.mem_singleton.1 hpart
    exact ⟨one_le_clamp hs face, clamp_le face⟩

end Die

namespace Pool

structure Sound (p : Pool) : Prop where
  dice : ∀ d ∈ p.dice, d.Sound
  size : p.size ≤ maxPoolSize

end Pool

/-- The pool is sound, and so are the dice in the breakdown. -/
structure Change.Sound (c : Change) : Prop where
  pool : c.pool.Sound
  shown : ∀ e ∈ c.breakdown, e.die.Sound

theorem Change.Made.sound {p : Pool} {c : Change} (h : c.Made p Die.Sound) : c.Sound := ⟨⟨h.dice, h.size⟩, h.shown⟩

namespace Pool

variable {p q : Pool} {ds : List Die} {shapes : List Shape} {c : Change} {faces : List Int}

theorem sound_of_ofDice (hd : ∀ d ∈ ds, d.Sound) (h : ofDice ds shapes = .ok p) : p.Sound := by
  obtain ⟨hsize, rfl⟩ := ofDice_ok_iff.1 h
  exact ⟨hd, hsize⟩

theorem Sound.merge (hp : p.Sound) (hq : q.Sound) {r : Pool} (h : p.merge q = .ok r) : r.Sound := by
  refine sound_of_ofDice (fun d hd => ?_) h
  rcases List.mem_append.1 hd with hd | hd
  · exact hp.dice d hd
  · exact hq.dice d hd

/-! ### Rolling -/

theorem sides_mem_of_shapesOf {counts sides : Argument} (h : shapesOf counts sides = .ok shapes) :
    ∀ s ∈ shapes, s.sides ∈ sides.values := by
  unfold shapesOf at h
  split at h
  · cases h
    simp [Argument.values]
  · cases h
    simp [Argument.values]
  · cases h
    simp [Argument.values]
  · split at h
    · cases h
      intro s hs
      obtain ⟨i, hi, rfl⟩ := List.getElem_of_mem hs
      simp [Argument.values]
    · cases h

theorem roll_yields {counts sides : Argument} (h : ∀ n ∈ sides.values, n ≤ maxArgument) :
    (Pool.roll counts sides).Yields Sound := by
  refine Yields.bind (.liftM fun shapes hs => sides_mem_of_shapesOf hs) fun shapes hs => ?_
  have hsizes : ∀ n ∈ shapes.flatMap Shape.sizes, n ≤ maxArgument := by
    intro n hn
    obtain ⟨s, hmem, hn⟩ := List.mem_flatMap.1 hn
    rw [List.eq_of_mem_replicate hn]
    exact h _ (hs s hmem)
  have hroll : ((shapes.flatMap Shape.sizes).mapM Die.roll).Yields fun ds => ∀ d ∈ ds, d.Sound :=
    .mapM fun n hn => (Die.roll_yields (hsizes n hn)).mono fun _ hd => hd.1
  refine (Yields.any _).bind fun _ _ => hroll.bind fun ds hd => ?_
  exact .liftM fun p hp => sound_of_ofDice hd hp

/-! ### Keeping -/

theorem Sound.keep (hp : p.Sound) {chosen : List (Die × Nat)} (hc : ∀ x ∈ chosen, x.1 ∈ p.dice)
    (h : p.keep chosen = .ok c) : c.Sound := (made_of_keep hp.dice hc h).sound

theorem fst_mem_of_mem_ascending {x : Die × Nat} (h : x ∈ p.ascending) : x.1 ∈ p.dice :=
  List.fst_mem_of_mem_zipIdx (List.mem_mergeSort.1 h)

theorem Sound.keepHigh (hp : p.Sound) {n : Int} (h : p.keepHigh n = .ok c) : c.Sound :=
  hp.keep (fun _ hx => fst_mem_of_mem_ascending (List.mem_of_mem_drop hx)) h

theorem Sound.keepLow (hp : p.Sound) {n : Int} (h : p.keepLow n = .ok c) : c.Sound :=
  hp.keep (fun _ hx => fst_mem_of_mem_ascending (List.mem_of_mem_take hx)) h

theorem Sound.keepExact (hp : p.Sound) (h : p.keepExact faces = .ok c) : c.Sound :=
  hp.keep (fun _ hx => List.fst_mem_of_mem_zipIdx (List.mem_filter.1 hx).1) h

/-! ### Exploding -/

namespace Chain

/-- The root is sound, and so are the extra dice, which are plain and of its size. Without sides, a
chain with extra dice is live. -/
structure Sound (faces : List Int) (c : Chain) : Prop where
  root : c.root.Sound
  extras : ∀ d ∈ c.extras, d.Sound ∧ ∃ shown, d = .plain c.root.sides shown
  blank : c.root.sides = 0 → c.extras ≠ [] → c.isLive faces = true

variable {k : Chain}

theorem sound_start {d : Die} (h : d.Sound) : (start d).Sound faces :=
  ⟨h, List.forall_mem_nil _, fun _ hk => absurd rfl hk⟩

theorem Sound.dice (h : k.Sound faces) : ∀ d ∈ k.dice, d.Sound :=
  List.forall_mem_cons.2 ⟨h.root, fun d hd => (h.extras d hd).1⟩

theorem Sound.last (h : k.Sound faces) : k.last.Sound ∧ k.last.sides = k.root.sides := by
  rw [Chain.last, List.getLastD_eq_getLast?]
  cases hlast : k.extras.getLast? with
  | none => exact ⟨h.root, rfl⟩
  | some d =>
    obtain ⟨hd, shown, hshown⟩ := h.extras d (List.mem_of_getLast? hlast)
    exact ⟨hd, by simp [hshown, Die.sides]⟩

theorem Sound.grow (h : k.Sound faces) : (k.grow faces).Yields (Sound faces) := by
  rw [Chain.grow]
  split
  · rename_i hlive
    obtain ⟨hlast, hsides⟩ := h.last
    refine (Die.roll_yields hlast.sides_le).bind fun extra ⟨hextra, shown, hshown⟩ => .pure ?_
    refine ⟨h.root, fun d hd => ?_, fun hroot _ => ?_⟩
    · rcases List.mem_append.1 hd with hd | hd
      · exact h.extras d hd
      · obtain rfl := List.mem_singleton.1 hd
        exact ⟨hextra, shown, by rw [hshown, hsides]⟩
    · have hzero : extra.sides = 0 := by rw [hshown, Die.sides, hsides, hroot]
      rw [isLive, hlast.valid.eq_of_sides (by rw [hsides, hroot])] at hlive
      rw [isLive, Chain.last, List.getLastD_concat, hextra.valid.eq_of_sides hzero]
      exact hlive
  · exact .pure h

theorem result_sum (c : Chain) : c.sum.result = c.root.result + Tabletop.sum (c.extras.map Die.result) := by
  obtain ⟨root, extras⟩ := c
  cases extras with
  | nil => exact (Int.add_zero _).symm
  | cons d extras =>
    show Tabletop.sum (root.parts ++ _) = _
    rw [sum_append, ← Die.result_eq_sum]

theorem sides_sum (c : Chain) : c.sum.sides = c.root.sides := by
  unfold sum
  split <;> rfl

theorem Sound.sum (h : k.Sound faces) (hk : k.isLive faces = false) : k.sum.Sound := by
  rw [Chain.sum]
  split
  · exact h.root
  · rename_i hextras
    have hsides : 1 ≤ k.root.sides := by
      refine Nat.pos_of_ne_zero fun hroot => ?_
      have hlive := h.blank hroot fun he => hextras (by rw [he]; rfl)
      rw [hk] at hlive
      cases hlive
    refine ⟨⟨?_, fun part hpart => ?_⟩, h.root.sides_le⟩
    · exact List.append_ne_nil_of_left_ne_nil h.root.valid.parts_ne_nil _
    · rcases List.mem_append.1 hpart with hpart | hpart
      · exact h.root.valid.parts hsides part hpart
      · obtain ⟨d, hd, rfl⟩ := List.mem_map.1 hpart
        obtain ⟨hd, shown, rfl⟩ := h.extras d hd
        exact hd.valid.parts hsides shown List.mem_cons_self

end Chain

theorem settle_yields {cap : Int} {left size : Nat} {cs : List Chain}
    (h : ∀ k ∈ cs, k.Sound faces) :
    (settle faces cap left size cs).Yields fun cs =>
      ∀ k ∈ cs, k.Sound faces ∧ k.isLive faces = false := by
  have hgrow {cs : List Chain} (h : ∀ k ∈ cs, k.Sound faces) :
      (cs.mapM (Chain.grow faces)).Yields fun cs => ∀ k ∈ cs, k.Sound faces := .mapM fun k hk => (h k hk).grow
  refine Yields.mono (settle_yields_of (I := fun _ cs => ∀ k ∈ cs, k.Sound faces) (fun _ _ h _ _ => hgrow h) h) ?_
  exact fun cs ⟨⟨_, hsound⟩, hstill⟩ k hk => ⟨hsound k hk, hstill k hk⟩

theorem Sound.chains (hp : p.Sound) : ∀ k ∈ p.chains, k.Sound faces := by
  intro k hk
  obtain ⟨d, hd, rfl⟩ := List.mem_map.1 hk
  exact Chain.sound_start (hp.dice d hd)

theorem Sound.explodeOnce (hp : p.Sound) : (p.explodeOnce faces).Yields Change.Sound := by
  have hgrow : (p.chains.mapM (Chain.grow faces)).Yields fun cs => ∀ k ∈ cs, k.Sound faces :=
    .mapM fun k hk => (hp.chains k hk).grow
  refine (Yields.any _).bind fun _ _ => hgrow.bind fun cs hcs => ?_
  exact .liftM fun c hc => (made_of_lineUp (fun k hk => (hcs k hk).dice) hc).sound

theorem Sound.explosion (hp : p.Sound) (cap : Int) :
    (p.explosion faces cap).Yields fun cs => ∀ k ∈ cs, k.Sound faces ∧ k.isLive faces = false :=
  (Yields.any _).bind fun _ _ => settle_yields hp.chains

theorem Sound.explodeRecursive (hp : p.Sound) (cap : Int) :
    (p.explodeRecursive faces cap).Yields Change.Sound := by
  refine (hp.explosion cap).bind fun cs hcs => .liftM fun c hc => ?_
  exact (made_of_lineUp (fun k hk => (hcs k hk).1.dice) hc).sound

theorem Sound.explodeAdditive (hp : p.Sound) (cap : Int) :
    (p.explodeAdditive faces cap).Yields Change.Sound := by
  refine (hp.explosion cap).bind fun cs hcs => .liftM fun c hc => ?_
  exact (made_of_sums (fun k hk => (hcs k hk).1.sum (hcs k hk).2) hc).sound

/-! ### Rolling again -/

/-- The die that takes the place is sound, and so are those that are shown. -/
structure Replacement.Sound (r : Replacement) : Prop where
  die : r.die.Sound
  shown : ∀ e ∈ r.entries, e.die.Sound

theorem Preference.sound_replace {old new : Die} (preference : Preference) (ho : old.Sound)
    (hn : new.Sound) : (preference.replace old new).Sound := by
  rw [replace]
  split
  · exact ⟨hn, by simp [ho, hn]⟩
  · exact ⟨ho, by simp [ho, hn]⟩

theorem Replacement.sound_unchanged {d : Die} (h : d.Sound) : (unchanged d).Sound :=
  ⟨h, by simp [unchanged, h]⟩

theorem rerollDie_yields {d : Die} (preference : Preference) (h : d.Sound) :
    (rerollDie preference faces d).Yields Replacement.Sound := by
  rw [rerollDie]
  split
  · exact h.reroll.bind fun _ hn => .pure (preference.sound_replace h hn)
  · exact .pure (Replacement.sound_unchanged h)

theorem chase_yields {cap : Int} {left : Nat} {again : Bool} {d : Die} (h : d.Sound) :
    (chase faces cap left again d).Yields Replacement.Sound := by
  refine chase_yields_of (R := fun _ r => r.Sound) (fun d again hd _ => ⟨hd, by simp [hd]⟩) (fun d hd _ => ?_) h
  exact hd.reroll.mono fun new hnew => ⟨hnew, fun r hr => ⟨hr.die, List.forall_mem_cons.2 ⟨hd, hr.shown⟩⟩⟩

theorem Sound.replaceAll (hp : p.Sound) {f : Die → Rolling Replacement}
    (hf : ∀ d : Die, d.Sound → (f d).Yields Replacement.Sound) :
    (do p.replaceAll (← p.dice.mapM f) : Rolling Change).Yields Change.Sound := by
  have hmap : (p.dice.mapM f).Yields fun rs => ∀ r ∈ rs, r.Sound :=
    .mapM fun d hd => hf d (hp.dice d hd)
  exact hmap.bind fun rs hrs => .liftM fun c hc =>
    (made_of_replaceAll (fun r hr => (hrs r hr).die) (fun r hr => (hrs r hr).shown) hc).sound

theorem Sound.reroll (hp : p.Sound) (preference : Preference) :
    (p.reroll preference faces).Yields Change.Sound :=
  hp.replaceAll fun _ hd => rerollDie_yields preference hd

theorem Sound.rerollRecursive (hp : p.Sound) (cap : Int) :
    (p.rerollRecursive faces cap).Yields Change.Sound :=
  (Yields.any _).bind fun _ _ => hp.replaceAll fun _ hd => chase_yields hd

end Pool

/-- Every operator makes a sound pool of a sound pool. -/
theorem PoolMode.apply_yields (mode : PoolMode) {p : Pool} (hp : p.Sound) (arg : Argument) (cap : Int) :
    (mode.apply p arg cap).Yields Change.Sound := by
  cases mode with
  | keep mode =>
    cases mode with
    | high => exact (Yields.any _).bind fun _ _ => .liftM fun _ h => hp.keepHigh h
    | low => exact (Yields.any _).bind fun _ _ => .liftM fun _ h => hp.keepLow h
    | exact => exact .liftM fun _ h => hp.keepExact h
  | explode mode =>
    cases mode with
    | once => exact hp.explodeOnce
    | recursive => exact hp.explodeRecursive cap
    | additive => exact hp.explodeAdditive cap
  | reroll mode =>
    cases mode with
    | once => exact hp.reroll .newer
    | better => exact hp.reroll .higher
    | worse => exact hp.reroll .lower
    | recursive => exact hp.rerollRecursive cap

end Tabletop
