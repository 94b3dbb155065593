import Tabletop.Proofs.SoundPool

/-!
# Explosions by generations

An explosion takes its faces block by block. The first block has a face for each die of the pool
that triggers, and each later block a face for each die of the block before that triggers, in pool
order; the last block triggers nothing (`Settles`). `generations` are the dice that the blocks show.

The chains are the same dice read the other way: a generation is a column across the chains. `Deals`
hands the faces of one block to the live chains in order, which is what growing them all does
(`mapM_grow_ok_iff`).
-/

namespace Tabletop

open Rolling

/-- A block of faces is taken from the front of a supply. -/
structure Faces.Takes (s : Faces) (block : List Int) (s' : Faces) : Prop where
  coming : s.coming = block ++ s'.coming
  used : s'.used = s.used + block.length

namespace Faces.Takes

variable {s s' s'' : Faces} {block block' : List Int}

theorem refl (s : Faces) : s.Takes [] s := ⟨rfl, rfl⟩

theorem eq_of_nil (h : s.Takes [] s') : s = s' := by
  obtain ⟨hcoming, hused⟩ := h
  cases s
  cases s'
  simp_all

theorem append (h : s.Takes block s') (h' : s'.Takes block' s'') : s.Takes (block ++ block') s'' := by
  refine ⟨?_, ?_⟩
  · rw [h.coming, h'.coming, List.append_assoc]
  · rw [h'.used, h.used, List.length_append, Nat.add_assoc]

theorem split (h : s.Takes (block ++ block') s'') : ∃ s', s.Takes block s' ∧ s'.Takes block' s'' := by
  refine ⟨⟨block' ++ s''.coming, s.used + block.length⟩, ⟨?_, rfl⟩, rfl, ?_⟩
  · rw [h.coming, List.append_assoc]
  · rw [h.used, List.length_append, Nat.add_assoc]

/-- The first face of a block is taken before the others. -/
theorem split_cons {face : Int} (h : s.Takes (face :: block) s'') : ∃ s', s.Takes [face] s' ∧ s'.Takes block s'' := by
  rw [← List.singleton_append] at h
  exact h.split

end Faces.Takes

theorem Rolling.on_draw_ok_iff {s s' : Faces} {face : Int} : draw.on s = (.ok face, s') ↔ s.Takes [face] s' := by
  obtain ⟨_ | ⟨next, rest⟩, n⟩ := s
  · constructor
    · intro h
      cases h
    · rintro ⟨hcoming, -⟩
      cases hcoming
  · rw [on_draw_cons]
    constructor
    · intro h
      cases h
      exact ⟨rfl, rfl⟩
    · rintro ⟨hcoming, hused⟩
      obtain ⟨rfl, rfl⟩ := List.cons.inj hcoming
      obtain ⟨coming, used⟩ := s'
      obtain rfl : used = n + 1 := hused
      rfl

theorem Die.roll_ok_iff {sides : Nat} (h : sides ≠ 0) {s s' : Faces} {d : Die} :
    (roll sides).on s = (.ok d, s') ↔
      ∃ face, s.Takes [face] s' ∧ d = .plain sides (clamp sides face) := by
  simp only [roll, if_neg h, on_bind_pure_ok_iff, on_draw_ok_iff]

theorem Die.valid_clamp (sides : Nat) (face : Int) : (plain sides (clamp sides face)).Valid := by
  rcases Nat.eq_zero_or_pos sides with rfl | hsides
  · refine .inl ⟨rfl, ?_⟩
    unfold clamp
    omega
  · exact .inr ⟨one_le_clamp hsides face, clamp_le face⟩

namespace Pool

variable {faces : List Int} {sizes : List Nat} {block : List Int} {blocks : List (List Int)}

/-! ### The process -/

def triggers (faces : List Int) (ds : List Die) : List Nat :=
  (ds.filter fun d => faces.contains d.face).map Die.sides

/-- Dice of these sizes that show a block of faces, each clamped onto its die. -/
def showing (sizes : List Nat) (block : List Int) : List Die :=
  List.zipWith (fun sides face => .plain sides (Die.clamp sides face)) sizes block

/-- Dice of the given sizes are rolled, a block of faces for all of them; then those of the same
sizes as triggered; and so on, until none does. -/
def Settles (faces : List Int) : List Nat → List (List Int) → Prop
  | sizes, [] => sizes = []
  | sizes, block :: blocks =>
    sizes ≠ [] ∧ block.length = sizes.length ∧ Settles faces (triggers faces (showing sizes block)) blocks

def generations (faces : List Int) : List Nat → List (List Int) → List (List Die)
  | _, [] => []
  | sizes, block :: blocks =>
    showing sizes block :: generations faces (triggers faces (showing sizes block)) blocks

theorem triggers_cons_of_pos {d : Die} {ds : List Die} (hd : faces.contains d.face = true) :
    triggers faces (d :: ds) = d.sides :: triggers faces ds := by
  rw [triggers, List.filter_cons, if_pos hd]
  rfl

theorem triggers_cons_of_neg {d : Die} {ds : List Die} (hd : faces.contains d.face = false) :
    triggers faces (d :: ds) = triggers faces ds := by
  rw [triggers, List.filter_cons, if_neg (ne_true_of_eq_false hd)]
  rfl

/-- A die without sides triggers for ever, once it triggers. -/
theorem Settles.zero_notMem (h : Settles faces sizes blocks) (hfaces : faces.contains 0 = true) :
    0 ∉ sizes := by
  induction blocks generalizing sizes with
  | nil =>
    have hsizes : sizes = [] := h
    simp [hsizes]
  | cons block blocks ih =>
    obtain ⟨-, hlen, h⟩ := h
    intro hzero
    refine ih h ?_
    -- the die shows 0 whatever its face, so that it triggers another one in the next generation
    obtain ⟨i, hi, hsize⟩ := List.getElem_of_mem hzero
    have hi' : i < block.length := by omega
    have hclamp : Die.clamp 0 block[i] = 0 := by
      unfold Die.clamp
      omega
    have hget : (showing sizes block)[i]? = some (.plain 0 0) := by
      rw [showing, List.getElem?_zipWith, List.getElem?_eq_getElem hi, List.getElem?_eq_getElem hi',
        hsize]
      dsimp only
      rw [hclamp]
    have hmem := List.mem_of_getElem? hget
    exact List.mem_map.2 ⟨.plain 0 0, List.mem_filter.2 ⟨hmem, hfaces⟩, rfl⟩

/-! ### Chains that grow -/

namespace Chain

/-- The chain with one die more, of the same size and with that face. -/
def add (c : Chain) (face : Int) : Chain :=
  { c with extras := c.extras ++ [.plain c.last.sides (Die.clamp c.last.sides face)] }

/-- A chain in the making: the extra dice are of the size of the root, and every die but the last
triggers. -/
structure Linked (faces : List Int) (c : Chain) : Prop where
  root : c.root.Valid
  extras : ∀ d ∈ c.extras, d.Valid ∧ d.sides = c.root.sides
  triggering : ∀ d ∈ c.dice.dropLast, faces.contains d.face = true

variable {c c' : Chain} {face : Int}

@[simp] theorem root_add : (c.add face).root = c.root := rfl

@[simp] theorem last_add :
    (c.add face).last = .plain c.last.sides (Die.clamp c.last.sides face) := List.getLastD_concat

theorem dice_add :
    (c.add face).dice = c.dice ++ [.plain c.last.sides (Die.clamp c.last.sides face)] := rfl

theorem dice_eq_dropLast_append : c.dice = c.dice.dropLast ++ [c.last] := by
  have hne : c.dice ≠ [] := List.cons_ne_nil _ _
  have hlast : c.dice.getLast hne = c.last := by
    simp [dice, last, List.getLastD_eq_getLast?, List.getLast_eq_getLastD]
  rw [← hlast, List.dropLast_concat_getLast]

theorem mem_dice_last : c.last ∈ c.dice := by
  rw [dice_eq_dropLast_append]
  simp

theorem Linked.last (h : c.Linked faces) : c.last.Valid ∧ c.last.sides = c.root.sides := by
  rcases List.mem_cons.1 c.mem_dice_last with hroot | hextra
  · rw [hroot]
    exact ⟨h.root, rfl⟩
  · exact h.extras _ hextra

theorem linked_start {d : Die} (hd : d.Valid) : (start d).Linked faces where
  root := hd
  extras := List.forall_mem_nil _
  triggering := List.forall_mem_nil _

theorem Linked.add (h : c.Linked faces) (hc : c.isLive faces = true) (face : Int) :
    (c.add face).Linked faces where
  root := h.root
  extras := by
    intro d hd
    rcases List.mem_append.1 hd with hd | hd
    · exact h.extras d hd
    · obtain rfl := List.mem_singleton.1 hd
      exact ⟨Die.valid_clamp _ _, h.last.2⟩
  triggering := by
    intro d hd
    rw [dice_add, List.dropLast_concat, dice_eq_dropLast_append, List.mem_append, List.mem_singleton] at hd
    rcases hd with hd | rfl
    · exact h.triggering d hd
    · exact hc

theorem grow_of_live (hc : c.isLive faces = true) (hsides : c.last.sides ≠ 0) {s s' : Faces} :
    (c.grow faces).on s = (.ok c', s') ↔ ∃ face, s.Takes [face] s' ∧ c' = c.add face := by
  rw [grow, if_pos hc, on_bind_pure_ok_iff]
  constructor
  · rintro ⟨d, hroll, rfl⟩
    obtain ⟨face, hface, rfl⟩ := (Die.roll_ok_iff hsides).1 hroll
    exact ⟨face, hface, rfl⟩
  · rintro ⟨face, hface, rfl⟩
    exact ⟨_, (Die.roll_ok_iff hsides).2 ⟨face, hface, rfl⟩, rfl⟩

theorem grow_of_still (hc : c.isLive faces = false) : c.grow faces = pure c := by
  rw [grow, if_neg (ne_true_of_eq_false hc)]

/-- A chain that ends in a die without sides goes on with dice without sides. -/
theorem grow_blank (hc : c.last = .plain 0 0) : (c.grow faces).Yields fun c' => c'.last = .plain 0 0 := by
  rw [grow]
  split
  · have hexplode : c.last.explode = pure (.plain 0 0) := by rw [hc]; rfl
    rw [hexplode, pure_bind]
    exact .pure List.getLastD_concat
  · exact .pure hc

end Chain

/-- The sizes of the dice that the live chains roll next. -/
def liveSizes (faces : List Int) (cs : List Chain) : List Nat := triggers faces (cs.map Chain.last)

/-- The faces of a block go to the live chains, one to each, in order. -/
inductive Deals (faces : List Int) : List Chain → List Int → List Chain → Prop
  | nil : Deals faces [] [] []
  | live {c : Chain} {face : Int} {cs cs' : List Chain} {block : List Int}
      (hc : c.isLive faces = true) (h : Deals faces cs block cs') :
      Deals faces (c :: cs) (face :: block) (c.add face :: cs')
  | still {c : Chain} {cs cs' : List Chain} {block : List Int}
      (hc : c.isLive faces = false) (h : Deals faces cs block cs') :
      Deals faces (c :: cs) block (c :: cs')

variable {cs cs' : List Chain} {c : Chain}

theorem liveSizes_cons_of_live (hc : c.isLive faces = true) :
    liveSizes faces (c :: cs) = c.last.sides :: liveSizes faces cs := triggers_cons_of_pos hc

theorem liveSizes_cons_of_still (hc : c.isLive faces = false) :
    liveSizes faces (c :: cs) = liveSizes faces cs := triggers_cons_of_neg hc

theorem liveSizes_chains (p : Pool) : liveSizes faces p.chains = triggers faces p.dice := by
  have hlast : Chain.last ∘ Chain.start = id := rfl
  rw [liveSizes, chains, List.map_map, hlast, List.map_id]

theorem countP_isLive (cs : List Chain) : cs.countP (Chain.isLive faces) = (liveSizes faces cs).length := by
  simp only [liveSizes, triggers, List.length_map, List.filter_map, List.countP_eq_length_filter]
  rfl

/-! ### One generation of chains -/

/-- The dice of one generation, in the order of their chains. -/
def column (cs : List Chain) (k : Nat) : List Die := cs.filterMap fun c => c.extras[k]?

theorem column_cons (c : Chain) (cs : List Chain) (k : Nat) :
    column (c :: cs) k = c.extras[k]?.toList ++ column cs k := by
  rw [column, List.filterMap_cons]
  cases c.extras[k]? <;> rfl

/-- No chain has more than `k` extra dice, and the live ones have as many. -/
def Even (faces : List Int) (k : Nat) (cs : List Chain) : Prop :=
  ∀ c ∈ cs, c.extras.length ≤ k ∧ (c.isLive faces = true → c.extras.length = k)

namespace Deals

theorem length_eq (h : Deals faces cs block cs') : block.length = (liveSizes faces cs).length := by
  induction h with
  | nil => rfl
  | live hc _ ih => rw [liveSizes_cons_of_live hc, List.length_cons, List.length_cons, ih]
  | still hc _ ih => rw [liveSizes_cons_of_still hc, ih]

theorem map_root (h : Deals faces cs block cs') : cs'.map Chain.root = cs.map Chain.root := by
  induction h with
  | nil => rfl
  | live _ _ ih => rw [List.map_cons, List.map_cons, ih, Chain.root_add]
  | still _ _ ih => rw [List.map_cons, List.map_cons, ih]

theorem linked (h : Deals faces cs block cs') (hcs : ∀ c ∈ cs, c.Linked faces) :
    ∀ c ∈ cs', c.Linked faces := by
  induction h with
  | nil => exact hcs
  | live hc _ ih =>
    obtain ⟨hlinked, hcs⟩ := List.forall_mem_cons.1 hcs
    exact List.forall_mem_cons.2 ⟨hlinked.add hc _, ih hcs⟩
  | still _ _ ih =>
    obtain ⟨hlinked, hcs⟩ := List.forall_mem_cons.1 hcs
    exact List.forall_mem_cons.2 ⟨hlinked, ih hcs⟩

theorem length_dice (h : Deals faces cs block cs') :
    (cs'.flatMap Chain.dice).length = (cs.flatMap Chain.dice).length + block.length := by
  induction h with
  | nil => rfl
  | live _ _ ih =>
    simp only [List.flatMap_cons, List.length_append, List.length_cons, Chain.dice, Chain.add, ih]
    simp
    omega
  | still _ _ ih =>
    simp only [List.flatMap_cons, List.length_append, ih]
    omega

/-- What the dice that were dealt trigger is what the live chains roll next. -/
theorem liveSizes_eq (h : Deals faces cs block cs') :
    liveSizes faces cs' = triggers faces (showing (liveSizes faces cs) block) := by
  induction h with
  | nil => rfl
  | @live c face cs cs' block hc h ih =>
    rw [liveSizes_cons_of_live hc]
    have hshow : showing (c.last.sides :: liveSizes faces cs) (face :: block) =
        (c.add face).last :: showing (liveSizes faces cs) block := by
      rw [Chain.last_add]
      rfl
    rw [hshow]
    cases hadd : (c.add face).isLive faces with
    | true => rw [liveSizes_cons_of_live hadd, triggers_cons_of_pos hadd, ih]
    | false => rw [liveSizes_cons_of_still hadd, triggers_cons_of_neg hadd, ih]
  | still hc _ ih => rw [liveSizes_cons_of_still hc, liveSizes_cons_of_still hc, ih]

variable {k : Nat}

theorem even (h : Deals faces cs block cs') (hcs : Even faces k cs) : Even faces (k + 1) cs' := by
  induction h with
  | nil => exact List.forall_mem_nil _
  | live hc _ ih =>
    obtain ⟨⟨-, hk⟩, hcs⟩ := List.forall_mem_cons.1 hcs
    have hlen : ∀ face, ((Chain.add _ face).extras).length = k + 1 := fun _ => by
      rw [Chain.add, List.length_append, hk hc, List.length_singleton]
    exact List.forall_mem_cons.2 ⟨⟨Nat.le_of_eq (hlen _), fun _ => hlen _⟩, ih hcs⟩
  | still hc _ ih =>
    obtain ⟨⟨hk, -⟩, hcs⟩ := List.forall_mem_cons.1 hcs
    refine List.forall_mem_cons.2 ⟨⟨Nat.le_succ_of_le hk, fun hc' => ?_⟩, ih hcs⟩
    rw [hc] at hc'
    cases hc'

theorem column_of_lt {j : Nat} (h : Deals faces cs block cs') (hcs : Even faces k cs) (hj : j < k) :
    column cs' j = column cs j := by
  induction h with
  | nil => rfl
  | live hc _ ih =>
    obtain ⟨⟨-, hk⟩, hcs⟩ := List.forall_mem_cons.1 hcs
    have hj' : j < List.length _ := (hk hc).symm ▸ hj
    rw [column_cons, column_cons, ih hcs, Chain.add, List.getElem?_append_left hj']
  | still _ _ ih =>
    obtain ⟨-, hcs⟩ := List.forall_mem_cons.1 hcs
    rw [column_cons, column_cons, ih hcs]

theorem column_eq (h : Deals faces cs block cs') (hcs : Even faces k cs) :
    column cs' k = showing (liveSizes faces cs) block := by
  induction h with
  | nil => rfl
  | live hc _ ih =>
    obtain ⟨⟨-, hk⟩, hcs⟩ := List.forall_mem_cons.1 hcs
    obtain rfl := hk hc
    rw [column_cons, ih hcs, liveSizes_cons_of_live hc, Chain.add, List.getElem?_concat_length]
    rfl
  | still hc _ ih =>
    obtain ⟨⟨hk, -⟩, hcs⟩ := List.forall_mem_cons.1 hcs
    rw [column_cons, ih hcs, liveSizes_cons_of_still hc, List.getElem?_eq_none hk]
    rfl

theorem eq_of_nil (h : Deals faces cs [] cs') : cs' = cs := by
  generalize hblock : [] = block at h
  induction h with
  | nil => rfl
  | live => cases hblock
  | still _ _ ih => rw [ih hblock]

end Deals

theorem exists_deals (h : block.length = (liveSizes faces cs).length) :
    ∃ cs', Deals faces cs block cs' := by
  induction cs generalizing block with
  | nil =>
    obtain rfl := List.length_eq_zero_iff.1 h
    exact ⟨[], .nil⟩
  | cons c cs ih =>
    cases hc : c.isLive faces with
    | true =>
      rw [liveSizes_cons_of_live hc] at h
      obtain ⟨face, block, rfl⟩ := List.exists_cons_of_length_eq_add_one h
      obtain ⟨cs', hdeals⟩ := ih (Nat.succ.inj h)
      exact ⟨_, .live hc hdeals⟩
    | false =>
      rw [liveSizes_cons_of_still hc] at h
      obtain ⟨cs', hdeals⟩ := ih h
      exact ⟨_, .still hc hdeals⟩

/-- One more die for every live chain: the faces that are taken are dealt as a block. -/
theorem mapM_grow_ok_iff (hzero : 0 ∉ liveSizes faces cs) {s s' : Faces} :
    (cs.mapM (Chain.grow faces)).on s = (.ok cs', s') ↔
      ∃ block, s.Takes block s' ∧ Deals faces cs block cs' := by
  induction cs generalizing s cs' with
  | nil =>
    rw [List.mapM_nil]
    constructor
    · intro h
      obtain ⟨rfl, rfl⟩ := on_pure_ok h
      exact ⟨[], .refl s, .nil⟩
    · rintro ⟨block, htakes, hdeals⟩
      cases hdeals
      obtain rfl := htakes.eq_of_nil
      rfl
  | cons c cs ih =>
    rw [on_mapM_cons_ok_iff]
    cases hc : c.isLive faces with
    | true =>
      rw [liveSizes_cons_of_live hc, List.mem_cons, not_or] at hzero
      obtain ⟨hsides, hzero⟩ := hzero
      constructor
      · rintro ⟨c', s₁, cs', hgrow, hcs, rfl⟩
        obtain ⟨face, hface, rfl⟩ := (Chain.grow_of_live hc (Ne.symm hsides)).1 hgrow
        obtain ⟨block, hblock, hdeals⟩ := (ih hzero).1 hcs
        exact ⟨face :: block, hface.append hblock, .live hc hdeals⟩
      · rintro ⟨block, htakes, hdeals⟩
        cases hdeals with
        | live _ hdeals =>
          obtain ⟨s₁, hface, hblock⟩ := htakes.split_cons
          exact ⟨_, s₁, _, (Chain.grow_of_live hc (Ne.symm hsides)).2 ⟨_, hface, rfl⟩,
            (ih hzero).2 ⟨_, hblock, hdeals⟩, rfl⟩
        | still hc' => rw [hc] at hc'; cases hc'
    | false =>
      rw [liveSizes_cons_of_still hc] at hzero
      rw [Chain.grow_of_still hc]
      constructor
      · rintro ⟨c', s₁, cs', hgrow, hcs, rfl⟩
        obtain ⟨rfl, rfl⟩ := on_pure_ok hgrow
        obtain ⟨block, hblock, hdeals⟩ := (ih hzero).1 hcs
        exact ⟨block, hblock, .still hc hdeals⟩
      · rintro ⟨block, htakes, hdeals⟩
        cases hdeals with
        | live hc' => rw [hc] at hc'; cases hc'
        | still _ hdeals => exact ⟨c, s, _, rfl, (ih hzero).2 ⟨block, htakes, hdeals⟩, rfl⟩

end Pool

end Tabletop
