import Tabletop.Operation
import Tabletop.Proofs.KeepOrder

/-!
# Breakdowns account for the dice

What a breakdown does not strike out is the pool that the operator made, and what it does not slant is the
pool that the operator was given (`PoolMode.apply_accounts`). Only a recursive reroll shows rolls in between:
its breakdown falls into one trace for each die (`Breakdown.Traces`).

Where each die gets entries of its own, as in explosions and rerolls, both follow die by die. Of chosen dice
the breakdown keeps those at the chosen places, which are the chosen ones again, but in pool order
(`Pool.filter_places_perm`).
-/

namespace Tabletop

open Rolling

namespace Breakdown

variable {b b' : Breakdown}

theorem kept_flatMap {α : Type} (f : α → Breakdown) (l : List α) :
    kept (l.flatMap f) = l.flatMap fun a => kept (f a) := by
  simp only [kept, List.filter_flatMap, List.map_flatMap]

theorem before_flatMap {α : Type} (f : α → Breakdown) (l : List α) :
    before (l.flatMap f) = l.flatMap fun a => before (f a) := by
  simp only [before, List.filter_flatMap, List.map_flatMap]

/-- Nothing is struck out, and nothing is slanted. -/
theorem kept_of_dice (ds : List Die) : kept (ds.map fun die => { die }) = ds := by
  simp [kept, List.filter_map, Function.comp_def]

theorem before_of_not_added (h : ∀ e ∈ b, e.added = false) : b.before = b.map Entry.die := by
  rw [before, List.filter_eq_self.2 fun e he => by simp [h e he]]

/-- How a breakdown shows one die that is rolled until it is good: first the die itself, and of all its
rolls only the last is not struck out. -/
def Traces (d : Die) (b : Breakdown) : Prop :=
  b.head?.map Entry.die = some d ∧
    ∃ struck last, b = struck ++ [last] ∧ (∀ e ∈ struck, e.dropped = true) ∧ last.dropped = false

theorem traces_singleton (d : Die) (again : Bool) : Traces d [{ die := d, added := again }] :=
  ⟨rfl, [], _, rfl, List.forall_mem_nil _, rfl⟩

theorem Traces.again {b : Breakdown} {new : Die} (h : Traces new b) (d : Die) :
    Traces d ({ die := d, dropped := true } :: b) := by
  obtain ⟨-, struck, last, rfl, hstruck, hlast⟩ := h
  exact ⟨rfl, _ :: struck, last, rfl, List.forall_mem_cons.2 ⟨rfl, hstruck⟩, hlast⟩

end Breakdown

namespace Pool

variable {p : Pool} {faces : List Int} {cap : Int} {chosen : List (Die × Nat)} {c : Change}

/-! ### Keeping -/

/-- The dice at the places of chosen dice are the chosen dice. -/
theorem mem_iff_place_mem (h : chosen.Subperm p.dice.zipIdx) {a : Die × Nat} (ha : a ∈ p.dice.zipIdx) :
    a.2 ∈ chosen.map Prod.snd ↔ a ∈ chosen := by
  refine ⟨fun hplace => ?_, List.mem_map_of_mem⟩
  obtain ⟨a', ha', heq⟩ := List.mem_map.1 hplace
  have hplaces : (p.dice.zipIdx.map Prod.snd).Nodup := List.nodup_zipIdx_map_snd _
  exact List.inj_on_of_nodup_map hplaces (h.subset ha') ha heq ▸ ha'

theorem filter_places_perm (h : chosen.Subperm p.dice.zipIdx) :
    (p.dice.zipIdx.filter fun a => (chosen.map Prod.snd).contains a.2).Perm chosen := by
  have hnodup : p.dice.zipIdx.Nodup := (List.nodup_zipIdx_map_snd _).of_map
  obtain ⟨row, hrow, hsub⟩ := h
  have hchosen : chosen.Nodup := hrow.nodup_iff.1 (hnodup.sublist hsub)
  refine (List.perm_ext_iff_of_nodup (hnodup.filter _) hchosen).2 fun a => ?_
  have hsubperm : chosen.Subperm p.dice.zipIdx := ⟨row, hrow, hsub⟩
  rw [List.mem_filter, List.contains_iff_mem]
  refine ⟨fun ha => (mem_iff_place_mem hsubperm ha.1).1 ha.2, fun ha => ?_⟩
  exact ⟨hsubperm.subset ha, List.mem_map_of_mem ha⟩

theorem kept_of_keep (hc : p.keep chosen = .ok c) :
    c.breakdown.kept = (p.dice.zipIdx.filter fun a => (chosen.map Prod.snd).contains a.2).map Prod.fst := by
  obtain ⟨-, rfl⟩ := changeTo_ok_iff.1 hc
  simp [Breakdown.kept, List.filter_map, Function.comp_def]

theorem kept_perm_of_keep (h : chosen.Subperm p.dice.zipIdx) (hc : p.keep chosen = .ok c) :
    c.breakdown.kept.Perm c.pool.dice := by
  rw [kept_of_keep hc]
  obtain ⟨-, rfl⟩ := changeTo_ok_iff.1 hc
  exact (filter_places_perm h).map Prod.fst

theorem before_of_keep (hc : p.keep chosen = .ok c) : c.breakdown.before = p.dice := by
  obtain ⟨-, rfl⟩ := changeTo_ok_iff.1 hc
  rw [Breakdown.before_of_not_added, List.map_map]
  · exact List.zipIdx_map_fst 0 p.dice
  · intro e he
    obtain ⟨a, -, rfl⟩ := List.mem_map.1 he
    rfl

/-- Dice that are chosen by what they show are chosen in pool order. -/
theorem kept_of_keepExact (hc : p.keepExact faces = .ok c) : c.breakdown.kept = c.pool.dice := by
  have hchosen := (List.filter_sublist (l := p.dice.zipIdx) (p := fun a => faces.contains a.1.result)).subperm
  rw [kept_of_keep hc, List.filter_congr (q := fun a => faces.contains a.1.result)]
  · obtain ⟨-, rfl⟩ := changeTo_ok_iff.1 hc
    rfl
  · intro a ha
    rw [Bool.eq_iff_iff, List.contains_iff_mem, mem_iff_place_mem hchosen ha, List.mem_filter, and_iff_right ha]

/-! ### Exploding -/

theorem Chain.kept_entries (k : Chain) : Breakdown.kept k.entries = k.dice := by
  simp [Breakdown.kept, Chain.entries, Chain.dice, List.filter_map, Function.comp_def]

theorem Chain.before_entries (k : Chain) : Breakdown.before k.entries = [k.root] := by
  simp [Breakdown.before, Chain.entries, List.filter_map, Function.comp_def]

theorem Chain.grow_yields_root (k : Chain) : (k.grow faces).Yields fun k' => k'.root = k.root := by
  rw [Chain.grow]
  split
  · exact (Yields.any _).bind fun extra _ => .pure rfl
  · exact .pure rfl

theorem mapM_grow_yields_roots (cs : List Chain) :
    (cs.mapM (Chain.grow faces)).Yields fun cs' => cs'.map Chain.root = cs.map Chain.root :=
  (Yields.mapM_forall₂ fun k _ => k.grow_yields_root).mono fun _ h => map_eq_map_of_forall₂ h

theorem settle_yields_roots (left size : Nat) (cs : List Chain) :
    (settle faces cap left size cs).Yields fun cs' => cs'.map Chain.root = cs.map Chain.root := by
  refine Yields.mono (settle_yields_of (I := fun _ cs' => cs'.map Chain.root = cs.map Chain.root)
    (fun _ cs' h _ _ => ?_) rfl) fun _ h => h.1.elim fun _ h => h
  exact (mapM_grow_yields_roots cs').mono fun _ h' => h'.trans h

theorem kept_of_lineUp {cs : List Chain} (hc : p.lineUp cs = .ok c) : c.breakdown.kept = c.pool.dice := by
  obtain ⟨-, rfl⟩ := changeTo_ok_iff.1 hc
  rw [Breakdown.kept_flatMap]
  exact List.flatMap_congr fun k _ => k.kept_entries

theorem before_of_lineUp {cs : List Chain} (hroots : cs.map Chain.root = p.chains.map Chain.root)
    (hc : p.lineUp cs = .ok c) : c.breakdown.before = p.dice := by
  have hstart : p.chains.map Chain.root = p.dice := by
    rw [chains, List.map_map]
    exact List.map_id _
  obtain ⟨-, rfl⟩ := changeTo_ok_iff.1 hc
  rw [Breakdown.before_flatMap, List.flatMap_congr fun k _ => k.before_entries, ← hstart, ← hroots]
  exact List.flatMap_pure_eq_map _ cs

/-! ### Rolling again -/

theorem kept_of_replaceAll {rs : List Replacement} (h : ∀ r ∈ rs, Breakdown.kept r.entries = [r.die])
    (hc : p.replaceAll rs = .ok c) : c.breakdown.kept = c.pool.dice := by
  obtain ⟨-, rfl⟩ := changeTo_ok_iff.1 hc
  rw [Breakdown.kept_flatMap, List.flatMap_congr h]
  exact List.flatMap_pure_eq_map _ rs

theorem before_of_replaceAll {rs : List Replacement}
    (h : List.Forall₂ (fun d r => Breakdown.before r.entries = [d]) p.dice rs) (hc : p.replaceAll rs = .ok c) :
    c.breakdown.before = p.dice := by
  obtain ⟨-, rfl⟩ := changeTo_ok_iff.1 hc
  rw [Breakdown.before_flatMap, List.flatMap_def, map_eq_map_of_forall₂ h, ← List.flatMap_def]
  exact List.flatMap_singleton' p.dice

/-- The loser of the two is struck out, and only the new die is slanted. -/
theorem Preference.shows_replace (preference : Preference) (old new : Die) :
    Breakdown.kept (preference.replace old new).entries = [(preference.replace old new).die] ∧
      Breakdown.before (preference.replace old new).entries = [old] := by
  rw [replace]
  split <;> exact ⟨rfl, rfl⟩

theorem rerollDie_yields_shows (preference : Preference) (faces : List Int) (d : Die) :
    (rerollDie preference faces d).Yields fun r =>
      Breakdown.kept r.entries = [r.die] ∧ Breakdown.before r.entries = [d] := by
  rw [rerollDie]
  split
  · exact (Yields.any _).bind fun new _ => .pure (preference.shows_replace d new)
  · exact .pure ⟨rfl, rfl⟩

/-- The last die of a chase is the only one that is not struck out, and the first one is the old die. -/
theorem chase_yields_shows (faces : List Int) (cap : Int) (left : Nat) (again : Bool) (d : Die) :
    (chase faces cap left again d).Yields fun r =>
      Breakdown.kept r.entries = [r.die] ∧ Breakdown.Traces d r.entries := by
  refine chase_yields_of (I := fun _ => True)
    (R := fun d r => Breakdown.kept r.entries = [r.die] ∧ Breakdown.Traces d r.entries) ?_ ?_ trivial
  · exact fun d again _ _ => ⟨rfl, Breakdown.traces_singleton d again⟩
  · exact fun d _ _ => (Yields.any _).mono fun new _ => ⟨trivial, fun r hr => ⟨hr.1, hr.2.again d⟩⟩

end Pool

/-! ### Every operator -/

namespace PoolMode

/-- The breakdown of what an operator of some mode made of a pool accounts for the dice of both pools. -/
structure Accounts (mode : PoolMode) (p : Pool) (c : Change) : Prop where
  kept_perm : c.breakdown.kept.Perm c.pool.dice
  kept : mode ≠ .keep .high → mode ≠ .keep .low → c.breakdown.kept = c.pool.dice
  before : mode ≠ .explode .additive → mode ≠ .reroll .recursive → c.breakdown.before = p.dice
  traces : mode = .reroll .recursive →
    ∃ traces : List Breakdown, c.breakdown = traces.flatten ∧ List.Forall₂ Breakdown.Traces p.dice traces

variable {mode : PoolMode} {p : Pool} {chosen : List (Die × Nat)} {c : Change} {faces : List Int} {cap : Int}

/-- Most operators keep the order of the dice and show the dice of the old pool. -/
theorem accounts_of_eq (hmode : mode ≠ .reroll .recursive) (hkept : c.breakdown.kept = c.pool.dice)
    (hbefore : c.breakdown.before = p.dice) : mode.Accounts p c where
  kept_perm := .of_eq hkept
  kept _ _ := hkept
  before _ _ := hbefore
  traces h := absurd h hmode

theorem accounts_of_keep (hmode : mode = .keep .high ∨ mode = .keep .low)
    (h : chosen.Subperm p.dice.zipIdx) (hc : p.keep chosen = .ok c) : mode.Accounts p c where
  kept_perm := Pool.kept_perm_of_keep h hc
  kept hhigh hlow := by
    rcases hmode with hmode | hmode
    · exact absurd hmode hhigh
    · exact absurd hmode hlow
  before _ _ := Pool.before_of_keep hc
  traces hmode' := by
    rw [hmode'] at hmode
    rcases hmode with hmode | hmode <;> cases hmode

theorem keepHigh_yields (n : Int) : (liftM (p.keepHigh n) : Rolling Change).Yields (Accounts (.keep .high) p) :=
  .liftM fun _ => accounts_of_keep (.inl rfl) ((List.drop_sublist _ _).subperm.trans p.ascending_perm.subperm)

theorem keepLow_yields (n : Int) : (liftM (p.keepLow n) : Rolling Change).Yields (Accounts (.keep .low) p) :=
  .liftM fun _ => accounts_of_keep (.inr rfl) ((List.take_sublist _ _).subperm.trans p.ascending_perm.subperm)

theorem explodeOnce_yields : (p.explodeOnce faces).Yields (Accounts (.explode .once) p) := by
  refine (Yields.any _).bind fun _ _ => (Pool.mapM_grow_yields_roots p.chains).bind fun cs hroots => ?_
  exact .liftM fun c hc => accounts_of_eq nofun (Pool.kept_of_lineUp hc) (Pool.before_of_lineUp hroots hc)

theorem explosion_yields_roots :
    (p.explosion faces cap).Yields fun cs => cs.map Pool.Chain.root = p.chains.map Pool.Chain.root :=
  (Yields.any _).bind fun _ _ => Pool.settle_yields_roots _ _ _

theorem explodeRecursive_yields : (p.explodeRecursive faces cap).Yields (Accounts (.explode .recursive) p) := by
  refine explosion_yields_roots.bind fun cs hroots => ?_
  exact .liftM fun c hc => accounts_of_eq nofun (Pool.kept_of_lineUp hc) (Pool.before_of_lineUp hroots hc)

theorem explodeAdditive_yields : (p.explodeAdditive faces cap).Yields (Accounts (.explode .additive) p) := by
  refine (Yields.any _).bind fun cs _ => .liftM fun c hc => ?_
  obtain ⟨-, rfl⟩ := Pool.changeTo_ok_iff.1 hc
  have hkept := Breakdown.kept_of_dice (cs.map Pool.Chain.sum)
  exact ⟨.of_eq hkept, fun _ _ => hkept, fun h _ => absurd rfl h, nofun⟩

theorem reroll_yields (preference : Pool.Preference) (hmode : mode ≠ .reroll .recursive) :
    (p.reroll preference faces).Yields (mode.Accounts p) := by
  have hshows := Yields.mapM_forall₂ (l := p.dice) fun d _ => Pool.rerollDie_yields_shows preference faces d
  refine hshows.bind fun rs hrs => .liftM fun c hc => ?_
  have hkept := Pool.kept_of_replaceAll (forall_mem_of_forall₂ hrs fun _ _ h => h.1) hc
  exact accounts_of_eq hmode hkept (Pool.before_of_replaceAll (hrs.imp fun _ _ h => h.2) hc)

theorem rerollRecursive_yields : (p.rerollRecursive faces cap).Yields (Accounts (.reroll .recursive) p) := by
  have hshows := Yields.mapM_forall₂ (l := p.dice) fun d _ => Pool.chase_yields_shows faces cap cap.toNat false d
  refine (Yields.any _).bind fun _ _ => hshows.bind fun rs hrs => .liftM fun c hc => ?_
  have hkept := Pool.kept_of_replaceAll (forall_mem_of_forall₂ hrs fun _ _ h => h.1) hc
  have htraces := hrs.imp fun _ _ h => h.2
  obtain ⟨-, rfl⟩ := Pool.changeTo_ok_iff.1 hc
  refine ⟨.of_eq hkept, fun _ _ => hkept, fun _ h => absurd rfl h, fun _ => ?_⟩
  exact ⟨rs.map Pool.Replacement.entries, List.flatMap_def, List.forall₂_map_right_iff.2 htraces⟩

/-- Whatever the mode, the breakdown accounts for the dice. -/
theorem apply_accounts (mode : PoolMode) (p : Pool) (arg : Argument) (cap : Int) :
    (mode.apply p arg cap).Yields (mode.Accounts p) := by
  cases mode with
  | keep mode =>
    cases mode with
    | high => exact (Yields.any _).bind fun n _ => keepHigh_yields n
    | low => exact (Yields.any _).bind fun n _ => keepLow_yields n
    | exact => exact .liftM fun c hc => accounts_of_eq nofun (Pool.kept_of_keepExact hc) (Pool.before_of_keep hc)
  | explode mode =>
    cases mode with
    | once => exact explodeOnce_yields
    | additive => exact explodeAdditive_yields
    | recursive => exact explodeRecursive_yields
  | reroll mode =>
    cases mode with
    | once => exact reroll_yields .newer nofun
    | better => exact reroll_yields .higher nofun
    | worse => exact reroll_yields .lower nofun
    | recursive => exact rerollRecursive_yields

/-- In the line of a successful operation, the total is the sum of what is not struck out. What is not struck
out is the new pool, with its dice in order unless the highest or the lowest were kept. What is not slanted is
the old pool, but for additive explosions, which show each die as it has grown, and for recursive rerolls,
which show a trace of each die. -/
theorem breakdown_accounts {mode : PoolMode} {p : Pool} {arg : Argument} {cap : Int} {s s' : Faces} {c : Change}
    (h : (mode.apply p arg cap).on s = (.ok c, s')) :
    mode.Accounts p c ∧ ∀ op : PoolOperator, (Throw.changed op arg c).text = op.symbol ++ arg.text ++ " -> " ++
      c.breakdown.text ++ " = " ++ toString (sum (c.breakdown.kept.map Die.result)) := by
  have haccounts := apply_accounts mode p arg cap h
  refine ⟨haccounts, fun op => ?_⟩
  have htotal : c.pool.total = sum (c.breakdown.kept.map Die.result) :=
    sum_of_perm (haccounts.kept_perm.map Die.result).symm
  rw [← htotal]
  rfl

/-- Two dice are rolled until they show no 1, which each of them does after one vain attempt or two. -/
theorem breakdown_accounts_attempts :
    let p : Pool := ⟨[.plain 6 1, .plain 6 4, .compound 6 [6, 1]], [⟨3, 6⟩]⟩
    ∃ c, ((PoolMode.reroll .recursive).apply p (.single 1) 9).on (.ofList [3, 1, 1, 5]) = (.ok c, ⟨[], 4⟩) ∧
      (PoolMode.reroll .recursive).Accounts p c ∧ c.pool.dice = [.plain 6 3, .plain 6 4, .compound 6 [5]] ∧
      (Throw.changed (.reroll (some .recursive)) (.single 1) c).text =
        "rr1 -> [~~1~~, _3_, 4, ~~6+1=7~~, ~~1~~, ~~1~~, _5_] = 12" := by
  intro p
  have hrun : (((PoolMode.reroll .recursive).apply p (.single 1) 9).on (.ofList [3, 1, 1, 5])).2 = ⟨[], 4⟩ := by
    decide +kernel
  obtain ⟨c, s', hc, hdice⟩ : ∃ c s', ((PoolMode.reroll .recursive).apply p (.single 1) 9).on
      (.ofList [3, 1, 1, 5]) = (.ok c, s') ∧ some (c.pool.dice, (Throw.changed (.reroll (some .recursive)) (.single 1) c).text) =
        some ([.plain 6 3, .plain 6 4, .compound 6 [5]], "rr1 -> [~~1~~, _3_, 4, ~~6+1=7~~, ~~1~~, ~~1~~, _5_] = 12") :=
    Rolling.exists_ok_of_toOption (by decide +kernel)
  rw [hc] at hrun
  obtain rfl : s' = ⟨[], 4⟩ := hrun
  obtain ⟨hdice, htext⟩ := Prod.mk.inj (Option.some.inj hdice)
  exact ⟨c, hc, (breakdown_accounts hc).1, hdice, htext⟩

end PoolMode

end Tabletop
