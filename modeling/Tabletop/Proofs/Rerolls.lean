import Tabletop.Proofs.Generations

/-!
# Plain, better and worse rerolls agree

Which of the old and the new die stays is settled only after all matching dice were rolled again
(`Pool.reroll_eq`). So the three rerolls take the same faces, and fail alike. The faces fall into one block for
each die of the pool (`Blockwise`): a face for a matching die that has sides, and none for any other
(`Pool.Retries`). What the preferences keep of the two dice is the newer, the higher or the lower one, so that
the higher and the lower one together are the old and the new one.
-/

namespace Tabletop

open Rolling

/-! ### Faces block by block -/

/-- The members of a list take a block of faces each, and come to something by them. -/
inductive Blockwise {α β : Type} (R : α → List Int → β → Prop) : List α → List (List Int) → List β → Prop
  | nil : Blockwise R [] [] []
  | cons {a : α} {block : List Int} {b : β} {as : List α} {blocks : List (List Int)} {bs : List β}
      (h : R a block b) (hs : Blockwise R as blocks bs) : Blockwise R (a :: as) (block :: blocks) (b :: bs)

namespace Blockwise

variable {α β : Type} {R : α → List Int → β → Prop} {f : α → Rolling β}
variable {as : List α} {blocks : List (List Int)} {bs : List β} {s s' : Faces}

theorem of_mapM (hf : ∀ a ∈ as, ∀ s s' b, (f a).on s = (.ok b, s') → ∃ block, s.Takes block s' ∧ R a block b)
    (h : (as.mapM f).on s = (.ok bs, s')) : ∃ blocks, s.Takes blocks.flatten s' ∧ Blockwise R as blocks bs := by
  induction as generalizing s bs with
  | nil =>
    obtain ⟨rfl, rfl⟩ := on_pure_ok h
    exact ⟨[], .refl s, .nil⟩
  | cons a as ih =>
    obtain ⟨ha, has⟩ := List.forall_mem_cons.1 hf
    obtain ⟨b, s₁, bs', hb, hbs, rfl⟩ := on_mapM_cons_ok_iff.1 h
    obtain ⟨block, hblock, hR⟩ := ha s s₁ b hb
    obtain ⟨blocks, hblocks, hRs⟩ := ih has hbs
    exact ⟨block :: blocks, hblock.append hblocks, .cons hR hRs⟩

/-- Conversely, a list comes to something by blocks that its members come to something by. -/
theorem exists_mapM {γ : Type} {g : γ → β} {f : α → Rolling γ} (h : Blockwise R as blocks bs) (hs : s.Takes blocks.flatten s')
    (hf : ∀ a ∈ as, ∀ block ∈ blocks, ∀ b s s', R a block b → s.Takes block s' →
      ∃ c, (f a).on s = (.ok c, s') ∧ g c = b) :
    ∃ cs, (as.mapM f).on s = (.ok cs, s') ∧ cs.map g = bs := by
  induction h generalizing s with
  | nil =>
    obtain rfl := hs.eq_of_nil
    exact ⟨[], rfl, rfl⟩
  | cons hR _ ih =>
    obtain ⟨s₁, hblock, hblocks⟩ := hs.split
    obtain ⟨c, hc, rfl⟩ := hf _ List.mem_cons_self _ List.mem_cons_self _ _ _ hR hblock
    obtain ⟨cs, hcs, rfl⟩ := ih hblocks fun a ha block hmem =>
      hf a (List.mem_cons_of_mem _ ha) block (List.mem_cons_of_mem _ hmem)
    exact ⟨c :: cs, on_mapM_cons_ok_iff.2 ⟨c, s₁, cs, hc, hcs, rfl⟩, rfl⟩

theorem zipWith {γ : Type} {R' : α → List Int → γ → Prop} {g : α → β → γ} (h : Blockwise R as blocks bs)
    (hR : ∀ a block b, R a block b → R' a block (g a b)) : Blockwise R' as blocks (List.zipWith g as bs) := by
  induction h with
  | nil => exact .nil
  | cons hab _ ih => exact .cons (hR _ _ _ hab) ih

theorem map {γ : Type} {R' : α → List Int → γ → Prop} {g : β → γ} (h : Blockwise R as blocks bs)
    (hR : ∀ a block b, R a block b → R' a block (g b)) : Blockwise R' as blocks (bs.map g) := by
  induction h with
  | nil => exact .nil
  | cons hab _ ih => exact .cons (hR _ _ _ hab) ih

theorem forall_mem {P : β → Prop} (h : Blockwise R as blocks bs) (hP : ∀ a block b, R a block b → P b) :
    ∀ b ∈ bs, P b := by
  induction h with
  | nil => exact List.forall_mem_nil _
  | cons hab _ ih => exact List.forall_mem_cons.2 ⟨hP _ _ _ hab, ih⟩

theorem length_eq (h : Blockwise R as blocks bs) : bs.length = as.length := by
  induction h with
  | nil => rfl
  | cons _ _ ih => exact congrArg Nat.succ ih

theorem exists_getElem? (h : Blockwise R as blocks bs) {i : Nat} {a : α} (ha : as[i]? = some a) :
    ∃ block b, bs[i]? = some b ∧ R a block b := by
  induction h generalizing i with
  | nil => cases ha
  | cons hR _ ih =>
    cases i with
    | zero =>
      cases ha
      exact ⟨_, _, rfl, hR⟩
    | succ i => exact ih ha

end Blockwise

/-! ### One die -/

namespace Die

variable {d : Die} {s s' : Faces}

theorem sides_turn (d : Die) (face : Int) : (d.turn face).sides = d.sides := by
  cases d with
  | plain sides shown =>
    rw [turn]
    split <;> rfl
  | compound => rfl

theorem face_turn (hsides : d.sides ≠ 0) (face : Int) : (d.turn face).face = clamp d.sides face := by
  cases d with
  | plain sides shown =>
    rw [turn, if_neg (show ¬sides = 0 from hsides)]
    rfl
  | compound => rfl

theorem parts_turn (hsides : d.sides ≠ 0) (face : Int) : (d.turn face).parts = [clamp d.sides face] := by
  cases d with
  | plain sides shown =>
    rw [turn, if_neg (show ¬sides = 0 from hsides)]
    rfl
  | compound => rfl

theorem turn_turn (d : Die) (face good : Int) : (d.turn face).turn good = d.turn good := by
  cases d with
  | plain sides shown => by_cases hsides : sides = 0 <;> simp [turn, hsides]
  | compound => rfl

theorem Valid.turn (h : d.Valid) (face : Int) : (d.turn face).Valid := by
  cases d with
  | plain sides shown =>
    rw [Die.turn]
    split
    · exact h
    · exact valid_clamp sides face
  | compound sides parts =>
    refine ⟨List.cons_ne_nil _ _, fun part hpart => ?_⟩
    obtain rfl := List.mem_singleton.1 hpart
    exact ⟨one_le_clamp h.one_le face, clamp_le face⟩

/-- A die that has sides takes one face, and shows it alone. -/
theorem reroll_ok_iff (hsides : d.sides ≠ 0) {new : Die} :
    d.reroll.on s = (.ok new, s') ↔ ∃ face, s.Takes [face] s' ∧ new = d.turn face := by
  cases d with
  | plain sides shown =>
    have hturn (face : Int) : (plain sides shown).turn face = plain sides (clamp sides face) :=
      if_neg (show ¬sides = 0 from hsides)
    simp only [hturn]
    exact roll_ok_iff hsides
  | compound sides parts =>
    simp only [reroll, on_bind_pure_ok_iff, on_draw_ok_iff]
    rfl

end Die

namespace Pool

variable {p : Pool} {faces : List Int} {d new : Die} {s s' : Faces}

/-! ### What the preferences keep of two dice -/

/-- The new die of a matching die. -/
def retry (faces : List Int) (d : Die) : Rolling (Option Die) :=
  if faces.contains d.face then some <$> d.reroll else pure none

/-- What takes the place of a die, once its new die has been rolled, if any. -/
def Preference.settle (preference : Preference) (d : Die) : Option Die → Replacement
  | some new => preference.replace d new
  | none => .unchanged d

theorem rerollDie_eq (preference : Preference) (faces : List Int) (d : Die) :
    rerollDie preference faces d = preference.settle d <$> retry faces d := by
  rw [rerollDie, retry]
  split
  · rw [Functor.map_map, map_eq_pure_bind]
    rfl
  · exact (map_pure _ _).symm

theorem mapM_rerollDie (preference : Preference) (faces : List Int) (ds : List Die) :
    ds.mapM (rerollDie preference faces) = List.zipWith preference.settle ds <$> ds.mapM (retry faces) := by
  induction ds with
  | nil => rfl
  | cons d ds ih =>
    simp only [List.mapM_cons, rerollDie_eq, ih, map_eq_pure_bind, bind_assoc, pure_bind, List.zipWith_cons_cons]

/-- All matching dice are rolled again before it is settled which dice stay. -/
theorem reroll_eq (p : Pool) (preference : Preference) (faces : List Int) :
    p.reroll preference faces = (do
      let news ← p.dice.mapM (retry faces)
      p.replaceAll (List.zipWith preference.settle p.dice news)) := by
  rw [reroll, mapM_rerollDie, bind_map_left]

namespace Preference

/-- The die that stays. -/
def pick (preference : Preference) (d : Die) (new : Option Die) : Die := (preference.settle d new).die

@[simp] theorem pick_none (preference : Preference) (d : Die) : preference.pick d none = d := rfl

@[simp] theorem newer_pick_some (d new : Die) : newer.pick d (some new) = new := rfl

theorem die_replace (preference : Preference) (old new : Die) :
    (preference.replace old new).die = if preference.takes old new then new else old := by
  rw [replace]
  split <;> rfl

theorem result_higher_pick (d new : Die) : (higher.pick d (some new)).result = max d.result new.result := by
  rw [pick, settle, die_replace]
  simp only [takes, decide_eq_true_eq]
  split <;> omega

theorem result_lower_pick (d new : Die) : (lower.pick d (some new)).result = min d.result new.result := by
  rw [pick, settle, die_replace]
  simp only [takes, decide_eq_true_eq]
  split <;> omega

/-- Between them, the higher and the lower die are the old and the new one. -/
theorem result_higher_add_lower (d : Die) (new : Option Die) :
    (higher.pick d new).result + (lower.pick d new).result = d.result + (newer.pick d new).result := by
  cases new with
  | none => rfl
  | some new =>
    rw [result_higher_pick, result_lower_pick, newer_pick_some]
    omega

theorem le_result_higher (d : Die) (new : Option Die) : d.result ≤ (higher.pick d new).result := by
  cases new with
  | none => exact Int.le_refl _
  | some new =>
    rw [result_higher_pick]
    omega

theorem result_lower_le (d : Die) (new : Option Die) : (lower.pick d new).result ≤ d.result := by
  cases new with
  | none => exact Int.le_refl _
  | some new =>
    rw [result_lower_pick]
    omega

/-- The dice that stay, each at its place. -/
def picks (preference : Preference) (ds : List Die) (news : List (Option Die)) : List Die :=
  List.zipWith preference.pick ds news

variable {ds : List Die} {news : List (Option Die)}

theorem map_die_settle (preference : Preference) (ds : List Die) (news : List (Option Die)) :
    (List.zipWith preference.settle ds news).map Replacement.die = preference.picks ds news := List.map_zipWith

theorem length_picks (preference : Preference) (h : news.length = ds.length) :
    (preference.picks ds news).length = ds.length := by
  rw [picks, List.length_zipWith, h, Nat.min_self]

theorem getElem?_picks (preference : Preference) {i : Nat} {d : Die} {new : Option Die} (hd : ds[i]? = some d)
    (hnew : news[i]? = some new) : (preference.picks ds news)[i]? = some (preference.pick d new) := by
  rw [picks, List.getElem?_zipWith, hd, hnew]

theorem sum_higher_add_lower (h : news.length = ds.length) :
    sum ((higher.picks ds news).map Die.result) + sum ((lower.picks ds news).map Die.result) =
      sum (ds.map Die.result) + sum ((newer.picks ds news).map Die.result) := by
  induction ds generalizing news with
  | nil => rfl
  | cons d ds ih =>
    obtain ⟨new, news, rfl⟩ := List.exists_cons_of_length_eq_add_one h
    have hrest := ih (Nat.succ.inj h)
    have hone := result_higher_add_lower d new
    simp only [picks, List.zipWith_cons_cons, List.map_cons, sum_cons] at hrest ⊢
    omega

theorem sum_lower_le_higher (h : news.length = ds.length) :
    sum ((lower.picks ds news).map Die.result) ≤ sum (ds.map Die.result) ∧
      sum (ds.map Die.result) ≤ sum ((higher.picks ds news).map Die.result) := by
  induction ds generalizing news with
  | nil => exact ⟨Int.le_refl _, Int.le_refl _⟩
  | cons d ds ih =>
    obtain ⟨new, news, rfl⟩ := List.exists_cons_of_length_eq_add_one h
    have hrest := ih (Nat.succ.inj h)
    have hlower := result_lower_le d new
    have hhigher := le_result_higher d new
    simp only [picks, List.zipWith_cons_cons, List.map_cons, sum_cons] at hrest ⊢
    omega

end Preference

/-! ### The faces of rerolls -/

/-- A matching die takes the next face and shows it alone, unless it has no sides; no other die is rolled. -/
inductive Retries (faces : List Int) (d : Die) : List Int → Option Die → Prop
  | still (h : faces.contains d.face = false) : Retries faces d [] none
  | blank (h : faces.contains d.face = true) (hsides : d.sides = 0) : Retries faces d [] (some d)
  | again (h : faces.contains d.face = true) (hsides : d.sides ≠ 0) (face : Int) :
    Retries faces d [face] (some (d.turn face))

theorem reroll_blank (hd : d.Valid) (hsides : d.sides = 0) : d.reroll = pure d := by
  rw [hd.eq_of_sides hsides]
  rfl

theorem retry_ok (hd : d.Valid) {new : Option Die} (h : (retry faces d).on s = (.ok new, s')) :
    ∃ block, s.Takes block s' ∧ Retries faces d block new := by
  rw [retry] at h
  split at h
  · rename_i htriggers
    rw [map_eq_pure_bind] at h
    obtain ⟨new, s₁, hreroll, hnew⟩ := on_bind_ok h
    obtain ⟨rfl, rfl⟩ := on_pure_ok hnew
    by_cases hsides : d.sides = 0
    · rw [reroll_blank hd hsides] at hreroll
      obtain ⟨rfl, rfl⟩ := on_pure_ok hreroll
      exact ⟨[], .refl s, .blank htriggers hsides⟩
    · obtain ⟨face, htakes, rfl⟩ := (Die.reroll_ok_iff hsides).1 hreroll
      exact ⟨[face], htakes, .again htriggers hsides face⟩
  · obtain ⟨rfl, rfl⟩ := on_pure_ok h
    exact ⟨[], .refl s, .still (eq_false_of_ne_true ‹_›)⟩

theorem Retries.exists_some {block : List Int} {new : Option Die} (h : Retries faces d block new)
    (htriggers : faces.contains d.face = true) : ∃ e, new = some e := by
  cases h with
  | still hstill =>
    rw [hstill] at htriggers
    cases htriggers
  | blank => exact ⟨d, rfl⟩
  | again _ _ face => exact ⟨_, rfl⟩

theorem Retries.eq_none {block : List Int} {new : Option Die} (h : Retries faces d block new)
    (hstill : faces.contains d.face = false) : new = none := by
  cases h with
  | still => rfl
  | blank htriggers => rw [hstill] at htriggers; cases htriggers
  | again htriggers => rw [hstill] at htriggers; cases htriggers

/-! ### The three rerolls -/

/-- How a plain, a better and a worse reroll of one pool compare. -/
structure Compares (faces : List Int) (p : Pool) (once better worse : Change) : Prop where
  size_once : once.pool.size = p.size
  size_better : better.pool.size = p.size
  size_worse : worse.pool.size = p.size
  still : ∀ (i : Nat) (d : Die), p.dice[i]? = some d → faces.contains d.face = false →
    once.pool.dice[i]? = some d ∧ better.pool.dice[i]? = some d ∧ worse.pool.dice[i]? = some d
  again : ∀ (i : Nat) (d new : Die), p.dice[i]? = some d → faces.contains d.face = true →
    once.pool.dice[i]? = some new → better.pool.results[i]? = some (max d.result new.result) ∧
      worse.pool.results[i]? = some (min d.result new.result)
  total : better.pool.total + worse.pool.total = p.total + once.pool.total
  le_better : p.total ≤ better.pool.total
  worse_le : worse.pool.total ≤ p.total

/-- The dice that stay when matching dice are rolled again on a block of faces for each. -/
def Rerolled (faces : List Int) (d : Die) (block : List Int) (stays : Die) : Prop :=
  ∃ new, Retries faces d block new ∧ stays = new.getD d

theorem compares {blocks : List (List Int)} {news : List (Option Die)} {shapes : List Shape} {b b' b'' : Breakdown}
    (h : Blockwise (Retries faces) p.dice blocks news) :
    Compares faces p ⟨⟨Preference.newer.picks p.dice news, shapes⟩, b⟩
      ⟨⟨Preference.higher.picks p.dice news, shapes⟩, b'⟩ ⟨⟨Preference.lower.picks p.dice news, shapes⟩, b''⟩ where
  size_once := Preference.newer.length_picks h.length_eq
  size_better := Preference.higher.length_picks h.length_eq
  size_worse := Preference.lower.length_picks h.length_eq
  still := by
    intro i d hd hstill
    obtain ⟨block, new, hnew, hretries⟩ := h.exists_getElem? hd
    obtain rfl := hretries.eq_none hstill
    exact ⟨Preference.getElem?_picks _ hd hnew, Preference.getElem?_picks _ hd hnew, Preference.getElem?_picks _ hd hnew⟩
  again := by
    intro i d e hd htriggers he
    obtain ⟨block, new, hnew, hretries⟩ := h.exists_getElem? hd
    obtain ⟨e', rfl⟩ := hretries.exists_some htriggers
    obtain rfl : e' = e := Option.some.inj ((Preference.getElem?_picks .newer hd hnew).symm.trans he)
    rw [results, results, List.getElem?_map, List.getElem?_map, Preference.getElem?_picks _ hd hnew,
      Preference.getElem?_picks _ hd hnew, Option.map_some, Option.map_some, Preference.result_higher_pick,
      Preference.result_lower_pick]
    exact ⟨rfl, rfl⟩
  total := Preference.sum_higher_add_lower h.length_eq
  le_better := (Preference.sum_lower_le_higher h.length_eq).2
  worse_le := (Preference.sum_lower_le_higher h.length_eq).1

theorem replaceAll_settle (preference : Preference) {news : List (Option Die)} (h : news.length = p.dice.length) :
    p.replaceAll (List.zipWith preference.settle p.dice news) =
      if p.size ≤ maxPoolSize then .ok ⟨⟨preference.picks p.dice news, p.shapes⟩,
        (List.zipWith preference.settle p.dice news).flatMap Replacement.entries⟩
      else .error (.poolTooLarge p.size) := by
  rw [replaceAll, changeTo_eq, Preference.map_die_settle, preference.length_picks h]
  rfl

/-- Plain, better and worse rerolls of valid dice take the same faces, and fail alike. When they succeed, each
matching die that has sides takes the next face for its new die, and what the three make of the old dice and the
new ones compares as it should. -/
theorem rerolls_compare (hp : ∀ d ∈ p.dice, d.Valid) (faces : List Int) (s : Faces) :
    let once := (p.rerollOnce faces).on s
    let better := (p.rerollBetter faces).on s
    let worse := (p.rerollWorse faces).on s
    better.2 = once.2 ∧ worse.2 = once.2 ∧
      ((∃ e, once.1 = .error e ∧ better.1 = .error e ∧ worse.1 = .error e) ∨
        ∃ o b w, once.1 = .ok o ∧ better.1 = .ok b ∧ worse.1 = .ok w ∧ Compares faces p o b w ∧
          ∃ blocks, s.Takes blocks.flatten once.2 ∧ Blockwise (Rerolled faces) p.dice blocks o.pool.dice) := by
  intro once better worse
  have hon (preference : Preference) : (p.reroll preference faces).on s = _ :=
    (congrArg (Rolling.on · s) (p.reroll_eq preference faces)).trans (on_bind _ _ s)
  have honce : once = _ := hon .newer
  have hbetter : better = _ := hon .higher
  have hworse : worse = _ := hon .lower
  rcases hrun : (p.dice.mapM (retry faces)).on s with ⟨e | news, s'⟩
  · rw [hrun] at honce hbetter hworse
    rw [honce, hbetter, hworse]
    exact ⟨rfl, rfl, .inl ⟨e, rfl, rfl, rfl⟩⟩
  · obtain ⟨blocks, htakes, hblocks⟩ := Blockwise.of_mapM (fun d hd s s' new => retry_ok (hp d hd)) hrun
    rw [hrun] at honce hbetter hworse
    dsimp only at honce hbetter hworse
    rw [on_liftM, replaceAll_settle .newer hblocks.length_eq] at honce
    rw [on_liftM, replaceAll_settle .higher hblocks.length_eq] at hbetter
    rw [on_liftM, replaceAll_settle .lower hblocks.length_eq] at hworse
    rw [honce, hbetter, hworse]
    refine ⟨rfl, rfl, ?_⟩
    by_cases hsize : p.size ≤ maxPoolSize
    · simp only [if_pos hsize]
      refine .inr ⟨_, _, _, rfl, rfl, rfl, compares hblocks, blocks, htakes, ?_⟩
      exact hblocks.zipWith fun d block new hretries => ⟨new, hretries, by cases new <;> rfl⟩
    · simp only [if_neg hsize]
      exact .inl ⟨_, rfl, rfl, rfl⟩

/-- The seven that was built up is worth more than its new face; the blank matches, but takes no face. -/
theorem rerolls_compare_compound :
    let p : Pool := ⟨[.compound 6 [6, 1], .plain 6 1, .plain 0 0, .plain 6 4], [⟨3, 6⟩, ⟨1, 0⟩]⟩
    let s : Faces := .ofList [5, 3, 2]
    (∀ d ∈ p.dice, d.Valid) ∧ ∃ o b w, ((p.rerollOnce [0, 1]).on s).1 = .ok o ∧
      ((p.rerollBetter [0, 1]).on s).1 = .ok b ∧ ((p.rerollWorse [0, 1]).on s).1 = .ok w ∧
      ((p.rerollWorse [0, 1]).on s).2 = ⟨[2], 2⟩ ∧ Compares [0, 1] p o b w ∧
      o.pool.dice = [.compound 6 [5], .plain 6 3, .plain 0 0, .plain 6 4] := by
  intro p s
  have hvalid : ∀ d ∈ p.dice, d.Valid := by simp [p, Die.Valid]
  have hdice : ((p.rerollOnce [0, 1]).on s).1.toOption.map (fun o => o.pool.dice) =
      some [.compound 6 [5], .plain 6 3, .plain 0 0, .plain 6 4] := by decide
  have hfaces : ((p.rerollOnce [0, 1]).on s).2 = ⟨[2], 2⟩ := by decide
  obtain ⟨-, hworse, ⟨e, he, -⟩ | ⟨o, b, w, ho, hb, hw, h, -⟩⟩ := rerolls_compare hvalid [0, 1] s
  · rw [he] at hdice
    cases hdice
  · rw [ho] at hdice
    exact ⟨hvalid, o, b, w, ho, hb, hw, hworse.trans hfaces, h, Option.some.inj hdice⟩

end Pool

end Tabletop
