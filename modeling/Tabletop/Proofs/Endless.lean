import Tabletop.Proofs.Generations
import Tabletop.Proofs.Locality

/-!
# Endless supplies of faces

`TakesAtMost m k` bounds the faces that `m` takes, however it ends. The bounds of the parts of a
computation add up (`TakesAtMost.bind`), and where only some members of a list take faces, only those
count (`TakesAtMost.mapM`). A local computation with a bound comes to an end on every endless supply
(`Local.stops`), since no longer supply is used less than one that runs out.
-/

namespace Tabletop

namespace Rolling

variable {α β : Type} {m : Rolling α} {f : α → Rolling β} {j k : Nat} {taken : List Int}

/-! ### Bounds on the faces taken -/

def TakesAtMost (m : Rolling α) (k : Nat) : Prop := ∀ s : Faces, (m.on s).2.used ≤ s.used + k

namespace TakesAtMost

theorem mono (h : m.TakesAtMost j) (hjk : j ≤ k) : m.TakesAtMost k :=
  fun s => Nat.le_trans (h s) (Nat.add_le_add_left hjk _)

protected theorem pure (a : α) : TakesAtMost (pure a : Rolling α) 0 := fun s => Nat.le_refl s.used

protected theorem throw (e : Error) : TakesAtMost (throw e : Rolling α) 0 := fun s => Nat.le_refl s.used

protected theorem liftM (r : Except Error α) : TakesAtMost (liftM r : Rolling α) 0 := fun s => by
  rw [on_liftM]
  exact Nat.le_refl s.used

theorem draw : TakesAtMost draw 1 := by
  rintro ⟨_ | ⟨face, rest⟩, n⟩
  · exact Nat.le_succ n
  · exact Nat.le_refl (n + 1)

protected theorem bind (hm : m.TakesAtMost j) (hf : ∀ a, (f a).TakesAtMost k) : (m >>= f).TakesAtMost (j + k) := by
  intro s
  have hs := hm s
  rw [on_bind]
  rcases hrun : m.on s with ⟨e | a, s₁⟩
  · rw [hrun] at hs
    exact Nat.le_trans hs (Nat.add_le_add_left (Nat.le_add_right j k) _)
  · rw [hrun] at hs
    have hs₁ := hf a s₁
    dsimp only at hs ⊢
    omega

/-- A check in front takes nothing. -/
theorem check {r : Except Error α} (hf : ∀ a, (f a).TakesAtMost k) :
    ((liftM r : Rolling α) >>= f).TakesAtMost k := by
  have h := (TakesAtMost.liftM r).bind hf
  rwa [Nat.zero_add] at h

/-- A last part that takes nothing. -/
theorem andThen (hm : m.TakesAtMost k) (hf : ∀ a, (f a).TakesAtMost 0) : (m >>= f).TakesAtMost k := hm.bind hf

protected theorem mapM {f : α → Rolling β} {p : α → Bool} {l : List α}
    (hsome : ∀ a, p a = true → (f a).TakesAtMost k) (hnone : ∀ a, p a = false → (f a).TakesAtMost 0) :
    (l.mapM f).TakesAtMost (k * l.countP p) := by
  induction l with
  | nil => exact .pure _
  | cons a l ih =>
    have hl (b : β) : (do pure (b :: (← l.mapM f)) : Rolling (List β)).TakesAtMost (k * l.countP p) :=
      ih.andThen fun _ => .pure _
    rw [List.mapM_cons]
    cases ha : p a with
    | true =>
      rw [List.countP_cons_of_pos ha, Nat.mul_add_one, Nat.add_comm]
      exact (hsome a ha).bind hl
    | false =>
      rw [List.countP_cons_of_neg (ne_true_of_eq_false ha)]
      have h := (hnone a ha).bind hl
      rwa [Nat.zero_add] at h

end TakesAtMost

/-! ### Ends that are known -/

namespace EndsAfter

/-- What succeeds on every supply that begins with these faces ends after them. -/
theorem of_takes {a : α} (h : ∀ s s', s.Takes taken s' → m.on s = (.ok a, s')) : m.EndsAfter taken (.ok a) where
  enough := fun _ => nofun
  on_append := fun _ _ => h _ _ ⟨rfl, rfl⟩

protected theorem pure (a : α) : EndsAfter (pure a : Rolling α) [] (.ok a) := ⟨fun _ => nofun, fun _ _ => rfl⟩

protected theorem liftM {r : Except Error α} {a : α} (h : r = .ok a) : EndsAfter (liftM r : Rolling α) [] (.ok a) := by
  rw [liftM_ok h]
  exact .pure a

theorem draw (face : Int) : EndsAfter draw [face] (.ok face) := ⟨fun _ => nofun, fun _ _ => rfl⟩

/-- A last part that takes nothing. -/
theorem andThen {a : α} {r : Except Error β} (h : m.EndsAfter taken (.ok a)) (hf : (f a).EndsAfter [] r) :
    (m >>= f).EndsAfter taken r := by
  have hbind := h.bind hf
  rwa [List.append_nil] at hbind

/-- A check in front takes nothing. -/
theorem check {r : Except Error α} {a : α} {r' : Except Error β} (h : r = .ok a) (hf : (f a).EndsAfter taken r') :
    ((liftM r : Rolling α) >>= f).EndsAfter taken r' :=
  (EndsAfter.liftM h).bind hf

theorem exists_mapM {f : α → Rolling β} {l : List α} (h : ∀ a ∈ l, ∃ t b, (f a).EndsAfter t (.ok b)) :
    ∃ t bs, bs.length = l.length ∧ (l.mapM f).EndsAfter t (.ok bs) := by
  induction l with
  | nil => exact ⟨[], [], rfl, .pure _⟩
  | cons a l ih =>
    obtain ⟨⟨t, b, ha⟩, hl⟩ := List.forall_mem_cons.1 h
    obtain ⟨ts, bs, hlen, hbs⟩ := ih hl
    refine ⟨t ++ ts, b :: bs, congrArg Nat.succ hlen, ?_⟩
    rw [List.mapM_cons]
    exact ha.bind (hbs.andThen (.pure _))

end EndsAfter

/-! ### Ends on an endless supply -/

/-- On an endless supply of faces the computation ends so, and takes at most `k` of them. -/
def Stops (m : Rolling α) (supply : Nat → Int) (k : Nat) (r : Except Error α) : Prop :=
  ∃ n ≤ k, m.EndsAfter ((List.range n).map supply) r

theorem Local.stops (h : m.Local) (hk : m.TakesAtMost k) (supply : Nat → Int) : ∃ r, m.Stops supply k r := by
  -- one face more than it takes at most
  rcases h ((List.range (k + 1)).map supply) with ⟨taken, rest, r, hfaces, hends⟩ | hout
  · have hused := hk ⟨taken ++ [], 0⟩
    rw [hends.on_append, Nat.zero_add, Nat.zero_add] at hused
    have hle : taken.length ≤ k + 1 := Nat.le_succ_of_le hused
    have htaken : taken = (List.range taken.length).map supply :=
      calc taken = (taken ++ rest).take taken.length := List.take_left.symm
        _ = ((List.range (k + 1)).map supply).take taken.length := by rw [hfaces]
        _ = (List.range taken.length).map supply := by rw [← List.map_take, List.take_range, Nat.min_eq_left hle]
    exact ⟨r, taken.length, hused, htaken ▸ hends⟩
  · have hused := hk ⟨(List.range (k + 1)).map supply, 0⟩
    rw [hout.on_eq, List.length_map, List.length_range] at hused
    dsimp only at hused
    omega

theorem Stops.exists_on {supply : Nat → Int} {r : Except Error α} (h : m.Stops supply k r) :
    ∃ s s', m.on s = (r, s') := by
  obtain ⟨n, -, hends⟩ := h
  exact ⟨_, _, hends.on_append [] 0⟩

end Rolling

open Rolling

/-! ### Dice and pools -/

theorem Die.takesAtMost_roll (sides : Nat) : (roll sides).TakesAtMost 1 := by
  rw [roll]
  split
  · exact (TakesAtMost.pure _).mono (Nat.zero_le 1)
  · exact TakesAtMost.draw.andThen fun _ => .pure _

theorem Die.takesAtMost_reroll (d : Die) : d.reroll.TakesAtMost 1 := by
  cases d with
  | plain sides shown => exact takesAtMost_roll sides
  | compound sides parts => exact TakesAtMost.draw.andThen fun _ => .pure _

namespace Pool

variable (p : Pool) (faces : List Int) (cap : Int)

theorem takesAtMost_grow (cs : List Chain) :
    (cs.mapM (Chain.grow faces)).TakesAtMost (cs.countP (Chain.isLive faces)) := by
  have hlive (c : Chain) (hc : c.isLive faces = true) : (c.grow faces).TakesAtMost 1 := by
    rw [Chain.grow, if_pos hc]
    exact (Die.takesAtMost_roll _).andThen fun _ => .pure _
  have hstill (c : Chain) (hc : c.isLive faces = false) : (c.grow faces).TakesAtMost 0 := by
    rw [Chain.grow_of_still hc]
    exact .pure c
  have h := TakesAtMost.mapM hlive hstill (l := cs)
  rwa [Nat.one_mul] at h

/-- The size of the pool is checked before each generation, so that there is room for all its dice. -/
theorem takesAtMost_settle (left size : Nat) (cs : List Chain) :
    (settle faces cap left size cs).TakesAtMost (maxPoolSize - size) := by
  induction left generalizing size cs with
  | zero =>
    unfold settle
    dsimp only
    split
    · exact (TakesAtMost.pure cs).mono (Nat.zero_le _)
    · exact (TakesAtMost.throw _).mono (Nat.zero_le _)
  | succ left ih =>
    unfold settle
    dsimp only
    split
    · exact (TakesAtMost.pure cs).mono (Nat.zero_le _)
    · by_cases hsize : size + cs.countP (Chain.isLive faces) ≤ maxPoolSize
      · have hrest := (takesAtMost_grow faces cs).bind fun cs₁ => ih (size + cs.countP (Chain.isLive faces)) cs₁
        exact TakesAtMost.check fun _ => hrest.mono (by omega)
      · rw [checkSize, if_neg hsize]
        exact (TakesAtMost.throw _).mono (Nat.zero_le _)

theorem takesAtMost_explosion : (p.explosion faces cap).TakesAtMost (maxPoolSize - p.size) :=
  .check fun _ => takesAtMost_settle faces cap _ _ _

theorem takesAtMost_explodeRecursive : (p.explodeRecursive faces cap).TakesAtMost (maxPoolSize - p.size) :=
  (p.takesAtMost_explosion faces cap).andThen fun _ => .liftM _

theorem takesAtMost_explodeAdditive : (p.explodeAdditive faces cap).TakesAtMost (maxPoolSize - p.size) :=
  (p.takesAtMost_explosion faces cap).andThen fun _ => .liftM _

theorem chase_of_still {d : Die} (hd : faces.contains d.face = false) (left : Nat) (again : Bool) :
    chase faces cap left again d = pure ⟨d, [{ die := d, added := again }]⟩ := by
  rw [chase.eq_def]
  exact if_neg (ne_true_of_eq_false hd)

theorem takesAtMost_chase (left : Nat) (again : Bool) (d : Die) : (chase faces cap left again d).TakesAtMost left := by
  induction left generalizing again d with
  | zero =>
    rw [chase]
    split
    · exact .throw _
    · exact .pure _
  | succ left ih =>
    rw [chase]
    split
    · rw [Nat.add_comm]
      exact d.takesAtMost_reroll.bind fun d => (ih true d).andThen fun _ => .pure _
    · exact (TakesAtMost.pure _).mono (Nat.zero_le _)

/-- Only the dice that trigger take faces, each of them one for every generation. -/
theorem takesAtMost_rerollRecursive :
    (p.rerollRecursive faces cap).TakesAtMost (cap.toNat * p.dice.countP fun d => faces.contains d.face) := by
  refine .check fun _ => TakesAtMost.andThen ?_ fun _ => .liftM _
  refine TakesAtMost.mapM (fun d _ => takesAtMost_chase faces cap _ _ d) fun d hd => ?_
  rw [chase_of_still faces cap hd]
  exact .pure _

end Pool

end Tabletop
