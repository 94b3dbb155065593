import Mathlib.Data.List.Nodup
import Tabletop.Rack
import Tabletop.Proofs.TrayLog

/-!
# The rolls of a rack

What a rack shows of a scope are the rolls of its tray, or none as long as the scope has no tray.
Opening a tray changes no rolls, and putting a tray back changes those of its own scope only
(`rolls_put_self`, `rolls_put_of_ne`). Every rack that grew from an empty one `Fits`: each scope has one
tray at most, and no tray holds more rolls than it has room for.
-/

namespace Tabletop

variable {Scope Owner : Type}

namespace Tray

/-- A tray with room for `n` rolls, and no more of them than that. -/
structure Fits (n : Nat) (t : Tray Owner) : Prop where
  capacity : t.capacity = n
  length_le : t.rolls.length ≤ n

variable {n : Nat} {t : Tray Owner}

theorem ofCapacity_natCast (hn : 1 ≤ n) : (ofCapacity n : Except Error (Tray Owner)) = .ok ⟨n, []⟩ := by
  rw [ofCapacity, if_neg (by omega), Int.toNat_natCast]

theorem pushAll_capacity (t : Tray Owner) (rs : List (Roll Owner)) :
    (t.pushAll rs).capacity = t.capacity := by
  induction rs generalizing t with
  | nil => rfl
  | cons r rs ih => exact ih (t.push r)

theorem length_rtake_le {α : Type} (l : List α) (n : Nat) : (l.rtake n).length ≤ n := by
  rw [List.rtake, List.length_drop]
  omega

theorem rtake_of_length_le {α : Type} {l : List α} (h : l.length ≤ n) : l.rtake n = l := by
  rw [List.rtake, Nat.sub_eq_zero_of_le h, List.drop_zero]

theorem suffix_rtake_append {α : Type} {l new : List α} (h : new.length ≤ n) :
    new <:+ (l ++ new).rtake n := by
  have hle : (l ++ new).length - n ≤ l.length := by
    rw [List.length_append]
    omega
  rw [List.rtake, List.drop_append_of_le_length hle]
  exact List.suffix_append _ _

theorem Fits.pushAll_rolls (h : t.Fits n) (hn : 1 ≤ n) (rs : List (Roll Owner)) :
    (t.pushAll rs).rolls = (t.rolls ++ rs).rtake n := by
  have ht : t.rolls = t.rolls.rtake t.capacity := by
    rw [h.capacity, rtake_of_length_le h.length_le]
  rw [← h.capacity] at hn ⊢
  exact Tray.pushAll_rolls hn ht rs

theorem Fits.pushAll (h : t.Fits n) (hn : 1 ≤ n) (rs : List (Roll Owner)) : (t.pushAll rs).Fits n where
  capacity := by rw [pushAll_capacity, h.capacity]
  length_le := by
    rw [h.pushAll_rolls hn]
    exact length_rtake_le _ n

end Tray

namespace Rack

/-- A rack with one tray at most for each scope, every tray with room for `n` rolls. -/
structure Fits (n : Nat) (r : Rack Scope Owner) : Prop where
  capacity : r.capacity = n
  nodup : (r.trays.map Prod.fst).Nodup
  trays : ∀ p ∈ r.trays, p.2.Fits n

theorem fits_ofCapacity (n : Nat) : (ofCapacity n : Rack Scope Owner).Fits n :=
  ⟨rfl, List.nodup_nil, List.forall_mem_nil _⟩

variable [DecidableEq Scope] {r : Rack Scope Owner} {scope other : Scope} {n : Nat}
  {t t' : Tray Owner}

def rolls (r : Rack Scope Owner) (scope : Scope) : List (Roll Owner) :=
  ((r.tray? scope).map Tray.rolls).getD []

theorem rolls_of_tray? (h : r.tray? scope = some t) : r.rolls scope = t.rolls := by
  rw [rolls, h]
  rfl

theorem mem_of_tray? (h : r.tray? scope = some t) : (scope, t) ∈ r.trays := by
  obtain ⟨l₁, l₂, htrays, -⟩ := List.lookup_eq_some_iff.1 h
  rw [htrays]
  simp

theorem Fits.tray (h : r.Fits n) (ht : r.tray? scope = some t) : t.Fits n :=
  h.trays _ (mem_of_tray? ht)

theorem tray?_put (r : Rack Scope Owner) (scope other : Scope) (t : Tray Owner) :
    (r.put scope t).tray? other =
      (r.tray? other).map fun old => if other = scope then t else old := by
  rw [put, tray?, tray?]
  generalize r.trays = trays
  induction trays with
  | nil => rfl
  | cons p trays ih =>
    rw [List.map_cons, List.lookup_cons, List.lookup_cons, ih]
    by_cases hp : other = p.1
    · rw [← hp, beq_self_eq_true]
      rfl
    · rw [beq_false_of_ne hp]

theorem tray?_put_self (h : r.tray? scope = some t) : (r.put scope t').tray? scope = some t' := by
  rw [tray?_put, h, Option.map_some, if_pos rfl]

theorem rolls_put_self (h : r.tray? scope = some t) : (r.put scope t').rolls scope = t'.rolls :=
  rolls_of_tray? (tray?_put_self h)

theorem rolls_put_of_ne (h : other ≠ scope) : (r.put scope t).rolls other = r.rolls other := by
  simp only [rolls, tray?_put, if_neg h, Option.map_id']

theorem put_put (r : Rack Scope Owner) (scope : Scope) (t t' : Tray Owner) :
    (r.put scope t).put scope t' = r.put scope t' := by
  simp only [put, List.map_map]
  congr 1
  refine List.map_congr_left fun p _ => ?_
  by_cases hp : p.1 = scope <;> simp [hp]

theorem Fits.put_self (h : r.Fits n) (ht : r.tray? scope = some t) : r.put scope t = r := by
  have hput : r.trays.map (fun p => (p.1, if p.1 = scope then t else p.2)) = r.trays.map id := by
    refine List.map_congr_left fun p hp => ?_
    by_cases hscope : p.1 = scope
    · have hkey := List.inj_on_of_nodup_map h.nodup hp (mem_of_tray? ht) hscope
      rw [hkey, if_pos rfl]
      rfl
    · rw [if_neg hscope]
      rfl
  rw [List.map_id] at hput
  exact congrArg (Rack.mk r.capacity) hput

theorem Fits.put (h : r.Fits n) (ht : t.Fits n) : (r.put scope t).Fits n where
  capacity := h.capacity
  nodup := by
    rw [Rack.put, List.map_map]
    exact h.nodup
  trays := by
    intro p hp
    obtain ⟨⟨s, old⟩, hold, rfl⟩ := List.mem_map.1 hp
    dsimp only
    by_cases hscope : s = scope
    · rw [if_pos hscope]
      exact ht
    · rw [if_neg hscope]
      exact h.trays _ hold

theorem Fits.concat (h : r.Fits n) (ht : t.Fits n) (hscope : r.tray? scope = none) :
    Fits n { r with trays := r.trays ++ [(scope, t)] } where
  capacity := h.capacity
  nodup := by
    have hnew : scope ∉ r.trays.map Prod.fst := by
      intro hmem
      obtain ⟨p, hp, rfl⟩ := List.mem_map.1 hmem
      have hne := List.lookup_eq_none_iff.1 hscope p hp
      simp at hne
    have hnodup := List.Nodup.concat hnew h.nodup
    rw [List.concat_eq_append] at hnodup
    rw [List.map_append]
    exact hnodup
  trays := by
    intro p hp
    rcases List.mem_append.1 hp with hp | hp
    · exact h.trays p hp
    · obtain rfl := List.mem_singleton.1 hp
      exact ht

/-- A rack that fits opens the tray of any scope, and shows the same rolls as before. -/
theorem Fits.opened (h : r.Fits n) (hn : 1 ≤ n) (scope : Scope) :
    ∃ t r', r.opened scope = .ok (t, r') ∧ r'.tray? scope = some t ∧ r'.Fits n ∧
      ∀ other, r'.rolls other = r.rolls other := by
  rw [Rack.opened]
  cases ht : r.tray? scope with
  | some t => exact ⟨t, r, rfl, ht, h, fun _ => rfl⟩
  | none =>
    have hnew : Tray.ofCapacity r.capacity = .ok (⟨n, []⟩ : Tray Owner) := by
      rw [h.capacity, Tray.ofCapacity_natCast hn]
    have hfits : Tray.Fits n (⟨n, []⟩ : Tray Owner) := ⟨rfl, Nat.zero_le n⟩
    refine ⟨⟨n, []⟩, { r with trays := r.trays ++ [(scope, ⟨n, []⟩)] }, ?_, ?_, h.concat hfits ht, ?_⟩
    · rw [hnew]
      rfl
    · rw [tray?, List.lookup_append, ← tray?, ht, Option.none_or, List.lookup_cons, beq_self_eq_true]
    · intro other
      rw [rolls, rolls, tray?, List.lookup_append, ← tray?]
      cases hother : r.tray? other with
      | some old => rfl
      | none =>
        rw [Option.none_or, List.lookup_cons]
        cases other == scope <;> rfl

end Rack

end Tabletop
