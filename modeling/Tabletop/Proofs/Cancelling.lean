import Mathlib.Data.List.Induction
import Tabletop.Genesys.Tally

/-!
# Cancelling keeps the difference

Symbols cancel one by one as they come, but what is kept in the end is only a matter of how many of
each there were (`count_cancel`). So a tally can be cancelled part by part: tallies of parts add up
to the tally of the whole (`Tally.net_add_net`).
-/

namespace Tabletop.Genesys

variable {s t : Symbol} {kept xs ys : List Symbol}

/-- How many of a symbol are left once each opposite symbol took one away. -/
def surplus (xs : List Symbol) (s : Symbol) : Nat :=
  match s with
  | .blank => 0
  | s =>
    match s.opposite? with
    | some o => xs.count s - xs.count o
    | none => xs.count s

theorem count_eraseLast (s t : Symbol) (kept : List Symbol) :
    (eraseLast s kept).count t = kept.count t - if s == t then 1 else 0 := by
  rw [eraseLast, List.count_reverse, List.count_erase, List.count_reverse]

theorem contains_iff_count : kept.contains s = true ↔ 0 < kept.count s := by
  rw [List.contains_iff_mem, List.count_pos_iff]

/-- A symbol comes to what is kept of others: if an opposite one is kept it takes that away, and
otherwise it is kept. -/
theorem count_settle (h : ∀ t, kept.count t = surplus xs t) (s t : Symbol) :
    (settle kept s).count t = surplus (xs ++ [s]) t := by
  have hkept (t : Symbol) : kept.count t = surplus xs t := h t
  unfold settle
  cases ho : s.opposite? with
  | none =>
    cases s <;> cases ho <;> cases t <;> simp [hkept, surplus, Symbol.opposite?]
  | some o =>
    have hcase : (if kept.contains o then eraseLast o kept else kept ++ [s]).count t =
        if 0 < kept.count o then kept.count t - (if o == t then 1 else 0)
        else kept.count t + (if s == t then 1 else 0) := by
      by_cases hc : 0 < kept.count o
      · rw [if_pos hc, if_pos (contains_iff_count.2 hc), count_eraseLast]
      · rw [if_neg hc, if_neg (mt contains_iff_count.1 hc), List.count_append, List.count_singleton]
    rw [hkept, hkept] at hcase
    cases s <;> cases ho <;> refine Eq.trans hcase ?_ <;> cases t <;>
      simp [surplus, Symbol.opposite?] <;> split <;> omega

/-- Whatever the order of the symbols, what is kept of each is its surplus. -/
theorem count_cancel (xs : List Symbol) (t : Symbol) : (cancel xs).count t = surplus xs t := by
  induction xs using List.reverseRecOn generalizing t with
  | nil => cases t <;> rfl
  | append_singleton xs s ih =>
    rw [cancel, List.foldl_append]
    exact count_settle ih s t

namespace Tally

/-- The net symbols by subtraction. -/
def net (xs : List Symbol) : Tally where
  success := xs.count .success - xs.count .failure
  advantage := xs.count .advantage - xs.count .threat
  triumph := xs.count .triumph
  failure := xs.count .failure - xs.count .success
  threat := xs.count .threat - xs.count .advantage
  despair := xs.count .despair

theorem ofSymbols_eq_net (xs : List Symbol) : ofSymbols xs = net xs := by
  simp only [ofSymbols, ofCounts, count_cancel]
  rfl

theorem count_expand (t : Tally) (s : Symbol) : t.expand.count s = t.count s := by
  cases s <;> simp [expand, Symbol.all, count, List.count_replicate]

/-- Of two tallies the differences of all their symbols are left. -/
theorem add_eq (t u : Tally) : t.add u =
    { success := (t.success + u.success) - (t.failure + u.failure)
      advantage := (t.advantage + u.advantage) - (t.threat + u.threat)
      triumph := t.triumph + u.triumph
      failure := (t.failure + u.failure) - (t.success + u.success)
      threat := (t.threat + u.threat) - (t.advantage + u.advantage)
      despair := t.despair + u.despair } := by
  rw [add, ofSymbols_eq_net]
  simp only [net, List.count_append, count_expand, count]

/-- Tallies that were cancelled before they are added come to the same. -/
theorem net_add_net (xs ys : List Symbol) : (net xs).add (net ys) = net (xs ++ ys) := by
  rw [add_eq]
  simp only [net, List.count_append, Tally.mk.injEq]
  refine ⟨?_, ?_, trivial, ?_, ?_, trivial⟩ <;> omega

end Tally

end Tabletop.Genesys
