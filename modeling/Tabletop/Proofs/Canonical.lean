import Tabletop.Proofs.Cancelling
import Tabletop.Proofs.SoundRoll

/-!
# Cancelled symbols are in lowest terms

What is kept of symbols holds no blank and no two that cancel each other (`Reduced`), and symbols in
such lowest terms are kept as they are. A tally is the differences of opposite symbols, so that tallies
add up in any order, and one that a roll came to (`Tally.Built`) is the tally of its own symbols.
-/

namespace Tabletop.Genesys

variable {s o : Symbol} {kept xs ys : List Symbol}

/-! ### What is kept of symbols -/

theorem eraseLast_sublist (s : Symbol) (kept : List Symbol) : (eraseLast s kept).Sublist kept := by
  have herase := (List.erase_sublist (a := s) (l := kept.reverse)).reverse
  rwa [List.reverse_reverse] at herase

/-- A symbol that comes may be kept at the end, and nothing moves. -/
theorem settle_sublist (kept : List Symbol) (s : Symbol) : (settle kept s).Sublist (kept ++ [s]) := by
  unfold settle
  split
  · exact List.sublist_append_left kept _
  · split
    · split
      · exact (eraseLast_sublist _ kept).trans (List.sublist_append_left kept _)
      · exact List.Sublist.refl _
    · exact List.Sublist.refl _

theorem cancel_append_singleton (xs : List Symbol) (s : Symbol) : cancel (xs ++ [s]) = settle (cancel xs) s := by
  rw [cancel, List.foldl_append]
  rfl

theorem cancel_sublist (xs : List Symbol) : (cancel xs).Sublist xs := by
  induction xs using List.reverseRecOn with
  | nil => exact List.Sublist.refl _
  | append_singleton xs s ih =>
    rw [cancel_append_singleton]
    exact (settle_sublist _ s).trans (ih.append (List.Sublist.refl [s]))

theorem surplus_of_opposite (h : s.opposite? = some o) (xs : List Symbol) :
    surplus xs s = xs.count s - xs.count o := by
  cases s <;> cases h <;> rfl

theorem Symbol.opposite?_symm (h : s.opposite? = some o) : o.opposite? = some s := by
  cases s <;> cases h <;> rfl

theorem mem_cancel_iff : s ∈ cancel xs ↔ 0 < surplus xs s := by
  rw [← count_cancel, List.count_pos_iff]

/-! ### Lowest terms -/

/-- No blank, and no two symbols that cancel each other. -/
structure Reduced (xs : List Symbol) : Prop where
  blank : .blank ∉ xs
  apart : ∀ {s o}, s.opposite? = some o → s ∈ xs → o ∉ xs

theorem Reduced.sublist (h : Reduced ys) (hsub : xs.Sublist ys) : Reduced xs :=
  ⟨fun hblank => h.blank (hsub.subset hblank), fun hop hs ho => h.apart hop (hsub.subset hs) (hsub.subset ho)⟩

theorem reduced_cancel (xs : List Symbol) : Reduced (cancel xs) := by
  refine ⟨fun hblank => Nat.lt_irrefl 0 (mem_cancel_iff.1 hblank), fun hop hs ho => ?_⟩
  rw [mem_cancel_iff, surplus_of_opposite hop] at hs
  rw [mem_cancel_iff, surplus_of_opposite (Symbol.opposite?_symm hop)] at ho
  omega

/-- Nothing cancels a symbol that comes last in lowest terms. -/
theorem Reduced.settle_eq (h : Reduced (kept ++ [s])) : settle kept s = kept ++ [s] := by
  have hs : s ∈ kept ++ [s] := List.mem_append_right _ List.mem_cons_self
  unfold settle
  split
  · exact absurd hs h.blank
  · split
    · rename_i o hop
      rw [if_neg fun hc => h.apart hop hs (List.mem_append_left _ (List.contains_iff_mem.1 hc))]
    · rfl

theorem Reduced.cancel_eq (h : Reduced xs) : cancel xs = xs := by
  induction xs using List.reverseRecOn with
  | nil => rfl
  | append_singleton xs s ih =>
    rw [cancel_append_singleton, ih (h.sublist (List.sublist_append_left xs _)), h.settle_eq]

/-- What is kept of symbols: some of them, in their order, in lowest terms. Of opposite symbols the
difference is kept, and all of those that nothing cancels. -/
structure Keeps (xs kept : List Symbol) : Prop where
  sublist : kept.Sublist xs
  reduced : Reduced kept
  success : kept.count .success = xs.count .success - xs.count .failure
  failure : kept.count .failure = xs.count .failure - xs.count .success
  advantage : kept.count .advantage = xs.count .advantage - xs.count .threat
  threat : kept.count .threat = xs.count .threat - xs.count .advantage
  triumph : kept.count .triumph = xs.count .triumph
  despair : kept.count .despair = xs.count .despair

theorem keeps_cancel (xs : List Symbol) : Keeps xs (cancel xs) := by
  refine ⟨cancel_sublist xs, reduced_cancel xs, ?_, ?_, ?_, ?_, ?_, ?_⟩ <;> exact count_cancel xs _

/-! ### Tallies -/

namespace Tally

variable {t u v : Tally}

theorem ofSymbols_of_perm (h : xs.Perm ys) : ofSymbols xs = ofSymbols ys := by
  simp only [ofSymbols_eq_net, net, h.count_eq]

theorem ofSymbols_append (xs ys : List Symbol) : ofSymbols (xs ++ ys) = (ofSymbols xs).add (ofSymbols ys) := by
  simp only [ofSymbols_eq_net, net_add_net]

theorem add_comm (t u : Tally) : t.add u = u.add t :=
  ofSymbols_of_perm List.perm_append_comm

theorem add_assoc (t u v : Tally) : (t.add u).add v = t.add (u.add v) := by
  simp only [add_eq, Tally.mk.injEq]
  omega

/-- The tallies that there are: those of symbols, those of narrative dice, and their sums. -/
inductive Built : Tally → Prop
  | ofSymbols (xs : List Symbol) : Built (ofSymbols xs)
  | ofPool (k : Kind) (p : Pool) : Built (k.tally p)
  | add {t u : Tally} : Built t → Built u → Built (t.add u)

/-- However a tally is built, it is that of some symbols. -/
theorem Built.exists_symbols (h : t.Built) : ∃ xs, t = Tally.ofSymbols xs := by
  cases h with
  | ofSymbols xs => exact ⟨xs, rfl⟩
  | ofPool k p => exact ⟨k.poolSymbols p, rfl⟩
  | add _ _ => exact ⟨_, rfl⟩

theorem Built.ofSymbols_expand (h : t.Built) : Tally.ofSymbols t.expand = t := by
  obtain ⟨xs, rfl⟩ := h.exists_symbols
  rw [ofSymbols_eq_net (Tally.ofSymbols xs).expand, ofSymbols_eq_net xs]
  simp only [net, count_expand, count, Tally.mk.injEq]
  refine ⟨?_, ?_, trivial, ?_, ?_, trivial⟩ <;> omega

theorem Built.add_empty (h : t.Built) : t.add empty = t := by
  have hexpand : t.expand ++ empty.expand = t.expand := List.append_nil _
  rw [Tally.add, hexpand, h.ofSymbols_expand]

end Tally

end Tabletop.Genesys

namespace Tabletop

open Rolling

/-! ### The tallies of a roll -/

/-- A tally is built up from symbols. -/
def Value.Built : Value → Prop
  | .genesys t => t.Built
  | _ => True

namespace Value

variable {v w z : Value}

theorem built_of_ofFloat {x : Float} (h : ofFloat x = .ok z) : z.Built := by
  unfold ofFloat at h
  split at h
  · cases h
    trivial
  · cases h

theorem Built.add (hv : v.Built) (hw : w.Built) (h : v.add w = .ok z) : z.Built := by
  cases v with
  | decimal x =>
    obtain ⟨y, -, h⟩ := ok_of_bind h
    exact built_of_ofFloat h
  | successes n =>
    have hsum (h : (do let y ← w.toDecimal; ofFloat ((← doubleOfCount n) + y)) = .ok z) : z.Built := by
      obtain ⟨y, -, h⟩ := ok_of_bind h
      obtain ⟨x, -, h⟩ := ok_of_bind h
      exact built_of_ofFloat h
    cases w with
    | successes m =>
      cases h
      trivial
    | decimal y => exact hsum h
    | genesys t => exact hsum h
  | genesys t =>
    cases w with
    | genesys u =>
      cases h
      exact Genesys.Tally.Built.add hv hw
    | decimal y => cases h
    | successes n => cases h

theorem built_of_negate (h : v.negate = .ok z) : z.Built := by
  cases v with
  | decimal x => exact built_of_ofFloat h
  | successes n =>
    cases h
    trivial
  | genesys t => cases h

theorem Built.subtract (hv : v.Built) (h : v.subtract w = .ok z) : z.Built := by
  obtain ⟨u, hu, h⟩ := ok_of_bind h
  exact hv.add (built_of_negate hu) h

end Value

theorem Throw.built_value (t : Throw) : t.value.Built := by
  cases t with
  | read k p => exact .ofPool k p
  | _ => trivial

/-- The values that an operation took and left. -/
def Operation.values : Operation → List Value
  | negated x result => [x, result]
  | combined _ x y result => [x, y, result]
  | merged _ => []
  | applied _ x result => [x, result]
  | thrown t => [t.value]

/-- The value of an operand, unless it is an argument. -/
def Operand.values : Operand → List Value
  | argument _ => []
  | number v _ => [v]
  | thrown t => [t.value]

def Operand.Built (o : Operand) : Prop := ∀ v ∈ o.values, v.Built

def Operation.Built (op : Operation) : Prop := ∀ v ∈ op.values, v.Built

theorem Operand.Built.toValue {o : Operand} (h : o.Built) {v : Value} (hv : o.toValue = .ok v) : v.Built := by
  cases o with
  | argument a =>
    obtain ⟨n, -, hv⟩ := ok_of_bind hv
    exact Value.built_of_ofFloat hv
  | number w written =>
    cases hv
    exact h _ List.mem_cons_self
  | thrown t =>
    cases hv
    exact t.built_value

theorem Operation.built_thrown (t : Throw) : (thrown t).Built := List.forall_mem_singleton.2 t.built_value

theorem Operation.Built.operand {op : Operation} (h : op.Built) : op.operand.Built := by
  cases op with
  | negated x result => exact List.forall_mem_singleton.2 (h result (by simp [values]))
  | combined o x y result => exact List.forall_mem_singleton.2 (h result (by simp [values]))
  | merged pool => exact List.forall_mem_singleton.2 (Throw.rolled pool).built_value
  | applied f x result => exact List.forall_mem_singleton.2 (h result (by simp [values]))
  | thrown t => exact h

theorem Unary.built_of_apply {u : Unary} {o : Operand} (ho : o.Built) : (u.apply o).Yields Operation.Built := by
  intro s op s' h
  cases u with
  | negate =>
    obtain ⟨x, y, hx, hy, rfl⟩ := Operand.negated_ok (on_liftM_ok h).1
    exact List.forall_mem_cons.2 ⟨ho.toValue hx, List.forall_mem_singleton.2 (Value.built_of_negate hy)⟩
  | function f =>
    obtain ⟨v, x, hv, -, -, rfl⟩ := Operand.applied_ok (on_liftM_ok h).1
    exact List.forall_mem_cons.2 ⟨ho.toValue hv, List.forall_mem_singleton.2 trivial⟩
  | genesys k =>
    obtain ⟨p, -, rfl⟩ := Operand.read_ok (on_liftM_ok h).1
    exact Operation.built_thrown _

theorem Operand.built_of_combined {l r : Operand} {o : Operator} {op : Operation} (hl : l.Built) (hr : r.Built)
    (h : l.combined o r = .ok op) : op.Built := by
  rcases Operand.combined_ok h with ⟨x, y, z, hx, hy, hz, rfl⟩ | ⟨p, q, pool, -, -, -, -, rfl⟩
  · have hresult : z.Built := by
      rcases hz with hz | hz | ⟨w, hz⟩
      · exact (hl.toValue hx).add (hr.toValue hy) hz
      · exact (hl.toValue hx).subtract hz
      · exact Value.built_of_ofFloat hz
    exact List.forall_mem_cons.2 ⟨hl.toValue hx, List.forall_mem_cons.2
      ⟨hr.toValue hy, List.forall_mem_singleton.2 hresult⟩⟩
  · exact List.forall_mem_nil _

theorem Binary.built_of_apply {cap : Int} {b : Binary} {l r : Operand} (hl : l.Built) (hr : r.Built) :
    (b.apply cap l r).Yields Operation.Built := by
  intro s op s' h
  cases b with
  | operator o => exact Operand.built_of_combined hl hr (on_liftM_ok h).1
  | dice =>
    obtain ⟨counts, sides, pool, -, -, -, rfl⟩ := Operand.rolled_ok h
    exact Operation.built_thrown _
  | pool q =>
    obtain ⟨pool, arg, change, -, -, -, rfl⟩ := Operand.changed_ok h
    exact Operation.built_thrown _
  | conversion c =>
    obtain ⟨arg, p, -, -, rfl⟩ := Operand.counted_ok (on_liftM_ok h).1
    exact Operation.built_thrown _

theorem keeps_built (cap : Int) : Machine.Keeps Operand.Built Operation.Built cap where
  operand := Operation.Built.operand
  unary := fun _ _ ho => Unary.built_of_apply ho
  binary := fun _ _ _ hl hr => Binary.built_of_apply hl hr

/-- Every tally that a formula comes to, or comes by, is built up from symbols. -/
theorem built_of_evaluateText (formula : String) (cap : Int) :
    (evaluateText formula cap).Yields fun (log, o) => (∀ op ∈ log, op.Built) ∧ o.Built := by
  have hconstant (c : Constant) : c.operand.Built := by
    cases c with
    | argument a => exact List.forall_mem_nil _
    | number x written => exact List.forall_mem_singleton.2 trivial
  refine (Yields.any _).bind fun ts _ => (Yields.any _).bind fun out _ => ?_
  exact evaluate_holds (keeps_built cap) fun _ _ c _ => hconstant c

def Value.tally? : Value → Option Genesys.Tally
  | .genesys t => some t
  | _ => none

/-- The tallies of a roll: those that its operations took and left, and the one that is left. -/
def talliesOf (log : List Operation) (o : Operand) : List Genesys.Tally :=
  (log.flatMap Operation.values ++ o.values).filterMap Value.tally?

theorem built_of_mem_talliesOf {log : List Operation} {o : Operand} (hlog : ∀ op ∈ log, op.Built) (ho : o.Built)
    {t : Genesys.Tally} (ht : t ∈ talliesOf log o) : t.Built := by
  have hvalues : ∀ v ∈ log.flatMap Operation.values ++ o.values, v.Built := by
    refine List.forall_mem_append.2 ⟨fun v hv => ?_, ho⟩
    obtain ⟨op, hop, hv⟩ := List.mem_flatMap.1 hv
    exact hlog op hop v hv
  obtain ⟨v, hv, htally⟩ := List.mem_filterMap.1 ht
  cases v with
  | genesys u =>
    cases htally
    exact hvalues _ hv
  | _ => cases htally

namespace Genesys

/-- Cancelling brings symbols into a canonical form. Of any symbols some are kept, in their order and in
lowest terms, and those are kept again. A tally does not depend on the order of the symbols, tallies of
parts add up to that of the whole, in any order and grouping, and a tally that is built up from symbols
is the tally of what it counts. All tallies of all formulas are built up so. -/
theorem tally_canonical :
    (∀ xs, Keeps xs (cancel xs) ∧ cancel (cancel xs) = cancel xs) ∧
    (∀ xs ys, xs.Perm ys → Tally.ofSymbols xs = Tally.ofSymbols ys) ∧
    (∀ xs ys, Tally.ofSymbols (xs ++ ys) = (Tally.ofSymbols xs).add (Tally.ofSymbols ys)) ∧
    (∀ t u : Tally, t.add u = u.add t) ∧
    (∀ t u v : Tally, (t.add u).add v = t.add (u.add v)) ∧
    Tally.ofSymbols [] = Tally.empty ∧
    (∀ t : Tally, t.Built →
      t.add Tally.empty = t ∧ Tally.empty.add t = t ∧ Tally.ofSymbols t.expand = t) ∧
    ∀ (formula : String) (cap : Int) (s s' : Faces) (log : List Operation) (o : Operand),
      (evaluateText formula cap).on s = (.ok (log, o), s') → ∀ t ∈ talliesOf log o, t.Built := by
  refine ⟨fun xs => ⟨keeps_cancel xs, (reduced_cancel xs).cancel_eq⟩, fun _ _ => Tally.ofSymbols_of_perm,
    Tally.ofSymbols_append, Tally.add_comm, Tally.add_assoc, rfl, fun t ht => ?_, ?_⟩
  · exact ⟨ht.add_empty, (Tally.add_comm _ t).trans ht.add_empty, ht.ofSymbols_expand⟩
  · intro formula cap s s' log o h t ht
    obtain ⟨hlog, ho⟩ := built_of_evaluateText formula cap h
    exact built_of_mem_talliesOf hlog ho ht

theorem tally_canonical_two_kinds :
    Tally.ofSymbols [.success, .threat, .failure, .success] = Tally.ofSymbols [.failure, .success, .success, .threat] ∧
    (∃ log o s', (evaluateText "1d8ga & 1d8gd" 100).on (Faces.ofList [4, 8]) = (.ok (log, o), s') ∧
      talliesOf log o = [⟨2, 0, 0, 0, 0, 0⟩, ⟨0, 0, 0, 1, 1, 0⟩, ⟨2, 0, 0, 0, 0, 0⟩, ⟨0, 0, 0, 1, 1, 0⟩,
        ⟨1, 0, 0, 0, 1, 0⟩, ⟨1, 0, 0, 0, 1, 0⟩] ∧
      ∀ t ∈ talliesOf log o, Tally.ofSymbols t.expand = t) := by
  obtain ⟨-, hperm, -, -, -, -, hbuilt, hformula⟩ := tally_canonical
  refine ⟨hperm _ _ (by decide), ?_⟩
  have hrun : ((evaluateText "1d8ga & 1d8gd" 100).on (Faces.ofList [4, 8])).1.toOption.bind
      (fun x => some (talliesOf x.1 x.2)) = some [⟨2, 0, 0, 0, 0, 0⟩, ⟨0, 0, 0, 1, 1, 0⟩, ⟨2, 0, 0, 0, 0, 0⟩,
        ⟨0, 0, 0, 1, 1, 0⟩, ⟨1, 0, 0, 0, 1, 0⟩, ⟨1, 0, 0, 0, 1, 0⟩] := by
    decide
  obtain ⟨⟨log, o⟩, s', h, htallies⟩ := exists_ok_of_toOption hrun
  exact ⟨log, o, s', h, Option.some.inj htallies, fun t ht => (hbuilt t (hformula _ _ _ _ _ _ h t ht)).2.2⟩

end Genesys

end Tabletop
