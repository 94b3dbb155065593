import Tabletop.Proofs.Nesting
import Tabletop.Proofs.ReadBack
import Tabletop.Proofs.Refusals

/-!
# Postfix order is for nested brackets

`Nested` says by rules which brackets are properly nested. They are those that `Token.nest` closes one by
one (`foldlM_nest_eq_iff`): while it reads, the open brackets are closed by those that still come
(`ClosedBy`). The shunting yard keeps just the open brackets among the tokens that wait, and so it refuses
only what `Token.nest` refuses (`Postfix.order_ok_iff`). Operands never wait, so that they keep their order
(`Postfix.operands_of_order`).
-/

namespace Tabletop

/-! ### Brackets by rules -/

/-- Properly nested brackets, each of them closed by its own closer. -/
inductive Nested : List Token → Prop
  | nil : Nested []
  | group (b : Bracket) {inside rest : List Token} :
      Nested inside → Nested rest → Nested (.opening b :: (inside ++ .closing b :: rest))

/-- The open brackets are closed in turn, the latest first; what stands between is nested. -/
inductive ClosedBy : List Bracket → List Token → Prop
  | done {ts : List Token} : Nested ts → ClosedBy [] ts
  | next (b : Bracket) {bs : List Bracket} {inside rest : List Token} :
      Nested inside → ClosedBy bs rest → ClosedBy (b :: bs) (inside ++ .closing b :: rest)

variable {ts : List Token} {open_ : List Bracket}

theorem Nested.foldlM_nest (h : Nested ts) (open_ : List Bracket) (rest : List Token) :
    (ts ++ rest).foldlM Token.nest open_ = rest.foldlM Token.nest open_ := by
  induction h generalizing open_ rest with
  | nil => rfl
  | group b _ _ ihInside ihRest =>
    rw [List.cons_append, List.append_assoc, List.foldlM_cons]
    show (_ ++ _ : List Token).foldlM Token.nest (b :: open_) = _
    rw [ihInside, List.cons_append, List.foldlM_cons, Token.nest, if_pos rfl]
    exact ihRest open_ rest

/-- A bracket that is opened first is closed first, and with what it encloses stands before the next
closer. -/
theorem ClosedBy.opening {b : Bracket} (h : ClosedBy (b :: open_) ts) : ClosedBy open_ (.opening b :: ts) := by
  obtain _ | @⟨_, _, inside, rest, hinside, hrest⟩ := h
  cases hrest with
  | done hrest => exact .done (.group b hinside hrest)
  | @next c _ between rest hbetween hrest =>
    have hgroup : .opening b :: (inside ++ .closing b :: (between ++ .closing c :: rest)) =
        (.opening b :: (inside ++ .closing b :: between)) ++ .closing c :: rest := by simp
    rw [hgroup]
    exact .next c (.group b hinside hbetween) hrest

theorem Token.nest_of_not_isBracket {t : Token} (ht : t.isBracket = false) (hblank : t ≠ .blank) :
    t.nest open_ = some open_ := by
  cases t <;> simp_all [Token.nest, Token.isBracket]

theorem closedBy_of_foldlM_nest (h : ts.foldlM Token.nest open_ = some []) :
    .blank ∉ ts ∧ ClosedBy open_ (ts.filter Token.isBracket) := by
  induction ts generalizing open_ with
  | nil =>
    obtain rfl : open_ = [] := Option.some.inj h
    exact ⟨List.not_mem_nil, .done .nil⟩
  | cons t ts ih =>
    rw [List.foldlM_cons] at h
    obtain ⟨bs, ht, hts⟩ := Option.bind_eq_some_iff.1 h
    obtain ⟨hblank, hclosed⟩ := ih hts
    have hne : t ≠ .blank := by
      rintro rfl
      cases ht
    refine ⟨by simp [hblank, hne.symm], ?_⟩
    cases t with
    | opening b =>
      cases ht
      exact hclosed.opening
    | closing c =>
      cases open_ with
      | nil => cases ht
      | cons b open_ =>
        simp only [Token.nest, Option.ite_none_right_eq_some, Option.some.injEq] at ht
        obtain ⟨rfl, rfl⟩ := ht
        exact .next b .nil hclosed
    | blank => exact absurd rfl hne
    | _ =>
      cases ht
      exact hclosed

/-- Other tokens open and close nothing. -/
theorem foldlM_nest_filter (hblank : .blank ∉ ts) :
    (ts.filter Token.isBracket).foldlM Token.nest open_ = ts.foldlM Token.nest open_ := by
  induction ts generalizing open_ with
  | nil => rfl
  | cons t ts ih =>
    simp only [List.mem_cons, not_or] at hblank
    by_cases ht : t.isBracket = true
    · rw [List.filter_cons_of_pos ht, List.foldlM_cons, List.foldlM_cons]
      exact bind_congr fun bs => ih hblank.2
    · rw [List.filter_cons_of_neg ht, ih hblank.2, List.foldlM_cons,
        Token.nest_of_not_isBracket (by simpa using ht) (Ne.symm hblank.1)]
      rfl

/-- Closed one by one, the brackets are nested. -/
theorem foldlM_nest_eq_iff :
    ts.foldlM Token.nest [] = some [] ↔ .blank ∉ ts ∧ Nested (ts.filter Token.isBracket) := by
  constructor
  · intro h
    obtain ⟨hblank, hclosed⟩ := closedBy_of_foldlM_nest h
    cases hclosed with
    | done hnested => exact ⟨hblank, hnested⟩
  · rintro ⟨hblank, hnested⟩
    have h := hnested.foldlM_nest [] []
    rw [List.append_nil, foldlM_nest_filter hblank] at h
    exact h

/-! ### The shunting yard -/

theorem exists_opening_of_openedIn {b : Bracket} {w : List Token} (h : openedIn w = b :: open_) :
    ∃ inside below, w = inside ++ .opening b :: below ∧ ∀ t ∈ inside, t.isOpening = false := by
  obtain ⟨inside, t, below, rfl, hinside, ht, -⟩ := List.filterMap_eq_cons_iff.1 h
  obtain rfl : t = .opening b := by
    cases t <;> first | cases ht; rfl | cases ht
  exact ⟨inside, below, rfl, openedIn_eq_nil_iff.1 (List.filterMap_eq_nil_iff.2 hinside)⟩

namespace Postfix
open scoped List

variable {t : Token} {w w' out : List Token}

/-- A token is refused only if its bracket cannot be closed. -/
theorem step_of_nest (h : t.nest (openedIn w) = some open_) : ∃ out w', step t w = .ok (out, w') := by
  cases t with
  | closing c =>
    cases hopened : openedIn w with
    | nil =>
      rw [hopened] at h
      cases h
    | cons b bs =>
      rw [hopened] at h
      simp only [Token.nest, Option.ite_none_right_eq_some] at h
      obtain ⟨rfl, -⟩ := h
      obtain ⟨inside, below, rfl, hinside⟩ := exists_opening_of_openedIn hopened
      exact ⟨_, _, close_append b hinside below⟩
  | blank => cases h
  | _ => exact ⟨_, _, rfl⟩

theorem order_ok_iff : (∃ out, order ts w = .ok out) ↔ ts.foldlM Token.nest (openedIn w) = some [] := by
  constructor
  · rintro ⟨out, h⟩
    exact (order_ok h).1
  · intro h
    induction ts generalizing w with
    | nil => exact ⟨w, drain_of_not_isOpening (openedIn_eq_nil_iff.1 (Option.some.inj h))⟩
    | cons t ts ih =>
      rw [List.foldlM_cons] at h
      obtain ⟨bs, ht, hts⟩ := Option.bind_eq_some_iff.1 h
      obtain ⟨now, w', hstep⟩ := step_of_nest ht
      obtain rfl := Option.some.inj (ht.symm.trans (nest_of_step hstep))
      obtain ⟨later, hlater⟩ := ih hts
      refine ⟨now ++ later, ?_⟩
      rw [order, hstep]
      show (do pure (now ++ (← order ts w'))) = _
      rw [hlater]
      rfl

theorem operands_of_step (hw : ∀ o ∈ w, o.isOperand = false) (h : step t w = .ok (out, w')) :
    out.filter Token.isOperand = [t].filter Token.isOperand ∧ ∀ o ∈ w', o.isOperand = false := by
  have hnone {ts : List Token} (hts : ∀ o ∈ ts, o.isOperand = false) : ts.filter Token.isOperand = [] :=
    List.filter_eq_nil_iff.2 fun o ho => by simp [hts o ho]
  rcases step_ok h with ⟨-, rfl, rfl⟩ | ⟨rest, ht, -, -, rfl, -, rfl⟩ |
    ⟨b, inside, below, rfl, rfl, -, rfl, rfl⟩
  · exact ⟨rfl, hw⟩
  · obtain ⟨hout, hrest⟩ := List.forall_mem_append.1 hw
    refine ⟨?_, List.forall_mem_cons.2 ⟨ht, hrest⟩⟩
    rw [hnone hout, hnone (by simpa using ht)]
  · obtain ⟨hinside, hbelow⟩ := List.forall_mem_append.1 hw
    replace hbelow := (List.forall_mem_cons.1 hbelow).2
    rw [← afterClosing_append below] at hbelow
    obtain ⟨hgone, hleft⟩ := List.forall_mem_append.1 hbelow
    exact ⟨hnone (List.forall_mem_append.2 ⟨hinside, hgone⟩), hleft⟩

/-- Operands go out in the order in which they come, and none of them waits. -/
theorem operands_of_feed (hw : ∀ o ∈ w, o.isOperand = false) (h : feed ts w = .ok (out, w')) :
    out.filter Token.isOperand = ts.filter Token.isOperand ∧ ∀ o ∈ w', o.isOperand = false := by
  induction ts generalizing w out with
  | nil =>
    obtain ⟨rfl, rfl⟩ := Prod.mk.inj (Except.ok.inj h)
    exact ⟨rfl, hw⟩
  | cons t ts ih =>
    obtain ⟨⟨now, w₁⟩, hstep, h⟩ := ok_of_bind h
    obtain ⟨⟨later, w₂⟩, hlater, h⟩ := ok_of_bind h
    obtain ⟨rfl, rfl⟩ := Prod.mk.inj (Except.ok.inj h)
    obtain ⟨hnow, hw₁⟩ := operands_of_step hw hstep
    obtain ⟨hmore, hw₂⟩ := ih hw₁ hlater
    refine ⟨?_, hw₂⟩
    rw [List.filter_append, hnow, hmore, ← List.filter_append, List.singleton_append]

theorem operands_of_order (hw : ∀ o ∈ w, o.isOperand = false) (h : order ts w = .ok out) :
    out.filter Token.isOperand = ts.filter Token.isOperand := by
  obtain ⟨now, left, rest, hfeed, hdrain, rfl⟩ := drain_of_order h
  obtain ⟨hnow, hleft⟩ := operands_of_feed hw hfeed
  obtain ⟨rfl, -⟩ := drain_ok hdrain
  have hnone : rest.filter Token.isOperand = [] := List.filter_eq_nil_iff.2 fun o ho => by simp [hleft o ho]
  rw [List.filter_append, hnow, hnone, List.append_nil]

end Postfix

open scoped List in
/-- Tokens can be put in postfix order if and only if each of them is of some kind and their brackets are
properly nested; what is wrong otherwise is the brackets. Postfix order has all tokens but the brackets,
each as often as it came, and the operands among them come in their old order. -/
theorem toPostfix_ok_iff_nested (ts : List Token) :
    ((∃ out, toPostfix ts = .ok out) ↔ .blank ∉ ts ∧ Nested (ts.filter Token.isBracket)) ∧
      (∀ e, toPostfix ts = .error e → e.isOfBrackets = true) ∧
      ∀ out, toPostfix ts = .ok out →
        out ~ withoutBrackets ts ∧ out.filter Token.isOperand = ts.filter Token.isOperand := by
  refine ⟨Postfix.order_ok_iff.trans foldlM_nest_eq_iff, refuses_toPostfix ts, fun out h => ⟨?_, ?_⟩⟩
  · have hperm := (Postfix.order_ok h).2
    rwa [withoutBrackets_of_toPostfix h, List.append_nil] at hperm
  · exact Postfix.operands_of_order (List.forall_mem_nil _) h

end Tabletop
