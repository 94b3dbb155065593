import Mathlib.Data.List.TakeWhile
import Tabletop.Postfix
import Tabletop.Proofs.Basic

/-!
# Brackets nest, and other tokens are kept

`Postfix.step_ok` says all that the shunting yard does with a token. From it follow what becomes of
the brackets, which are closed in turn (`Token.nest`), and of all other tokens, of which none is
lost and none is added (`Postfix.order_ok`).
-/

namespace Tabletop

namespace Token

def isBracket : Token → Bool
  | opening _ | closing _ => true
  | _ => false

/-- The token has a meaning for the stack machine. -/
def isForMachine : Token → Bool
  | opening _ | closing _ | blank => false
  | _ => true

/-- The open brackets after one more token, the latest first. A bracket is closed by its own closer,
and a token of no kind belongs nowhere. -/
def nest (open_ : List Bracket) : Token → Option (List Bracket)
  | opening b => some (b :: open_)
  | closing c =>
    match open_ with
    | b :: bs => if b = c then some bs else none
    | [] => none
  | blank => none
  | _ => some open_

end Token

def withoutBrackets (ts : List Token) : List Token := ts.filter fun t => !t.isBracket

theorem withoutBrackets_append (ts us : List Token) :
    withoutBrackets (ts ++ us) = withoutBrackets ts ++ withoutBrackets us := List.filter_append ..

/-- The brackets among waiting tokens. -/
def openedIn (waiting : List Token) : List Bracket :=
  waiting.filterMap fun
    | .opening b => some b
    | _ => none

theorem openedIn_eq_nil_iff {w : List Token} : openedIn w = [] ↔ ∀ t ∈ w, t.isOpening = false := by
  rw [openedIn, List.filterMap_eq_nil_iff]
  refine forall₂_congr fun t _ => ?_
  cases t <;> simp [Token.isOpening]

theorem openedIn_append_of_not {out : List Token} (h : ∀ t ∈ out, t.isOpening = false)
    (w : List Token) : openedIn (out ++ w) = openedIn w := by
  have hout : openedIn out = [] := openedIn_eq_nil_iff.2 h
  rw [openedIn, List.filterMap_append]
  change openedIn out ++ openedIn w = _
  rw [hout, List.nil_append]

namespace Postfix
open scoped List

variable {t : Token} {ts w w' out : List Token}

theorem afterClosing_append (w : List Token) : (afterClosing w).1 ++ (afterClosing w).2 = w := by
  unfold afterClosing
  split <;> rfl

theorem afterClosing_not_isOpening (w : List Token) : ∀ t ∈ (afterClosing w).1, t.isOpening = false := by
  unfold afterClosing
  split <;> simp [Token.isOpening]

/-- All that can become of a token: an operand goes out; an operator or an opening bracket waits,
after some of those that wait go out; and a closing bracket lets go what waits inside it, and a
function in front of it. -/
theorem step_ok (h : step t w = .ok (out, w')) :
    (t.isOperand = true ∧ out = [t] ∧ w' = w) ∨
      (∃ rest, t.isOperand = false ∧ t ≠ .blank ∧ (∀ b, t ≠ .closing b) ∧ w = out ++ rest ∧
        (∀ o ∈ out, o.isOpening = false) ∧ w' = t :: rest) ∨
      ∃ b inside below, t = .closing b ∧ w = inside ++ .opening b :: below ∧
        (∀ o ∈ inside, o.isOpening = false) ∧ out = inside ++ (afterClosing below).1 ∧
        w' = (afterClosing below).2 := by
  have hgo (p : Token → Bool) (hp : ∀ o, p o = true → o.isOpening = false) :
      w = w.takeWhile p ++ w.drop (w.takeWhile p).length ∧
        ∀ o ∈ w.takeWhile p, o.isOpening = false :=
    ⟨(List.prefix_iff_eq_append.1 (List.takeWhile_prefix p)).symm,
      fun o ho => hp o (List.mem_takeWhile_imp ho)⟩
  have hchaining := hgo Token.isChaining fun o ho => by cases o <;> first | rfl | cases ho
  have hbefore (op : Operator) := hgo (Token.goesBefore op) fun o ho => by
    cases o <;> first | rfl | cases ho
  have hinside := hgo (fun o => !o.isOpening) fun o ho => by simpa using ho
  cases t with
  | argument | number =>
    cases h
    exact .inl ⟨rfl, rfl, rfl⟩
  | function | negate | opening =>
    cases h
    exact .inr (.inl ⟨w, rfl, nofun, nofun, rfl, by simp, rfl⟩)
  | dice | pool | conversion | genesys =>
    cases h
    exact .inr (.inl ⟨_, rfl, nofun, nofun, hchaining.1, hchaining.2, rfl⟩)
  | binary op =>
    cases h
    exact .inr (.inl ⟨_, rfl, nofun, nofun, (hbefore op).1, (hbefore op).2, rfl⟩)
  | closing b =>
    unfold step close at h
    dsimp only at h
    split at h
    · rename_i o below hbelow
      split at h
      · obtain rfl := ‹o = b›
        cases h
        rw [hbelow] at hinside
        exact .inr (.inr ⟨o, _, below, rfl, hinside.1, hinside.2, rfl, rfl⟩)
      · cases h
    · cases h
  | blank => cases h

theorem nest_of_step (h : step t w = .ok (out, w')) : t.nest (openedIn w) = some (openedIn w') := by
  rcases step_ok h with ⟨ht, rfl, rfl⟩ | ⟨rest, -, hblank, hclosing, rfl, hout, rfl⟩ |
    ⟨b, inside, below, rfl, rfl, hinside, rfl, rfl⟩
  · cases t <;> first | rfl | cases ht
  · rw [openedIn_append_of_not hout]
    cases t <;> first | rfl | exact absurd rfl hblank | exact absurd rfl (hclosing _)
  · have hbelow := openedIn_append_of_not (afterClosing_not_isOpening below) (afterClosing below).2
    rw [afterClosing_append] at hbelow
    rw [openedIn_append_of_not hinside, ← hbelow]
    simp [openedIn, Token.nest]

theorem perm_of_step (h : step t w = .ok (out, w')) :
    withoutBrackets (out ++ w') ~ withoutBrackets (t :: w) := by
  rcases step_ok h with ⟨-, rfl, rfl⟩ | ⟨rest, -, -, -, rfl, -, rfl⟩ |
    ⟨b, inside, below, rfl, rfl, -, rfl, rfl⟩
  · exact .refl _
  · exact List.perm_middle.filter _
  · rw [List.append_assoc, afterClosing_append]
    simp [withoutBrackets, Token.isBracket]

theorem drain_ok (h : drain w = .ok out) : out = w ∧ openedIn w = [] := by
  induction w generalizing out with
  | nil =>
    cases h
    exact ⟨rfl, rfl⟩
  | cons t w ih =>
    have hcons : ∀ {r}, (do pure (t :: (← drain w))) = Except.ok r → r = t :: w ∧ openedIn w = [] := by
      intro r hr
      obtain ⟨more, hmore, hr⟩ := ok_of_bind hr
      cases hr
      obtain ⟨rfl, hopen⟩ := ih hmore
      exact ⟨rfl, hopen⟩
    cases t with
    | opening b => cases h
    | _ => exact hcons h

/-- When all tokens are in postfix order, every bracket was closed in turn, and apart from brackets
the tokens are those that came and those that waited. -/
theorem order_ok (h : order ts w = .ok out) :
    ts.foldlM Token.nest (openedIn w) = some [] ∧
      withoutBrackets out ~ withoutBrackets (ts ++ w) := by
  induction ts generalizing w out with
  | nil =>
    obtain ⟨rfl, hopen⟩ := drain_ok h
    rw [hopen]
    exact ⟨rfl, .refl _⟩
  | cons t ts ih =>
    obtain ⟨⟨now, w'⟩, hstep, h⟩ := ok_of_bind h
    obtain ⟨later, hlater, h⟩ := ok_of_bind h
    cases h
    obtain ⟨hnest, hperm⟩ := ih hlater
    refine ⟨?_, ?_⟩
    · rw [List.foldlM_cons, nest_of_step hstep]
      exact hnest
    · have hmove : now ++ (ts ++ w') ~ ts ++ (now ++ w') := by
        rw [← List.append_assoc, ← List.append_assoc]
        exact List.perm_append_comm.append_right w'
      calc
        withoutBrackets (now ++ later) = withoutBrackets now ++ withoutBrackets later :=
          withoutBrackets_append ..
        _ ~ withoutBrackets now ++ withoutBrackets (ts ++ w') := hperm.append_left _
        _ = withoutBrackets (now ++ (ts ++ w')) := (withoutBrackets_append ..).symm
        _ ~ withoutBrackets (ts ++ (now ++ w')) := hmove.filter _
        _ = withoutBrackets ts ++ withoutBrackets (now ++ w') := withoutBrackets_append ..
        _ ~ withoutBrackets ts ++ withoutBrackets (t :: w) := (perm_of_step hstep).append_left _
        _ = withoutBrackets (ts ++ t :: w) := (withoutBrackets_append ..).symm
        _ ~ withoutBrackets (t :: ts ++ w) := List.perm_middle.filter _

/-- Of the tokens that wait, only opening brackets mean nothing to the machine. -/
def Orderly (w : List Token) : Prop := ∀ t ∈ w, t.isOpening = false → t.isForMachine = true

theorem Orderly.step (hw : Orderly w) (h : step t w = .ok (out, w')) :
    (∀ o ∈ out, o.isForMachine = true) ∧ Orderly w' := by
  rcases step_ok h with ⟨ht, rfl, rfl⟩ | ⟨rest, -, hblank, hclosing, rfl, hout, rfl⟩ |
    ⟨b, inside, below, rfl, rfl, hinside, rfl, rfl⟩
  · refine ⟨List.forall_mem_singleton.2 ?_, hw⟩
    cases t <;> first | rfl | cases ht
  · refine ⟨fun o ho => hw o (List.mem_append_left _ ho) (hout o ho), ?_⟩
    refine List.forall_mem_cons.2 ⟨fun ht => ?_, fun o ho => hw o (List.mem_append_right _ ho)⟩
    cases t <;> first | rfl | exact absurd rfl hblank | exact absurd rfl (hclosing _) | cases ht
  · have hbelow : Orderly below := fun o ho => hw o (List.mem_append_right _ (List.mem_cons_of_mem _ ho))
    rw [← afterClosing_append below] at hbelow
    refine ⟨List.forall_mem_append.2 ⟨fun o ho => hw o (List.mem_append_left _ ho) (hinside o ho), fun o ho => ?_⟩,
      fun o ho => hbelow o (List.mem_append_right _ ho)⟩
    exact hbelow o (List.mem_append_left _ ho) (afterClosing_not_isOpening below o ho)

theorem Orderly.order (hw : Orderly w) (h : order ts w = .ok out) : ∀ o ∈ out, o.isForMachine = true := by
  induction ts generalizing w out with
  | nil =>
    obtain ⟨rfl, hopen⟩ := drain_ok h
    exact fun o ho => hw o ho (openedIn_eq_nil_iff.1 hopen o ho)
  | cons t ts ih =>
    obtain ⟨⟨now, w'⟩, hstep, h⟩ := ok_of_bind h
    obtain ⟨later, hlater, h⟩ := ok_of_bind h
    cases h
    obtain ⟨hnow, hw'⟩ := hw.step hstep
    exact List.forall_mem_append.2 ⟨hnow, ih hw' hlater⟩

end Postfix

/-- Postfix order has no brackets, so that the machine can run all of it. -/
theorem isForMachine_of_toPostfix {ts out : List Token} (h : toPostfix ts = .ok out) :
    ∀ t ∈ out, t.isForMachine = true :=
  Postfix.Orderly.order (List.forall_mem_nil _) h

theorem withoutBrackets_of_toPostfix {ts out : List Token} (h : toPostfix ts = .ok out) :
    withoutBrackets out = out := List.filter_eq_self.2 fun t ht => by
  have := isForMachine_of_toPostfix h t ht
  cases t <;> first | rfl | cases this

theorem length_le_of_toPostfix {ts out : List Token} (h : toPostfix ts = .ok out) : out.length ≤ ts.length := by
  have hperm := (Postfix.order_ok h).2
  rw [withoutBrackets_of_toPostfix h, List.append_nil] at hperm
  exact hperm.length_eq ▸ List.length_filter_le _ _

end Tabletop
