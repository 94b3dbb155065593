import Tabletop.Proofs.Remaking

/-!
# Dice stay valid whatever is done with them

A die that was made or rolled is taken through moves: rolled again, turned, exploded, copied, made
compound, given one part more. Every die with sides that comes of this is valid, since every move keeps
it so (`Die.Fair.move`). A compound die without sides is refused no part: it has those that it was offered
since it was last rolled, turned or exploded (`Die.offered`), and so it shows their sum, which need not be
the 0 that a blank stands for (`Die.blank_shows_part`).
-/

namespace Tabletop

open Rolling

namespace Die

/-- Where a die comes from: it was made with a face or with parts, or it was rolled. -/
inductive Origin where
  | face (sides shown : Int)
  | compound (sides : Int) (parts : List Int)
  | roll (sides : Int)

def Origin.die : Origin → Rolling Die
  | face sides shown => ofFace sides shown
  | compound sides parts => ofParts sides parts
  | roll sides => rollAny sides

/-- What is done with a die. An explosion goes on with the fresh die: the other one stays as it is. -/
inductive Move where
  | reroll
  | turn (value : Int)
  | explode
  | copy
  | compound
  | withPart (part : Int)

def Move.die (d : Die) : Move → Rolling Die
  | reroll => do pure (← d.rerolled).1
  | turn value => pure (d.turn value)
  | explode => d.explode
  | copy => d.remade
  | compound => d.compounded
  | withPart part => d.withPart part

/-- The die after all moves, made in turn. -/
def Origin.after (o : Origin) (moves : List Move) : Rolling Die := do moves.foldlM Move.die (← o.die)

/-! ### What a blank is offered -/

def Origin.offered : Origin → List Int
  | compound _ parts => parts
  | face .. | roll _ => [0]

/-- Rolled, turned or exploded, a blank begins again with a 0. -/
def Move.offered (before : List Int) : Move → List Int
  | reroll | turn _ | explode => [0]
  | copy | compound => before
  | withPart part => before ++ [part]

/-- The parts that a die without sides was offered since it was last rolled, turned or exploded. -/
def offered (o : Origin) (moves : List Move) : List Int := moves.foldl Move.offered o.offered

/-! ### Fair dice -/

/-- The die is valid, or it has no sides and the parts that it was offered. -/
inductive Fair : List Int → Die → Prop
  | valid {parts : List Int} {d : Die} : d.Valid → 1 ≤ d.sides → Fair parts d
  | blank : Fair [0] (plain 0 0)
  | compoundBlank {parts : List Int} : parts ≠ [] → Fair parts (compound 0 parts)

variable {d e : Die} {parts : List Int} {sides : Nat} {s s' : Faces}

theorem fair_plain_clamp (h : sides ≠ 0) (face : Int) (parts : List Int) :
    Fair parts (plain sides (clamp sides face)) := by
  have hsides : 1 ≤ sides := Nat.one_le_iff_ne_zero.2 h
  exact .valid (.inr ⟨one_le_clamp hsides face, clamp_le face⟩) hsides

theorem fair_compound_clamp (sides : Nat) (face : Int) : Fair [0] (compound sides [clamp sides face]) := by
  by_cases h : sides = 0
  · subst h
    have hzero : clamp 0 face = 0 := by
      unfold clamp
      omega
    rw [hzero]
    exact .compoundBlank (List.cons_ne_nil _ _)
  · have hsides : 1 ≤ sides := Nat.one_le_iff_ne_zero.2 h
    have hpart : ∀ part ∈ [clamp sides face], 1 ≤ part ∧ part ≤ sides :=
      List.forall_mem_singleton.2 ⟨one_le_clamp hsides face, clamp_le face⟩
    exact .valid ⟨List.cons_ne_nil _ _, hpart⟩ hsides

/-- The parts that were offered do not matter to a die with sides. -/
theorem Fair.congr {parts' : List Int} (h : Fair parts d) (heq : d.sides = 0 → parts = parts') :
    Fair parts' d := by
  cases h with
  | valid hvalid hsides => exact .valid hvalid hsides
  | blank =>
    obtain rfl := heq rfl
    exact .blank
  | compoundBlank hparts =>
    obtain rfl := heq rfl
    exact .compoundBlank hparts

theorem Fair.parts_eq (h : Fair parts d) (hd : d.sides = 0) : d.parts = parts := by
  cases h with
  | valid _ hsides => omega
  | blank | compoundBlank => rfl

theorem Fair.valid_of_sides (h : Fair parts d) (hd : 1 ≤ d.sides) : d.Valid := by
  cases h with
  | valid hvalid _ => exact hvalid
  | blank | compoundBlank => exact absurd hd (Nat.not_succ_le_zero 0)

theorem Fair.shown_eq_zero {shown : Int} (h : Fair parts (plain 0 shown)) : shown = 0 := by
  cases h with
  | valid _ hsides => exact absurd hsides (Nat.not_succ_le_zero 0)
  | blank => rfl

theorem Fair.remade (h : Fair parts d) : d.remade = .ok d := by
  cases h with
  | valid hvalid _ => exact hvalid.remade
  | blank => rfl
  | compoundBlank hparts =>
    rw [Die.remade, ofParts, if_neg (by simpa using hparts)]
    rfl

/-! ### Making and rolling -/

theorem fair_of_ofFace {sides shown : Int} (h : ofFace sides shown = .ok d) : Fair [0] d := by
  rw [ofFace] at h
  split at h
  · cases h
    exact .blank
  · split at h
    · cases h
    · cases h
      exact .valid (.inr (by omega)) (by simp only [Die.sides]; omega)

/-- A compound die is made only of parts that it can show. Without sides it is refused none. -/
theorem eq_compound_of_ofParts {sides : Int} (h : ofParts sides parts = .ok d) :
    parts ≠ [] ∧ (sides = 0 ∨ ∀ part ∈ parts, 1 ≤ part ∧ part ≤ sides) ∧ d = compound sides.toNat parts := by
  rw [ofParts] at h
  split at h
  · cases h
  · rename_i hparts
    split at h
    · cases h
    · rename_i hbad
      cases h
      refine ⟨by simpa using hparts, or_iff_not_imp_left.2 fun hsides part hpart => ?_, rfl⟩
      rw [badPart?, if_neg hsides, List.find?_eq_none] at hbad
      have hshown := hbad part hpart
      simp only [decide_eq_true_eq] at hshown
      omega

theorem fair_of_ofParts {sides : Int} (h : ofParts sides parts = .ok d) : Fair parts d ∧ d.sides = sides.toNat := by
  obtain ⟨hparts, rfl | hall, rfl⟩ := eq_compound_of_ofParts h
  · exact ⟨.compoundBlank hparts, rfl⟩
  · have hvalid : (compound sides.toNat parts).Valid := by
      refine ⟨hparts, fun part hpart => ?_⟩
      have := hall part hpart
      omega
    exact ⟨.valid hvalid hvalid.one_le, rfl⟩

theorem fair_of_roll (sides : Nat) : (roll sides).Yields (Fair [0]) := by
  rw [roll]
  split
  · exact .pure .blank
  · exact (Yields.any _).bind fun face _ => .pure (fair_plain_clamp ‹_› face _)

theorem fair_of_origin (o : Origin) : o.die.Yields (Fair o.offered) := by
  cases o with
  | face sides shown => exact .liftM fun _ h => fair_of_ofFace h
  | compound sides parts => exact .liftM fun _ h => (fair_of_ofParts h).1
  | roll sides =>
    cases sides with
    | ofNat sides => exact fair_of_roll sides
    | negSucc n => exact (Yields.any _).bind fun _ _ => .throw _

/-! ### Moving -/

/-- The die after it was rolled again, and by how much its result changed. -/
theorem Fair.rerolled (h : Fair parts d) {change : Int} (hroll : d.rerolled.on s = (.ok (e, change), s')) :
    d.reroll.on s = (.ok e, s') ∧ change = e.result - d.result ∧ Fair [0] e := by
  cases d with
  | plain sides shown =>
    by_cases hsides : sides = 0
    · subst hsides
      obtain rfl := h.shown_eq_zero
      change (pure (plain 0 0, (0 : Int)) : Rolling (Die × Int)).on s = _ at hroll
      obtain ⟨hanswer, rfl⟩ := on_pure_ok hroll
      cases hanswer
      exact ⟨rfl, rfl, .blank⟩
    · rw [Die.rerolled, if_neg hsides] at hroll
      obtain ⟨face, s₁, hdraw, hroll⟩ := on_bind_ok hroll
      obtain ⟨hanswer, rfl⟩ := on_pure_ok hroll
      cases hanswer
      rw [reroll, roll, if_neg hsides, on_bind_ok_iff]
      exact ⟨⟨face, s₁, hdraw, rfl⟩, rfl, fair_plain_clamp hsides face _⟩
  | compound sides parts =>
    obtain ⟨face, s₁, hdraw, hroll⟩ := on_bind_ok hroll
    obtain ⟨hanswer, rfl⟩ := on_pure_ok hroll
    cases hanswer
    refine ⟨on_bind_ok_iff.2 ⟨face, s₁, hdraw, rfl⟩, ?_, fair_compound_clamp sides face⟩
    rw [result, result, Tabletop.sum_cons, Tabletop.sum_nil, Int.add_zero]

/-- Rolling a die again does not fail while a face is left. -/
theorem exists_rerolled (d : Die) {t : Faces} (ht : t.coming ≠ []) : ∃ r t', d.rerolled.on t = (.ok r, t') := by
  obtain ⟨coming, used⟩ := t
  obtain ⟨face, rest, rfl⟩ := List.exists_cons_of_ne_nil ht
  cases d with
  | plain sides shown =>
    rw [Die.rerolled]
    split <;> exact ⟨_, _, rfl⟩
  | compound sides parts => exact ⟨_, _, rfl⟩

theorem Fair.turn (h : Fair parts d) (value : Int) : Fair [0] (d.turn value) := by
  cases d with
  | plain sides shown =>
    rw [Die.turn]
    split
    · subst sides
      obtain rfl := h.shown_eq_zero
      exact .blank
    · exact fair_plain_clamp ‹_› value _
  | compound sides parts => exact fair_compound_clamp sides value

theorem Fair.move (h : Fair parts d) (m : Move) : (m.die d).Yields (Fair (m.offered parts)) := by
  cases m with
  | reroll =>
    intro s e s' hrun
    obtain ⟨⟨e', change⟩, s₁, hroll, hrun⟩ := on_bind_ok hrun
    obtain ⟨rfl, rfl⟩ := on_pure_ok hrun
    exact (h.rerolled hroll).2.2
  | turn value => exact .pure (h.turn value)
  | explode => exact fair_of_roll d.sides
  | copy =>
    refine .liftM fun e he => ?_
    obtain rfl := Except.ok.inj (h.remade.symm.trans he)
    exact h
  | compound =>
    refine .liftM fun e he => ?_
    obtain ⟨he, hsides⟩ := fair_of_ofParts he
    exact he.congr fun hzero => h.parts_eq (by omega)
  | withPart part =>
    refine .liftM fun e he => ?_
    obtain ⟨he, hsides⟩ := fair_of_ofParts he
    refine he.congr fun hzero => ?_
    rw [h.parts_eq (by omega)]
    rfl

theorem fair_of_moves (moves : List Move) (h : Fair parts d) :
    (moves.foldlM Move.die d).Yields (Fair (moves.foldl Move.offered parts)) := by
  induction moves generalizing d parts with
  | nil => exact .pure h
  | cons m moves ih =>
    rw [List.foldlM_cons]
    exact (h.move m).bind fun e he => ih he

/-- Every die that comes of an origin and moves is fair. -/
theorem fair_after (o : Origin) (moves : List Move) : (o.after moves).Yields (Fair (offered o moves)) :=
  (fair_of_origin o).bind fun _ h => fair_of_moves moves h

theorem Valid.face_mem (h : d.Valid) (hd : 1 ≤ d.sides) : 1 ≤ d.face ∧ d.face ≤ d.sides := by
  refine h.parts hd _ ?_
  cases d with
  | plain sides shown => exact List.mem_singleton_self shown
  | compound sides parts =>
    rw [face, List.getLastD_eq_getLast?, List.getLast?_eq_some_getLast h.1]
    exact List.getLast_mem h.1

/-- Whatever is done with a die, one with sides is valid, so that its last face is one of its own, and its
result is the sum of its parts. One without sides has the parts that it was offered since it was last
rolled, turned or exploded, and shows their sum; a plain one shows 0. Rolling a die again, which it always
can be while a face is left, gives the change in its result, and a copy is the same die. -/
theorem shows_after_moves {d : Die} {o : Origin} {moves : List Move} {s s' : Faces}
    (h : (o.after moves).on s = (.ok d, s')) :
    (1 ≤ d.sides → d.Valid ∧ 1 ≤ d.face ∧ d.face ≤ d.sides ∧ d.result = Tabletop.sum d.parts) ∧
    (d.sides = 0 → d.parts = offered o moves ∧ d.result = Tabletop.sum (offered o moves)) ∧
    (∀ shown, d = plain 0 shown → shown = 0) ∧
    (∀ t e change t', d.rerolled.on t = (.ok (e, change), t') →
      d.reroll.on t = (.ok e, t') ∧ change = e.result - d.result) ∧
    (∀ t, t.coming ≠ [] → ∃ r t', d.rerolled.on t = (.ok r, t')) ∧
    d.remade = .ok d := by
  have hfair : Fair (offered o moves) d := fair_after o moves h
  refine ⟨fun hd => ?_, fun hd => ?_, fun shown heq => ?_, fun t e change t' hroll => ?_,
    fun t ht => d.exists_rerolled ht, hfair.remade⟩
  · have hvalid := hfair.valid_of_sides hd
    exact ⟨hvalid, (hvalid.face_mem hd).1, (hvalid.face_mem hd).2, result_eq_sum d⟩
  · have hparts := hfair.parts_eq hd
    exact ⟨hparts, by rw [result_eq_sum, hparts]⟩
  · subst heq
    exact hfair.shown_eq_zero
  · exact ⟨(hfair.rerolled hroll).1, (hfair.rerolled hroll).2.1⟩

/-- A six is rolled, counted as compound and given a five; then the die shows a three, is turned to its largest
face and given a two. -/
theorem shows_after_moves_rolled :
    ((Origin.roll 6).after [.compound, .withPart 5, .reroll, .copy, .turn 9, .withPart 2]).on (.ofList [6, 3]) =
        (.ok (compound 6 [6, 2]), ⟨[], 2⟩) ∧
      ((compound 6 [6, 2]).Valid ∧ 1 ≤ (compound 6 [6, 2]).face ∧ (compound 6 [6, 2]).face ≤ (compound 6 [6, 2]).sides ∧
        (compound 6 [6, 2]).result = Tabletop.sum [6, 2]) ∧
      (compound 6 [6, 2]).remade = .ok (compound 6 [6, 2]) := by
  have hrun : ((Origin.roll 6).after [.compound, .withPart 5, .reroll, .copy, .turn 9, .withPart 2]).on
    (.ofList [6, 3]) = (.ok (compound 6 [6, 2]), ⟨[], 2⟩) := rfl
  obtain ⟨hsides, -, -, -, -, hcopy⟩ := shows_after_moves hrun
  exact ⟨hrun, hsides (by decide), hcopy⟩

/-- A die without sides shows a part that it was made with, or that it was given later. -/
theorem blank_shows_part :
    (((Origin.compound 0 [5]).after []).on (.ofList []) = (.ok (compound 0 [5]), .ofList []) ∧
      (compound 0 [5]).result = 5) ∧
    ((Origin.face 0 5).after [.compound, .withPart 5]).on (.ofList []) = (.ok (compound 0 [0, 5]), .ofList []) ∧
      (compound 0 [0, 5]).result = 5 := by
  exact ⟨⟨rfl, rfl⟩, rfl, rfl⟩

end Die

end Tabletop
