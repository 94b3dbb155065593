import Mathlib.Data.List.DropRight
import Tabletop.Tray
import Tabletop.Proofs.Basic

/-!
# A tray is the end of a log

The calls on a tray that roll also write their rolls, in order, at the end of a log. The tray shows
the last rolls of that log, as many as it has room for. A call that fails, or that only looks,
writes nothing.

The functions on trays answer with a new tray when they succeed, so that a failure leaves nothing
but the old one. `Call.inPlace` does the calls once more on a tray that is changed roll by roll, and
that keeps what was stored before a failure; `Call.inPlace_on` shows that the two agree.
-/

namespace Tabletop

variable {Owner α β : Type}

namespace Tray

/-! ### Storing -/

theorem push_rolls {t : Tray Owner} (ht : 1 ≤ t.capacity) (r : Roll Owner) :
    (t.push r).rolls = (t.rolls ++ [r]).rtake t.capacity := by
  obtain ⟨n, hn⟩ := Nat.exists_eq_add_of_le' ht
  rw [hn, List.rtake_concat_succ, push, List.rtake, hn, Nat.add_sub_add_right]

theorem rtake_concat {n : Nat} (hn : 1 ≤ n) (l : List α) (a : α) :
    (l.rtake n ++ [a]).rtake n = (l ++ [a]).rtake n := by
  obtain ⟨k, rfl⟩ := Nat.exists_eq_add_of_le' hn
  rw [List.rtake_concat_succ, List.rtake_concat_succ]
  simp only [List.rtake_eq_reverse_take_reverse, List.reverse_reverse, List.take_take]
  rw [Nat.min_eq_left (Nat.le_succ k)]

/-- A tray that shows the end of a log also shows the end of the log with more rolls. -/
theorem pushAll_rolls {t : Tray Owner} (ht : 1 ≤ t.capacity) {log : List (Roll Owner)}
    (hlog : t.rolls = log.rtake t.capacity) (rs : List (Roll Owner)) :
    (t.pushAll rs).rolls = (log ++ rs).rtake t.capacity := by
  induction rs generalizing t log with
  | nil => rwa [List.append_nil]
  | cons r rs ih =>
    have hr : (t.push r).rolls = (log ++ [r]).rtake t.capacity := by
      rw [push_rolls ht, hlog, rtake_concat ht]
    rw [List.append_cons]
    exact ih (t := t.push r) ht hr

theorem pushAll_append (t : Tray Owner) (rs rs' : List (Roll Owner)) :
    t.pushAll (rs ++ rs') = (t.pushAll rs).pushAll rs' := List.foldl_append

/-! ### Rolling and storing -/

theorem order_of_roll {o : Order Owner} {r : Roll Owner} {s s' : Faces}
    (h : o.roll.on s = (.ok r, s')) : r.order = o := by
  rw [Order.roll] at h
  split at h
  · exact (Rolling.on_throw_ok h).elim
  · obtain ⟨⟨operations, final⟩, s₁, -, h⟩ := Rolling.on_bind_ok h
    obtain ⟨result, s₂, -, h⟩ := Rolling.on_bind_ok h
    obtain ⟨rfl, -⟩ := Rolling.on_pure_ok h
    rfl

theorem latest_ok {t : Tray Owner} {r : Roll Owner} (h : t.latest = .ok r) :
    t.rolls.getLast? = some r := by
  rw [Tray.latest] at h
  split at h <;> cases h
  assumption

theorem rerollOrder_ok {t : Tray Owner} {o : Order Owner} (h : t.rerollOrder = .ok o) :
    ∃ old, t.rolls.getLast? = some old ∧ o = old.order := by
  obtain ⟨old, hold, ho⟩ := ok_of_bind h
  cases ho
  exact ⟨old, latest_ok hold, rfl⟩

theorem revisionOrder_ok [DecidableEq Owner] {t : Tray Owner} {change o : Order Owner}
    (h : t.revisionOrder change = .ok o) :
    ∃ old, t.rolls.getLast? = some old ∧ change.owner = old.owner ∧
      o = ⟨old.command ++ change.command,
        if change.comment.isEmpty then old.comment else change.comment, old.owner⟩ := by
  obtain ⟨old, hold, ho⟩ := ok_of_bind h
  split at ho
  · cases ho
    exact ⟨old, latest_ok hold, ‹_›, rfl⟩
  · cases ho

theorem add_ok {t t' : Tray Owner} {o : Order Owner} {r : Roll Owner} {s s' : Faces}
    (h : (t.add o).on s = (.ok (r, t'), s')) : o.roll.on s = (.ok r, s') ∧ t' = t.push r := by
  obtain ⟨r', s₁, hr, h⟩ := Rolling.on_bind_ok h
  obtain ⟨hp, rfl⟩ := Rolling.on_pure_ok h
  obtain ⟨rfl, rfl⟩ := Prod.mk.inj hp
  exact ⟨hr, rfl⟩

theorem addMany_ok {t t' : Tray Owner} {o : Order Owner} {times : Nat} {rs : List (Roll Owner)}
    {s s' : Faces} (h : (t.addMany o times).on s = (.ok (rs, t'), s')) : t' = t.pushAll rs := by
  obtain ⟨rs', s₁, -, h⟩ := Rolling.on_bind_ok h
  obtain ⟨rfl, rfl⟩ := Prod.mk.inj (Rolling.on_pure_ok h).1
  rfl

/-! ### Calls -/

/-- A tray, and the faces that its rolls are made with. -/
structure Table (Owner : Type) where
  tray : Tray Owner
  faces : Faces

inductive Call (Owner : Type) where
  | add (o : Order Owner)
  | addMany (o : Order Owner) (times : Int)
  | reroll
  | revise (o : Order Owner)
  | latest
  | rerollOrder
  | revisionOrder (o : Order Owner)
  | length

inductive Answer (Owner : Type) where
  | roll (r : Roll Owner)
  | rolls (rs : List (Roll Owner))
  | order (o : Order Owner)
  | length (n : Nat)

def Answer.toRolls : Answer Owner → List (Roll Owner)
  | roll r => [r]
  | rolls rs => rs
  | order _ => []
  | length _ => []

namespace Call

def writes : Call Owner → Bool
  | add _ | addMany _ _ | reroll | revise _ => true
  | latest | rerollOrder | revisionOrder _ | length => false

/-- The rolls that a call writes when it comes to this. -/
def written (c : Call Owner) : Except Error (Answer Owner) → List (Roll Owner)
  | .ok a => if c.writes then a.toRolls else []
  | .error _ => []

theorem written_of_not_ok {c : Call Owner} {x : Except Error (Answer Owner)}
    (h : ∀ a, x = .ok a → c.writes = false) : c.written x = [] := by
  cases x with
  | error e => rfl
  | ok a => rw [written, h a rfl, if_neg Bool.false_ne_true]

/-- The roll that a call adds to its tray, and the tray's answer. -/
theorem roll_ok {m : Rolling (Roll Owner × Tray Owner)} {a : Answer Owner} {t : Tray Owner}
    {s s' : Faces}
    (h : (do let (r, t) ← m; pure (.roll r, t) : Rolling (Answer Owner × Tray Owner)).on s =
      (.ok (a, t), s')) : ∃ r, a = .roll r ∧ m.on s = (.ok (r, t), s') := by
  obtain ⟨⟨r, t'⟩, s₁, hm, h⟩ := Rolling.on_bind_ok h
  obtain ⟨hp, rfl⟩ := Rolling.on_pure_ok h
  obtain ⟨rfl, rfl⟩ := Prod.mk.inj hp
  exact ⟨r, rfl, hm⟩

theorem look_ok {x : Except Error α} {k : α → Answer Owner} {a : Answer Owner} {t t' : Tray Owner}
    {s s' : Faces}
    (h : (do pure (k (← x), t) : Rolling (Answer Owner × Tray Owner)).on s = (.ok (a, t'), s')) :
    t' = t := by
  obtain ⟨b, s₁, -, h⟩ := Rolling.on_bind_ok h
  exact (Prod.mk.inj (Rolling.on_pure_ok h).1).2.symm

variable [DecidableEq Owner]

/-- The answer to a call, and the tray after it. -/
def answer (t : Tray Owner) : Call Owner → Rolling (Answer Owner × Tray Owner)
  | add o => do
    let (r, t) ← t.add o
    pure (.roll r, t)
  | addMany o times => do
    let (rs, t) ← t.addMany o times.toNat
    pure (.rolls rs, t)
  | reroll => do
    let (r, t) ← t.reroll
    pure (.roll r, t)
  | revise o => do
    let (r, t) ← t.revise o
    pure (.roll r, t)
  | latest => do pure (.roll (← t.latest), t)
  | rerollOrder => do pure (.order (← t.rerollOrder), t)
  | revisionOrder o => do pure (.order (← t.revisionOrder o), t)
  | length => pure (.length t.rolls.length, t)

/-- What a call comes to, and what it leaves: the old tray if it fails. -/
def run (c : Call Owner) (b : Table Owner) : Except Error (Answer Owner) × Table Owner :=
  match (c.answer b.tray).on b.faces with
  | (.ok (a, t), s) => (.ok a, ⟨t, s⟩)
  | (.error e, s) => (.error e, ⟨b.tray, s⟩)

/-- Calls one after the other, and the rolls that were written. A failure does not stop the next. -/
def runAll (b : Table Owner) : List (Call Owner) → List (Roll Owner) × Table Owner
  | [] => ([], b)
  | c :: cs =>
    let rest := runAll (c.run b).2 cs
    (c.written (c.run b).1 ++ rest.1, rest.2)

end Call

/-! ### Calls in place -/

/-- A computation on a table. What it did before it failed stays done. -/
abbrev Acting (Owner : Type) := ExceptT Error (StateM (Table Owner))

namespace Acting

def on (m : Acting Owner α) (b : Table Owner) : Except Error α × Table Owner :=
  StateT.run (ExceptT.run m) b

/-- Takes faces, and leaves the tray alone. -/
def roll (m : Rolling α) : Acting Owner α :=
  ExceptT.mk fun b => ((m.on b.faces).1, { b with faces := (m.on b.faces).2 })

def look (f : Tray Owner → Except Error α) : Acting Owner α := ExceptT.mk fun b => (f b.tray, b)

def store (r : Roll Owner) : Acting Owner Unit :=
  ExceptT.mk fun b => (.ok (), { b with tray := b.tray.push r })

def add (o : Order Owner) : Acting Owner (Answer Owner) := do
  let r ← roll o.roll
  store r
  pure (.roll r)

variable (b : Table Owner)

theorem on_bind (m : Acting Owner α) (f : α → Acting Owner β) :
    on (m >>= f) b =
      match on m b with
      | (.ok a, b') => on (f a) b'
      | (.error e, b') => (.error e, b') := by
  rcases h : on m b with ⟨e | a, b'⟩
  · exact run_run_bind_of_error h f
  · exact run_run_bind_of_ok h f

theorem on_roll (m : Rolling α) :
    on (roll m) b = ((m.on b.faces).1, { b with faces := (m.on b.faces).2 }) := rfl

theorem on_look (f : Tray Owner → Except Error α) : on (look f) b = (f b.tray, b) := rfl

theorem on_store (r : Roll Owner) : on (store r) b = (.ok (), { b with tray := b.tray.push r }) := rfl

theorem on_storeAll (rs : List (Roll Owner)) :
    on (rs.forM store) b = (.ok (), { b with tray := b.tray.pushAll rs }) := by
  induction rs generalizing b with
  | nil => rfl
  | cons r rs ih =>
    rw [List.forM_eq_forM, List.forM_cons, on_bind, on_store]
    exact ih { b with tray := b.tray.push r }

end Acting

namespace Call

variable [DecidableEq Owner]

/-- A call that stores its rolls one by one. -/
def inPlace : Call Owner → Acting Owner (Answer Owner)
  | add o => Acting.add o
  | addMany o times => do
    let rs ← Acting.roll (o.rollMany times.toNat)
    rs.forM Acting.store
    pure (.rolls rs)
  | reroll => do Acting.add (← Acting.look Tray.rerollOrder)
  | revise o => do Acting.add (← Acting.look fun t => t.revisionOrder o)
  | latest => do pure (.roll (← Acting.look Tray.latest))
  | rerollOrder => do pure (.order (← Acting.look Tray.rerollOrder))
  | revisionOrder o => do pure (.order (← Acting.look fun t => t.revisionOrder o))
  | length => Acting.look fun t => .ok (.length t.rolls.length)

theorem add_on (o : Order Owner) (b : Table Owner) : (Acting.add o).on b = (add o).run b := by
  rw [Acting.add, Acting.on_bind, Acting.on_roll, run, answer, Tray.add]
  simp only [Rolling.on_bind]
  rcases o.roll.on b.faces with ⟨_ | r, s⟩ <;> rfl

theorem add_look_on {c : Call Owner} {f : Tray Owner → Except Error (Order Owner)} {b : Table Owner}
    (hc : c.answer b.tray = do
      let o ← f b.tray
      let (r, t) ← b.tray.add o
      pure (.roll r, t)) :
    (Acting.look f >>= Acting.add).on b = c.run b := by
  rw [Acting.on_bind, Acting.on_look, run, hc]
  simp only [Rolling.on_bind, Rolling.on_liftM]
  rcases f b.tray with _ | o
  · rfl
  · dsimp only
    rw [add_on, run, answer]
    simp only [Rolling.on_bind]

theorem look_on {c : Call Owner} {f : Tray Owner → Except Error α} {k : α → Answer Owner}
    {b : Table Owner} (hc : c.answer b.tray = do pure (k (← f b.tray), b.tray)) :
    (do pure (k (← Acting.look f)) : Acting Owner (Answer Owner)).on b = c.run b := by
  rw [Acting.on_bind, Acting.on_look, run, hc]
  simp only [Rolling.on_bind, Rolling.on_liftM]
  rcases f b.tray with _ | a <;> rfl

/-- Storing rolls one by one leaves no more behind than answering with the new tray. -/
theorem inPlace_on (c : Call Owner) (b : Table Owner) : c.inPlace.on b = c.run b := by
  cases c with
  | add o => exact add_on o b
  | addMany o times =>
    rw [inPlace, Acting.on_bind, Acting.on_roll, run, answer, Tray.addMany]
    simp only [Rolling.on_bind]
    rcases (o.rollMany times.toNat).on b.faces with ⟨_ | rs, s⟩
    · rfl
    · dsimp only
      rw [Acting.on_bind, Acting.on_storeAll]
      rfl
  | reroll => exact add_look_on (by rw [answer, Tray.reroll, bind_assoc])
  | revise o => exact add_look_on (by rw [answer, Tray.revise, bind_assoc])
  | latest => exact look_on rfl
  | rerollOrder => exact look_on rfl
  | revisionOrder o => exact look_on rfl
  | length => rfl

/-! ### What a call writes -/

theorem answer_ok {c : Call Owner} {t t' : Tray Owner} {a : Answer Owner} {s s' : Faces}
    (h : (c.answer t).on s = (.ok (a, t'), s')) : t' = t.pushAll (c.written (.ok a)) := by
  cases c with
  | add o =>
    obtain ⟨r, rfl, hr⟩ := roll_ok h
    exact (add_ok hr).2
  | addMany o times =>
    obtain ⟨⟨rs, t₁⟩, s₁, hm, h⟩ := Rolling.on_bind_ok h
    obtain ⟨hp, rfl⟩ := Rolling.on_pure_ok h
    obtain ⟨rfl, rfl⟩ := Prod.mk.inj hp
    exact addMany_ok hm
  | reroll =>
    obtain ⟨r, rfl, hr⟩ := roll_ok h
    obtain ⟨o, -, hr⟩ := Rolling.on_liftM_bind_ok hr
    exact (add_ok hr).2
  | revise o =>
    obtain ⟨r, rfl, hr⟩ := roll_ok h
    obtain ⟨o', -, hr⟩ := Rolling.on_liftM_bind_ok hr
    exact (add_ok hr).2
  | latest => exact look_ok h
  | rerollOrder => exact look_ok h
  | revisionOrder o => exact look_ok h
  | length => exact (Prod.mk.inj (Rolling.on_pure_ok h).1).2.symm

/-- A call changes the tray only by storing what it writes. -/
theorem run_tray (c : Call Owner) (b : Table Owner) :
    (c.run b).2.tray = b.tray.pushAll (c.written (c.run b).1) := by
  rw [run]
  split
  · exact answer_ok ‹_›
  · rfl

theorem runAll_tray (cs : List (Call Owner)) (b : Table Owner) :
    (runAll b cs).2.tray = b.tray.pushAll (runAll b cs).1 := by
  induction cs generalizing b with
  | nil => rfl
  | cons c cs ih =>
    rw [runAll]
    dsimp only
    rw [ih, run_tray, pushAll_append]

/-- Without a roll to store there is nothing to change. -/
theorem run_tray_of_written {c : Call Owner} {b : Table Owner} (h : c.written (c.run b).1 = []) :
    (c.run b).2.tray = b.tray := by
  rw [run_tray, h]
  rfl

theorem run_ok {c : Call Owner} {b b' : Table Owner} {a : Answer Owner}
    (h : c.run b = (.ok a, b')) : (c.answer b.tray).on b.faces = (.ok (a, b'.tray), b'.faces) := by
  rw [run] at h
  split at h
  · cases h
    assumption
  · cases h

theorem run_reroll {b b' : Table Owner} {a : Answer Owner} (h : reroll.run b = (.ok a, b')) :
    ∃ old r, b.tray.rolls.getLast? = some old ∧ a = .roll r ∧ r.order = old.order ∧
      b'.tray = b.tray.push r := by
  obtain ⟨r, rfl, hr⟩ := roll_ok (run_ok h)
  obtain ⟨o, ho, hr⟩ := Rolling.on_liftM_bind_ok hr
  obtain ⟨hr, ht⟩ := add_ok hr
  obtain ⟨old, hold, rfl⟩ := rerollOrder_ok ho
  exact ⟨old, r, hold, rfl, order_of_roll hr, ht⟩

theorem run_revise {b b' : Table Owner} {o : Order Owner} {a : Answer Owner}
    (h : (revise o).run b = (.ok a, b')) :
    ∃ old r, b.tray.rolls.getLast? = some old ∧ o.owner = old.owner ∧ a = .roll r ∧
      r.order = ⟨old.command ++ o.command, if o.comment.isEmpty then old.comment else o.comment,
        old.owner⟩ ∧ b'.tray = b.tray.push r := by
  obtain ⟨r, rfl, hr⟩ := roll_ok (run_ok h)
  obtain ⟨o', ho, hr⟩ := Rolling.on_liftM_bind_ok hr
  obtain ⟨hr, ht⟩ := add_ok hr
  obtain ⟨old, hold, howner, rfl⟩ := revisionOrder_ok ho
  exact ⟨old, r, hold, howner, rfl, order_of_roll hr, ht⟩

end Call

/-- After any calls, a tray shows the end of the log that they wrote, as far as it has room for it.
What is stored before a failure would stay in the tray, but a call that fails, like one that only
looks, stores nothing; a roll made again keeps its order, and a revised one is its owner's. -/
theorem rolls_eq_end_of_log [DecidableEq Owner] {c : Int} (hc : 1 ≤ c) (s : Faces)
    (cs : List (Call Owner)) :
    ∃ t log b, ofCapacity c = .ok t ∧ Call.runAll ⟨t, s⟩ cs = (log, b) ∧
      b.tray.rolls = log.rtake c.toNat ∧
      (∀ d : Call Owner, d.inPlace.on b = d.run b) ∧
      (∀ d : Call Owner, (∀ a, (d.run b).1 = .ok a → d.writes = false) →
        d.written (d.run b).1 = [] ∧ (d.run b).2.tray = b.tray) ∧
      (∀ a b', Call.reroll.run b = (.ok a, b') →
        ∃ old r, b.tray.rolls.getLast? = some old ∧ a = .roll r ∧ r.order = old.order ∧
          b'.tray = b.tray.push r) ∧
      ∀ o a b', (Call.revise o).run b = (.ok a, b') →
        ∃ old r, b.tray.rolls.getLast? = some old ∧ o.owner = old.owner ∧ a = .roll r ∧
          r.order = ⟨old.command ++ o.command,
            if o.comment.isEmpty then old.comment else o.comment, old.owner⟩ ∧
          b'.tray = b.tray.push r := by
  let t : Tray Owner := ⟨c.toNat, []⟩
  have ht : ofCapacity c = .ok t := if_neg (by omega)
  have hcap : 1 ≤ t.capacity := show 1 ≤ c.toNat by omega
  have hrolls : t.rolls = ([] : List (Roll Owner)).rtake t.capacity := (List.rtake_nil _).symm
  refine ⟨_, _, _, ht, rfl, ?_, fun d => d.inPlace_on _, fun d hd => ?_, fun a b' => Call.run_reroll,
    fun o a b' => Call.run_revise⟩
  · rw [Call.runAll_tray, pushAll_rolls hcap hrolls, List.nil_append]
  · have hw := Call.written_of_not_ok hd
    exact ⟨hw, Call.run_tray_of_written hw⟩

theorem rolls_eq_end_of_log_two :
    (1 : Int) ≤ 2 ∧ ∃ (t : Tray Nat) (log : List (Roll Nat)) (b : Table Nat), ofCapacity 2 = .ok t ∧
      Call.runAll ⟨t, Faces.ofList [1, 2, 3, 4, 5, 6, 3, 2]⟩
        [.add ⟨"2d6", "init", 7⟩, .addMany ⟨"d6", "", 7⟩ 2, .add ⟨"2d6+", "", 7⟩,
          .revise ⟨"+1", "", 8⟩, .revise ⟨"+1", "again", 7⟩, .reroll] = (log, b) ∧
      log.map Roll.command = ["2d6", "d6", "d6", "d6+1", "d6+1"] ∧
      b.tray.rolls = log.rtake 2 := by
  obtain ⟨t, log, b, ht, hb, hrolls, -⟩ := rolls_eq_end_of_log (show (1 : Int) ≤ 2 by decide)
    (Faces.ofList [1, 2, 3, 4, 5, 6, 3, 2])
    [.add ⟨"2d6", "init", (7 : Nat)⟩, .addMany ⟨"d6", "", 7⟩ 2, .add ⟨"2d6+", "", 7⟩,
      .revise ⟨"+1", "", 8⟩, .revise ⟨"+1", "again", 7⟩, .reroll]
  refine ⟨by decide, t, log, b, ht, hb, ?_, hrolls⟩
  cases ht
  obtain rfl : _ = log := congrArg Prod.fst hb
  set_option maxRecDepth 1000 in decide

end Tray

end Tabletop
