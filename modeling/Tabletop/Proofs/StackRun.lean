import Mathlib.Logic.ExistsUnique
import Tabletop.Proofs.Operations
import Tabletop.Proofs.Tree

/-!
# The stack machine evaluates trees

`Tree.eval` evaluates a tree by recursion: its operands from left to right, then the operation at
its root, whose log entry comes after theirs. The machine does the same on the tree in postfix
order, whatever is on its stack (`Tree.foldlM_postorder`). Conversely `Tree.grow` builds the trees
that a stack of operands came from. It goes along with every run that does not fail
(`Tree.grow_of_step`), so that a list of tokens the machine accepts is the postfix order of a tree,
and of one only (`Tree.foldlM_grow_postorder`).
-/

namespace Tabletop

/-- An operand that a formula names. -/
inductive Constant where
  | argument (a : Argument)
  | number (x : Float) (written : String)

namespace Constant

def token : Constant → Token
  | argument a => .argument a
  | number x written => .number x written

def operand : Constant → Operand
  | argument a => .argument a
  | number x written => .number (.decimal x) written

end Constant

def Unary.apply (o : Operand) : Unary → Rolling Operation
  | negate => liftM o.negated
  | function f => liftM (o.applied f)
  | genesys k => liftM (o.read k)

/-- The operation carried out. Dice may explode or be rerolled `cap` times. -/
def Binary.apply (cap : Int) (l r : Operand) : Binary → Rolling Operation
  | operator op => liftM (l.combined op r)
  | dice => l.rolled r
  | pool op => l.changed op cap r
  | conversion c => liftM (l.counted c r)

/-- The value of a tree, and the log of its operations. -/
def Tree.eval (cap : Int) : Tree Constant → Rolling (List Operation × Operand)
  | leaf c => pure ([], c.operand)
  | unary u x => do
    let (log, o) ← x.eval cap
    let op ← u.apply o
    pure (log ++ [op], op.operand)
  | binary b x y => do
    let (logx, l) ← x.eval cap
    let (logy, r) ← y.eval cap
    let op ← b.apply cap l r
    pure (logx ++ logy ++ [op], op.operand)

/-! ### The machine on a tree -/

namespace Machine

variable {cap : Int} {m : Machine}

theorem step_constant (c : Constant) : step cap m c.token = pure (m.push c.operand) := by
  cases c <;> rfl

theorem step_unary (u : Unary) (o : Operand) (stack : List Operand) (log : List Operation) :
    step cap ⟨o :: stack, log⟩ u.token = (do
      let op ← u.apply o
      pure ⟨op.operand :: stack, log ++ [op]⟩) := by
  cases u <;> rfl

theorem step_binary (b : Binary) (l r : Operand) (stack : List Operand) (log : List Operation) :
    step cap ⟨r :: l :: stack, log⟩ b.token = (do
      let op ← b.apply cap l r
      pure ⟨op.operand :: stack, log ++ [op]⟩) := by
  cases b <;> rfl

end Machine

namespace Tree

/-- On the tokens of a tree the machine pushes its value and logs its operations. -/
theorem foldlM_postorder (cap : Int) (x : Tree Constant) (rest : List Token) (m : Machine) :
    (x.postorder Constant.token ++ rest).foldlM (Machine.step cap) m = (do
      let (log, o) ← x.eval cap
      rest.foldlM (Machine.step cap) ⟨o :: m.stack, m.log ++ log⟩) := by
  induction x generalizing rest m with
  | leaf c =>
    rw [postorder, List.singleton_append, List.foldlM_cons, Machine.step_constant, pure_bind, eval,
      pure_bind]
    dsimp only
    rw [List.append_nil]; rfl
  | unary u x ih =>
    rw [postorder, List.append_assoc, ih, eval, bind_assoc]
    refine bind_congr fun ⟨log, o⟩ => ?_
    dsimp only
    rw [List.singleton_append, List.foldlM_cons, Machine.step_unary, bind_assoc, bind_assoc]
    refine bind_congr fun op => ?_
    rw [pure_bind, pure_bind, List.append_assoc]
  | binary b x y ihx ihy =>
    rw [postorder, List.append_assoc, List.append_assoc, ihx, eval, bind_assoc]
    refine bind_congr fun ⟨logx, l⟩ => ?_
    dsimp only
    rw [ihy, bind_assoc]
    refine bind_congr fun ⟨logy, r⟩ => ?_
    dsimp only
    rw [List.singleton_append, List.foldlM_cons, Machine.step_binary, bind_assoc, bind_assoc]
    refine bind_congr fun op => ?_
    rw [pure_bind, pure_bind]
    simp only [List.append_assoc]

theorem evaluate_postorder (cap : Int) (x : Tree Constant) :
    evaluate (x.postorder Constant.token) cap = x.eval cap := by
  have h := foldlM_postorder cap x [] {}
  rw [List.append_nil] at h
  rw [evaluate, h, bind_assoc]
  conv => rhs; rw [← bind_pure (x.eval cap)]
  refine bind_congr fun ⟨log, o⟩ => ?_
  dsimp only
  rw [List.foldlM_nil, pure_bind]
  rfl

/-- The operands of a tree are evaluated from left to right, and its operation then runs on them. -/
theorem eval_binary_ok_iff {cap : Int} {b : Binary} {x y : Tree Constant} {s s' : Faces} {log : List Operation}
    {o : Operand} :
    ((binary b x y).eval cap).on s = (.ok (log, o), s') ↔
      ∃ logx l s₁ logy r s₂ op, (x.eval cap).on s = (.ok (logx, l), s₁) ∧
        (y.eval cap).on s₁ = (.ok (logy, r), s₂) ∧ (b.apply cap l r).on s₂ = (.ok op, s') ∧
        log = logx ++ logy ++ [op] ∧ o = op.operand := by
  constructor
  · intro h
    obtain ⟨⟨logx, l⟩, s₁, hx, h⟩ := Rolling.on_bind_ok h
    obtain ⟨⟨logy, r⟩, s₂, hy, h⟩ := Rolling.on_bind_ok h
    obtain ⟨op, s₃, hop, h⟩ := Rolling.on_bind_ok h
    obtain ⟨hanswer, rfl⟩ := Rolling.on_pure_ok h
    obtain ⟨rfl, rfl⟩ := Prod.mk.inj hanswer
    exact ⟨logx, l, s₁, logy, r, s₂, op, hx, hy, hop, rfl, rfl⟩
  · rintro ⟨logx, l, s₁, logy, r, s₂, op, hx, hy, hop, rfl, rfl⟩
    exact Rolling.on_bind_ok_iff.2 ⟨(logx, l), s₁, hx, Rolling.on_bind_ok_iff.2 ⟨(logy, r), s₂, hy,
      Rolling.on_bind_ok_iff.2 ⟨op, s', hop, rfl⟩⟩⟩

end Tree

/-! ### The log -/

/-- The token that an operation was run for. -/
def Operation.token : Operation → Token
  | negated .. => .negate
  | combined op .. => .binary op
  | merged _ => .binary .ampersand
  | applied f .. => .function f
  | thrown (.rolled _) => .dice
  | thrown (.changed op ..) => .pool op
  | thrown (.counted c ..) => .conversion c
  | thrown (.read k _) => .genesys k

theorem Operand.token_of_combined {l r : Operand} {op : Operator} {result : Operation}
    (h : l.combined op r = .ok result) : result.token = .binary op := by
  rcases combined_ok h with ⟨x, y, z, -, -, -, rfl⟩ | ⟨p, q, pool, hmerge, -, -, -, rfl⟩
  · rfl
  · -- only one operator merges
    cases op <;> first | rfl | cases hmerge

theorem Unary.token_of_apply {u : Unary} {o : Operand} {s s' : Faces} {result : Operation}
    (h : (u.apply o).on s = (.ok result, s')) : result.token = u.token := by
  cases u with
  | negate =>
    obtain ⟨x, y, -, -, rfl⟩ := Operand.negated_ok (Rolling.on_liftM_ok h).1
    rfl
  | function f =>
    obtain ⟨v, x, -, -, -, rfl⟩ := Operand.applied_ok (Rolling.on_liftM_ok h).1
    rfl
  | genesys k =>
    obtain ⟨p, -, rfl⟩ := Operand.read_ok (Rolling.on_liftM_ok h).1
    rfl

theorem Binary.token_of_apply {cap : Int} {b : Binary} {l r : Operand} {s s' : Faces}
    {result : Operation} (h : (b.apply cap l r).on s = (.ok result, s')) :
    result.token = b.token := by
  cases b with
  | operator op => exact Operand.token_of_combined (Rolling.on_liftM_ok h).1
  | dice =>
    obtain ⟨counts, sides, pool, -, -, -, rfl⟩ := Operand.rolled_ok h
    rfl
  | pool op =>
    obtain ⟨pool, arg, change, -, -, -, rfl⟩ := Operand.changed_ok h
    rfl
  | conversion c =>
    obtain ⟨arg, p, -, -, rfl⟩ := Operand.counted_ok (Rolling.on_liftM_ok h).1
    rfl

/-- The log has one entry for each operation of the tree, in postfix order. -/
theorem Tree.log_of_eval {cap : Int} {x : Tree Constant} {s s' : Faces} {log : List Operation}
    {o : Operand} (h : (x.eval cap).on s = (.ok (log, o), s')) :
    log.map Operation.token = (x.postorder Constant.token).filter fun t => !t.isOperand := by
  induction x generalizing s s' log o with
  | leaf c =>
    obtain ⟨rfl, -⟩ := Prod.mk.inj (Rolling.on_pure_ok h).1
    cases c <;> rfl
  | unary u x ih =>
    obtain ⟨⟨logx, ox⟩, s₁, hx, h⟩ := Rolling.on_bind_ok h
    obtain ⟨result, s₂, hu, h⟩ := Rolling.on_bind_ok h
    obtain ⟨rfl, -⟩ := Prod.mk.inj (Rolling.on_pure_ok h).1
    rw [List.map_append, ih hx, postorder, List.filter_append, List.map_singleton,
      u.token_of_apply hu]
    cases u <;> rfl
  | binary b x y ihx ihy =>
    obtain ⟨logx, l, s₁, logy, r, s₂, result, hx, hy, hb, rfl, -⟩ := eval_binary_ok_iff.1 h
    rw [List.map_append, List.map_append, ihx hx, ihy hy, postorder, List.filter_append,
      List.filter_append, List.map_singleton, b.token_of_apply hb]
    cases b <;> rfl

/-! ### Trees from tokens -/

namespace Tree

/-- One more token after the trees of the operands so far, the latest first: a constant is a tree,
and an operation takes its operands. -/
def grow (xs : List (Tree Constant)) (t : Token) : Option (List (Tree Constant)) :=
  match t, xs with
  | .argument a, xs => some (leaf (.argument a) :: xs)
  | .number x written, xs => some (leaf (.number x written) :: xs)
  | .negate, x :: xs => some (unary .negate x :: xs)
  | .function f, x :: xs => some (unary (.function f) x :: xs)
  | .genesys k, x :: xs => some (unary (.genesys k) x :: xs)
  | .binary op, y :: x :: xs => some (binary (.operator op) x y :: xs)
  | .dice, y :: x :: xs => some (binary .dice x y :: xs)
  | .pool op, y :: x :: xs => some (binary (.pool op) x y :: xs)
  | .conversion c, y :: x :: xs => some (binary (.conversion c) x y :: xs)
  | _, _ => none

def tokensOf (xs : List (Tree Constant)) : List Token :=
  xs.reverse.flatMap (postorder Constant.token)

theorem tokensOf_cons (x : Tree Constant) (xs : List (Tree Constant)) :
    tokensOf (x :: xs) = tokensOf xs ++ x.postorder Constant.token := by
  simp [tokensOf]

theorem grow_constant (c : Constant) (xs : List (Tree Constant)) :
    grow xs c.token = some (leaf c :: xs) := by
  cases c <;> rfl

theorem grow_unary (u : Unary) (x : Tree Constant) (xs : List (Tree Constant)) :
    grow (x :: xs) u.token = some (unary u x :: xs) := by
  cases u <;> rfl

theorem grow_binary (b : Binary) (x y : Tree Constant) (xs : List (Tree Constant)) :
    grow (y :: x :: xs) b.token = some (binary b x y :: xs) := by
  cases b <;> rfl

theorem foldlM_grow_postorder (x : Tree Constant) (rest : List Token) (xs : List (Tree Constant)) :
    (x.postorder Constant.token ++ rest).foldlM grow xs = rest.foldlM grow (x :: xs) := by
  induction x generalizing rest xs with
  | leaf c => rw [postorder, List.singleton_append, List.foldlM_cons, grow_constant]; rfl
  | unary u x ih =>
    rw [postorder, List.append_assoc, ih, List.singleton_append, List.foldlM_cons, grow_unary]; rfl
  | binary b x y ihx ihy =>
    rw [postorder, List.append_assoc, List.append_assoc, ihx, ihy, List.singleton_append,
      List.foldlM_cons, grow_binary]
    rfl

theorem postorder_injective {x y : Tree Constant}
    (h : x.postorder Constant.token = y.postorder Constant.token) : x = y := by
  have hx := foldlM_grow_postorder x [] []
  have hy := foldlM_grow_postorder y [] []
  rw [h, hy] at hx
  exact (List.singleton_inj.1 (Option.some.inj hx)).symm

theorem tokensOf_of_grow {t : Token} {xs xs' : List (Tree Constant)} (h : grow xs t = some xs') :
    tokensOf xs' = tokensOf xs ++ [t] := by
  unfold grow at h
  split at h
  case h_10 => cases h
  all_goals
    rw [← Option.some.inj h]
    simp [tokensOf_cons, postorder, Constant.token, Unary.token, Binary.token]

end Tree

namespace Machine

variable {cap : Int} {m m' : Machine} {missing : Error} {s s' : Faces}

theorem unary_ok {f : Operand → Rolling Operation}
    (h : (m.unary missing f).on s = (.ok m', s')) :
    ∃ o stack op, m.stack = o :: stack ∧ (f o).on s = (.ok op, s') ∧
      m' = ⟨op.operand :: stack, m.log ++ [op]⟩ := by
  unfold unary at h
  split at h
  · obtain ⟨op, s₁, hop, h⟩ := Rolling.on_bind_ok h
    obtain ⟨rfl, rfl⟩ := Rolling.on_pure_ok h
    exact ⟨_, _, op, ‹_›, hop, rfl⟩
  · exact (Rolling.on_throw_ok h).elim

theorem binary_ok {f : Operand → Operand → Rolling Operation}
    (h : (m.binary missing f).on s = (.ok m', s')) :
    ∃ l r stack op, m.stack = r :: l :: stack ∧ (f l r).on s = (.ok op, s') ∧
      m' = ⟨op.operand :: stack, m.log ++ [op]⟩ := by
  unfold binary at h
  split at h
  · obtain ⟨op, s₁, hop, h⟩ := Rolling.on_bind_ok h
    obtain ⟨rfl, rfl⟩ := Rolling.on_pure_ok h
    exact ⟨_, _, _, op, ‹_›, hop, rfl⟩
  · exact (Rolling.on_throw_ok h).elim

/-- All that a step can do without failing: push a constant, or run an operation on the latest
operands, log it and push what it leaves. -/
theorem step_ok {t : Token} (h : (step cap m t).on s = (.ok m', s')) :
    (∃ c : Constant, t = c.token ∧ m' = m.push c.operand ∧ s' = s) ∨
      (∃ (u : Unary) (o : Operand) (stack : List Operand) (op : Operation), t = u.token ∧
        m.stack = o :: stack ∧ (u.apply o).on s = (.ok op, s') ∧
        m' = ⟨op.operand :: stack, m.log ++ [op]⟩) ∨
      ∃ (b : Binary) (l r : Operand) (stack : List Operand) (op : Operation), t = b.token ∧
        m.stack = r :: l :: stack ∧ (b.apply cap l r).on s = (.ok op, s') ∧
        m' = ⟨op.operand :: stack, m.log ++ [op]⟩ := by
  cases t with
  | argument a =>
    obtain ⟨rfl, rfl⟩ := Rolling.on_pure_ok h
    exact .inl ⟨.argument a, rfl, rfl, rfl⟩
  | number x written =>
    obtain ⟨rfl, rfl⟩ := Rolling.on_pure_ok h
    exact .inl ⟨.number x written, rfl, rfl, rfl⟩
  | negate =>
    obtain ⟨o, stack, op, hm⟩ := unary_ok h
    exact .inr (.inl ⟨.negate, o, stack, op, rfl, hm⟩)
  | function f =>
    obtain ⟨o, stack, op, hm⟩ := unary_ok h
    exact .inr (.inl ⟨.function f, o, stack, op, rfl, hm⟩)
  | genesys k =>
    obtain ⟨o, stack, op, hm⟩ := unary_ok h
    exact .inr (.inl ⟨.genesys k, o, stack, op, rfl, hm⟩)
  | binary op =>
    obtain ⟨l, r, stack, result, hm⟩ := binary_ok h
    exact .inr (.inr ⟨.operator op, l, r, stack, result, rfl, hm⟩)
  | dice =>
    obtain ⟨l, r, stack, result, hm⟩ := binary_ok h
    exact .inr (.inr ⟨.dice, l, r, stack, result, rfl, hm⟩)
  | pool op =>
    obtain ⟨l, r, stack, result, hm⟩ := binary_ok h
    exact .inr (.inr ⟨.pool op, l, r, stack, result, rfl, hm⟩)
  | conversion c =>
    obtain ⟨l, r, stack, result, hm⟩ := binary_ok h
    exact .inr (.inr ⟨.conversion c, l, r, stack, result, rfl, hm⟩)
  | opening b => exact (Rolling.on_throw_ok h).elim
  | closing b => exact (Rolling.on_throw_ok h).elim
  | blank => exact (Rolling.on_throw_ok h).elim

/-- A step that does not fail finds its operands, and so do the trees. -/
theorem grow_of_step {t : Token} (h : (step cap m t).on s = (.ok m', s'))
    {xs : List (Tree Constant)} (hxs : xs.length = m.stack.length) :
    ∃ xs', Tree.grow xs t = some xs' ∧ xs'.length = m'.stack.length := by
  rcases step_ok h with ⟨c, rfl, rfl, -⟩ | ⟨u, o, stack, op, rfl, hm, -, rfl⟩ |
    ⟨b, l, r, stack, op, rfl, hm, -, rfl⟩
  · exact ⟨_, Tree.grow_constant c xs, by simp [push, hxs]⟩
  · rw [hm] at hxs
    obtain ⟨x, xs, rfl⟩ := List.exists_cons_of_length_eq_add_one hxs
    exact ⟨_, Tree.grow_unary u x xs, by simpa using hxs⟩
  · rw [hm] at hxs
    obtain ⟨y, xs, rfl⟩ := List.exists_cons_of_length_eq_add_one hxs
    obtain ⟨x, xs, rfl⟩ := List.exists_cons_of_length_eq_add_one (Nat.succ.inj hxs)
    exact ⟨_, Tree.grow_binary b x y xs, by simpa using hxs⟩

/-- A run that does not fail builds as many trees as it leaves operands, out of its tokens. -/
theorem tokensOf_of_run {ts : List Token}
    (h : (ts.foldlM (step cap) m).on s = (.ok m', s')) {xs : List (Tree Constant)}
    (hxs : xs.length = m.stack.length) :
    ∃ xs', Tree.tokensOf xs' = Tree.tokensOf xs ++ ts ∧ xs'.length = m'.stack.length := by
  induction ts generalizing m s xs with
  | nil =>
    obtain ⟨rfl, -⟩ := Rolling.on_pure_ok h
    exact ⟨xs, by simp, hxs⟩
  | cons t ts ih =>
    rw [List.foldlM_cons] at h
    obtain ⟨m₁, s₁, ht, hts⟩ := Rolling.on_bind_ok h
    obtain ⟨xs₁, hgrow, hlen⟩ := grow_of_step ht hxs
    obtain ⟨xs', htokens, hlen'⟩ := ih hts hlen
    exact ⟨xs', by rw [htokens, Tree.tokensOf_of_grow hgrow]; simp, hlen'⟩

end Machine

/-- A run leaves one operand, with nothing below it. -/
theorem evaluate_ok_iff {cap : Int} {ts : List Token} {s s' : Faces} {log : List Operation} {o : Operand} :
    (evaluate ts cap).on s = (.ok (log, o), s') ↔
      (ts.foldlM (Machine.step cap) {}).on s = (.ok ⟨[o], log⟩, s') := by
  constructor
  · intro h
    obtain ⟨⟨stack, log'⟩, s₁, hrun, h⟩ := Rolling.on_bind_ok h
    split at h
    · rename_i hstack
      obtain ⟨hanswer, rfl⟩ := Rolling.on_pure_ok h
      cases hanswer
      cases hstack
      exact hrun
    · exact (Rolling.on_throw_ok h).elim
  · intro hrun
    exact Rolling.on_bind_ok_iff.2 ⟨_, s', hrun, rfl⟩

theorem exists_tree_of_evaluate {cap : Int} {ts : List Token} {s s' : Faces} {log : List Operation}
    {o : Operand} (h : (evaluate ts cap).on s = (.ok (log, o), s')) :
    ∃ x : Tree Constant, x.postorder Constant.token = ts := by
  obtain ⟨xs, htokens, hlen⟩ :=
    Machine.tokensOf_of_run (evaluate_ok_iff.1 h) (rfl : ([] : List (Tree Constant)).length = _)
  obtain ⟨x, rfl⟩ := List.length_eq_one_iff.1 hlen
  exact ⟨x, by simpa [Tree.tokensOf] using htokens⟩

/-- A text whose tokens come out in the postfix order of a tree is evaluated as that tree. -/
theorem evaluateText_of_postorder {text : String} {ts : List Token} {x : Tree Constant}
    (hts : tokenize .dice text = .ok ts) (hx : toPostfix ts = .ok (x.postorder Constant.token)) (cap : Int) :
    evaluateText text cap = x.eval cap := by
  rw [evaluateText, hts, ← Tree.evaluate_postorder]
  change (do evaluate (← toPostfix ts) cap : Rolling _) = _
  rw [hx]
  rfl

/-- Conversely, a text that is evaluated without failing is evaluated as some tree. -/
theorem evaluateText_ok {text : String} {cap : Int} {s s' : Faces} {answer : List Operation × Operand}
    (h : (evaluateText text cap).on s = (.ok answer, s')) :
    ∃ (ts : List Token) (x : Tree Constant), tokenize .dice text = .ok ts ∧
      toPostfix ts = .ok (x.postorder Constant.token) ∧ (x.eval cap).on s = (.ok answer, s') := by
  have hrun := h
  obtain ⟨ts, hts, h⟩ := Rolling.on_liftM_bind_ok h
  obtain ⟨out, hout, h⟩ := Rolling.on_liftM_bind_ok h
  obtain ⟨x, rfl⟩ := exists_tree_of_evaluate h
  rw [evaluateText_of_postorder hts hout] at hrun
  exact ⟨ts, x, hts, hout, hrun⟩

/-- The stack machine does what the recursive evaluator does: on the postfix order of a tree both
give the same answer, with the same log, and leave the same faces; the log has one entry for each
operation, in postfix order; and the machine accepts nothing but the postfix order of a tree, which
is then the only one. -/
theorem evaluate_eq_eval (cap : Int) :
    (∀ (x : Tree Constant) (s : Faces),
      (evaluate (x.postorder Constant.token) cap).on s = (x.eval cap).on s) ∧
    (∀ (x : Tree Constant) (s s' : Faces) (log : List Operation) (o : Operand),
      (x.eval cap).on s = (.ok (log, o), s') →
        log.map Operation.token = (x.postorder Constant.token).filter fun t => !t.isOperand) ∧
    ∀ (ts : List Token) (s s' : Faces) (log : List Operation) (o : Operand),
      (evaluate ts cap).on s = (.ok (log, o), s') →
        ∃! x : Tree Constant, x.postorder Constant.token = ts := by
  refine ⟨fun x s => by rw [x.evaluate_postorder], fun x s s' log o => x.log_of_eval,
    fun ts s s' log o h => ?_⟩
  obtain ⟨x, hx⟩ := exists_tree_of_evaluate h
  exact ⟨x, hx, fun y hy => Tree.postorder_injective (hy.trans hx.symm)⟩

/-- Two dice against a target: the answer, the log and the tree. -/
theorem evaluate_eq_eval_two_dice :
    let x : Tree Constant := .binary (.conversion .target)
      (.binary .dice (.leaf (.argument (.single 2))) (.leaf (.argument (.single 6))))
      (.leaf (.argument (.single 5)))
    let pool : Pool := ⟨[.plain 6 3, .plain 6 6], [⟨2, 6⟩]⟩
    let log : List Operation := [.thrown (.rolled pool), .thrown (.counted .target (.single 5) pool 0)]
    (x.eval 100).on (.ofList [3, 9, 1]) =
        (.ok (log, .thrown (.counted .target (.single 5) pool 0)), ⟨[1], 2⟩) ∧
      log.map Operation.token = [.dice, .conversion .target] ∧
      ∃! y : Tree Constant, y.postorder Constant.token = x.postorder Constant.token := by
  intro x pool log
  have heval : (x.eval 100).on (.ofList [3, 9, 1]) =
      (.ok (log, .thrown (.counted .target (.single 5) pool 0)), ⟨[1], 2⟩) := rfl
  obtain ⟨hmachine, hlog, htree⟩ := evaluate_eq_eval 100
  exact ⟨heval, hlog x _ _ _ _ heval, htree _ _ _ _ _ ((hmachine x _).trans heval)⟩

end Tabletop
