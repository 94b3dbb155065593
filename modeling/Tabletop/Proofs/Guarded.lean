import Tabletop.Proofs.Remaking
import Tabletop.Proofs.Showing
import Tabletop.Roll

/-!
# Evaluation with every check

The stack machine once more, as it runs where all can fail that a machine might stumble over: the dice of
operands are copied, those of an outcome are made anew, a computed value is shown when it is pushed, and
a logged operation is described later from the operands that it ran on, which are asked for their values
again. Within the weights that can be shown it does what the plain machine does, and every entry of its
log can be described (`run_plain`).
-/

namespace Tabletop

open Rolling

namespace Guarded

/-! ### The machine -/

/-- A logged operation, and the operands that its description reads again. -/
structure Record where
  operation : Operation
  operands : List Operand

/-- The text of the value of an operand. -/
def valueShown (o : Operand) : Except Error String := do (← o.toValue).shown

/-- Describes an operation that ran on these operands. -/
def describe : List Operand → Operation → Except Error String
  | [o], .negated _ result => do
    let x ← valueShown o
    let value ← result.shown
    pure s!"-({x}) = {value}"
  | [l, r], .combined op _ _ result => do
    let x ← valueShown l
    let y ← valueShown r
    let value ← result.shown
    pure s!"{x} {op.symbol} {y} = {value}"
  | [o], .applied f _ result => do
    let x ← valueShown o
    let value ← result.shown
    pure s!"{f.name}({x}) = {value}"
  | _, .merged pool => do
    let text ← pool.shown
    pure s!"& {text}"
  | _, .thrown t => t.shown
  | _, op => throw (.missingOperand op.text)

def Record.describe (r : Record) : Except Error String := Guarded.describe r.operands r.operation

/-- What the operation leaves for further ones; a computed value is shown. -/
def left : Operation → Except Error Operand
  | .negated _ result | .combined _ _ _ result | .applied _ _ result => do
    pure (.number result (← result.shown))
  | op => pure op.operand

/-- A pool operator whose dice are made through their checks. -/
def changed (op : PoolOperator) (cap : Int) (l r : Operand) : Rolling Operation := do
  let pool ← l.toPool
  let arg ← r.toArgument
  pure (.thrown (.changed op arg (← op.mode.applyChecked pool arg cap)))

structure Machine where
  stack : List Operand := []
  log : List Record := []

namespace Machine

/-- Runs an operation on operands that were taken from the stack. -/
def run (m : Machine) (operands stack : List Operand) (f : Rolling Operation) : Rolling Machine := do
  let _ ← (operands.mapM Operand.copies : Except Error (List (List Pool)))
  let op ← f
  let op ← op.remade
  let o ← left op
  pure ⟨o :: stack, m.log ++ [⟨op, operands⟩]⟩

def unary (m : Machine) (missing : Error) (f : Operand → Rolling Operation) : Rolling Machine :=
  match m.stack with
  | o :: stack => m.run [o] stack (f o)
  | [] => throw missing

def binary (m : Machine) (missing : Error) (f : Operand → Operand → Rolling Operation) : Rolling Machine :=
  match m.stack with
  | r :: l :: stack => m.run [l, r] stack (f l r)
  | _ => throw missing

def step (cap : Int) (m : Machine) (t : Token) : Rolling Machine :=
  let missing := Error.missingOperand t.text
  match t with
  | .argument a => pure { m with stack := .argument a :: m.stack }
  | .number x written => pure { m with stack := .number (.decimal x) written :: m.stack }
  | .negate => m.unary missing fun o => liftM o.negated
  | .binary op => m.binary missing fun l r => liftM (l.combined op r)
  | .function f => m.unary (.missingInput f.name) fun o => liftM (o.applied f)
  | .dice => m.binary missing Operand.rolled
  | .pool op => m.binary missing (changed op cap)
  | .conversion c => m.binary missing fun l r => liftM (l.counted c r)
  | .genesys k => m.unary missing fun o => liftM (o.read k)
  | .opening _ | .closing _ | .blank => throw (.unexpectedInPostfix t.text)

/-- The machine as it runs without checks. -/
def plain (m : Machine) : Tabletop.Machine := ⟨m.stack, m.log.map Record.operation⟩

end Machine

def evaluate (tokens : List Token) (cap : Int) : Rolling (List Record × Operand) := do
  let m ← tokens.foldlM (Machine.step cap) {}
  match m.stack with
  | [o] => pure (m.log, o)
  | stack => throw (.leftover stack.length)

/-- A finished roll as it is shown with all its operations. -/
def format {Owner : Type} (o : Order Owner) (log : List Record) (result : Value) (escape : String → String)
    (roller : String) : Except Error String := do
  let who := if roller.isEmpty then "" else roller ++ " rolled "
  let label := if o.comment.isEmpty then "" else " (" ++ escape o.comment ++ ")"
  let value ← result.shown
  let head := who ++ Text.code o.command ++ label ++ " ⇒ **" ++ value ++ "**"
  if log.isEmpty then pure head
  else
    let lines ← log.mapM fun r => do
      let text ← r.describe
      pure ("> " ++ text)
    pure (head ++ "\n" ++ String.intercalate "\n" lines)

/-! ### Records -/

/-- The operation can be described, by the text that it has. -/
def Record.Described (r : Record) : Prop := r.describe = .ok r.operation.text

variable {l r o : Operand} {v : Value} {op : Operation} {n : Nat}

theorem valueShown_ok (h : o.toValue = .ok v) (hw : o.weight ≤ showable) : valueShown o = .ok v.text := by
  rw [valueShown, h]
  exact Value.shown_ok (Nat.le_trans (Operand.weight_of_toValue h) hw)

theorem left_ok (h : op.Within n) (hn : n ≤ showable) : left op = .ok op.operand := by
  have hshown {v : Value} (hv : v.weight ≤ n) : v.shown = .ok v.text := Value.shown_ok (Nat.le_trans hv hn)
  cases op with
  | negated x result =>
    rw [left, hshown h.weight]
    rfl
  | combined q x y result =>
    rw [left, hshown h.weight]
    rfl
  | applied f x result =>
    rw [left, hshown h.weight]
    rfl
  | merged pool => rfl
  | thrown t => rfl

theorem described_thrown {t : Throw} {operands : List Operand} (h : (Operation.thrown t).Within n) (hn : n ≤ showable) :
    Record.Described ⟨.thrown t, operands⟩ := by
  change describe operands _ = _
  rw [describe]
  · exact Throw.shown_ok h hn

/-- What a unary operation made can be described. -/
theorem described_unary (u : Unary) (ho : o.Ready) (hw : o.weight + growth ≤ showable) :
    (u.apply o).Yields fun op => Record.Described ⟨op, [o]⟩ := by
  intro s op s' h
  have hwithin := u.apply_within ho h
  have hweight : o.weight ≤ showable := Nat.le_trans (Nat.le_add_right _ _) hw
  cases u with
  | negate =>
    obtain ⟨x, y, hx, -, rfl⟩ := Operand.negated_ok (on_liftM_ok h).1
    have hy : y.shown = .ok y.text := Value.shown_ok (Nat.le_trans hwithin.weight hw)
    change describe [o] _ = _
    rw [describe, valueShown_ok hx hweight, hy]
    rfl
  | function f =>
    obtain ⟨v, x, hv, -, -, rfl⟩ := Operand.applied_ok (on_liftM_ok h).1
    have hy : (Value.decimal (f.apply x)).shown = .ok _ := Value.shown_ok (Nat.zero_le _)
    change describe [o] _ = _
    rw [describe, valueShown_ok hv hweight, hy]
    rfl
  | genesys k =>
    obtain ⟨p, -, rfl⟩ := Operand.read_ok (on_liftM_ok h).1
    exact described_thrown hwithin hw

/-- What a binary operation made can be described. -/
theorem described_binary (b : Binary) (hl : l.Ready) (hr : r.Ready) (hw : l.weight + r.weight + growth ≤ showable)
    (cap : Int) : (b.apply cap l r).Yields fun op => Record.Described ⟨op, [l, r]⟩ := by
  intro s op s' h
  have hwithin := b.apply_within hl hr cap h
  cases b with
  | operator q =>
    rcases Operand.combined_ok (on_liftM_ok h).1 with
      ⟨x, y, z, hx, hy, -, rfl⟩ | ⟨p, q, pool, -, -, -, -, rfl⟩
    · have hz : z.shown = .ok z.text := Value.shown_ok (Nat.le_trans hwithin.weight hw)
      change describe [l, r] _ = _
      rw [describe, valueShown_ok hx (by omega), valueShown_ok hy (by omega), hz]
      rfl
    · have hpool : pool.shown = .ok pool.text :=
        Pool.shown_ok (hwithin.sound.pools _ List.mem_cons_self) (hwithin.asked _ List.mem_cons_self)
          (Nat.le_trans (Nat.le_add_right _ _) (Nat.le_trans hwithin.weight hw))
      change describe [l, r] _ = _
      rw [describe, hpool]
      rfl
  | dice =>
    obtain ⟨counts, sides, pool, -, -, -, rfl⟩ := Operand.rolled_ok h
    exact described_thrown hwithin hw
  | pool q =>
    obtain ⟨pool, arg, change, -, -, -, rfl⟩ := Operand.changed_ok h
    exact described_thrown hwithin hw
  | conversion c =>
    obtain ⟨arg, p, -, -, rfl⟩ := Operand.counted_ok (on_liftM_ok h).1
    exact described_thrown hwithin hw

/-! ### Steps -/

/-- A binary operation with checked dice. -/
def apply (cap : Int) (l r : Operand) : Binary → Rolling Operation
  | .pool op => changed op cap l r
  | b => b.apply cap l r

theorem apply_eq (b : Binary) (hl : l.Ready) (cap : Int) : apply cap l r b = b.apply cap l r := by
  cases b with
  | pool op =>
    have hpool : (liftM l.toPool : Rolling Pool).Yields Pool.Sound := .liftM fun p hp => hl.sound.toPool hp
    refine bind_congr_of_yields hpool fun p hp => bind_congr fun arg => ?_
    rw [op.mode.applyChecked_eq hp]
  | operator | dice | conversion => rfl

namespace Machine

variable {m : Machine} {missing : Error} {operands stack : List Operand} {f : Rolling Operation}

/-- All entries of the log can be described. -/
def Described (m : Machine) : Prop := ∀ r ∈ m.log, r.Described

theorem run_eq (hoperands : ∀ o ∈ operands, o.Ready) (hf : f.Yields (Operation.Within n)) (hn : n ≤ showable) :
    m.run operands stack f = (do
      let op ← f
      pure ⟨op.operand :: stack, m.log ++ [⟨op, operands⟩]⟩) := by
  have hcopies : operands.mapM Operand.copies = .ok (operands.map Operand.pools) :=
    mapM_ok fun o ho => (hoperands o ho).sound.copies
  rw [run, liftM_ok hcopies, pure_bind]
  refine bind_congr_of_yields hf fun op hop => ?_
  rw [liftM_ok hop.sound.remade, pure_bind, liftM_ok (left_ok hop hn), pure_bind]

/-- An operation that is run as the plain machine runs it, and that can be described. -/
theorem run_plain (hm : m.Described) (hoperands : ∀ o ∈ operands, o.Ready) (hf : f.Yields (Operation.Within n))
    (hn : n ≤ showable) (hdescribed : f.Yields fun op => Record.Described ⟨op, operands⟩) :
    plain <$> m.run operands stack f = (do
        let op ← f
        pure ⟨op.operand :: stack, m.plain.log ++ [op]⟩) ∧
      (m.run operands stack f).Yields Described := by
  rw [run_eq hoperands hf hn]
  refine ⟨?_, hdescribed.bind fun op hop => .pure ?_⟩
  · rw [map_bind]
    refine bind_congr fun op => ?_
    rw [map_pure, plain, List.map_append]
    rfl
  · exact List.forall_mem_append.2 ⟨hm, List.forall_mem_singleton.2 hop⟩

variable (hm : m.Described) (hplain : m.plain.Within n) (hn : n + growth ≤ showable)

include hm hplain hn

theorem unary_plain (u : Unary) :
    plain <$> (m.unary missing fun o => u.apply o) = (m.plain.unary missing fun o => u.apply o) ∧
      (m.unary missing fun o => u.apply o).Yields Described := by
  obtain ⟨stack, log⟩ := m
  cases stack with
  | nil => exact ⟨rfl, .throw _⟩
  | cons o stack =>
    have ho : o.Ready := hplain.ready o List.mem_cons_self
    have hw : o.weight + growth ≤ showable := by
      have : o.weight ≤ n := hplain.weight_le List.mem_cons_self
      omega
    exact run_plain hm (List.forall_mem_singleton.2 ho) (u.apply_within ho) hw (described_unary u ho hw)

theorem binary_plain (b : Binary) (cap : Int) :
    plain <$> (m.binary missing fun l r => apply cap l r b) = (m.plain.binary missing fun l r => b.apply cap l r) ∧
      (m.binary missing fun l r => apply cap l r b).Yields Described := by
  obtain ⟨stack, log⟩ := m
  rcases stack with _ | ⟨r, _ | ⟨l, stack⟩⟩
  · exact ⟨rfl, .throw _⟩
  · exact ⟨rfl, .throw _⟩
  · have hr : r.Ready := hplain.ready r List.mem_cons_self
    have hl : l.Ready := hplain.ready l (List.mem_cons_of_mem _ List.mem_cons_self)
    have hw : l.weight + r.weight + growth ≤ showable := by
      have hweight : ((r :: l :: stack).map Operand.weight).sum ≤ n := hplain.weight
      rw [List.map_cons, List.map_cons, List.sum_cons, List.sum_cons] at hweight
      omega
    have hoperands : ∀ o ∈ [l, r], o.Ready := by
      simp only [List.forall_mem_cons]
      exact ⟨hl, hr, List.forall_mem_nil _⟩
    unfold binary
    dsimp only
    rw [apply_eq b hl]
    exact run_plain hm hoperands (b.apply_within hl hr cap) hw (described_binary b hl hr hw cap)

/-- A step with every check is a step of the plain machine. -/
theorem step_plain (t : Token) (cap : Int) :
    plain <$> step cap m t = Tabletop.Machine.step cap m.plain t ∧ (step cap m t).Yields Described := by
  cases t with
  | argument a => exact ⟨rfl, .pure hm⟩
  | number x written => exact ⟨rfl, .pure hm⟩
  | negate => exact unary_plain hm hplain hn .negate
  | function f => exact unary_plain hm hplain hn (.function f)
  | genesys k => exact unary_plain hm hplain hn (.genesys k)
  | binary op => exact binary_plain hm hplain hn (.operator op) cap
  | dice => exact binary_plain hm hplain hn .dice cap
  | pool op => exact binary_plain hm hplain hn (.pool op) cap
  | conversion c => exact binary_plain hm hplain hn (.conversion c) cap
  | opening b => exact ⟨rfl, .throw _⟩
  | closing b => exact ⟨rfl, .throw _⟩
  | blank => exact ⟨rfl, .throw _⟩

end Machine

/-- The checks change nothing in a run of any tokens, as long as everything it may come to can be shown. -/
theorem foldlM_plain {ts : List Token} (hts : ∀ t ∈ ts, t.Bounded) {m : Machine} (hm : m.Described)
    (hplain : m.plain.Within n) (hn : n + growth * ts.length ≤ showable) (cap : Int) :
    Machine.plain <$> ts.foldlM (Machine.step cap) m = ts.foldlM (Tabletop.Machine.step cap) m.plain ∧
      (ts.foldlM (Machine.step cap) m).Yields Machine.Described := by
  induction ts generalizing m n with
  | nil => exact ⟨map_pure _ _, .pure hm⟩
  | cons t ts ih =>
    obtain ⟨ht, hts⟩ := List.forall_mem_cons.1 hts
    rw [List.length_cons, Nat.mul_succ] at hn
    obtain ⟨hstep, hdescribed⟩ := Machine.step_plain hm hplain (by omega) t cap
    have hwithin : (Machine.step cap m t).Yields fun m' => m'.plain.Within (n + growth) := by
      refine Yields.of_map ?_
      rw [hstep]
      exact hplain.step ht cap
    have hboth : (Machine.step cap m t).Yields fun m' => m'.Described ∧ m'.plain.Within (n + growth) :=
      fun _ _ _ h => ⟨hdescribed h, hwithin h⟩
    rw [List.foldlM_cons, List.foldlM_cons]
    refine ⟨?_, hboth.bind fun m' hm' => (ih hts hm'.1 hm'.2 (by omega)).2⟩
    rw [map_bind, ← hstep, bind_map_left]
    exact bind_congr_of_yields hboth fun m' hm' => (ih hts hm'.1 hm'.2 (by omega)).1

end Guarded

end Tabletop
