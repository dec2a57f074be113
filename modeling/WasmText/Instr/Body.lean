import WasmText.Instr.Immediate

/-!
# Bodies

A body mixes two notations. A flat block runs from its word to an `end`, with an `else` between the
arms of a conditional. A folded instruction is a list: its operands stand inside and come out before
it; a folded block holds its body, and a folded conditional its condition, a `then` form and perhaps
an `else` form.

Each flat block and each folded instruction is one level of nesting, and a body has at most
`maxNesting`. A block's label is in scope in what it holds, not in a conditional's condition.

The readers look at the items of a list from some place on and answer how many they take.
-/

namespace WasmText

namespace Scope

/-- Instructions nest at most this deep. -/
def maxNesting : Nat := 128

/-- The scope one level deeper; `span` is the span to blame if that is too deep. -/
def descend (sc : Scope) (span : Span) : Except Problem Scope :=
  if maxNesting ≤ sc.depth then .error ⟨.instructionsTooDeep, span⟩
  else .ok { sc with depth := sc.depth + 1 }

/-- The scope inside a block. -/
def enter (sc : Scope) (kind : LabelKind) (name : Option String) (sig : ValType) : Scope :=
  { sc with labels := sc.labels.push kind name sig }

/-- The scope in the other arm of the conditional that `sc` is inside of. -/
def enterElse (sc : Scope) (span : Span) : Except Problem Scope :=
  return { sc with labels := ← sc.labels.enterElse span }

end Scope

/-! ## Block headers -/

/-- The three instructions that hold others. -/
inductive BlockKind
  | block | loop | cond
deriving DecidableEq, Repr

namespace BlockKind

def ofOpcode? : Opcode → Option BlockKind
  | .block => some block
  | .loop => some loop
  | .ifOp => some cond
  | _ => none

def label : BlockKind → LabelKind
  | block => .block
  | loop => .loop
  | cond => .ifArm

/-- The instruction with a body, and the body of its other arm. -/
def toInstr (kind : BlockKind) (name : Option String) (sig : ValType) (body elseBody : List Instr)
    (span : Span) : Instr :=
  match kind with
  | block => .block name sig body span
  | loop => .loop name sig body span
  | cond => .cond name sig body elseBody span

end BlockKind

namespace Block

/-- The result type at the front of some forms, `void` if there is none, and how many forms it
takes. -/
def sig (items : List Form) : Except Problem (ValType × Nat) :=
  match items.head? with
  | none => .ok (.void, 0)
  | some f =>
    match f.valType? with
    | some _ => return (← f.valueType, 1)
    | none =>
      match f.headKeyword? with
      | some .resultKw =>
        match f.args with
        | [] => .ok (.void, 1)
        | [type] => return (← type.valueType, 1)
        | _ => .error ⟨.severalResults, f.span⟩
      | some .paramKw => .error ⟨.blockParameters, f.span⟩
      | _ => .ok (.void, 0)

/-- The label and the result type at the front of some forms, and how many forms they take. -/
def header (items : List Form) : Except Problem (Option String × ValType × Nat) := do
  let name := items.head?.bind Form.id?
  let n := if name.isSome then 1 else 0
  let (type, m) ← sig (items.drop n)
  return (name, type, n + m)

/-- The label repeated after an `else` or `end`, which has to be the block's. Answers how many forms
it takes. -/
def repeatedLabel (name : Option String) (items : List Form) : Except Problem Nat :=
  match items.head? with
  | none => .ok 0
  | some f =>
    match f.id?, name with
    | none, _ => .ok 0
    | some found, some expected =>
      if found = expected then .ok 1 else .error ⟨.labelMismatch found expected, f.span⟩
    | some found, none => .error ⟨.unexpectedLabel found, f.span⟩

/-- The `end` of a flat block that starts at `span`, and its label. Answers how many forms they
take. -/
def flatEnd (name : Option String) (span : Span) : List Form → Except Problem Nat
  | [] => .error ⟨.expected .endWord Form.closingText, span⟩
  | f :: items =>
    if f.opcode? = some .endOp then return 1 + (← repeatedLabel name items)
    else .error (f.unexpected .endWord)

end Block

/-! ## Operands -/

namespace Operand

/-- An operand may not end in an instruction that leaves no value. -/
def checkValue (op : Opcode) (group : List Instr) : Except Problem Unit :=
  match group.getLast? with
  | some last =>
    if last.yields? = some false then .error ⟨.noValue last.opcode op, last.span⟩ else .ok ()
  | none => .ok ()

/-- Operands leave values, and if any are written there are as many as the instruction takes. -/
def check (op : Opcode) (p : Plain) (groups : List (List Instr)) (span : Span) :
    Except Problem Unit := do
  groups.forM (checkValue op)
  match p.operands? with
  | some arity =>
    if !groups.isEmpty ∧ groups.length ≠ arity then
      throw ⟨.operandCount op arity groups.length, span⟩
  | none => return ()

end Operand

/-! ## Sequences -/

theorem sizeOf_drop_le (n : Nat) (items : List Form) : sizeOf (items.drop n) ≤ sizeOf items := by
  induction items generalizing n with
  | nil => simp
  | cons f items ih =>
    cases n with
    | zero => exact Nat.le_refl _
    | succ n =>
      have := ih n
      simp only [List.drop_succ_cons, List.cons.sizeOf_spec]
      omega

namespace Body

/-- Nothing may be left of a body but instructions. -/
def finish (items : List Form) : Except Problem Unit :=
  match items with
  | [] => .ok ()
  | f :: _ => .error ⟨.unexpected f.describe, f.span⟩

mutual

/-- The instructions up to an `end`, an `else` or the end of the list. -/
def sequence (sc : Scope) : List Form → Elab (List Instr × Nat)
  | [] => return ([], 0)
  | .list span items :: rest => do
    let front ← folded sc (.list span items)
    let (others, n) ← sequence sc rest
    return (front ++ others, n + 1)
  | .atom t :: rest =>
    match t.kind with
    | .opcode .endOp | .opcode .elseOp => return ([], 0)
    | .opcode op =>
      match BlockKind.ofOpcode? op with
      | some kind => do
        let (i, n) ← flat sc kind t.span rest
        let (others, m) ← sequence sc (rest.drop n)
        return (i :: others, n + m + 1)
      | none => do
        let (p, n) ← Plain.read sc op t.span rest
        let (others, m) ← sequence sc (rest.drop n)
        return (.plain p t.span :: others, n + m + 1)
    | _ => throw ((Form.atom t).unexpected .instruction)
termination_by items => 2 * sizeOf items
decreasing_by
  all_goals
    grind [sizeOf_drop_le, List.cons.sizeOf_spec, Form.list.sizeOf_spec, Form.atom.sizeOf_spec]

/-- A flat block after its word, which stands at `span`. -/
def flat (sc : Scope) (kind : BlockKind) (span : Span) (items : List Form) :
    Elab (Instr × Nat) := do
  let (name, sig, n) ← (Block.header items : Except _ _)
  let inner := (← sc.descend span).enter kind.label name sig
  let (body, m) ← sequence inner (items.drop n)
  let (elseBody, k) ← otherArm inner kind name (items.drop (n + m))
  let last ← Block.flatEnd name span (items.drop (n + m + k))
  return (kind.toInstr name sig body elseBody span, n + m + k + last)
termination_by 2 * sizeOf items + 1
decreasing_by
  all_goals
    grind [sizeOf_drop_le, List.cons.sizeOf_spec, Form.list.sizeOf_spec, Form.atom.sizeOf_spec]

/-- The other arm of a flat block, which only a conditional has, if an `else` comes next. -/
def otherArm (sc : Scope) (kind : BlockKind) (name : Option String) :
    List Form → Elab (List Instr × Nat)
  | [] => return ([], 0)
  | f :: rest =>
    if f.opcode? = some .elseOp then do
      if kind ≠ .cond then throw ⟨.unexpected "\"else\"", f.span⟩
      let n ← Block.repeatedLabel name rest
      let (body, m) ← sequence (← sc.enterElse f.span) (rest.drop n)
      return (body, 1 + n + m)
    else return ([], 0)
termination_by items => 2 * sizeOf items
decreasing_by
  all_goals
    grind [sizeOf_drop_le, List.cons.sizeOf_spec, Form.list.sizeOf_spec, Form.atom.sizeOf_spec]

/-- A folded instruction, after its operands. -/
def folded (sc : Scope) (f : Form) : Elab (List Instr) := do
  let sc ← sc.descend f.span
  match f with
  | .atom t => throw ((Form.atom t).unexpected .instruction)
  | .list span items =>
    match items.head?.bind Form.opcode? with
    | none => throw ((Form.list span items).unexpected .instruction)
    | some .endOp => throw ⟨.unexpected "\"end\"", span⟩
    | some .elseOp => throw ⟨.unexpected "\"else\"", span⟩
    | some op =>
      match BlockKind.ofOpcode? op with
      | none => do
        let (p, n) ← Plain.read sc op span (items.drop 1)
        let groups ← operands sc (items.drop (n + 1))
        Operand.check op p groups span
        return groups.flatten ++ [.plain p span]
      | some .cond => do
        let (name, sig, n) ← (Block.header (items.drop 1) : Except _ _)
        conditional sc name sig span (items.drop (n + 1))
      | some kind => do
        let (name, sig, n) ← (Block.header (items.drop 1) : Except _ _)
        let body ← whole (sc.enter kind.label name sig) (items.drop (n + 1))
        return [kind.toInstr name sig body [] span]
termination_by 2 * sizeOf f
decreasing_by
  all_goals
    grind [sizeOf_drop_le, List.cons.sizeOf_spec, Form.list.sizeOf_spec, Form.atom.sizeOf_spec]

/-- The operands of a folded instruction. -/
def operands (sc : Scope) : List Form → Elab (List (List Instr))
  | [] => return []
  | .atom t :: _ => throw ((Form.atom t).unexpected .operand)
  | .list span items :: rest => do
    let group ← folded sc (.list span items)
    return group :: (← operands sc rest)
termination_by items => 2 * sizeOf items

/-- A folded conditional after its label and type: the condition, which comes out before it, and its
arms. -/
def conditional (sc : Scope) (name : Option String) (sig : ValType) (span : Span) :
    List Form → Elab (List Instr)
  | [] => throw ⟨.expected .thenForm Form.closingText, span⟩
  | f :: rest =>
    if f.isHeadedBy .thenKw then do
      let sc := sc.enter .ifArm name sig
      let body ← arm sc f
      match rest with
      | [] => return [.cond name sig body [] span]
      | g :: rest =>
        if g.headOpcode? = some .elseOp then do
          let elseBody ← arm (← sc.enterElse g.span) g
          Form.noMore rest
          return [.cond name sig body elseBody span]
        else throw (g.unexpected .closing)
    else do
      let group ← folded sc f
      Operand.checkValue .ifOp group
      return group ++ (← conditional sc name sig span rest)
termination_by items => 2 * sizeOf items

/-- The body in a `then` or `else` form. -/
def arm (sc : Scope) : Form → Elab (List Instr)
  | .atom _ => return []
  | .list _ items => whole sc (items.drop 1)
termination_by f => 2 * sizeOf f
decreasing_by simp only [Form.list.sizeOf_spec]; grind [sizeOf_drop_le]

/-- A whole body. -/
def whole (sc : Scope) (items : List Form) : Elab (List Instr) := do
  let (body, n) ← sequence sc items
  finish (items.drop n)
  return body
termination_by 2 * sizeOf items + 1

end

end Body

end WasmText
