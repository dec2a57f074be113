import WasmText.Module.Draft

/-!
# Reading bodies in one context

The readers of a body pass a scope on to what they hold. Live readers share one context: they push a
label and pop it, go one level deeper and come back, and add the instructions they read to those
that were read before. Each of them takes the spans of the flat blocks and the folded instructions
that it stands in, innermost first.

Every change is recorded, and those that were made before a failure stay.
-/

namespace WasmText.LiveBody

/-- What reading a body looks at and changes. -/
structure Context where
  /-- The names of a module's entities; those of its types are in the draft. -/
  spaces : Spaces
  /-- The module that is being read, with the types so far. -/
  draft : Draft
  locals : Names
  localTypes : List ValType
  labels : Labels
  depth : Nat

namespace Context

def scope (c : Context) : Scope := ⟨c.spaces, c.locals, c.labels, c.depth⟩

def withTypes (c : Context) (types : TypeTable) : Context :=
  { c with draft := { c.draft with types } }

end Context

/-- A moment of reading: what is open, innermost first, and the context. -/
structure Moment where
  opened : List Span
  context : Context

/-- The moments up to now, the last one first. -/
structure History where
  now : Moment
  before : List Moment

namespace History

/-- Nothing is open when reading starts. -/
def start (c : Context) : History := ⟨⟨[], c⟩, []⟩

def moments (h : History) : List Moment := h.now :: h.before

end History

/-- Reading with a context, which is there after a failure as well. -/
abbrev Live := EStateM Problem History

instance : MonadLift (Except Problem) Live where
  monadLift
    | .ok a => pure a
    | .error p => throw p

/-! ## Changes of the context -/

def context : Live Context := return (← get).now.context

/-- Changes the context while some blocks and instructions are open. -/
def record (opened : List Span) (c : Context) : Live Unit :=
  modify fun h => ⟨⟨opened, c⟩, h.moments⟩

/-- Opens the block or instruction at `span`. -/
def descend (opened : List Span) (span : Span) : Live Unit := do
  let c ← context
  if Scope.maxNesting ≤ c.depth then throw ⟨.instructionsTooDeep, span⟩
  else record (span :: opened) { c with depth := c.depth + 1 }

/-- Comes back to where only `opened` is open. -/
def ascend (opened : List Span) : Live Unit := do
  let c ← context
  record opened { c with depth := c.depth - 1 }

def push (opened : List Span) (kind : LabelKind) (name : Option String) (sig : ValType) :
    Live Unit := do
  let c ← context
  record opened { c with labels := c.labels.push kind name sig }

def pop (opened : List Span) : Live Unit := do
  let c ← context
  record opened { c with labels := c.labels.pop.2 }

def enterElse (opened : List Span) (span : Span) : Live Unit := do
  let c ← context
  let labels ← c.labels.enterElse span
  record opened { c with labels }

/-- Reads an instruction that holds no others, which may add a type. -/
def plain (opened : List Span) (op : Opcode) (span : Span) (items : List Form) :
    Live (Plain × Nat) := do
  let c ← context
  let (read, types) ← (Plain.read c.scope op span items).run c.draft.types
  record opened (c.withTypes types)
  return read

/-! ## Sequences -/

mutual

/-- Adds the instructions up to an `end`, an `else` or the end of the list. -/
def sequence (opened : List Span) (out : List Instr) : List Form → Live (List Instr × Nat)
  | [] => return (out, 0)
  | .list span items :: rest => do
    let out ← folded opened out (.list span items)
    let (out, n) ← sequence opened out rest
    return (out, n + 1)
  | .atom t :: rest =>
    match t.kind with
    | .opcode .endOp | .opcode .elseOp => return (out, 0)
    | .opcode op =>
      match BlockKind.ofOpcode? op with
      | some kind => do
        let (out, n) ← flat opened out kind t.span rest
        let (out, m) ← sequence opened out (rest.drop n)
        return (out, n + m + 1)
      | none => do
        let (p, n) ← plain opened op t.span rest
        let (out, m) ← sequence opened (out ++ [.plain p t.span]) (rest.drop n)
        return (out, n + m + 1)
    | _ => throw ((Form.atom t).unexpected .instruction)
termination_by items => 2 * sizeOf items
decreasing_by
  all_goals
    grind [sizeOf_drop_le, List.cons.sizeOf_spec, Form.list.sizeOf_spec, Form.atom.sizeOf_spec]

/-- Adds a flat block after its word, which stands at `span`. -/
def flat (opened : List Span) (out : List Instr) (kind : BlockKind) (span : Span)
    (items : List Form) : Live (List Instr × Nat) := do
  let (name, sig, n) ← (Block.header items : Except _ _)
  descend opened span
  push (span :: opened) kind.label name sig
  let (body, m) ← sequence (span :: opened) [] (items.drop n)
  let (elseBody, k) ← otherArm (span :: opened) kind name (items.drop (n + m))
  let last ← Block.flatEnd name span (items.drop (n + m + k))
  pop (span :: opened)
  ascend opened
  return (out ++ [kind.toInstr name sig body elseBody span], n + m + k + last)
termination_by 2 * sizeOf items + 1
decreasing_by
  all_goals
    grind [sizeOf_drop_le, List.cons.sizeOf_spec, Form.list.sizeOf_spec, Form.atom.sizeOf_spec]

/-- The other arm of a flat block, if an `else` comes next. -/
def otherArm (opened : List Span) (kind : BlockKind) (name : Option String) :
    List Form → Live (List Instr × Nat)
  | [] => return ([], 0)
  | f :: rest =>
    if f.opcode? = some .elseOp then do
      if kind ≠ .cond then throw ⟨.unexpected "\"else\"", f.span⟩
      let n ← Block.repeatedLabel name rest
      enterElse opened f.span
      let (body, m) ← sequence opened [] (rest.drop n)
      return (body, 1 + n + m)
    else return ([], 0)
termination_by items => 2 * sizeOf items
decreasing_by
  all_goals
    grind [sizeOf_drop_le, List.cons.sizeOf_spec, Form.list.sizeOf_spec, Form.atom.sizeOf_spec]

/-- Adds a folded instruction, after its operands. -/
def folded (opened : List Span) (out : List Instr) (f : Form) : Live (List Instr) := do
  descend opened f.span
  let out ← form (f.span :: opened) out f
  ascend opened
  return out
termination_by 2 * sizeOf f + 1

/-- Adds what is in the form of a folded instruction. -/
def form (opened : List Span) (out : List Instr) : Form → Live (List Instr)
  | .atom t => throw ((Form.atom t).unexpected .instruction)
  | .list span items =>
    match items.head?.bind Form.opcode? with
    | none => throw ((Form.list span items).unexpected .instruction)
    | some .endOp => throw ⟨.unexpected "\"end\"", span⟩
    | some .elseOp => throw ⟨.unexpected "\"else\"", span⟩
    | some op =>
      match BlockKind.ofOpcode? op with
      | none => do
        let (p, n) ← plain opened op span (items.drop 1)
        let groups ← operands opened (items.drop (n + 1))
        Operand.check op p groups span
        return out ++ groups.flatten ++ [.plain p span]
      | some .cond => do
        let (name, sig, n) ← (Block.header (items.drop 1) : Except _ _)
        conditional opened out [] name sig span (items.drop (n + 1))
      | some kind => do
        let (name, sig, n) ← (Block.header (items.drop 1) : Except _ _)
        push opened kind.label name sig
        let body ← whole opened (items.drop (n + 1))
        pop opened
        return out ++ [kind.toInstr name sig body [] span]
termination_by f => 2 * sizeOf f
decreasing_by
  all_goals
    grind [sizeOf_drop_le, List.cons.sizeOf_spec, Form.list.sizeOf_spec, Form.atom.sizeOf_spec]

/-- The operands of a folded instruction. -/
def operands (opened : List Span) : List Form → Live (List (List Instr))
  | [] => return []
  | .atom t :: _ => throw ((Form.atom t).unexpected .operand)
  | .list span items :: rest => do
    let group ← folded opened [] (.list span items)
    return group :: (← operands opened rest)
termination_by items => 2 * sizeOf items

/-- Adds a folded conditional after its label and type; `condition` is what was read of its
condition. -/
def conditional (opened : List Span) (out condition : List Instr) (name : Option String)
    (sig : ValType) (span : Span) : List Form → Live (List Instr)
  | [] => throw ⟨.expected .thenForm Form.closingText, span⟩
  | f :: rest =>
    if f.isHeadedBy .thenKw then do
      push opened .ifArm name sig
      let body ← arm opened f
      match rest with
      | [] =>
        pop opened
        return out ++ condition ++ [.cond name sig body [] span]
      | g :: rest =>
        if g.headOpcode? = some .elseOp then do
          enterElse opened g.span
          let elseBody ← arm opened g
          Form.noMore rest
          pop opened
          return out ++ condition ++ [.cond name sig body elseBody span]
        else throw (g.unexpected .closing)
    else do
      let group ← folded opened [] f
      Operand.checkValue .ifOp group
      conditional opened out (condition ++ group) name sig span rest
termination_by items => 2 * sizeOf items

/-- The body in a `then` or `else` form. -/
def arm (opened : List Span) : Form → Live (List Instr)
  | .atom _ => return []
  | .list _ items => whole opened (items.drop 1)
termination_by f => 2 * sizeOf f
decreasing_by simp only [Form.list.sizeOf_spec]; grind [sizeOf_drop_le]

/-- A whole body. -/
def whole (opened : List Span) (items : List Form) : Live (List Instr) := do
  let (body, n) ← sequence opened [] items
  Body.finish (items.drop n)
  return body
termination_by 2 * sizeOf items + 1

end

end WasmText.LiveBody
