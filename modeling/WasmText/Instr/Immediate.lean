import WasmText.Instr
import WasmText.Label
import WasmText.Module.TypeUse

/-!
# Immediates

What follows an instruction word and belongs to it: labels, indices, types, a number, or an offset
and an alignment. Each reader looks at the forms after the word and answers how many it takes.

A load or store without alignment gets the natural one. A written alignment is a power of two and no
larger than that, so none can be mistaken for a missing one.
-/

namespace WasmText

/-- What names and labels mean at a place in a body, and how deep the place is nested. -/
structure Scope where
  spaces : Spaces
  locals : Names
  labels : Labels
  depth : Nat

namespace Immediate

/-- The depth of the label that a branch aims at; `span` is the branch's. -/
def label (labels : Labels) (span : Span) : Option Form → Except Problem Nat
  | none => .error ⟨.expected .label Form.closingText, span⟩
  | some f =>
    match f.id? with
    | some name => labels.depthOf name f.span
    | none =>
      match f.number? with
      | some t => do
        let depth ← Form.natural t.text t.span
        discard <| labels.atDepth depth t.span
        return depth
      | none => .error (f.unexpected .label)

/-- The targets of a branch table: a label, and all names and integers after it. -/
def labelTable (labels : Labels) (span : Span) (items : List Form) :
    Except Problem (List Nat × Nat) := do
  let first ← label labels span items.head?
  let others ← (items.tail.takeWhile Form.isReference).mapM fun f => label labels span (some f)
  return (first :: others, others.length + 1)

/-- The type of an indirect call: a reference or a type use that is not empty. -/
def indirectType (span : Span) (items : List Form) : Elab (Nat × Nat) := do
  match items.head?.filter Form.isReference with
  | some f =>
    let table ← get
    let index ← table.names.resolve .type span (some f)
    return (index, 1)
  | none =>
    let (use, n) ← TypeUse.read false items
    if n = 0 then
      throw ⟨.expected .typeUse ((items.head?.map Form.describe).getD Form.closingText), span⟩
    return (use.index, n)

/-- The number of a constant. -/
def const (op : Opcode) (span : Span) : Option Form → Except Problem Const
  | none => .error ⟨.expected .number Form.closingText, span⟩
  | some f =>
    match f.number? with
    | none => .error (f.unexpected .number)
    | some t =>
      match Numeral.ofText t.text with
      | .error e => .error ⟨.numeral e, t.span⟩
      | .ok n =>
        if op.result.isInt ∧ n.kind ≠ .int then
          .error ⟨.needsInteger op n.kind t.text, t.span⟩
        else .ok ⟨op.result, n⟩

/-! ## Memory access -/

/-- The text after the first `=`. -/
def afterEquals (text : String) : String :=
  match text.toList.dropWhile (· != '=') with
  | [] => text
  | _ :: value => String.ofList value

/-- The token of a form that is an immediate of a given kind. -/
def keyed? (kind : TokenKind) : Option Form → Option Token
  | some (.atom t) => if t.kind = kind then some t else none
  | _ => none

/-- The offset at the front of some forms, 0 if there is none, and how many forms it takes. -/
def offset (items : List Form) : Except Problem (Nat × Nat) :=
  match keyed? .offsetEq items.head? with
  | some t => return (← Form.natural (afterEquals t.text) t.span, 1)
  | none => .ok (0, 0)

/-- The alignment at the front of some forms, the natural one if there is none, and how many forms
it takes. -/
def align (op : Opcode) (items : List Form) : Except Problem (Nat × Nat) :=
  match keyed? .alignEq items.head? with
  | none => .ok (op.naturalAlign, 0)
  | some t => do
    let requested ← Form.natural (afterEquals t.text) t.span
    if !Opcode.isPowerOfTwo requested then throw ⟨.alignNotPower requested, t.span⟩
    if !op.isAligned requested then throw ⟨.alignTooLarge op.naturalAlign, t.span⟩
    return (op.resolveAlign requested, 1)

/-- The offset and alignment of a load or store. -/
def memArg (op : Opcode) (items : List Form) : Except Problem (MemArg × Nat) := do
  let (offset, n) ← offset items
  let (align, m) ← align op (items.drop n)
  return (⟨align, offset⟩, n + m)

end Immediate

namespace Plain

open Immediate

/-- Reads an instruction that holds no others: its immediates stand at the front of `items`, and
`span` is the span to blame for one that is missing. -/
def read (sc : Scope) (op : Opcode) (span : Span) (items : List Form) : Elab (Plain × Nat) :=
  let one {α : Type} (make : α → Plain) (r : Except Problem α) : Elab (Plain × Nat) :=
    return (make (← r), 1)
  let localVar := Names.resolve .localVar sc.locals span items.head?
  let global := Names.resolve .global sc.spaces.globals span items.head?
  match op with
  | .unreachable => return (.unreachable, 0)
  | .nop => return (.nop, 0)
  | .drop => return (.drop, 0)
  | .select => return (.select, 0)
  | .ret => return (.ret, 0)
  | .currentMemory => return (.currentMemory, 0)
  | .growMemory => return (.growMemory, 0)
  | .br => one .br (label sc.labels span items.head?)
  | .brIf => one .brIf (label sc.labels span items.head?)
  | .brTable => do
    let (targets, n) ← (labelTable sc.labels span items : Except _ _)
    return (.brTable targets.dropLast (targets.getLast?.getD 0), n)
  | .call => one .call (Names.resolve .func sc.spaces.funcs span items.head?)
  | .callIndirect => do
    let (type, n) ← indirectType span items
    return (.callIndirect type, n)
  | .getLocal => one .getLocal localVar
  | .setLocal => one .setLocal localVar
  | .teeLocal => one .teeLocal localVar
  | .getGlobal => one .getGlobal global
  | .setGlobal => one .setGlobal global
  | _ =>
    if op.isConst then one .const (Immediate.const op span items.head?)
    else if op.isLoad then do
      let (arg, n) ← (memArg op items : Except _ _)
      return (.load op arg, n)
    else if op.isStore then do
      let (arg, n) ← (memArg op items : Except _ _)
      return (.store op arg, n)
    else
      match numeric? op with
      | some p => return (p, 0)
      | none => throw ⟨.unexpected ("\"" ++ op.name ++ "\""), span⟩

end Plain

end WasmText
