import WasmText.Opcode
import WasmText.Numeral.Basic
import WasmText.Source.Span

/-!
# Instructions

Bodies are sequences of instructions in the order a stack machine runs them: the operands of an
instruction come before it, however they were written. Only blocks, loops and conditionals hold
further instructions.

`Instr.preorder` lists every instruction of a body, a block before what it holds.
-/

namespace WasmText

/-- A constant: its type and its numeral as written. -/
structure Const where
  type : ValType
  numeral : Numeral
deriving DecidableEq, Repr

/-- Where a load or store accesses memory. The alignment is in bytes. -/
structure MemArg where
  align : Nat
  offset : Nat
deriving DecidableEq, Repr

/-- An instruction that holds no others. Branch depths count labels from the innermost. -/
inductive Plain
  | unreachable | nop | drop | select | ret | currentMemory | growMemory
  | br (depth : Nat)
  | brIf (depth : Nat)
  | brTable (targets : List Nat) (default : Nat)
  | call (func : Nat)
  | callIndirect (type : Nat)
  | getLocal (index : Nat)
  | setLocal (index : Nat)
  | teeLocal (index : Nat)
  | getGlobal (index : Nat)
  | setGlobal (index : Nat)
  | load (op : Opcode) (arg : MemArg)
  | store (op : Opcode) (arg : MemArg)
  | const (value : Const)
  | unary (op : Opcode)
  | binary (op : Opcode)
  | compare (op : Opcode)
  | convert (op : Opcode)
deriving DecidableEq, Repr

/-- An instruction with the span it was written in. The type of a block is `void` if it leaves no
value. -/
inductive Instr
  | plain (op : Plain) (span : Span)
  | block (label : Option String) (sig : ValType) (body : List Instr) (span : Span)
  | loop (label : Option String) (sig : ValType) (body : List Instr) (span : Span)
  | cond (label : Option String) (sig : ValType) (thenBody elseBody : List Instr) (span : Span)
deriving Repr

namespace Plain

/-- The constant instruction of a type. -/
def constOpcode : ValType → Opcode
  | .i64 => .i64Const
  | .f32 => .f32Const
  | .f64 => .f64Const
  | _ => .i32Const

def opcode : Plain → Opcode
  | unreachable => .unreachable
  | nop => .nop
  | drop => .drop
  | select => .select
  | ret => .ret
  | currentMemory => .currentMemory
  | growMemory => .growMemory
  | br _ => .br
  | brIf _ => .brIf
  | brTable .. => .brTable
  | call _ => .call
  | callIndirect _ => .callIndirect
  | getLocal _ => .getLocal
  | setLocal _ => .setLocal
  | teeLocal _ => .teeLocal
  | getGlobal _ => .getGlobal
  | setGlobal _ => .setGlobal
  | load op _ | store op _ | unary op | binary op | compare op | convert op => op
  | const value => constOpcode value.type

/-- Whether the instruction leaves a value; `none` where that depends on what surrounds it. -/
def yields? : Plain → Option Bool
  | nop | drop | setLocal _ | setGlobal _ | store .. => some false
  | unreachable | ret | br _ | brIf _ | brTable .. | call _ | callIndirect _ => none
  | _ => some true

/-- The number of operands the instruction takes, where that is fixed. -/
def operands? : Plain → Option Nat
  | nop | getLocal _ | getGlobal _ | currentMemory => some 0
  | drop | setLocal _ | teeLocal _ | setGlobal _ => some 1
  | select => some 3
  | unreachable | ret | br _ | brIf _ | brTable .. | call _ | callIndirect _ => none
  | p => some p.opcode.arity

/-- The instruction for a comparison, an arithmetic operation or a conversion. -/
def numeric? (op : Opcode) : Option Plain :=
  if 0x45 ≤ op.code ∧ op.code ≤ 0x66 then some (.compare op)
  else if 0x67 ≤ op.code ∧ op.code ≤ 0xa6 then
    some (if op.arity = 1 then .unary op else .binary op)
  else if 0xa7 ≤ op.code ∧ op.code ≤ 0xbf then some (.convert op)
  else none

end Plain

namespace Instr

def span : Instr → Span
  | plain _ span | block _ _ _ span | loop _ _ _ span | cond _ _ _ _ span => span

def opcode : Instr → Opcode
  | plain op _ => op.opcode
  | block .. => .block
  | loop .. => .loop
  | cond .. => .ifOp

/-- Whether the instruction leaves a value; `none` where that depends on what surrounds it. -/
def yields? : Instr → Option Bool
  | plain op _ => op.yields?
  | block _ sig .. | loop _ sig .. | cond _ sig .. => some (sig != .void)

mutual

/-- An instruction and all it holds. -/
def preorder : Instr → List Instr
  | i@(plain ..) => [i]
  | i@(block _ _ body _) | i@(loop _ _ body _) => i :: preorderAll body
  | i@(cond _ _ thenBody elseBody _) => i :: (preorderAll thenBody ++ preorderAll elseBody)

/-- The instructions of a body and all they hold. -/
def preorderAll : List Instr → List Instr
  | [] => []
  | i :: is => preorder i ++ preorderAll is

end

end Instr

end WasmText
