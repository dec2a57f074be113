import WasmText.ValType

/-!
# Opcodes

One record for each instruction of the first version of the format: its code, its mnemonic, the type
it leaves, the types of up to two operands it takes, and the bytes it accesses in memory. Control
and variable instructions declare no operands, since theirs depend on immediates.

A mnemonic may also be written as later versions of the format spell it: `Opcode.ofName?` reads
both.
-/

namespace WasmText

/-- An instruction, named after its mnemonic. -/
inductive Opcode
  | unreachable | nop | block | loop | ifOp | elseOp | endOp | br | brIf | brTable | ret | call
  | callIndirect | drop | select | getLocal | setLocal | teeLocal | getGlobal | setGlobal | i32Load
  | i64Load | f32Load | f64Load | i32Load8S | i32Load8U | i32Load16S | i32Load16U | i64Load8S
  | i64Load8U | i64Load16S | i64Load16U | i64Load32S | i64Load32U | i32Store | i64Store | f32Store
  | f64Store | i32Store8 | i32Store16 | i64Store8 | i64Store16 | i64Store32 | currentMemory
  | growMemory | i32Const | i64Const | f32Const | f64Const | i32Eqz | i32Eq | i32Ne | i32LtS
  | i32LtU | i32GtS | i32GtU | i32LeS | i32LeU | i32GeS | i32GeU | i64Eqz | i64Eq | i64Ne | i64LtS
  | i64LtU | i64GtS | i64GtU | i64LeS | i64LeU | i64GeS | i64GeU | f32Eq | f32Ne | f32Lt | f32Gt
  | f32Le | f32Ge | f64Eq | f64Ne | f64Lt | f64Gt | f64Le | f64Ge | i32Clz | i32Ctz | i32Popcnt
  | i32Add | i32Sub | i32Mul | i32DivS | i32DivU | i32RemS | i32RemU | i32And | i32Or | i32Xor
  | i32Shl | i32ShrS | i32ShrU | i32Rotl | i32Rotr | i64Clz | i64Ctz | i64Popcnt | i64Add | i64Sub
  | i64Mul | i64DivS | i64DivU | i64RemS | i64RemU | i64And | i64Or | i64Xor | i64Shl | i64ShrS
  | i64ShrU | i64Rotl | i64Rotr | f32Abs | f32Neg | f32Ceil | f32Floor | f32Trunc | f32Nearest
  | f32Sqrt | f32Add | f32Sub | f32Mul | f32Div | f32Min | f32Max | f32Copysign | f64Abs | f64Neg
  | f64Ceil | f64Floor | f64Trunc | f64Nearest | f64Sqrt | f64Add | f64Sub | f64Mul | f64Div
  | f64Min | f64Max | f64Copysign | i32WrapI64 | i32TruncSF32 | i32TruncUF32 | i32TruncSF64
  | i32TruncUF64 | i64ExtendSI32 | i64ExtendUI32 | i64TruncSF32 | i64TruncUF32 | i64TruncSF64
  | i64TruncUF64 | f32ConvertSI32 | f32ConvertUI32 | f32ConvertSI64 | f32ConvertUI64 | f32DemoteF64
  | f64ConvertSI32 | f64ConvertUI32 | f64ConvertSI64 | f64ConvertUI64 | f64PromoteF32
  | i32ReinterpretF32 | i64ReinterpretF64 | f32ReinterpretI32 | f64ReinterpretI64
deriving DecidableEq, Repr, Inhabited

namespace Opcode

/-- What is fixed for an instruction. `access` is 0 unless it loads or stores. -/
structure Info where
  code : Nat
  name : String
  result : ValType
  param1 : ValType
  param2 : ValType
  access : Nat
deriving Repr

open ValType in
/-- The record of an instruction. -/
def info : Opcode → Info
  | .unreachable => ⟨0x00, "unreachable", void, void, void, 0⟩
  | .nop => ⟨0x01, "nop", void, void, void, 0⟩
  | .block => ⟨0x02, "block", void, void, void, 0⟩
  | .loop => ⟨0x03, "loop", void, void, void, 0⟩
  | .ifOp => ⟨0x04, "if", void, void, void, 0⟩
  | .elseOp => ⟨0x05, "else", void, void, void, 0⟩
  | .endOp => ⟨0x0b, "end", void, void, void, 0⟩
  | .br => ⟨0x0c, "br", void, void, void, 0⟩
  | .brIf => ⟨0x0d, "br_if", void, void, void, 0⟩
  | .brTable => ⟨0x0e, "br_table", void, void, void, 0⟩
  | .ret => ⟨0x0f, "return", void, void, void, 0⟩
  | .call => ⟨0x10, "call", void, void, void, 0⟩
  | .callIndirect => ⟨0x11, "call_indirect", void, void, void, 0⟩
  | .drop => ⟨0x1a, "drop", void, void, void, 0⟩
  | .select => ⟨0x1b, "select", void, void, void, 0⟩
  | .getLocal => ⟨0x20, "get_local", void, void, void, 0⟩
  | .setLocal => ⟨0x21, "set_local", void, void, void, 0⟩
  | .teeLocal => ⟨0x22, "tee_local", void, void, void, 0⟩
  | .getGlobal => ⟨0x23, "get_global", void, void, void, 0⟩
  | .setGlobal => ⟨0x24, "set_global", void, void, void, 0⟩
  | .i32Load => ⟨0x28, "i32.load", i32, i32, void, 4⟩
  | .i64Load => ⟨0x29, "i64.load", i64, i32, void, 8⟩
  | .f32Load => ⟨0x2a, "f32.load", f32, i32, void, 4⟩
  | .f64Load => ⟨0x2b, "f64.load", f64, i32, void, 8⟩
  | .i32Load8S => ⟨0x2c, "i32.load8_s", i32, i32, void, 1⟩
  | .i32Load8U => ⟨0x2d, "i32.load8_u", i32, i32, void, 1⟩
  | .i32Load16S => ⟨0x2e, "i32.load16_s", i32, i32, void, 2⟩
  | .i32Load16U => ⟨0x2f, "i32.load16_u", i32, i32, void, 2⟩
  | .i64Load8S => ⟨0x30, "i64.load8_s", i64, i32, void, 1⟩
  | .i64Load8U => ⟨0x31, "i64.load8_u", i64, i32, void, 1⟩
  | .i64Load16S => ⟨0x32, "i64.load16_s", i64, i32, void, 2⟩
  | .i64Load16U => ⟨0x33, "i64.load16_u", i64, i32, void, 2⟩
  | .i64Load32S => ⟨0x34, "i64.load32_s", i64, i32, void, 4⟩
  | .i64Load32U => ⟨0x35, "i64.load32_u", i64, i32, void, 4⟩
  | .i32Store => ⟨0x36, "i32.store", void, i32, i32, 4⟩
  | .i64Store => ⟨0x37, "i64.store", void, i32, i64, 8⟩
  | .f32Store => ⟨0x38, "f32.store", void, i32, f32, 4⟩
  | .f64Store => ⟨0x39, "f64.store", void, i32, f64, 8⟩
  | .i32Store8 => ⟨0x3a, "i32.store8", void, i32, i32, 1⟩
  | .i32Store16 => ⟨0x3b, "i32.store16", void, i32, i32, 2⟩
  | .i64Store8 => ⟨0x3c, "i64.store8", void, i32, i64, 1⟩
  | .i64Store16 => ⟨0x3d, "i64.store16", void, i32, i64, 2⟩
  | .i64Store32 => ⟨0x3e, "i64.store32", void, i32, i64, 4⟩
  | .currentMemory => ⟨0x3f, "current_memory", i32, void, void, 0⟩
  | .growMemory => ⟨0x40, "grow_memory", i32, i32, void, 0⟩
  | .i32Const => ⟨0x41, "i32.const", i32, void, void, 0⟩
  | .i64Const => ⟨0x42, "i64.const", i64, void, void, 0⟩
  | .f32Const => ⟨0x43, "f32.const", f32, void, void, 0⟩
  | .f64Const => ⟨0x44, "f64.const", f64, void, void, 0⟩
  | .i32Eqz => ⟨0x45, "i32.eqz", i32, i32, void, 0⟩
  | .i32Eq => ⟨0x46, "i32.eq", i32, i32, i32, 0⟩
  | .i32Ne => ⟨0x47, "i32.ne", i32, i32, i32, 0⟩
  | .i32LtS => ⟨0x48, "i32.lt_s", i32, i32, i32, 0⟩
  | .i32LtU => ⟨0x49, "i32.lt_u", i32, i32, i32, 0⟩
  | .i32GtS => ⟨0x4a, "i32.gt_s", i32, i32, i32, 0⟩
  | .i32GtU => ⟨0x4b, "i32.gt_u", i32, i32, i32, 0⟩
  | .i32LeS => ⟨0x4c, "i32.le_s", i32, i32, i32, 0⟩
  | .i32LeU => ⟨0x4d, "i32.le_u", i32, i32, i32, 0⟩
  | .i32GeS => ⟨0x4e, "i32.ge_s", i32, i32, i32, 0⟩
  | .i32GeU => ⟨0x4f, "i32.ge_u", i32, i32, i32, 0⟩
  | .i64Eqz => ⟨0x50, "i64.eqz", i32, i64, void, 0⟩
  | .i64Eq => ⟨0x51, "i64.eq", i32, i64, i64, 0⟩
  | .i64Ne => ⟨0x52, "i64.ne", i32, i64, i64, 0⟩
  | .i64LtS => ⟨0x53, "i64.lt_s", i32, i64, i64, 0⟩
  | .i64LtU => ⟨0x54, "i64.lt_u", i32, i64, i64, 0⟩
  | .i64GtS => ⟨0x55, "i64.gt_s", i32, i64, i64, 0⟩
  | .i64GtU => ⟨0x56, "i64.gt_u", i32, i64, i64, 0⟩
  | .i64LeS => ⟨0x57, "i64.le_s", i32, i64, i64, 0⟩
  | .i64LeU => ⟨0x58, "i64.le_u", i32, i64, i64, 0⟩
  | .i64GeS => ⟨0x59, "i64.ge_s", i32, i64, i64, 0⟩
  | .i64GeU => ⟨0x5a, "i64.ge_u", i32, i64, i64, 0⟩
  | .f32Eq => ⟨0x5b, "f32.eq", i32, f32, f32, 0⟩
  | .f32Ne => ⟨0x5c, "f32.ne", i32, f32, f32, 0⟩
  | .f32Lt => ⟨0x5d, "f32.lt", i32, f32, f32, 0⟩
  | .f32Gt => ⟨0x5e, "f32.gt", i32, f32, f32, 0⟩
  | .f32Le => ⟨0x5f, "f32.le", i32, f32, f32, 0⟩
  | .f32Ge => ⟨0x60, "f32.ge", i32, f32, f32, 0⟩
  | .f64Eq => ⟨0x61, "f64.eq", i32, f64, f64, 0⟩
  | .f64Ne => ⟨0x62, "f64.ne", i32, f64, f64, 0⟩
  | .f64Lt => ⟨0x63, "f64.lt", i32, f64, f64, 0⟩
  | .f64Gt => ⟨0x64, "f64.gt", i32, f64, f64, 0⟩
  | .f64Le => ⟨0x65, "f64.le", i32, f64, f64, 0⟩
  | .f64Ge => ⟨0x66, "f64.ge", i32, f64, f64, 0⟩
  | .i32Clz => ⟨0x67, "i32.clz", i32, i32, void, 0⟩
  | .i32Ctz => ⟨0x68, "i32.ctz", i32, i32, void, 0⟩
  | .i32Popcnt => ⟨0x69, "i32.popcnt", i32, i32, void, 0⟩
  | .i32Add => ⟨0x6a, "i32.add", i32, i32, i32, 0⟩
  | .i32Sub => ⟨0x6b, "i32.sub", i32, i32, i32, 0⟩
  | .i32Mul => ⟨0x6c, "i32.mul", i32, i32, i32, 0⟩
  | .i32DivS => ⟨0x6d, "i32.div_s", i32, i32, i32, 0⟩
  | .i32DivU => ⟨0x6e, "i32.div_u", i32, i32, i32, 0⟩
  | .i32RemS => ⟨0x6f, "i32.rem_s", i32, i32, i32, 0⟩
  | .i32RemU => ⟨0x70, "i32.rem_u", i32, i32, i32, 0⟩
  | .i32And => ⟨0x71, "i32.and", i32, i32, i32, 0⟩
  | .i32Or => ⟨0x72, "i32.or", i32, i32, i32, 0⟩
  | .i32Xor => ⟨0x73, "i32.xor", i32, i32, i32, 0⟩
  | .i32Shl => ⟨0x74, "i32.shl", i32, i32, i32, 0⟩
  | .i32ShrS => ⟨0x75, "i32.shr_s", i32, i32, i32, 0⟩
  | .i32ShrU => ⟨0x76, "i32.shr_u", i32, i32, i32, 0⟩
  | .i32Rotl => ⟨0x77, "i32.rotl", i32, i32, i32, 0⟩
  | .i32Rotr => ⟨0x78, "i32.rotr", i32, i32, i32, 0⟩
  | .i64Clz => ⟨0x79, "i64.clz", i64, i64, void, 0⟩
  | .i64Ctz => ⟨0x7a, "i64.ctz", i64, i64, void, 0⟩
  | .i64Popcnt => ⟨0x7b, "i64.popcnt", i64, i64, void, 0⟩
  | .i64Add => ⟨0x7c, "i64.add", i64, i64, i64, 0⟩
  | .i64Sub => ⟨0x7d, "i64.sub", i64, i64, i64, 0⟩
  | .i64Mul => ⟨0x7e, "i64.mul", i64, i64, i64, 0⟩
  | .i64DivS => ⟨0x7f, "i64.div_s", i64, i64, i64, 0⟩
  | .i64DivU => ⟨0x80, "i64.div_u", i64, i64, i64, 0⟩
  | .i64RemS => ⟨0x81, "i64.rem_s", i64, i64, i64, 0⟩
  | .i64RemU => ⟨0x82, "i64.rem_u", i64, i64, i64, 0⟩
  | .i64And => ⟨0x83, "i64.and", i64, i64, i64, 0⟩
  | .i64Or => ⟨0x84, "i64.or", i64, i64, i64, 0⟩
  | .i64Xor => ⟨0x85, "i64.xor", i64, i64, i64, 0⟩
  | .i64Shl => ⟨0x86, "i64.shl", i64, i64, i64, 0⟩
  | .i64ShrS => ⟨0x87, "i64.shr_s", i64, i64, i64, 0⟩
  | .i64ShrU => ⟨0x88, "i64.shr_u", i64, i64, i64, 0⟩
  | .i64Rotl => ⟨0x89, "i64.rotl", i64, i64, i64, 0⟩
  | .i64Rotr => ⟨0x8a, "i64.rotr", i64, i64, i64, 0⟩
  | .f32Abs => ⟨0x8b, "f32.abs", f32, f32, void, 0⟩
  | .f32Neg => ⟨0x8c, "f32.neg", f32, f32, void, 0⟩
  | .f32Ceil => ⟨0x8d, "f32.ceil", f32, f32, void, 0⟩
  | .f32Floor => ⟨0x8e, "f32.floor", f32, f32, void, 0⟩
  | .f32Trunc => ⟨0x8f, "f32.trunc", f32, f32, void, 0⟩
  | .f32Nearest => ⟨0x90, "f32.nearest", f32, f32, void, 0⟩
  | .f32Sqrt => ⟨0x91, "f32.sqrt", f32, f32, void, 0⟩
  | .f32Add => ⟨0x92, "f32.add", f32, f32, f32, 0⟩
  | .f32Sub => ⟨0x93, "f32.sub", f32, f32, f32, 0⟩
  | .f32Mul => ⟨0x94, "f32.mul", f32, f32, f32, 0⟩
  | .f32Div => ⟨0x95, "f32.div", f32, f32, f32, 0⟩
  | .f32Min => ⟨0x96, "f32.min", f32, f32, f32, 0⟩
  | .f32Max => ⟨0x97, "f32.max", f32, f32, f32, 0⟩
  | .f32Copysign => ⟨0x98, "f32.copysign", f32, f32, f32, 0⟩
  | .f64Abs => ⟨0x99, "f64.abs", f64, f64, void, 0⟩
  | .f64Neg => ⟨0x9a, "f64.neg", f64, f64, void, 0⟩
  | .f64Ceil => ⟨0x9b, "f64.ceil", f64, f64, void, 0⟩
  | .f64Floor => ⟨0x9c, "f64.floor", f64, f64, void, 0⟩
  | .f64Trunc => ⟨0x9d, "f64.trunc", f64, f64, void, 0⟩
  | .f64Nearest => ⟨0x9e, "f64.nearest", f64, f64, void, 0⟩
  | .f64Sqrt => ⟨0x9f, "f64.sqrt", f64, f64, void, 0⟩
  | .f64Add => ⟨0xa0, "f64.add", f64, f64, f64, 0⟩
  | .f64Sub => ⟨0xa1, "f64.sub", f64, f64, f64, 0⟩
  | .f64Mul => ⟨0xa2, "f64.mul", f64, f64, f64, 0⟩
  | .f64Div => ⟨0xa3, "f64.div", f64, f64, f64, 0⟩
  | .f64Min => ⟨0xa4, "f64.min", f64, f64, f64, 0⟩
  | .f64Max => ⟨0xa5, "f64.max", f64, f64, f64, 0⟩
  | .f64Copysign => ⟨0xa6, "f64.copysign", f64, f64, f64, 0⟩
  | .i32WrapI64 => ⟨0xa7, "i32.wrap/i64", i32, i64, void, 0⟩
  | .i32TruncSF32 => ⟨0xa8, "i32.trunc_s/f32", i32, f32, void, 0⟩
  | .i32TruncUF32 => ⟨0xa9, "i32.trunc_u/f32", i32, f32, void, 0⟩
  | .i32TruncSF64 => ⟨0xaa, "i32.trunc_s/f64", i32, f64, void, 0⟩
  | .i32TruncUF64 => ⟨0xab, "i32.trunc_u/f64", i32, f64, void, 0⟩
  | .i64ExtendSI32 => ⟨0xac, "i64.extend_s/i32", i64, i32, void, 0⟩
  | .i64ExtendUI32 => ⟨0xad, "i64.extend_u/i32", i64, i32, void, 0⟩
  | .i64TruncSF32 => ⟨0xae, "i64.trunc_s/f32", i64, f32, void, 0⟩
  | .i64TruncUF32 => ⟨0xaf, "i64.trunc_u/f32", i64, f32, void, 0⟩
  | .i64TruncSF64 => ⟨0xb0, "i64.trunc_s/f64", i64, f64, void, 0⟩
  | .i64TruncUF64 => ⟨0xb1, "i64.trunc_u/f64", i64, f64, void, 0⟩
  | .f32ConvertSI32 => ⟨0xb2, "f32.convert_s/i32", f32, i32, void, 0⟩
  | .f32ConvertUI32 => ⟨0xb3, "f32.convert_u/i32", f32, i32, void, 0⟩
  | .f32ConvertSI64 => ⟨0xb4, "f32.convert_s/i64", f32, i64, void, 0⟩
  | .f32ConvertUI64 => ⟨0xb5, "f32.convert_u/i64", f32, i64, void, 0⟩
  | .f32DemoteF64 => ⟨0xb6, "f32.demote/f64", f32, f64, void, 0⟩
  | .f64ConvertSI32 => ⟨0xb7, "f64.convert_s/i32", f64, i32, void, 0⟩
  | .f64ConvertUI32 => ⟨0xb8, "f64.convert_u/i32", f64, i32, void, 0⟩
  | .f64ConvertSI64 => ⟨0xb9, "f64.convert_s/i64", f64, i64, void, 0⟩
  | .f64ConvertUI64 => ⟨0xba, "f64.convert_u/i64", f64, i64, void, 0⟩
  | .f64PromoteF32 => ⟨0xbb, "f64.promote/f32", f64, f32, void, 0⟩
  | .i32ReinterpretF32 => ⟨0xbc, "i32.reinterpret/f32", i32, f32, void, 0⟩
  | .i64ReinterpretF64 => ⟨0xbd, "i64.reinterpret/f64", i64, f64, void, 0⟩
  | .f32ReinterpretI32 => ⟨0xbe, "f32.reinterpret/i32", f32, i32, void, 0⟩
  | .f64ReinterpretI64 => ⟨0xbf, "f64.reinterpret/i64", f64, i64, void, 0⟩

/-- Every instruction, by code. -/
def all : List Opcode := [
  .unreachable, .nop, .block, .loop, .ifOp, .elseOp, .endOp, .br, .brIf, .brTable, .ret, .call,
  .callIndirect, .drop, .select, .getLocal, .setLocal, .teeLocal, .getGlobal, .setGlobal, .i32Load,
  .i64Load, .f32Load, .f64Load, .i32Load8S, .i32Load8U, .i32Load16S, .i32Load16U, .i64Load8S,
  .i64Load8U, .i64Load16S, .i64Load16U, .i64Load32S, .i64Load32U, .i32Store, .i64Store, .f32Store,
  .f64Store, .i32Store8, .i32Store16, .i64Store8, .i64Store16, .i64Store32, .currentMemory,
  .growMemory, .i32Const, .i64Const, .f32Const, .f64Const, .i32Eqz, .i32Eq, .i32Ne, .i32LtS,
  .i32LtU, .i32GtS, .i32GtU, .i32LeS, .i32LeU, .i32GeS, .i32GeU, .i64Eqz, .i64Eq, .i64Ne, .i64LtS,
  .i64LtU, .i64GtS, .i64GtU, .i64LeS, .i64LeU, .i64GeS, .i64GeU, .f32Eq, .f32Ne, .f32Lt, .f32Gt,
  .f32Le, .f32Ge, .f64Eq, .f64Ne, .f64Lt, .f64Gt, .f64Le, .f64Ge, .i32Clz, .i32Ctz, .i32Popcnt,
  .i32Add, .i32Sub, .i32Mul, .i32DivS, .i32DivU, .i32RemS, .i32RemU, .i32And, .i32Or, .i32Xor,
  .i32Shl, .i32ShrS, .i32ShrU, .i32Rotl, .i32Rotr, .i64Clz, .i64Ctz, .i64Popcnt, .i64Add, .i64Sub,
  .i64Mul, .i64DivS, .i64DivU, .i64RemS, .i64RemU, .i64And, .i64Or, .i64Xor, .i64Shl, .i64ShrS,
  .i64ShrU, .i64Rotl, .i64Rotr, .f32Abs, .f32Neg, .f32Ceil, .f32Floor, .f32Trunc, .f32Nearest,
  .f32Sqrt, .f32Add, .f32Sub, .f32Mul, .f32Div, .f32Min, .f32Max, .f32Copysign, .f64Abs, .f64Neg,
  .f64Ceil, .f64Floor, .f64Trunc, .f64Nearest, .f64Sqrt, .f64Add, .f64Sub, .f64Mul, .f64Div,
  .f64Min, .f64Max, .f64Copysign, .i32WrapI64, .i32TruncSF32, .i32TruncUF32, .i32TruncSF64,
  .i32TruncUF64, .i64ExtendSI32, .i64ExtendUI32, .i64TruncSF32, .i64TruncUF32, .i64TruncSF64,
  .i64TruncUF64, .f32ConvertSI32, .f32ConvertUI32, .f32ConvertSI64, .f32ConvertUI64, .f32DemoteF64,
  .f64ConvertSI32, .f64ConvertUI32, .f64ConvertSI64, .f64ConvertUI64, .f64PromoteF32,
  .i32ReinterpretF32, .i64ReinterpretF64, .f32ReinterpretI32, .f64ReinterpretI64]

def code (op : Opcode) : Nat := op.info.code

def name (op : Opcode) : String := op.info.name

/-- The type an instruction leaves, `void` for none or for one that depends on immediates. -/
def result (op : Opcode) : ValType := op.info.result

/-- Bytes of memory accessed. -/
def access (op : Opcode) : Nat := op.info.access

/-- The number of operands the record declares. -/
def arity (op : Opcode) : Nat := ([op.info.param1, op.info.param2].filter (· != .void)).length

def isLoad (op : Opcode) : Bool := 0 < op.access && op.info.param2 == .void

def isStore (op : Opcode) : Bool := 0 < op.access && op.info.param2 != .void

/-- Whether this is one of the four constant instructions. -/
def isConst : Opcode → Bool
  | .i32Const | .i64Const | .f32Const | .f64Const => true
  | _ => false

/-- The instruction with a given code. -/
def ofCode? (n : Nat) : Option Opcode := all.find? (·.code == n)

/-! ## Mnemonics -/

/-- The later spelling of a conversion: the source type moves in front of the sign, and an
underscore replaces the slash, as in `i32.trunc_f32_s` for `i32.trunc_s/f32`. -/
def conversionAlias? (name : List Char) : Option (List Char) :=
  match name.dropWhile (· != '/') with
  | [] => none
  | _ :: source =>
    let op := name.takeWhile (· != '/')
    let base := op.take (op.length - 2)
    let sign := op.drop (op.length - 2)
    if sign = ['_', 's'] ∨ sign = ['_', 'u'] then some (base ++ '_' :: source ++ sign)
    else some (op ++ '_' :: source)

/-- The other instructions that were renamed. -/
def renamed : List (String × Opcode) := [
  ("local.get", .getLocal), ("local.set", .setLocal), ("local.tee", .teeLocal),
  ("global.get", .getGlobal), ("global.set", .setGlobal),
  ("memory.size", .currentMemory), ("memory.grow", .growMemory)]

/-- The spellings of an instruction that its own name gives. -/
def spellings (op : Opcode) : List (String × Opcode) :=
  (op.name, op) :: ((conversionAlias? op.name.toList).toList.map fun a => (String.ofList a, op))

/-- Every spelling of every instruction. -/
def mnemonics : List (String × Opcode) := all.flatMap spellings ++ renamed

/-- The instruction that a word names. -/
def ofName? (s : String) : Option Opcode := mnemonics.lookup s

/-! ## Alignment -/

/-- The natural alignment as an exponent of two; 0 where no memory is accessed. -/
def naturalExponent (op : Opcode) : Nat := op.access.log2

/-- The natural alignment in bytes; 0 where no memory is accessed. -/
def naturalAlign (op : Opcode) : Nat := if op.access = 0 then 0 else Nat.pow 2 op.naturalExponent

/-- The 32-bit value that asks for the natural alignment. -/
def useNatural : Nat := 0xFFFFFFFF

/-- The alignment that a request in bytes stands for. Only `useNatural` is changed. -/
def resolveAlign (op : Opcode) (requested : Nat) : Nat :=
  if requested = useNatural then op.naturalAlign else requested

/-- Whether `n` is a power of two. -/
def isPowerOfTwo (n : Nat) : Bool := n != 0 && Nat.pow 2 n.log2 == n

/-- Whether an alignment in bytes is allowed: `useNatural`, or a power of two no larger than the
natural alignment. -/
def isAligned (op : Opcode) (align : Nat) : Bool :=
  align == useNatural || (isPowerOfTwo align && align ≤ op.naturalAlign)

/-- The number of times two divides a 32-bit number, 32 for 0. -/
def trailingZeros (n : Nat) : Nat := ((List.range 32).find? n.testBit).getD 32

theorem ofCode?_code (op : Opcode) : ofCode? op.code = some op := by cases op <;> rfl

end Opcode

end WasmText
