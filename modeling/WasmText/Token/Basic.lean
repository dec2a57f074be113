import WasmText.Keyword
import WasmText.Problem

/-!
# Tokens

A token is what a lexeme means, with its text and where it stands. Numbers are classified and not
converted, so a number's text is kept; a string carries the bytes its escapes stand for.
-/

namespace WasmText

/-- What a lexeme means. -/
inductive TokenKind
  | leftParen
  | rightParen
  | opcode (op : Opcode)
  | keyword (word : Keyword)
  | valType (type : ValType)
  /-- A name after its `$`. -/
  | id (name : String)
  | string (bytes : List UInt8)
  | number (kind : NumeralKind)
  /-- An immediate `offset=…`. -/
  | offsetEq
  /-- An immediate `align=…`. -/
  | alignEq
  /-- A word without meaning. -/
  | reserved
  | eof
deriving DecidableEq, Repr

namespace TokenKind

/-- A byte as it shows between quotes: itself if it is a visible ASCII character or a space,
otherwise a backslash and two hexadecimal digits. -/
def byteText (b : UInt8) : List Char :=
  if 0x20 ≤ b && b ≤ 0x7E then [Char.ofNat b.toNat]
  else ['\x5c', Nat.digitChar (b.toNat / 16), Nat.digitChar (b.toNat % 16)]

/-- The kind in words. -/
def text : TokenKind → String
  | leftParen => "("
  | rightParen => ")"
  | opcode op => op.name
  | keyword word => word.name
  | valType type => type.name
  | id name => "$" ++ name
  | string bytes => "\"" ++ String.ofList (bytes.flatMap byteText) ++ "\""
  | number kind => kind.text ++ " literal"
  | offsetEq => "offset="
  | alignEq => "align="
  | reserved => "reserved word"
  | eof => "EOF"

end TokenKind

/-- A piece of the source: its text, and the byte where it starts. -/
structure Excerpt where
  text : String
  offset : Nat
deriving DecidableEq, Repr

/-- A located token. -/
structure Token where
  kind : TokenKind
  source : Excerpt
  span : Span
deriving DecidableEq, Repr

namespace Token

/-- The text that the token is made of. -/
def text (t : Token) : String := t.source.text

/-- The kind and the place in words. -/
def describe (t : Token) : String := t.kind.text ++ " at " ++ t.span.text

/-- The token after the last of a source. -/
def eof (p : Pos) : Token := ⟨.eof, ⟨"", p.offset⟩, p.point⟩

end Token

/-- What lexing yields: tokens, and problems where a lexeme makes no token. -/
abbrev Item := Except Problem Token

end WasmText
