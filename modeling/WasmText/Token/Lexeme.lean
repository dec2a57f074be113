import WasmText.Text.Printable
import WasmText.Text.Utf8
import WasmText.Token.Basic

/-!
# Lexemes

What one token is made of. Between tokens stand blanks, line comments from `;;` to the end of the
line and block comments, which nest. A lexeme is a parenthesis, a string, an identifier or a word;
all but parentheses have to be followed by a boundary, that is a blank, a parenthesis, a semicolon
or the end. A lexeme that is refused takes everything up to the next boundary with it.

Every reader here looks at the text from some point on and answers how many characters it takes, so
what is taken and what is left always make up the text again.
-/

namespace WasmText

namespace Lexeme

/-! ## Characters -/

/-- Space, tab, newline, form feed and carriage return. -/
def isBlank (c : Char) : Bool :=
  c == ' ' || c == '\t' || c == '\n' || c == '\x0c' || c == '\r'

/-- Whether a character ends the token before it. -/
def isBoundary (c : Char) : Bool := isBlank c || c == '(' || c == ')' || c == ';'

/-- The characters of words and identifiers. -/
def isIdChar (c : Char) : Bool :=
  ('0' ≤ c && c ≤ '9') || ('a' ≤ c && c ≤ 'z') || ('A' ≤ c && c ≤ 'Z') ||
    "!#$%&'*+-./:<=>?@\\^_`|~".toList.contains c

/-- Whether a character is a hexadecimal digit. -/
def isHex (c : Char) : Bool := (Digit.value? 16 c).isSome

/-! ## Between tokens -/

/-- The characters up to the end of a block comment of which `depth` levels are open, on top of `n`
already taken; `none` if a level stays open. -/
def blockComment? : (depth n : Nat) → List Char → Option Nat
  | 0, n, _ => some n
  | _ + 1, _, [] => none
  | d + 1, n, '(' :: ';' :: cs => blockComment? (d + 2) (n + 2) cs
  | d + 1, n, ';' :: ')' :: cs => blockComment? d (n + 2) cs
  | d + 1, n, _ :: cs => blockComment? (d + 1) (n + 1) cs

/-- What stands in front of a text. -/
inductive Gap
  /-- Blanks or a whole comment. -/
  | skip (n : Nat)
  /-- A comment that does not end. -/
  | unterminated
  /-- A lexeme, or nothing. -/
  | done

/-- The next stretch between tokens. -/
def gap : List Char → Gap
  | ';' :: ';' :: cs => .skip (2 + (cs.takeWhile (· != '\n')).length)
  | '(' :: ';' :: cs =>
    match blockComment? 1 2 cs with
    | some n => .skip n
    | none => .unterminated
  | c :: cs => if isBlank c then .skip (1 + (cs.takeWhile isBlank).length) else .done
  | [] => .done

/-! ## Strings -/

/-- The bytes that an escape stands for, or what is wrong with it. -/
abbrev EscapeResult := Except (LexCause × Nat) (List UInt8)

/-- An escape after `\u`: a code point in braces. Faults are placed at the opening brace. -/
def codePointEscape : List Char → EscapeResult × Nat
  | '\x7b' :: cs =>
    let digits := cs.takeWhile isHex
    match digits, cs.dropWhile isHex with
    | _ :: _, '\x7d' :: _ =>
      let n := Digit.toNat 16 (digits.filterMap (Digit.value? 16))
      if n.isValidChar then (.ok (Utf8.encode [Char.ofNat n]), digits.length + 2)
      else (.error (.codePoint (String.ofList digits), 1), digits.length + 2)
    | _, _ => (.error (.unicodeForm, 1), digits.length + 1)
  | _ => (.error (.unicodeBrace, 1), 0)

/-- An escape after its backslash, and the characters it takes. Faults are placed by how many
characters after the backslash they stand. -/
def escape : List Char → EscapeResult × Nat
  | [] | '\n' :: _ => (.error (.unterminatedEscape, 0), 0)
  | 't' :: _ => (.ok [0x09], 1)
  | 'n' :: _ => (.ok [0x0A], 1)
  | 'r' :: _ => (.ok [0x0D], 1)
  | '\x22' :: _ => (.ok [0x22], 1)
  | '\x27' :: _ => (.ok [0x27], 1)
  | '\x5c' :: _ => (.ok [0x5C], 1)
  | 'u' :: cs => let (r, n) := codePointEscape cs; (r, n + 1)
  | c :: cs =>
    match Digit.value? 16 c, cs.head?.bind (Digit.value? 16) with
    | some high, some low => (.ok [UInt8.ofNat (high * 16 + low)], 2)
    | some _, none => (.error (.hexEscape, 0), 1)
    | none, _ => (.error (.escape c, 0), 1)

/-- How a string literal ends. -/
inductive StringEnd
  /-- At its closing quote, with the bytes it denotes. -/
  | closed (bytes : Array UInt8)
  /-- At its closing quote, after an escape that is refused at some character. -/
  | refused (cause : LexCause) (place : Nat)
  /-- At a newline or at the end of the source. -/
  | unterminated

/-- A string literal of which `n` characters are taken, with the bytes so far and the first refused
escape. Answers its end and the characters it takes in all. -/
def string (n : Nat) (bytes : Array UInt8) (refused : Option (LexCause × Nat)) :
    List Char → StringEnd × Nat
  | [] | '\n' :: _ => (.unterminated, n)
  | '\x22' :: _ =>
    match refused with
    | some (cause, place) => (.refused cause place, n + 1)
    | none => (.closed bytes, n + 1)
  | '\x5c' :: cs =>
    match escape cs with
    | (.ok bs, k) => string (n + 1 + k) (bytes ++ bs.toArray) refused (cs.drop k)
    | (.error (cause, place), k) =>
      string (n + 1 + k) bytes (refused.or (some (cause, n + 1 + place))) (cs.drop k)
  | c :: cs => string (n + 1) (bytes ++ (Utf8.encode [c]).toArray) refused cs
termination_by cs => cs.length

/-! ## Words -/

/-- Whether a word has to be a numeral: after an optional sign it starts with a digit or with `nan`,
or it is `inf`. -/
def looksNumeric (word : List Char) : Bool :=
  match (Magnitude.sign word).2 with
  | ['i', 'n', 'f'] => true
  | 'n' :: 'a' :: 'n' :: _ => true
  | c :: _ => '0' ≤ c && c ≤ '9'
  | [] => false

/-- What a word means. -/
def word (cs : List Char) : Except LexCause TokenKind :=
  let text := String.ofList cs
  if looksNumeric cs then
    match Numeral.ofText text with
    | .ok n => .ok (.number n.kind)
    | .error e => .error (.numeral e)
  else if "offset=".toList.isPrefixOf cs then .ok .offsetEq
  else if "align=".toList.isPrefixOf cs then .ok .alignEq
  else if let some op := Opcode.ofName? text then .ok (.opcode op)
  else if let some type := ValType.ofName? text then .ok (.valType type)
  else if let some word := Keyword.ofName? text then .ok (.keyword word)
  else .ok .reserved

end Lexeme

/-! ## One lexeme -/

/-- A refused lexeme: the cause, and the characters from its start that the problem spans. -/
structure Refusal where
  cause : LexCause
  first : Nat
  last : Nat

/-- What a lexeme means or why it is refused, and the characters it takes. -/
structure Lexeme where
  result : Except Refusal TokenKind
  size : Nat

namespace Lexeme

/-- The characters up to the next boundary, at least `n`. -/
def toBoundary (cs : List Char) (n : Nat) : Nat :=
  n + ((cs.drop n).takeWhile (!isBoundary ·)).length

/-- The lexeme that takes `n` characters of `cs`, which a boundary has to follow. -/
def bounded (cs : List Char) (n : Nat) (result : Except Refusal TokenKind) : Lexeme :=
  let size := toBoundary cs n
  match result with
  | .ok kind => if size = n then ⟨.ok kind, n⟩ else ⟨.error ⟨.unknownOperator, 0, size⟩, size⟩
  | .error refusal => ⟨.error refusal, size⟩

/-- The lexeme at the front of `c :: cs`. -/
def read (c : Char) (cs : List Char) : Lexeme :=
  if c = '(' then ⟨.ok .leftParen, 1⟩
  else if c = ')' then ⟨.ok .rightParen, 1⟩
  else if c = '\x22' then
    match string 1 #[] none cs with
    | (.closed bytes, n) => bounded (c :: cs) n (.ok (.string bytes.toList))
    | (.refused cause place, n) => bounded (c :: cs) n (.error ⟨cause, place, place⟩)
    | (.unterminated, n) => bounded (c :: cs) n (.error ⟨.unterminatedString, 0, n⟩)
  else if c = '$' then
    let name := cs.takeWhile isIdChar
    let n := name.length + 1
    if name.isEmpty then bounded (c :: cs) n (.error ⟨.emptyIdentifier, 0, n⟩)
    else bounded (c :: cs) n (.ok (.id (String.ofList name)))
  else if isIdChar c then
    let cs' := (c :: cs).takeWhile isIdChar
    let n := cs'.length
    match word cs' with
    | .ok kind => bounded (c :: cs) n (.ok kind)
    | .error cause => bounded (c :: cs) n (.error ⟨cause, 0, n⟩)
  else bounded (c :: cs) 1 (.error ⟨.unexpectedCharacter (Printable.quoted c), 0, 0⟩)

end Lexeme

end WasmText
