/-!
# UTF-8

Characters to bytes and back. Reading splits the bytes into characters and ill-formed pieces: a
piece is the longest start of a character that goes wrong, or one byte where none starts. The strict
reading refuses any piece, the lossy one puts U+FFFD for each.

The table behind `second` is what rules out overlong forms, surrogates and code points past
U+10FFFF: each first byte has its own range for the byte after it.
-/

namespace WasmText.Utf8

/-- The bytes of a text. -/
def encode (cs : List Char) : List UInt8 := cs.flatMap String.utf8EncodeChar

/-- Whether a byte can only continue a character. -/
def isTail (b : UInt8) : Bool := 0x80 ≤ b && b ≤ 0xBF

/-- Whether `b` may follow the first byte `a` of a character of several bytes. -/
def second (a b : UInt8) : Bool :=
  if a == 0xE0 then 0xA0 ≤ b && b ≤ 0xBF
  else if a == 0xED then 0x80 ≤ b && b ≤ 0x9F
  else if a == 0xF0 then 0x90 ≤ b && b ≤ 0xBF
  else if a == 0xF4 then 0x80 ≤ b && b ≤ 0x8F
  else isTail b

/-- The number of bytes that the first byte `a` announces; 0 if none may start with it. -/
def width (a : UInt8) : Nat :=
  if a ≤ 0x7F then 1
  else if 0xC2 ≤ a && a ≤ 0xDF then 2
  else if 0xE0 ≤ a && a ≤ 0xEF then 3
  else if 0xF0 ≤ a && a ≤ 0xF4 then 4
  else 0

/-- The low six bits of a continuing byte. -/
def payload (b : UInt8) : Nat := b.toNat % 64

/-- What starts at a byte: a character, or `none` for an ill-formed piece; and how many bytes it
takes beyond its first. -/
def piece (a : UInt8) (rest : List UInt8) : Option Char × Nat :=
  match width a, rest with
  | 1, _ => (some (Char.ofNat a.toNat), 0)
  | 2, b :: _ =>
    if second a b then (some (Char.ofNat (a.toNat % 32 * 64 + payload b)), 1) else (none, 0)
  | 3, b :: c :: _ =>
    if !second a b then (none, 0)
    else if !isTail c then (none, 1)
    else (some (Char.ofNat ((a.toNat % 16 * 64 + payload b) * 64 + payload c)), 2)
  | 3, [b] => (none, if second a b then 1 else 0)
  | 4, b :: c :: d :: _ =>
    if !second a b then (none, 0)
    else if !isTail c then (none, 1)
    else if !isTail d then (none, 2)
    else
      (some (Char.ofNat (((a.toNat % 8 * 64 + payload b) * 64 + payload c) * 64 + payload d)), 3)
  | 4, [b, c] => (none, if second a b then if isTail c then 2 else 1 else 0)
  | 4, [b] => (none, if second a b then 1 else 0)
  | _, _ => (none, 0)

/-- The characters and ill-formed pieces of a byte string, in order. -/
def pieces : List UInt8 → List (Option Char)
  | [] => []
  | a :: rest => (piece a rest).1 :: pieces (rest.drop (piece a rest).2)
termination_by bs => bs.length
decreasing_by simp only [List.length_cons, List.length_drop]; omega

/-- The text of well-formed bytes. -/
def decode? (bs : List UInt8) : Option (List Char) := (pieces bs).mapM id

/-- The text with U+FFFD for each ill-formed piece. -/
def decodeLossy (bs : List UInt8) : List Char := (pieces bs).map (·.getD '\uFFFD')

/-- The text before the first ill-formed piece. -/
def decodePrefix (bs : List UInt8) : List Char :=
  ((pieces bs).takeWhile Option.isSome).filterMap id

end WasmText.Utf8
