import WasmText.Proofs.Digits
import WasmText.Proofs.Extent

/-!
# The grammar of string literals

What stands between the quotes of a string literal is a row of pieces, each with the bytes that it
stands for (`StringPiece`, `StringBody`): a plain character, an escaped one, a byte in two
hexadecimal digits or a code point in braces. Reading stops at the closing quote, and an escape that
is refused spoils the literal whatever comes after it, so what is read is written so
(`Lexeme.exists_of_string`), and what is written so is read in front of any text
(`Lexeme.string_of_body`).
-/

namespace WasmText

/-! ## The grammar -/

/-- The characters that stand for one byte after a backslash. -/
def shortEscapes : List (Char × UInt8) :=
  [('t', 0x09), ('n', 0x0A), ('r', 0x0D), ('\x22', 0x22), ('\x27', 0x27), ('\x5c', 0x5C)]

/-- A piece of a string literal and its bytes. -/
inductive StringPiece : List Char → List UInt8 → Prop
  | plain {c : Char} (hnewline : c ≠ '\n') (hquote : c ≠ '\x22') (hbackslash : c ≠ '\x5c') :
      StringPiece [c] (String.utf8EncodeChar c)
  | short {c : Char} {b : UInt8} (h : (c, b) ∈ shortEscapes) : StringPiece ['\x5c', c] [b]
  | byte {c c' : Char} {high low : Nat} (hhigh : Digit.IsDigit 16 c high)
      (hlow : Digit.IsDigit 16 c' low) :
      StringPiece ['\x5c', c, c'] [UInt8.ofNat (high * 16 + low)]
  | codePoint {cs : List Char} {ds : List Nat} (hne : cs ≠ [])
      (h : List.Forall₂ (Digit.IsDigit 16) cs ds) (hvalid : (Digit.number 16 ds).isValidChar) :
      StringPiece ('\x5c' :: 'u' :: '\x7b' :: (cs ++ ['\x7d']))
        (String.utf8EncodeChar (Char.ofNat (Digit.number 16 ds)))

/-- Pieces in a row. -/
inductive StringBody : List Char → List UInt8 → Prop
  | nil : StringBody [] []
  | cons {piece cs : List Char} {bs bytes : List UInt8} (h : StringPiece piece bs)
      (hrest : StringBody cs bytes) : StringBody (piece ++ cs) (bs ++ bytes)

/-- A string literal: quotes around pieces. -/
inductive StringLiteral : List Char → List UInt8 → Prop
  | mk {body : List Char} {bytes : List UInt8} (h : StringBody body bytes) :
      StringLiteral ('\x22' :: (body ++ ['\x22'])) bytes

/-- A text may follow a token: it is empty or starts with a blank, a parenthesis or a semicolon. -/
def EndsToken (rest : List Char) : Prop :=
  ∀ c ∈ rest.head?, c ∈ [' ', '\t', '\n', '\x0c', '\r', '(', ')', ';']

namespace Lexeme

open Digit

variable {cs taken rest body : List Char} {bs out : List UInt8} {ds : List Nat} {k n m : Nat}

/-! ## Escapes -/

theorem isHex_of_forall₂ (h : List.Forall₂ (IsDigit 16) cs ds) :
    (∀ c ∈ cs, isHex c = true) ∧ cs.filterMap (value? 16) = ds := by
  induction h with
  | nil => exact ⟨by simp, rfl⟩
  | cons h _ ih =>
    have hvalue := value?_eq_some_iff.mpr h
    refine ⟨List.forall_mem_cons.mpr ⟨?_, ih.1⟩, ?_⟩
    · rw [isHex, hvalue]
      rfl
    · rw [List.filterMap_cons_some hvalue, ih.2]

theorem forall₂_of_isHex (h : ∀ c ∈ cs, isHex c = true) :
    List.Forall₂ (IsDigit 16) cs (cs.filterMap (value? 16)) := by
  induction cs with
  | nil => exact .nil
  | cons c cs ih =>
    obtain ⟨hc, hcs⟩ := List.forall_mem_cons.mp h
    obtain ⟨d, hd⟩ := Option.isSome_iff_exists.mp hc
    rw [List.filterMap_cons_some hd]
    exact .cons (value?_eq_some_iff.mp hd) (ih hcs)

theorem codePointEscape_of_digits (hne : cs ≠ []) (h : List.Forall₂ (IsDigit 16) cs ds)
    (hvalid : (number 16 ds).isValidChar) (rest : List Char) :
    codePointEscape ('\x7b' :: (cs ++ '\x7d' :: rest)) =
      (.ok (String.utf8EncodeChar (Char.ofNat (number 16 ds))), cs.length + 2) := by
  obtain ⟨hhex, hdigits⟩ := isHex_of_forall₂ h
  have hclose : ∀ c ∈ ('\x7d' :: rest).head?, isHex c = false := by
    rintro c ⟨⟩
    decide
  obtain ⟨c, cs, rfl⟩ := List.exists_cons_of_ne_nil hne
  rw [codePointEscape, takeWhile_stretch hhex hclose, dropWhile_stretch hhex hclose]
  dsimp only
  rw [hdigits, toNat_eq_number, if_pos hvalid, Utf8.encode, List.flatMap_singleton]
  rfl

theorem exists_of_codePointEscape (h : codePointEscape cs = (.ok bs, k)) :
    ∃ digits ds rest, cs = '\x7b' :: (digits ++ '\x7d' :: rest) ∧ k = digits.length + 2 ∧
      digits ≠ [] ∧ List.Forall₂ (IsDigit 16) digits ds ∧ (number 16 ds).isValidChar ∧
      bs = String.utf8EncodeChar (Char.ofNat (number 16 ds)) := by
  unfold codePointEscape at h
  split at h
  · next cs =>
    dsimp only at h
    split at h
    · next digit digits rest htake hdrop =>
      split at h
      · next hvalid =>
        cases h
        refine ⟨cs.takeWhile isHex, _, rest, ?_, rfl, by simp [htake],
          forall₂_of_isHex fun c hc => List.mem_takeWhile_imp hc, ?_, ?_⟩
        · rw [← hdrop, List.takeWhile_append_dropWhile]
        · rwa [← toNat_eq_number]
        · rw [Utf8.encode, List.flatMap_singleton, toNat_eq_number]
      · cases h
    · cases h
  · cases h

/-- Two hexadecimal digits are none of the other escapes. -/
theorem escape_of_digits {c c' : Char} {high low : Nat} (hhigh : IsDigit 16 c high)
    (hlow : IsDigit 16 c' low) (rest : List Char) :
    escape (c :: c' :: rest) = (.ok [UInt8.ofNat (high * 16 + low)], 2) := by
  have hnewline : c ≠ '\n' := hhigh.ne (by decide)
  have ht : c ≠ 't' := hhigh.ne (by decide)
  have hn : c ≠ 'n' := hhigh.ne (by decide)
  have hr : c ≠ 'r' := hhigh.ne (by decide)
  have hquote : c ≠ '\x22' := hhigh.ne (by decide)
  have happostrophe : c ≠ '\x27' := hhigh.ne (by decide)
  have hbackslash : c ≠ '\x5c' := hhigh.ne (by decide)
  have hu : c ≠ 'u' := hhigh.ne (by decide)
  simp only [escape, value?_eq_some_iff.mpr hhigh, List.head?_cons, Option.bind_some,
    value?_eq_some_iff.mpr hlow]

theorem escape_of_piece (h : StringPiece ('\x5c' :: taken) bs) (rest : List Char) :
    escape (taken ++ rest) = (.ok bs, taken.length) := by
  generalize hpiece : '\x5c' :: taken = piece at h
  cases h with
  | plain _ _ hbackslash =>
    cases hpiece
    exact absurd rfl hbackslash
  | @short c b h =>
    cases hpiece
    simp only [shortEscapes, List.mem_cons, Prod.mk.injEq, List.not_mem_nil, or_false] at h
    rcases h with ⟨rfl, rfl⟩ | ⟨rfl, rfl⟩ | ⟨rfl, rfl⟩ | ⟨rfl, rfl⟩ | ⟨rfl, rfl⟩ | ⟨rfl, rfl⟩
    all_goals rfl
  | byte hhigh hlow =>
    cases hpiece
    exact escape_of_digits hhigh hlow rest
  | @codePoint cs ds hne h hvalid =>
    cases hpiece
    rw [List.cons_append, List.cons_append, List.append_assoc, List.singleton_append, escape,
      codePointEscape_of_digits hne h hvalid]
    simp

theorem exists_of_escape (h : escape cs = (.ok bs, k)) :
    ∃ taken rest, cs = taken ++ rest ∧ k = taken.length ∧ StringPiece ('\x5c' :: taken) bs := by
  fun_cases escape cs with
  | case1 | case2 => cases h
  | case3 cs | case4 cs | case5 cs | case6 cs | case7 cs | case8 cs =>
    cases h
    exact ⟨[_], cs, rfl, rfl, .short (by decide)⟩
  | case9 cs r n hcode =>
    rw [escape, hcode] at h
    cases h
    obtain ⟨digits, ds, rest, rfl, rfl, hne, hdigits, hvalid, rfl⟩ :=
      exists_of_codePointEscape hcode
    exact ⟨'u' :: '\x7b' :: (digits ++ ['\x7d']), rest, by simp, by simp,
      .codePoint hne hdigits hvalid⟩
  | case10 c cs h1 h2 h3 h4 h5 h6 h7 h8 high low hlow hhigh =>
    obtain ⟨d, hd, hlow⟩ := Option.bind_eq_some_iff.mp hlow
    obtain ⟨rest, rfl⟩ := List.head?_eq_some_iff.mp hd
    have hhigh := value?_eq_some_iff.mp hhigh
    have hlow := value?_eq_some_iff.mp hlow
    rw [escape_of_digits hhigh hlow] at h
    cases h
    exact ⟨[c, d], rest, rfl, rfl, .byte hhigh hlow⟩
  | case11 | case12 => simp only [escape, *] at h; cases h

/-! ## Literals -/

theorem not_closed_of_refused (n : Nat) (bytes : Array UInt8) (refused : Option (LexCause × Nat))
    (cs : List Char) (hrefused : refused.isSome = true) (bs : Array UInt8) :
    (string n bytes refused cs).1 ≠ .closed bs := by
  fun_induction string n bytes refused cs with
  | case1 | case2 | case3 => simp
  | case4 => cases hrefused
  | case5 n bytes refused cs bs k hescape ih => exact ih hrefused
  | case6 n bytes refused cs cause place k hescape ih => exact ih (by simp)
  | case7 n bytes refused c cs h1 h2 h3 ih => exact ih hrefused

/-- A literal that is read to its closing quote is made of pieces. -/
theorem exists_of_string {bytes bs : Array UInt8} {refused : Option (LexCause × Nat)}
    (h : string n bytes refused cs = (.closed bs, m)) :
    ∃ body rest out, cs = body ++ '\x22' :: rest ∧ StringBody body out ∧
      bs = bytes ++ out.toArray ∧ m = n + body.length + 1 := by
  fun_induction string n bytes refused cs with
  | case1 | case2 | case3 => cases h
  | case4 n bytes cs =>
    cases h
    exact ⟨[], cs, [], rfl, .nil, by simp, rfl⟩
  | case5 n bytes refused cs bs k hescape ih =>
    obtain ⟨taken, rest, rfl, rfl, hpiece⟩ := exists_of_escape hescape
    rw [List.drop_left] at ih h
    obtain ⟨body, rest, out, rfl, hbody, rfl, rfl⟩ := ih h
    refine ⟨'\x5c' :: taken ++ body, rest, bs ++ out, by simp, .cons hpiece hbody, by simp, ?_⟩
    rw [List.length_append, List.length_cons]
    omega
  | case6 n bytes refused cs cause place k hescape ih =>
    -- a literal with a refused escape is refused at its closing quote
    exact absurd (congrArg Prod.fst h) (not_closed_of_refused _ _ _ _ (by simp) _)
  | case7 n bytes refused c cs hnewline hquote hbackslash ih =>
    obtain ⟨body, rest, out, rfl, hbody, rfl, rfl⟩ := ih h
    have hpiece : StringPiece [c] (String.utf8EncodeChar c) := .plain hnewline hquote hbackslash
    refine ⟨[c] ++ body, rest, String.utf8EncodeChar c ++ out, rfl, .cons hpiece hbody, ?_, ?_⟩
    · simp [Utf8.encode]
    · rw [List.length_append, List.length_singleton]
      omega

/-- A piece is read on its own, in front of any text. -/
theorem string_piece {piece : List Char} (h : StringPiece piece bs) (n : Nat) (bytes : Array UInt8)
    (cs : List Char) : string n bytes none (piece ++ cs) =
      string (n + piece.length) (bytes ++ bs.toArray) none cs := by
  have hescaped (taken : List Char) (hpiece : piece = '\x5c' :: taken) :
      string n bytes none (piece ++ cs) =
        string (n + piece.length) (bytes ++ bs.toArray) none cs := by
    subst hpiece
    rw [List.cons_append, string, escape_of_piece h]
    dsimp only
    rw [List.drop_left, List.length_cons, Nat.add_assoc, Nat.add_comm 1]
  cases h with
  | plain hnewline hquote hbackslash =>
    rw [List.singleton_append, string]
    · simp [Utf8.encode]
    · exact hnewline
    · exact hquote
    · exact hbackslash
  | short | byte | codePoint => exact hescaped _ rfl

/-- Pieces before a closing quote are read as a literal. -/
theorem string_of_body (h : StringBody body out) (n : Nat) (bytes : Array UInt8)
    (rest : List Char) : string n bytes none (body ++ '\x22' :: rest) =
      (.closed (bytes ++ out.toArray), n + body.length + 1) := by
  induction h generalizing n bytes with
  | nil =>
    rw [List.nil_append, string]
    simp
  | @cons piece cs bs out h _ ih =>
    rw [List.append_assoc, string_piece h, ih, List.length_append]
    simp [Nat.add_assoc]

/-! ## Tokens -/

theorem endsToken_iff : EndsToken rest ↔ ∀ c ∈ rest.head?, isBoundary c = true := by
  simp [EndsToken, isBoundary, isBlank, or_assoc]

/-- A literal is lexed as its bytes where a token may end. -/
theorem read_of_literal {c : Char} {bytes : List UInt8} (h : StringLiteral (c :: taken) bytes)
    (hrest : EndsToken rest) :
    read c (taken ++ rest) = ⟨.ok (.string bytes), taken.length + 1⟩ := by
  generalize htaken : c :: taken = literal at h
  obtain @⟨body, _, hbody⟩ := h
  cases htaken
  have hbounded := bounded_of_boundary ('\x22' :: (body ++ ['\x22'])) (.string bytes)
    (endsToken_iff.mp hrest)
  rw [List.append_assoc, List.singleton_append, read, if_neg (by decide), if_neg (by decide),
    if_pos rfl, string_of_body hbody]
  simpa [Nat.add_comm] using hbounded

/-- What is lexed as a token at a quote is a literal where a token may end. -/
theorem exists_of_read_quote {kind : TokenKind} (h : (read '\x22' cs).result = .ok kind) :
    ∃ taken rest bytes, cs = taken ++ rest ∧ StringLiteral ('\x22' :: taken) bytes ∧
      EndsToken rest ∧ kind = .string bytes ∧ (read '\x22' cs).size = taken.length + 1 := by
  rw [read, if_neg (by decide), if_neg (by decide), if_pos rfl] at h ⊢
  split at h
  · next bytes n hstring =>
    obtain ⟨body, rest, out, rfl, hbody, rfl, rfl⟩ := exists_of_string hstring
    have hlength : 1 + body.length + 1 = ('\x22' :: (body ++ ['\x22'])).length := by
      simp [Nat.add_comm]
    have hsplit : '\x22' :: (body ++ '\x22' :: rest) = ('\x22' :: (body ++ ['\x22'])) ++ rest := by
      simp
    obtain ⟨hsize, hboundary⟩ := boundary_of_bounded h
    rw [hsplit, hlength, List.drop_left] at hboundary
    refine ⟨body ++ ['\x22'], rest, out, by simp, .mk hbody, endsToken_iff.mpr hboundary, ?_,
      hsize.trans hlength⟩
    simpa using (Except.ok.inj (result_of_bounded h)).symm
  · cases result_of_bounded h
  · cases result_of_bounded h

end Lexeme

namespace Source

variable {file text : String} {taken rest : List Char} {bytes : List UInt8}

/-- At a quote a lexeme stands. -/
theorem head?_tokens_of_quote {cs : List Char} (h : text.toList = '\x22' :: cs) :
    (Source.mk file text).tokens.head? =
      (Item.ofLexeme .start ('\x22' :: cs.take ((Lexeme.read '\x22' cs).size - 1))
        (Lexeme.read '\x22' cs).result).head? := by
  have hgap : Lexeme.gap ('\x22' :: cs) = .done := by
    rw [Lexeme.gap_of_no_comment fun _ _ => ⟨by decide, by decide⟩, if_neg (by decide)]
  rw [tokens, items, chars, h, Item.ofChars_lexeme _ hgap, List.append_assoc]
  unfold Item.ofLexeme
  split <;> rfl

theorem head?_tokens_of_literal (htext : text.toList = taken ++ rest)
    (h : StringLiteral taken bytes) (hrest : EndsToken rest) :
    (Source.mk file text).tokens.head? = some (.ok ⟨.string bytes, ⟨String.ofList taken, 0⟩,
      Pos.start.spanTo (Pos.start.after taken)⟩) := by
  obtain ⟨inner, rfl⟩ : ∃ inner, taken = '\x22' :: inner := by
    obtain ⟨-⟩ := h
    exact ⟨_, rfl⟩
  rw [List.cons_append] at htext
  rw [head?_tokens_of_quote htext, Lexeme.read_of_literal h hrest]
  dsimp only
  rw [Nat.add_sub_cancel, List.take_left]
  rfl

/-- A source that starts with a quote starts with a literal or with an error. -/
theorem literal_or_error (file : String) (h : text.toList.head? = some '\x22') :
    (∃ taken rest bytes, text.toList = taken ++ rest ∧ StringLiteral taken bytes ∧
      EndsToken rest) ∨
    ∃ cause span, (Source.mk file text).tokens.head? = some (.error (.lexical cause span)) := by
  obtain ⟨cs, hcs⟩ := List.head?_eq_some_iff.mp h
  match hread : (Lexeme.read '\x22' cs).result with
  | .ok kind =>
    obtain ⟨taken, rest, bytes, rfl, hliteral, hrest, -⟩ := Lexeme.exists_of_read_quote hread
    exact .inl ⟨_, rest, bytes, hcs, hliteral, hrest⟩
  | .error refusal =>
    rw [head?_tokens_of_quote hcs, hread]
    exact .inr ⟨_, _, rfl⟩

/-- A source that starts with a quote starts with a string token just if it starts with a string
literal in front of a place where a token may end. The token is made of the characters of the
literal, and has the bytes of its pieces in order. Otherwise the source starts with an error. -/
theorem string_literals (file text : String) (h : text.toList.head? = some '\x22') :
    let first := (Source.mk file text).tokens.head?
    (∀ taken rest bytes, text.toList = taken ++ rest → StringLiteral taken bytes →
      EndsToken rest →
      first = some (.ok ⟨.string bytes, ⟨String.ofList taken, 0⟩,
        Pos.start.spanTo (Pos.start.after taken)⟩)) ∧
    (∀ t bytes, first = some (.ok t) → t.kind = .string bytes →
      ∃ rest, text.toList = t.text.toList ++ rest ∧ StringLiteral t.text.toList bytes ∧
        EndsToken rest) ∧
    ((¬ ∃ taken rest bytes, text.toList = taken ++ rest ∧ StringLiteral taken bytes ∧
      EndsToken rest) → ∃ cause span, first = some (.error (.lexical cause span))) := by
  intro first
  refine ⟨fun _ _ _ => head?_tokens_of_literal, ?_, (literal_or_error file h).resolve_left⟩
  intro t bytes hfirst hkind
  rcases literal_or_error file h with ⟨taken, rest, bytes', htext, hliteral, hrest⟩ | ⟨_, _, herror⟩
  · have hsame := hfirst.symm.trans (head?_tokens_of_literal htext hliteral hrest)
    obtain rfl := Except.ok.inj (Option.some.inj hsame)
    cases hkind
    have hback : (String.ofList taken).toList = taken := String.toList_ofList
    exact ⟨rest, hback.symm ▸ htext, hback.symm ▸ hliteral, hrest⟩
  · cases hfirst.symm.trans herror

/-- A code point, a newline and two digits in front of a parenthesis. -/
theorem string_literals_escapes :
    (Source.mk "t" "\"\\u\x7b3bB\x7d\\n\\0a\"(").tokens.head? =
      some (.ok ⟨.string [0xCE, 0xBB, 0x0A, 0x0A], ⟨"\"\\u\x7b3bB\x7d\\n\\0a\"", 0⟩,
        Pos.start.spanTo (Pos.start.after "\"\\u\x7b3bB\x7d\\n\\0a\"".toList)⟩) := by
  have hdigits : List.Forall₂ (Digit.IsDigit 16) ['3', 'b', 'B'] [3, 11, 11] :=
    .cons ⟨by decide, by decide⟩ (.cons ⟨by decide, by decide⟩ (.cons ⟨by decide, by decide⟩ .nil))
  have hnewline : StringPiece ['\x5c', 'n'] [0x0A] := .short (by decide)
  have hbyte : StringPiece ['\x5c', '0', 'a'] [UInt8.ofNat (0 * 16 + 10)] :=
    .byte ⟨by decide, by decide⟩ ⟨by decide, by decide⟩
  have hbody := StringBody.cons (.codePoint (by decide) hdigits (by decide))
    (.cons hnewline (.cons hbyte .nil))
  have hrest : EndsToken ['('] := by
    rintro c ⟨⟩
    decide
  exact (string_literals "t" _ rfl).1 _ ['('] _ rfl (.mk hbody) hrest

end Source

end WasmText
