import WasmText.Source
import WasmText.Token.Lexeme

/-!
# The tokens of a source

A source is a sequence of gaps and lexemes. Each lexeme gives one item: a token, or the problem that
refuses it; an unknown word gives both, first the problem and then a reserved token. A block comment
that does not end is a problem and takes the rest of the source. The last item of every source is
its end.

Each step takes at least one character, so lexing ends whatever the source holds.
-/

namespace WasmText

namespace Item

/-- The items of a lexeme made of the characters `taken` at the point `p`. -/
def ofLexeme (p : Pos) (taken : List Char) (result : Except Refusal TokenKind) : List Item :=
  let source : Excerpt := ⟨String.ofList taken, p.offset⟩
  let span := p.spanTo (p.after taken)
  match result with
  | .ok .reserved =>
    [.error (.lexical (.unknownWord source.text) span), .ok ⟨.reserved, source, span⟩]
  | .ok kind => [.ok ⟨kind, source, span⟩]
  | .error refusal =>
    [.error (.lexical refusal.cause
      ((p.after (taken.take refusal.first)).spanTo (p.after (taken.take refusal.last))))]

/-- The items of the text from the point `p` on, without its end. -/
def ofChars (p : Pos) : List Char → List Item
  | [] => []
  | c :: cs =>
    match Lexeme.gap (c :: cs) with
    | .skip n =>
      ofChars (p.after (c :: cs.take (n - 1))) (cs.drop (n - 1))
    | .unterminated => [.error (.lexical .unterminatedComment (p.spanTo (p.after (c :: cs))))]
    | .done =>
      let lexeme := Lexeme.read c cs
      let taken := c :: cs.take (lexeme.size - 1)
      ofLexeme p taken lexeme.result ++ ofChars (p.after taken) (cs.drop (lexeme.size - 1))
termination_by cs => cs.length
decreasing_by all_goals (simp only [List.length_cons, List.length_drop]; omega)

end Item

namespace Source

/-- The items of a source before its end. -/
def items (src : Source) : List Item := Item.ofChars .start src.chars

/-- All items of a source, with the end as the last. -/
def tokens (src : Source) : List Item := src.items ++ [.ok (.eof src.finish)]

end Source

end WasmText
