import WasmText.Diagnostic

/-!
# Diagnostics on a console

Each diagnostic is one line of text, then its snippet indented by two and a row of carets under the
columns it covers. An empty snippet leaves both out. A header may stand before the first diagnostic
or before each.
-/

namespace WasmText

/-- When a console prints its header. -/
inductive PrintHeader
  | never | once | always
deriving DecidableEq, Repr

/-- How a console shows diagnostics. -/
structure Console where
  header : Option String := none
  printHeader : PrintHeader := .never
  width : Nat := Diagnostic.defaultWidth
deriving Repr

namespace Console

/-- The header line for a diagnostic that is or is not the first. -/
def headerText (c : Console) (isFirst : Bool) : String :=
  match c.header, c.printHeader with
  | some h, .always => h ++ ":\n"
  | some h, .once => if isFirst then h ++ ":\n" else ""
  | _, _ => ""

/-- `n` copies of a character. -/
def row (n : Nat) (c : Char) : String := String.ofList (List.replicate n c)

/-- A diagnostic without header. -/
def body (d : Diagnostic) : String :=
  let indent := d.location.first - 1 - d.snippet.cut
  let carets := max (d.location.last - d.location.first) 1
  d.text ++ "\n" ++
    if d.snippet.text.isEmpty then ""
    else "  " ++ String.ofList d.snippet.text ++ "\n" ++
      "  " ++ row indent ' ' ++ row carets '^' ++ "\n"

/-- All that is shown for a list of diagnostics. -/
def render (c : Console) : List Diagnostic → String
  | [] => ""
  | d :: ds =>
    c.headerText true ++ body d ++
      String.join (ds.map fun d => c.headerText false ++ body d)

end Console

end WasmText
