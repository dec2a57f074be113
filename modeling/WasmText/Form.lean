import WasmText.Token.Basic

/-!
# Forms

A form is a single token, or a list of forms between parentheses. Most lists say what they are by
their head, the first item, which is a keyword or an instruction.
-/

namespace WasmText

/-- A token, or a parenthesised list with the span of all of it. -/
inductive Form
  | atom (token : Token)
  | list (span : Span) (items : List Form)
deriving Repr

namespace Form

mutual

/-- Forms are equal when their tokens and spans are. -/
def decEq : (f g : Form) → Decidable (f = g)
  | atom t, atom u => decidable_of_iff (t = u) (atom.injEq t u ▸ Iff.rfl)
  | atom _, list .. => .isFalse nofun
  | list .., atom _ => .isFalse nofun
  | list s fs, list s' gs =>
    have := decEqAll fs gs
    decidable_of_iff (s = s' ∧ fs = gs) (list.injEq s fs s' gs ▸ Iff.rfl)

def decEqAll : (fs gs : List Form) → Decidable (fs = gs)
  | [], [] => .isTrue rfl
  | [], _ :: _ => .isFalse nofun
  | _ :: _, [] => .isFalse nofun
  | f :: fs, g :: gs =>
    have := decEq f g
    have := decEqAll fs gs
    decidable_of_iff (f = g ∧ fs = gs) List.cons_eq_cons.symm

end

instance : DecidableEq Form := decEq

def span : Form → Span
  | atom t => t.span
  | list span _ => span

def token? : Form → Option Token
  | atom t => some t
  | list .. => none

def items? : Form → Option (List Form)
  | atom _ => none
  | list _ items => some items

def keyword? : Form → Option Keyword
  | atom ⟨.keyword word, _, _⟩ => some word
  | _ => none

def opcode? : Form → Option Opcode
  | atom ⟨.opcode op, _, _⟩ => some op
  | _ => none

def valType? : Form → Option ValType
  | atom ⟨.valType type, _, _⟩ => some type
  | _ => none

/-- The name of an identifier, without its `$`. -/
def id? : Form → Option String
  | atom ⟨.id name, _, _⟩ => some name
  | _ => none

/-- The bytes of a string. -/
def bytes? : Form → Option (List UInt8)
  | atom ⟨.string bytes, _, _⟩ => some bytes
  | _ => none

/-- The keyword at the head of a list. -/
def headKeyword? : Form → Option Keyword
  | list _ (head :: _) => head.keyword?
  | _ => none

/-- The instruction at the head of a list. -/
def headOpcode? : Form → Option Opcode
  | list _ (head :: _) => head.opcode?
  | _ => none

/-- Whether this is a list with a given keyword at its head. -/
def isHeadedBy (word : Keyword) (f : Form) : Bool := f.headKeyword? == some word

/-- The form as it is named in messages. -/
def describe : Form → String
  | atom ⟨.eof, _, _⟩ => "EOF"
  | atom t => "\"" ++ t.text ++ "\""
  | list _ (atom head :: _) => "\"(" ++ head.text ++ " ...)\""
  | list .. => "list"

mutual

/-- The texts of a form's tokens with its parentheses, items a space apart. -/
def text : Form → String
  | atom t => t.text
  | list _ items => "(" ++ textAll items ++ ")"

/-- The texts of forms, a space apart. -/
def textAll : List Form → String
  | [] => ""
  | [f] => f.text
  | f :: g :: fs => f.text ++ " " ++ textAll (g :: fs)

end

/-- The problem of finding this form where something else should stand. -/
def unexpected (what : Expectation) (f : Form) : Problem := ⟨.expected what f.describe, f.span⟩

/-- The items of a list. -/
def expectList (what : Expectation) (f : Form) : Except Problem (List Form) :=
  match f.items? with
  | some items => .ok items
  | none => .error (f.unexpected what)

/-- The first list with a given head among some forms. -/
def findList? (word : Keyword) (forms : List Form) : Option Form := forms.find? (isHeadedBy word)

end Form

end WasmText
