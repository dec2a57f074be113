import WasmText.Problem

/-!
# Labels

The labels that a branch can aim at, innermost first. A function body starts with one for the
function itself; blocks, loops and conditionals add one each. A branch names its target, or counts
the labels between: `atDepth_of_depthOf` says that a name reaches the label at its depth, the
nearest of that name.
-/

namespace WasmText

/-- What a label stands for. -/
inductive LabelKind
  | func | block | loop | ifArm | elseArm
deriving DecidableEq, Repr

namespace LabelKind

def name : LabelKind → String
  | func => "func"
  | block => "block"
  | loop => "loop"
  | ifArm => "if"
  | elseArm => "else"

end LabelKind

/-- A branch target with the result type of what it labels. -/
structure Label where
  kind : LabelKind
  name : Option String
  sig : ValType
deriving DecidableEq, Repr

/-- Open labels, innermost first. -/
abbrev Labels := List Label

namespace Labels

/-- The label of a function body alone. -/
def ofFunction (result : ValType) : Labels := [⟨.func, none, result⟩]

/-- The labels inside a block. -/
def push (ls : Labels) (kind : LabelKind) (name : Option String) (sig : ValType) : Labels :=
  ⟨kind, name, sig⟩ :: ls

/-- The innermost label, and the labels around it. -/
def pop (ls : Labels) : Option Label × Labels := (ls.head?, ls.tail)

/-- The labels of the other arm of the innermost conditional. -/
def enterElse (ls : Labels) (span : Span) : Except Problem Labels :=
  match ls with
  | ⟨.ifArm, name, sig⟩ :: outer => .ok (⟨.elseArm, name, sig⟩ :: outer)
  | _ => .error ⟨.elseWithoutIf, span⟩

/-- The label with `depth` labels inside it. -/
def atDepth (ls : Labels) (depth : Nat) (span : Span) : Except Problem Label :=
  match ls[depth]? with
  | some l => .ok l
  | none => .error ⟨.labelOutOfRange ls.length, span⟩

/-- The depth of the innermost label with a name. -/
def depthOf (ls : Labels) (name : String) (span : Span) : Except Problem Nat :=
  match ls.findIdx? (·.name == some name) with
  | some depth => .ok depth
  | none => .error ⟨.undefinedLabel name, span⟩

/-- A name resolves to the depth of a label that carries it, and no label inside that one does. -/
theorem atDepth_of_depthOf {ls : Labels} {name : String} {span : Span} {depth : Nat}
    (h : ls.depthOf name span = .ok depth) :
    (∃ l, ls.atDepth depth span = .ok l ∧ l.name = some name) ∧
      ∀ i < depth, ∀ l, ls[i]? = some l → l.name ≠ some name := by
  unfold depthOf at h
  split at h
  · next d hd =>
    obtain rfl := Except.ok.inj h
    obtain ⟨hlt, hname, hbefore⟩ := List.findIdx?_eq_some_iff_getElem.1 hd
    refine ⟨⟨ls[d], by simp [atDepth, List.getElem?_eq_getElem hlt], by simpa using hname⟩, ?_⟩
    intro i hi l hl
    obtain ⟨hilt, rfl⟩ := List.getElem?_eq_some_iff.1 hl
    simpa using hbefore i hi
  · cases h

end Labels

end WasmText
