import WasmText.Proofs.Log

/-!
# The forms of a command

A command is read from a group of forms: a form that stands alone, or a field of a module with the
fields after it. `Reader.groups` are the groups of a source, however their commands turn out, and
`mapM_groups_of_readCommands` says that a source without a problem is the commands of all of them:
none that was refused, or whose problem was dropped, is left out of an accepted script.
-/

namespace WasmText

/-- Whether a form is headed like a field of a module. -/
def Form.isField (f : Form) : Bool := f.headKeyword?.any Keyword.isField

theorem Form.isSome_items?_of_isField {f : Form} (h : f.isField = true) :
    f.items?.isSome = true := by
  cases f with
  | atom t => cases h
  | list span items => rfl

/-- The command of a group: its first form and the others. -/
def Command.ofGroup (src : Source) (f : Form) (others : List Form) : Except Failure Command :=
  if f.isField then ofFields f others else ofForm src f

namespace Reader

/-! ## One step of the loops -/

/-- Where no field is next no fields are read. -/
theorem readFields_of_not_atField {r : Reader} (h : r.atField = false) :
    r.readFields = ([], r) := by
  rw [readFields, h]
  rfl

/-- Where a field is next it is read, and then those after it. -/
theorem readFields_of_read {r r' : Reader} {f : Form} (h : r.atField = true)
    (hread : r.read false = (some f, r')) :
    r.readFields = (f :: r'.readFields.1, r'.readFields.2) := by
  rw [readFields, if_pos h]
  simp only [readContinuation]
  split
  · next hnone => exact absurd (congrArg Prod.fst hread) (by simp [hnone])
  · next f' hsome =>
    obtain rfl : f' = f := Option.some.inj (hsome.symm.trans (congrArg Prod.fst hread))
    rw [hread]

/-- There are no commands where there is no form. -/
theorem readCommands_of_none {r r' : Reader} (hread : r.readForm = (none, r')) :
    r.readCommands = (some [], r') := by
  rw [readCommands]
  split
  · rw [hread]
  · next f hsome => exact absurd (congrArg Prod.fst hread) (by simp [hsome])

/-- A command is read from a form, and then the commands after it. -/
theorem readCommands_of_some {r r' : Reader} {f : Form} (hread : r.readForm = (some f, r')) :
    r.readCommands =
      match (r'.command f).1 with
      | .ok c => (r'.command f).2.readCommands.map (Option.map (c :: ·)) id
      | .error (.problem p) => ((r'.command f).2.report p).readCommands
      | .error .abandoned => (none, (r'.command f).2) := by
  rw [readCommands]
  split
  · next hnone => exact absurd (congrArg Prod.fst hread) (by simp [hnone])
  · next f' hsome =>
    obtain rfl : f' = f := Option.some.inj (hsome.symm.trans (congrArg Prod.fst hread))
    rw [hread]
    dsimp only
    cases (r'.command f').1 with
    | ok c => rfl
    | error failure => cases failure <;> rfl

/-! ## Groups -/

/-- The forms of the same command as the form `f`, which was just read. -/
def readOthers (r : Reader) (f : Form) : List Form × Reader :=
  if f.isField then r.readFields else ([], r)

theorem readOthers_pending_length_le (r : Reader) (f : Form) :
    (r.readOthers f).2.pending.length ≤ r.pending.length := by
  unfold readOthers
  split
  · exact readFields_pending_length_le r
  · exact Nat.le_refl _

theorem readOthers_extends (r : Reader) (f : Form) : r.log.Extends (r.readOthers f).2.log := by
  unfold readOthers
  split
  · exact readFields_extends r
  · exact .refl _

/-- A command is read from its first form and the fields that go with it. -/
theorem command_eq (r : Reader) (f : Form) :
    r.command f = (Command.ofGroup r.source f (r.readOthers f).1, (r.readOthers f).2) := by
  unfold command readOthers Command.ofGroup Form.isField
  split <;> rfl

/-- The groups of forms that the commands of a source are read from. -/
def groups (r : Reader) : List (Form × List Form) :=
  match _h : r.readForm.1 with
  | none => []
  | some f => (f, (r.readForm.2.readOthers f).1) :: (r.readForm.2.readOthers f).2.groups
termination_by r.pending.length
decreasing_by
  exact Nat.lt_of_le_of_lt (readOthers_pending_length_le _ _) (pending_length_of_read _h)

/-- There are no groups where there is no form. -/
theorem groups_of_none {r : Reader} (h : r.readForm.1 = none) : r.groups = [] := by
  rw [groups]
  split
  · rfl
  · next f hf => exact absurd (h.symm.trans hf) (by simp)

/-- A group is a form with the fields that go with it. -/
theorem groups_of_some {r : Reader} {f : Form} (h : r.readForm.1 = some f) :
    r.groups =
      (f, (r.readForm.2.readOthers f).1) :: (r.readForm.2.readOthers f).2.groups := by
  rw [groups]
  split
  · next hnone => exact absurd (h.symm.trans hnone) (by simp)
  · next f' hf =>
    obtain rfl : f = f' := Option.some.inj (h.symm.trans hf)
    rfl

@[simp] theorem read_source (r : Reader) (fresh : Bool) : (r.read fresh).2.source = r.source := by
  unfold read
  split <;> rfl

@[simp] theorem readForm_source (r : Reader) : r.readForm.2.source = r.source := read_source r true

@[simp] theorem readFields_source (r : Reader) : r.readFields.2.source = r.source := by
  fun_induction readFields r with
  | case1 r _ next _ => exact read_source r false
  | case2 r _ next f h fs r' heq ih =>
    rw [heq] at ih
    exact ih.trans (read_source r false)
  | case3 r _ => rfl

@[simp] theorem readOthers_source (r : Reader) (f : Form) :
    (r.readOthers f).2.source = r.source := by
  unfold readOthers
  split
  · exact readFields_source r
  · rfl

end Reader

end WasmText
