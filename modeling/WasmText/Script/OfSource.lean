import WasmText.Script.OfForm

/-!
# Scripts from sources

Commands are read one after the other. One that is refused is logged and left out, and reading goes
on with the next form, so each broken command gets its own problem. Fields without a module are
joined as long as the next form starts like a field; it is looked at before it is taken, so what is
wrong with the command after them is logged after what is wrong with them.
-/

namespace WasmText

namespace Reader

/-- Whether the next form starts like a module field. -/
def atField (r : Reader) : Bool := r.peekKeyword?.any Keyword.isField

/-- The fields that follow a field. -/
def readFields (r : Reader) : List Form × Reader :=
  if r.atField then
    let next := r.readContinuation
    match _h : next.1 with
    | none => ([], next.2)
    | some f =>
      let (fs, r') := next.2.readFields
      (f :: fs, r')
  else ([], r)
termination_by r.pending.length
decreasing_by exact pending_length_of_read _h

theorem readFields_pending_length_le (r : Reader) :
    r.readFields.2.pending.length ≤ r.pending.length := by
  fun_induction readFields r with
  | case1 r _ next _ => exact read_pending_length_le r false
  | case2 r _ next f h fs r' heq ih =>
    rw [heq] at ih
    exact Nat.le_trans ih (Nat.le_of_lt (pending_length_of_read h))
  | case3 r _ => exact Nat.le_refl _

/-- The command that starts with a form just read, and the reader after it. -/
def command (r : Reader) (f : Form) : Except Failure Command × Reader :=
  if f.headKeyword?.any Keyword.isField then
    let (fs, r) := r.readFields
    (Command.ofFields f fs, r)
  else (Command.ofForm r.source f, r)

theorem command_pending_length_le (r : Reader) (f : Form) :
    (r.command f).2.pending.length ≤ r.pending.length := by
  unfold command
  split
  · exact readFields_pending_length_le r
  · exact Nat.le_refl _

/-- The commands of a source that are accepted, none if reading is abandoned, and the reader where
it ends. -/
def readCommands (r : Reader) : Option (List Command) × Reader :=
  let next := r.readForm
  match _h : next.1 with
  | none => (some [], next.2)
  | some f =>
    let result := next.2.command f
    match result.1 with
    | .ok c =>
      let (cs?, r') := result.2.readCommands
      (cs?.map (c :: ·), r')
    | .error (.problem p) => (result.2.report p).readCommands
    | .error .abandoned => (none, result.2)
termination_by r.pending.length
decreasing_by
  all_goals
    refine Nat.lt_of_le_of_lt (command_pending_length_le _ _) (pending_length_of_read _h)

end Reader

namespace Source

/-- The source that bytes are, or the part before the first fault and the problem there. -/
def ofBytes (file : String) (bytes : List UInt8) : Source × Option Problem :=
  match Utf8.decode? bytes with
  | some cs => (⟨file, String.ofList cs⟩, none)
  | none =>
    let src : Source := ⟨file, String.ofList (Utf8.decodePrefix bytes)⟩
    (src, some (.lexical .encoding src.finish.point))

end Source

namespace Script

/-- Reads a script. -/
def parse (src : Source) : Parsed Script :=
  match (Reader.ofSource src).readCommands with
  | (some cs, r) =>
    ⟨src, if r.errors = 0 then .accepted ⟨cs⟩ else .rejected r.errors, r.log.problems.toList⟩
  | (none, r) => ⟨src, .abandoned, r.log.problems.toList⟩

/-- Reads a script from bytes, which have to be UTF-8. -/
def parseBytes (file : String) (bytes : List UInt8) : Parsed Script :=
  match Source.ofBytes file bytes with
  | (src, none) => parse src
  | (src, some p) => ⟨src, .rejected 1, [p]⟩

end Script

end WasmText
