import WasmText.Form.Reader
import WasmText.Token.Lexer

/-!
# Reading forms from a lexer

A `Reader` has the items of its source at hand. A live reader takes them from a lexer, one when it
needs one, and logs a lexical problem when it comes by it. What it logs in a command is muted by
counting: the count says how many problems of the lexemes and of nesting the command has had.

To see the keyword that comes next it has its lexer run on and go back.
-/

namespace WasmText

/-- A source that is read form by form from a lexer. -/
structure LiveReader where
  lexer : Lexer
  problems : Array Problem
  errors : Nat
  /-- The lexical problems of the command being read, and its forms that nest too deeply. -/
  formErrors : Nat
  /-- The end of the source, once it was met. -/
  eof : Option { t : Token // t.kind = .eof }
  finished : Bool

namespace LiveReader

open Reader (Opened maxNesting)

/-- A reader at the start of a source. -/
def ofSource (src : Source) : LiveReader := ⟨.ofSource src, #[], 0, 0, none, false⟩

def source (r : LiveReader) : Source := r.lexer.source

/-! ## Logging -/

/-- Logs a problem and counts it. -/
def emit (r : LiveReader) (p : Problem) : LiveReader :=
  { r with problems := r.problems.push p, errors := r.errors + 1 }

/-- Logs a problem of the command being read, unless it follows from another. -/
def report (r : LiveReader) (p : Problem) : LiveReader := if 0 < r.formErrors then r else r.emit p

/-- Has further problems of the command dropped. -/
def mute (r : LiveReader) : LiveReader := { r with formErrors := r.formErrors + 1 }

/-- Starts a command if `fresh`. -/
def start (r : LiveReader) (fresh : Bool) : LiveReader :=
  if fresh then { r with formErrors := 0 } else r

/-- The reader at the end of its source. -/
def finish (r : LiveReader) : LiveReader := { r with finished := true }

@[simp] theorem lexer_emit (r : LiveReader) (p : Problem) : (r.emit p).lexer = r.lexer := rfl

@[simp] theorem lexer_mute (r : LiveReader) : r.mute.lexer = r.lexer := rfl

@[simp] theorem lexer_finish (r : LiveReader) : r.finish.lexer = r.lexer := rfl

@[simp] theorem lexer_report (r : LiveReader) (p : Problem) : (r.report p).lexer = r.lexer := by
  unfold report
  split <;> rfl

@[simp] theorem lexer_start (r : LiveReader) (fresh : Bool) : (r.start fresh).lexer = r.lexer := by
  cases fresh <;> rfl

/-! ## Tokens -/

/-- What stands for the end of a source that was met without being seen. -/
def lostEnd (src : Source) : Token := ⟨.eof, ⟨"", src.size⟩, ⟨src.size, src.size, 1, 1⟩⟩

/-- The next token. Lexical problems on the way are logged, and once the source has ended its end is
met again and again. -/
def nextToken (r : LiveReader) : Token × LiveReader :=
  match _h : r.lexer.next with
  | (some (.ok t), lexer) =>
    (t, { r with lexer, eof := if h : t.kind = .eof then some ⟨t, h⟩ else r.eof })
  | (some (.error p), lexer) => ({ r with lexer }.mute.emit p).nextToken
  | (none, lexer) => ((r.eof.map Subtype.val).getD (lostEnd r.source), { r with lexer })
termination_by r.lexer.bound
decreasing_by
  have := r.lexer.bound_next_lt (by rw [_h]; rfl)
  rwa [_h] at this

/-- A token before the end leaves fewer items. -/
theorem bound_nextToken_lt (r : LiveReader) (h : r.nextToken.1.kind ≠ .eof) :
    r.nextToken.2.lexer.bound < r.lexer.bound := by
  fun_induction nextToken r with
  | case1 r t lexer hnext =>
    have := r.lexer.bound_next_lt (by rw [hnext]; rfl)
    rwa [hnext] at this
  | case2 r p lexer hnext ih =>
    have := r.lexer.bound_next_lt (by rw [hnext]; rfl)
    rw [hnext] at this
    exact Nat.lt_trans (ih h) this
  | case3 r lexer hnext =>
    refine absurd ?_ h
    cases r.eof with
    | none => rfl
    | some t => exact t.2

/-- A token is read from what is left, so readers that recurse on what is left end. -/
theorem bound_nextToken_le (r : LiveReader) : r.nextToken.2.lexer.bound ≤ r.lexer.bound := by
  fun_induction nextToken r with
  | case1 r t lexer hnext | case3 r lexer hnext =>
    have := r.lexer.bound_next_le
    rwa [hnext] at this
  | case2 r p lexer hnext ih =>
    have := r.lexer.bound_next_le
    rw [hnext] at this
    exact Nat.le_trans ih this

/-! ## One list -/

/-- Passes over tokens until `depth` open lists are closed. -/
def skipToDepth (r : LiveReader) : (depth : Nat) → LiveReader
  | 0 => r
  | d + 1 =>
    let next := r.nextToken
    if _h : next.1.kind = .eof then next.2.finish
    else
      match next.1.kind with
      | .leftParen => next.2.skipToDepth (d + 2)
      | .rightParen => next.2.skipToDepth d
      | _ => next.2.skipToDepth (d + 1)
termination_by r.lexer.bound
decreasing_by all_goals exact r.bound_nextToken_lt _h

/-- Reads on in the open list `current`, which stands in the lists `parents`, innermost first. There
is no form if the list nests too deeply or never closes. -/
def readList (r : LiveReader) (current : Opened) (parents : List Opened) :
    Option Form × LiveReader :=
  let next := r.nextToken
  if _h : next.1.kind = .eof then (none, (next.2.report ⟨.unclosed, next.1.span⟩).finish)
  else
    match next.1.kind with
    | .leftParen =>
      let depth := parents.length + 2
      if maxNesting < depth then
        (none, (next.2.report ⟨.formsTooDeep, next.1.span⟩).mute.skipToDepth depth)
      else next.2.readList ⟨next.1.span, []⟩ (current :: parents)
    | .rightParen =>
      let f := current.close next.1.span
      match parents with
      | [] => (some f, next.2)
      | p :: ps => next.2.readList { p with items := f :: p.items } ps
    | _ => next.2.readList { current with items := .atom next.1 :: current.items } parents
termination_by r.lexer.bound
decreasing_by all_goals exact r.bound_nextToken_lt _h

theorem bound_skipToDepth_le (r : LiveReader) (depth : Nat) :
    (r.skipToDepth depth).lexer.bound ≤ r.lexer.bound := by
  fun_induction skipToDepth r depth with
  | case1 => exact Nat.le_refl _
  | case2 r d next => exact r.bound_nextToken_le
  | case3 r d next _ _ ih | case4 r d next _ _ ih | case5 r d next _ _ _ ih =>
    exact Nat.le_trans ih r.bound_nextToken_le

theorem bound_readList_le (r : LiveReader) (current : Opened) (parents : List Opened) :
    (r.readList current parents).2.lexer.bound ≤ r.lexer.bound := by
  fun_induction readList r current parents with
  | case1 r current parents next => simpa using r.bound_nextToken_le
  | case2 r current parents next _ _ depth =>
    refine Nat.le_trans (bound_skipToDepth_le _ depth) ?_
    simpa using r.bound_nextToken_le
  | case4 r current next => exact r.bound_nextToken_le
  | case3 r current parents next _ _ depth _ ih | case5 r current next _ _ f p ps ih
  | case6 r current parents next _ _ _ ih =>
    exact Nat.le_trans ih r.bound_nextToken_le

/-! ## The next form -/

/-- Looks for the next form. A `fresh` one starts a command, and a form that nests too deeply is
then passed over; otherwise it ends the search. `skipping` tells that a stray token was reported and
the row it started goes on. -/
def readTopLevel (r : LiveReader) (fresh skipping : Bool) : Option Form × LiveReader :=
  let next := r.nextToken
  if _h : next.1.kind = .eof then (none, next.2.finish)
  else
    match next.1.kind with
    | .leftParen =>
      let read := (next.2.start fresh).readList ⟨next.1.span, []⟩ []
      match read.1 with
      | some f => (some f, read.2)
      | none =>
        if read.2.finished || !fresh then (none, read.2) else read.2.readTopLevel fresh false
    | .rightParen =>
      ((next.2.start fresh).report ⟨.strayClosing, next.1.span⟩).readTopLevel fresh skipping
    | _ =>
      if skipping then next.2.readTopLevel fresh true
      else (next.2.report ⟨.strayToken next.1.text, next.1.span⟩).readTopLevel fresh true
termination_by r.lexer.bound
decreasing_by
  · refine Nat.lt_of_le_of_lt (bound_readList_le ..) ?_
    rw [lexer_start]
    exact r.bound_nextToken_lt _h
  · rw [lexer_report, lexer_start]
    exact r.bound_nextToken_lt _h
  · exact r.bound_nextToken_lt _h
  · rw [lexer_report]
    exact r.bound_nextToken_lt _h

/-- The next form, as one of the same command or as the first of a fresh one. -/
def read (r : LiveReader) (fresh : Bool) : Option Form × LiveReader :=
  if r.finished then (none, r) else r.readTopLevel fresh false

/-- The next form, which starts a command. -/
def readForm (r : LiveReader) : Option Form × LiveReader := r.read true

/-- The next form of the command that the form before it started. -/
def readContinuation (r : LiveReader) : Option Form × LiveReader := r.read false

/-- The keyword at the head of the next form, if what comes next is a list with one. -/
def peekKeyword (r : LiveReader) : Option Keyword × LiveReader :=
  let (word?, lexer) := r.lexer.peekKeyword
  (word?, { r with lexer })

end LiveReader

/-! ## One operation after another -/

namespace Reader

/-- What can be asked of a reader. -/
inductive Op
  | form
  | continuation
  | peek
  | report (p : Problem)

/-- What a reader answers. -/
inductive Answer
  | form (f? : Option Form)
  | keyword (word? : Option Keyword)
  | reported

end Reader

namespace LiveReader

open Reader (Op Answer)

/-- One call of the reader and what it answers. -/
def step (r : LiveReader) : Op → Answer × LiveReader
  | .form => let (f?, r') := r.readForm; (.form f?, r')
  | .continuation => let (f?, r') := r.readContinuation; (.form f?, r')
  | .peek => let (word?, r') := r.peekKeyword; (.keyword word?, r')
  | .report p => (.reported, r.report p)

/-- The answers to a row of operations, and the reader after them. -/
def run (r : LiveReader) : List Op → List Answer × LiveReader
  | [] => ([], r)
  | op :: ops =>
    let (answer, r') := r.step op
    let (answers, r'') := r'.run ops
    (answer :: answers, r'')

end LiveReader

end WasmText
