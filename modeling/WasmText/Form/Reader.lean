import WasmText.Form
import WasmText.Token.Stream

/-!
# Reading forms

A reader takes the top-level forms of a source one after the other and keeps a log of problems. What
stands between forms is a problem: each closing parenthesis, and the first of a row of other tokens.
So is a form that nests too deeply, which is passed over as a whole, and one that never closes,
which ends the reading.

Lexical problems are always logged. Once one is, or a form nests too deeply, what else goes wrong in
the same command follows from it and is not logged: the log is muted until a fresh form or a stray
closing parenthesis starts.
-/

namespace WasmText

/-- Problems in the order they were found, the errors counted, and whether further problems of the
command are dropped. -/
structure Log where
  problems : Array Problem
  errors : Nat
  muted : Bool
deriving DecidableEq, Repr

namespace Log

def empty : Log := ⟨#[], 0, false⟩

/-- Logs a problem and counts it. Nothing is logged or counted in any other way. -/
def emit (log : Log) (p : Problem) : Log :=
  { log with problems := log.problems.push p, errors := log.errors + 1 }

def mute (log : Log) : Log := { log with muted := true }

/-- Logs a lexical problem. -/
def lexical (log : Log) (p : Problem) : Log := (log.emit p).mute

/-- Logs a problem of the command unless the log is muted. -/
def report (log : Log) (p : Problem) : Log := if log.muted then log else log.emit p

/-- Starts a command if `fresh`. -/
def start (log : Log) (fresh : Bool) : Log := if fresh then { log with muted := false } else log

@[simp] theorem problems_emit (log : Log) (p : Problem) :
    (log.emit p).problems = log.problems.push p := rfl

@[simp] theorem muted_emit (log : Log) (p : Problem) : (log.emit p).muted = log.muted := rfl

@[simp] theorem problems_lexical (log : Log) (p : Problem) :
    (log.lexical p).problems = log.problems.push p := rfl

@[simp] theorem muted_lexical (log : Log) (p : Problem) : (log.lexical p).muted = true := rfl

end Log

namespace Reader

/-- Lists nest at most this deep. -/
def maxNesting : Nat := 1000

/-! ## One list -/

/-- A list that is still open: the span of its parenthesis, and its items, the last first. -/
structure Opened where
  start : Span
  items : List Form

/-- The form of an open list that closes at a parenthesis. -/
def Opened.close (o : Opened) (last : Span) : Form := .list (o.start.join last) o.items.reverse

/-- How a list ends: as a form, passed over, or open where the source ends. -/
inductive ListEnd
  | form (f : Form)
  | tooDeep
  | unclosed

/-- The end of a list, with the items and the log after it. -/
structure After where
  listEnd : ListEnd
  rest : List Item
  log : Log

/-- Passes over items until `depth` open lists are closed. -/
def skip (log : Log) : (depth : Nat) → List Item → After
  | 0, items => ⟨.tooDeep, items, log⟩
  | _ + 1, [] => ⟨.unclosed, [], log⟩
  | d + 1, .error p :: items => skip (log.lexical p) (d + 1) items
  | d + 1, .ok t :: items =>
    match t.kind with
    | .leftParen => skip log (d + 2) items
    | .rightParen => skip log d items
    | _ => skip log (d + 1) items

/-- Reads on in the open list `current`, which stands in the lists `parents`, innermost first. -/
def readList (src : Source) (log : Log) (current : Opened) (parents : List Opened) :
    List Item → After
  | [] => ⟨.unclosed, [], log.report ⟨.unclosed, src.finish.point⟩⟩
  | .error p :: items => readList src (log.lexical p) current parents items
  | .ok t :: items =>
    match t.kind with
    | .leftParen =>
      let depth := parents.length + 2
      if maxNesting < depth then skip (log.report ⟨.formsTooDeep, t.span⟩).mute depth items
      else readList src log ⟨t.span, []⟩ (current :: parents) items
    | .rightParen =>
      let f := current.close t.span
      match parents with
      | [] => ⟨.form f, items, log⟩
      | p :: ps => readList src log { p with items := f :: p.items } ps items
    | _ => readList src log { current with items := .atom t :: current.items } parents items

theorem skip_rest_length (log : Log) (depth : Nat) (items : List Item) :
    (skip log depth items).rest.length ≤ items.length := by
  fun_induction skip log depth items <;> simp_all <;> omega

theorem readList_rest_length (src : Source) (log : Log) (current : Opened)
    (parents : List Opened) (items : List Item) :
    (readList src log current parents items).rest.length ≤ items.length := by
  fun_induction readList src log current parents items with
  | case3 log current parents t items _ depth _ =>
    exact Nat.le_succ_of_le (skip_rest_length _ _ items)
  | _ => simp_all <;> omega

/-! ## The next form -/

/-- A form, if there is one, the items and the log after it, and whether the source has ended. -/
structure Step where
  form? : Option Form
  rest : List Item
  log : Log
  ended : Bool

/-- Looks for the next form. A `fresh` one starts a command, and a form that nests too deeply is
then passed over; otherwise it ends the search. `skipping` tells that a stray token was reported and
the row it started goes on. -/
def next (src : Source) (fresh : Bool) (log : Log) (skipping : Bool) : List Item → Step
  | [] => ⟨none, [], log, true⟩
  | .error p :: items => next src fresh (log.lexical p) skipping items
  | .ok t :: items =>
    match t.kind with
    | .leftParen =>
      let after := readList src (log.start fresh) ⟨t.span, []⟩ [] items
      match after.listEnd with
      | .form f => ⟨some f, after.rest, after.log, false⟩
      | .unclosed => ⟨none, after.rest, after.log, true⟩
      | .tooDeep =>
        if fresh then next src fresh after.log false after.rest
        else ⟨none, after.rest, after.log, false⟩
    | .rightParen =>
      next src fresh ((log.start fresh).report ⟨.strayClosing, t.span⟩) skipping items
    | _ =>
      if skipping then next src fresh log true items
      else next src fresh (log.report ⟨.strayToken t.text, t.span⟩) true items
termination_by items => items.length
decreasing_by
  all_goals simp only [List.length_cons]
  · omega
  · have := readList_rest_length src (log.start fresh) ⟨t.span, []⟩ [] items
    omega
  all_goals omega

/-- Every step that does not end the source takes an item. -/
theorem next_rest_length (src : Source) (fresh : Bool) (log : Log) (skipping : Bool)
    (items : List Item) :
    (next src fresh log skipping items).ended = true ∨
      (next src fresh log skipping items).rest.length < items.length := by
  fun_induction next src fresh log skipping items with
  | case1 => exact .inl rfl
  | case3 log skipping t items _ after f _ =>
    exact .inr (Nat.lt_succ_of_le (readList_rest_length ..))
  | case4 => exact .inl rfl
  | case5 log skipping t items _ after _ hf ih =>
    have h : after.rest.length ≤ items.length := readList_rest_length ..
    rcases ih with ih | ih
    · exact .inl ih
    · exact .inr (by simp only [List.length_cons]; omega)
  | case6 log skipping t items _ after _ _ =>
    exact .inr (Nat.lt_succ_of_le (readList_rest_length ..))
  | _ => rename_i ih; exact ih.imp_right fun h => Nat.lt_succ_of_lt h

/-- No step gives items back. -/
theorem next_rest_length_le (src : Source) (fresh : Bool) (log : Log) (skipping : Bool)
    (items : List Item) : (next src fresh log skipping items).rest.length ≤ items.length := by
  fun_induction next src fresh log skipping items with
  | case1 => exact Nat.le_refl _
  | case3 log skipping t items _ after f _ => exact Nat.le_succ_of_le (readList_rest_length ..)
  | case4 log skipping t items _ after _ => exact Nat.le_succ_of_le (readList_rest_length ..)
  | case5 log skipping t items _ after _ hf ih =>
    exact Nat.le_succ_of_le (Nat.le_trans ih (readList_rest_length ..))
  | case6 log skipping t items _ after _ _ => exact Nat.le_succ_of_le (readList_rest_length ..)
  | _ => rename_i ih; exact Nat.le_succ_of_le ih

/-- There is no form where the source ended. -/
theorem next_form_of_ended {src : Source} {fresh : Bool} {log : Log} {skipping : Bool}
    {items : List Item} (h : (next src fresh log skipping items).ended = true) :
    (next src fresh log skipping items).form? = none := by
  fun_induction next src fresh log skipping items <;> simp_all

end Reader

/-! ## Readers -/

/-- A source that is read form by form: the items to come, the log, and whether its end was met. -/
structure Reader where
  source : Source
  pending : List Item
  log : Log
  finished : Bool

namespace Reader

def ofSource (src : Source) : Reader := ⟨src, src.items, .empty, false⟩

/-- The number of errors counted. -/
def errors (r : Reader) : Nat := r.log.errors

/-- Logs a problem of the command being read. -/
def report (r : Reader) (p : Problem) : Reader := { r with log := r.log.report p }

/-- The next form, as one of the same command or as the first of a fresh one. -/
def read (r : Reader) (fresh : Bool) : Option Form × Reader :=
  if r.finished then (none, r)
  else
    let s := next r.source fresh r.log false r.pending
    (s.form?, { r with pending := s.rest, log := s.log, finished := s.ended })

/-- The next form, which starts a command. -/
def readForm (r : Reader) : Option Form × Reader := r.read true

/-- The next form of the command that the form before it started. -/
def readContinuation (r : Reader) : Option Form × Reader := r.read false

/-- The items from the next token on; lexical problems are passed over. -/
def nextToken? : List Item → Option (Token × List Item)
  | [] => none
  | .error _ :: items => nextToken? items
  | .ok t :: items => some (t, items)

/-- The keyword at the head of the next form, if what comes next is a list with one. Nothing is
taken and nothing logged. -/
def peekKeyword? (r : Reader) : Option Keyword := do
  let (⟨.leftParen, _, _⟩, items) ← nextToken? r.pending | none
  let (⟨.keyword word, _, _⟩, _) ← nextToken? items | none
  some word

/-- Reading gives no items back. -/
theorem read_pending_length_le (r : Reader) (fresh : Bool) :
    (r.read fresh).2.pending.length ≤ r.pending.length := by
  unfold read
  split
  · exact Nat.le_refl _
  · exact next_rest_length_le ..

/-- A reader that has not finished has taken an item. -/
theorem read_pending_length (r : Reader) (fresh : Bool) (h : r.finished = false) :
    (r.read fresh).2.finished = true ∨
      (r.read fresh).2.pending.length < r.pending.length := by
  simp only [read, h, Bool.false_eq_true, if_false]
  exact next_rest_length ..

/-! ## Whole sources -/

/-- All forms of a source that is one command. -/
def readCommand (r : Reader) : List Form × Reader :=
  if _h : r.finished = true then ([], r)
  else
    let next := r.readContinuation
    if next.2.finished then (next.1.toList, next.2)
    else
      let (fs, r') := next.2.readCommand
      (next.1.toList ++ fs, r')
termination_by r.pending.length
decreasing_by
  have := r.read_pending_length false (by simpa using _h)
  simp_all [next, readContinuation]

/-- A form is read only before the end, from at least one item. -/
theorem pending_length_of_read {r : Reader} {fresh : Bool} {f : Form}
    (h : (r.read fresh).1 = some f) : (r.read fresh).2.pending.length < r.pending.length := by
  unfold read at h ⊢
  split at h
  · cases h
  · next hf =>
    have := next_rest_length r.source fresh r.log false r.pending
    simp only at h
    simp only [hf, Bool.false_eq_true, if_false]
    refine this.resolve_left fun he => ?_
    exact absurd h (by simp [next_form_of_ended he])

/-- All forms of a source, each starting a command. -/
def readForms (r : Reader) : List Form × Reader :=
  let next := r.readForm
  match _h : next.1 with
  | none => ([], next.2)
  | some f =>
    let (fs, r') := next.2.readForms
    (f :: fs, r')
termination_by r.pending.length
decreasing_by exact pending_length_of_read _h

end Reader

end WasmText
