import WasmText.Proofs.Group
import WasmText.Proofs.Unspanned

/-!
# Reading and spans

What forms a reader makes of a source, and which problems it logs on the way, does not depend on
where the items of the source stand. A reader of items that have lost their spans
(`Reader.unspanned`) makes the forms without theirs and logs the problems without theirs, whether it
reads a single form, the fields of a command or all of a source.
-/

namespace WasmText

/-! ## Readers without spans -/

/-- The item with no span told from another. -/
def Item.unspanned : Item → Item
  | .ok t => .ok t.unspanned
  | .error p => .error p.unspanned

@[simp] theorem Item.unspanned_ok (t : Token) : Item.unspanned (.ok t) = .ok t.unspanned := rfl

@[simp] theorem Item.unspanned_error (p : Problem) :
    Item.unspanned (.error p) = .error p.unspanned := rfl

@[simp] theorem Token.kind_unspanned (t : Token) : t.unspanned.kind = t.kind := rfl

@[simp] theorem Token.text_unspanned (t : Token) : t.unspanned.text = t.text := rfl

@[simp] theorem Token.span_unspanned (t : Token) : t.unspanned.span = .origin := rfl

/-- The log with no span told from another. -/
def Log.unspanned (log : Log) : Log := { log with problems := log.problems.map Problem.unspanned }

namespace Log

variable (log : Log) (p : Problem)

/-- A problem is logged in the same way wherever it stands. -/
theorem emit_unspanned : log.unspanned.emit p.unspanned = (log.emit p).unspanned := by
  unfold emit unspanned
  rw [Array.map_push]

theorem lexical_unspanned : log.unspanned.lexical p.unspanned = (log.lexical p).unspanned :=
  congrArg mute (log.emit_unspanned p)

/-- A problem is reported or dropped wherever it stands. -/
theorem report_unspanned : log.unspanned.report p.unspanned = (log.report p).unspanned := by
  unfold report
  show (if log.muted then _ else _) = _
  split
  · rfl
  · exact log.emit_unspanned p

theorem start_unspanned (fresh : Bool) :
    log.unspanned.start fresh = (log.start fresh).unspanned := by
  cases fresh <;> rfl

end Log

namespace Reader

/-- The open list with no span told from another. -/
def Opened.unspanned (o : Opened) : Opened := ⟨.origin, o.items.map Form.unspanned⟩

/-- The end of a list without spans. -/
def ListEnd.unspanned : ListEnd → ListEnd
  | .form f => .form f.unspanned
  | .tooDeep => .tooDeep
  | .unclosed => .unclosed

/-- What follows a list, without spans. -/
def After.unspanned (a : After) : After :=
  ⟨a.listEnd.unspanned, a.rest.map Item.unspanned, a.log.unspanned⟩

/-- A step of the reader without spans. -/
def Step.unspanned (s : Step) : Step :=
  ⟨s.form?.map Form.unspanned, s.rest.map Item.unspanned, s.log.unspanned, s.ended⟩

/-- The reader with no span told from another. Its source matters only for where it ends. -/
def unspanned (r : Reader) : Reader :=
  ⟨⟨"", ""⟩, r.pending.map Item.unspanned, r.log.unspanned, r.finished⟩

/-! ## One list -/

theorem Opened.close_unspanned (o : Opened) (last : Span) :
    o.unspanned.close .origin = (o.close last).unspanned := by
  rw [close, close, Form.unspanned_list, List.map_reverse]
  rfl

/-- Reading that is resumed is resumed at the same token. -/
theorem skip_unspanned (log : Log) (depth : Nat) (items : List Item) :
    skip log.unspanned depth (items.map Item.unspanned) = (skip log depth items).unspanned := by
  fun_induction skip log depth items with
  | case1 log items => rw [skip]; rfl
  | case2 log d => rw [List.map_nil, skip]; rfl
  | case3 log d p items ih =>
    rw [List.map_cons, Item.unspanned_error, skip, Log.lexical_unspanned]
    exact ih
  | case4 log d t items hkind ih | case5 log d t items hkind ih =>
    rw [List.map_cons, Item.unspanned_ok, skip, Token.kind_unspanned, hkind]
    exact ih
  | case6 log d t items hleft hright ih =>
    rw [List.map_cons, Item.unspanned_ok, skip, Token.kind_unspanned]
    split
    · next h => exact absurd h hleft
    · next h => exact absurd h hright
    · exact ih

/-- A list that is read has the same items, and leaves the same tokens. -/
theorem readList_unspanned (src : Source) (log : Log) (current : Opened) (parents : List Opened)
    (items : List Item) :
    readList ⟨"", ""⟩ log.unspanned current.unspanned (parents.map Opened.unspanned)
        (items.map Item.unspanned) =
      (readList src log current parents items).unspanned := by
  -- the branches are chosen by kinds and by how many lists are open, never by spans
  fun_induction readList src log current parents items with
  | case1 log current parents =>
    rw [List.map_nil, readList, After.unspanned, ← Log.report_unspanned]
    rfl
  | case2 log current parents p items ih =>
    rw [List.map_cons, Item.unspanned_error, readList, Log.lexical_unspanned]
    exact ih
  | case3 log current parents t items hkind depth hdepth =>
    have hreport := log.report_unspanned ⟨.formsTooDeep, t.span⟩
    rw [List.map_cons, Item.unspanned_ok, readList, Token.kind_unspanned, hkind]
    dsimp only
    rw [List.length_map, if_pos hdepth, ← skip_unspanned]
    exact congrArg (fun log => skip log.mute depth _) hreport
  | case4 log current parents t items hkind depth hdepth ih =>
    rw [List.map_cons, Item.unspanned_ok, readList, Token.kind_unspanned, hkind]
    dsimp only
    rw [List.length_map, if_neg hdepth]
    exact ih
  | case5 log current t items hkind f =>
    rw [List.map_cons, Item.unspanned_ok, readList, Token.kind_unspanned, hkind, List.map_nil]
    dsimp only
    rw [Token.span_unspanned, Opened.close_unspanned current t.span]
    rfl
  | case6 log current t items hkind f p ps ih =>
    rw [List.map_cons, List.map_cons, Item.unspanned_ok, readList, Token.kind_unspanned, hkind]
    dsimp only
    rw [Token.span_unspanned, Opened.close_unspanned current t.span]
    exact ih
  | case7 log current parents t items hleft hright ih =>
    have hitems : ({ current with items := .atom t :: current.items } : Opened).unspanned =
        { current.unspanned with items := .atom t.unspanned :: current.unspanned.items } := by
      rw [Opened.unspanned, List.map_cons, Form.unspanned_atom]
      rfl
    rw [hitems] at ih
    rw [List.map_cons, Item.unspanned_ok, readList, Token.kind_unspanned]
    split
    · next h => exact absurd h hleft
    · next h => exact absurd h hright
    · exact ih

/-! ## The next form -/

/-- The next form is the same. -/
theorem next_unspanned (src : Source) (fresh : Bool) (log : Log) (skipping : Bool)
    (items : List Item) :
    next ⟨"", ""⟩ fresh log.unspanned skipping (items.map Item.unspanned) =
      (next src fresh log skipping items).unspanned := by
  have hlist (log : Log) (t : Token) (items : List Item) :
      readList ⟨"", ""⟩ (log.unspanned.start fresh) ⟨t.unspanned.span, []⟩ []
          (items.map Item.unspanned) =
        (readList src (log.start fresh) ⟨t.span, []⟩ [] items).unspanned := by
    rw [Log.start_unspanned]
    exact readList_unspanned src (log.start fresh) ⟨t.span, []⟩ [] items
  fun_induction next src fresh log skipping items with
  | case1 log skipping => rw [List.map_nil, next]; rfl
  | case2 log skipping p items ih =>
    rw [List.map_cons, Item.unspanned_error, next, Log.lexical_unspanned]
    exact ih
  | case3 log skipping t items hkind after f hend | case4 log skipping t items hkind after hend =>
    rw [List.map_cons, Item.unspanned_ok, next, Token.kind_unspanned, hkind]
    dsimp only
    rw [hlist, After.unspanned, show (readList src _ _ _ _).listEnd = _ from hend]
    rfl
  | case5 log skipping t items hkind after hend hfresh ih =>
    rw [List.map_cons, Item.unspanned_ok, next, Token.kind_unspanned, hkind]
    dsimp only
    rw [hlist, After.unspanned, show (readList src _ _ _ _).listEnd = _ from hend]
    exact (if_pos hfresh).trans ih
  | case6 log skipping t items hkind after hend hfresh =>
    rw [List.map_cons, Item.unspanned_ok, next, Token.kind_unspanned, hkind]
    dsimp only
    rw [hlist, After.unspanned, show (readList src _ _ _ _).listEnd = _ from hend]
    exact if_neg hfresh
  | case7 log skipping t items hkind ih =>
    have hreport := (log.start fresh).report_unspanned ⟨.strayClosing, t.span⟩
    rw [List.map_cons, Item.unspanned_ok, next, Token.kind_unspanned, hkind]
    dsimp only
    rw [Log.start_unspanned]
    exact (congrArg (next _ fresh · skipping _) hreport).trans ih
  | case8 log t items hleft hright ih =>
    rw [List.map_cons, Item.unspanned_ok, next, Token.kind_unspanned]
    split
    · next h => exact absurd h hleft
    · next h => exact absurd h hright
    · exact ih
  | case9 log skipping t items hskip hleft hright ih =>
    have hreport := log.report_unspanned ⟨.strayToken t.text, t.span⟩
    rw [List.map_cons, Item.unspanned_ok, next, Token.kind_unspanned]
    split
    · next h => exact absurd h hleft
    · next h => exact absurd h hright
    · rw [if_neg hskip]
      exact (congrArg (next _ fresh · true _) hreport).trans ih

variable (r : Reader)

theorem read_unspanned (fresh : Bool) :
    r.unspanned.read fresh = ((r.read fresh).1.map Form.unspanned, (r.read fresh).2.unspanned) := by
  unfold read
  rw [show r.unspanned.finished = r.finished from rfl]
  split
  · rfl
  · dsimp only [unspanned]
    rw [next_unspanned r.source]
    rfl

theorem nextToken?_unspanned (items : List Item) :
    nextToken? (items.map Item.unspanned) =
      (nextToken? items).map (Prod.map Token.unspanned (List.map Item.unspanned)) := by
  induction items with
  | nil => rfl
  | cons item items ih =>
    cases item with
    | error p => exact ih
    | ok t => rfl

theorem peekKeyword?_unspanned : r.unspanned.peekKeyword? = r.peekKeyword? := by
  unfold peekKeyword?
  rw [show r.unspanned.pending = r.pending.map Item.unspanned from rfl, nextToken?_unspanned]
  match nextToken? r.pending with
  | none => rfl
  | some (⟨kind, source, span⟩, items) =>
    cases kind with
    | leftParen =>
      show (nextToken? (items.map Item.unspanned) >>= _) = (nextToken? items >>= _)
      rw [nextToken?_unspanned]
      match nextToken? items with
      | none => rfl
      | some (⟨kind, source, span⟩, items) => cases kind <;> rfl
    | _ => rfl

theorem atField_unspanned : r.unspanned.atField = r.atField := by
  rw [atField, peekKeyword?_unspanned, atField]

/-! ## Whole commands and sources -/

theorem readFields_of_none {r r' : Reader} (h : r.atField = true)
    (hread : r.read false = (none, r')) : r.readFields = ([], r') := by
  rw [readFields, if_pos h]
  simp only [readContinuation]
  split
  · rw [hread]
  · next f hsome => exact absurd (congrArg Prod.fst hread) (by simp [hsome])

/-- Fields are read up to the same token. -/
theorem readFields_unspanned :
    r.unspanned.readFields = (r.readFields.1.map Form.unspanned, r.readFields.2.unspanned) := by
  fun_induction readFields r with
  | case1 r hfield next hnone =>
    have hread := r.read_unspanned false
    rw [show (r.read false).1 = none from hnone] at hread
    exact readFields_of_none (r.atField_unspanned.trans hfield) hread
  | case2 r hfield next f hsome fs r' hrest ih =>
    have hread := r.read_unspanned false
    rw [show (r.read false).1 = some f from hsome] at hread
    rw [hrest] at ih
    have ih : (r.read false).2.unspanned.readFields = (fs.map Form.unspanned, r'.unspanned) := ih
    rw [readFields_of_read (r.atField_unspanned.trans hfield) hread, ih]
    rfl
  | case3 r hfield =>
    have hnot : r.unspanned.atField = false := by simpa [atField_unspanned] using hfield
    rw [readFields_of_not_atField hnot]
    rfl

/-- A command takes the same forms. -/
theorem readCommand_unspanned :
    r.unspanned.readCommand = (r.readCommand.1.map Form.unspanned, r.readCommand.2.unspanned) := by
  fun_induction readCommand r with
  | case1 r hfinished =>
    have hfinished : r.unspanned.finished = true := hfinished
    rw [readCommand, dif_pos hfinished]
    rfl
  | case2 r hfinished next hlast =>
    have hfinished : ¬r.unspanned.finished = true := hfinished
    have hlast : (r.read false).2.unspanned.finished = true := hlast
    rw [readCommand, dif_neg hfinished, readContinuation, read_unspanned]
    dsimp only
    rw [if_pos hlast]
    refine Prod.ext ?_ rfl
    show _ = (r.read false).1.toList.map Form.unspanned
    cases (r.read false).1 <;> rfl
  | case3 r hfinished next hlast fs r' hrest ih =>
    rw [hrest] at ih
    have hfinished : ¬r.unspanned.finished = true := hfinished
    have hlast : ¬(r.read false).2.unspanned.finished = true := hlast
    have ih : (r.read false).2.unspanned.readCommand = (fs.map Form.unspanned, r'.unspanned) := ih
    rw [readCommand, dif_neg hfinished, readContinuation, read_unspanned]
    dsimp only
    rw [if_neg hlast, ih]
    refine Prod.ext ?_ rfl
    show _ = ((r.read false).1.toList ++ fs).map Form.unspanned
    cases (r.read false).1 <;> simp

end Reader

end WasmText
