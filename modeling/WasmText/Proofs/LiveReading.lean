import WasmText.Form.LiveReader
import WasmText.Proofs.Lexing
import WasmText.Proofs.Commands

/-!
# Reading from a lexer is reading items

A live reader goes through the same states as a reader that has all items at hand: it stands for
that reader (`LiveReader.StandsFor`) where its lexer has still to yield the items that are pending,
and the end of the source unless it was met. Every operation answers the same and leads to states
that stand for each other again, so what is proved of `Reader` holds of live readers too.
-/

namespace WasmText

namespace LiveReader

open Reader (Opened ListEnd After Step maxNesting)

/-! ## Logs -/

/-- The log of a live reader: it is muted once a problem has been counted. -/
def log (r : LiveReader) : Log := ⟨r.problems, r.errors, decide (0 < r.formErrors)⟩

/-- Reporting logs the problem, or drops it. -/
theorem log_report (r : LiveReader) (p : Problem) : (r.report p).log = r.log.report p := by
  unfold report Log.report log
  by_cases h : 0 < r.formErrors
  · simp [h]
  · simp [h, emit, Log.emit]

theorem log_mute (r : LiveReader) : r.mute.log = r.log.mute := by simp [log, Log.mute, mute]

/-- A lexical problem is logged and mutes what follows. -/
theorem log_mute_emit (r : LiveReader) (p : Problem) : (r.mute.emit p).log = r.log.lexical p := by
  simp [log, Log.lexical, Log.emit, Log.mute, mute, emit]

theorem log_start (r : LiveReader) (fresh : Bool) : (r.start fresh).log = r.log.start fresh := by
  cases fresh <;> simp [log, Log.start, start]

theorem finished_report (r : LiveReader) (p : Problem) : (r.report p).finished = r.finished := by
  unfold report
  split <;> rfl

theorem finished_start (r : LiveReader) (fresh : Bool) :
    (r.start fresh).finished = r.finished := by
  cases fresh <;> rfl

theorem finish_report (r : LiveReader) (p : Problem) :
    (r.report p).finish = r.finish.report p := by
  unfold report finish
  split <;> rfl

/-! ## States that stand for each other -/

/-- A live reader is at the state of a reader with the items at hand. -/
structure StandsFor (r : LiveReader) (q : Reader) : Prop where
  source_eq : r.source = q.source
  log_eq : r.log = q.log
  finished_eq : r.finished = q.finished
  items_eq : r.lexer.items = q.pending ++ if q.finished then [] else [.ok (.eof q.source.finish)]
  kind_ne_eof : ∀ t, .ok t ∈ q.pending → t.kind ≠ .eof

namespace StandsFor

variable {r : LiveReader} {q : Reader} {t : Token} {p : Problem} {items : List Item}

/-- Both readers start at the start of the source. -/
theorem ofSource (src : Source) : (ofSource src).StandsFor (.ofSource src) :=
  ⟨rfl, rfl, rfl, rfl, Item.kind_ne_eof_of_mem _ _⟩

/-- A report keeps a live reader in step. -/
theorem report (h : r.StandsFor q) (p : Problem) : (r.report p).StandsFor (q.report p) where
  source_eq := by rw [source, lexer_report]; exact h.source_eq
  log_eq := by rw [log_report, h.log_eq]; rfl
  finished_eq := by rw [finished_report]; exact h.finished_eq
  items_eq := by rw [lexer_report]; exact h.items_eq
  kind_ne_eof := h.kind_ne_eof

theorem mute (h : r.StandsFor q) : r.mute.StandsFor { q with log := q.log.mute } :=
  { h with log_eq := by rw [log_mute, h.log_eq] }

/-- Starting a command keeps a live reader in step. -/
theorem start (h : r.StandsFor q) (fresh : Bool) :
    (r.start fresh).StandsFor { q with log := q.log.start fresh } where
  source_eq := by rw [source, lexer_start]; exact h.source_eq
  log_eq := by rw [log_start, h.log_eq]
  finished_eq := by rw [finished_start]; exact h.finished_eq
  items_eq := by rw [lexer_start]; exact h.items_eq
  kind_ne_eof := h.kind_ne_eof

/-! ### Tokens -/

/-- The lexer yields the item that is pending. -/
theorem next_cons {i : Item} (h : r.StandsFor q) (hpending : q.pending = i :: items) :
    r.lexer.next.1 = some i ∧
      { r with lexer := r.lexer.next.2 }.StandsFor { q with pending := items } := by
  obtain ⟨hhead, htail⟩ := r.lexer.next_eq
  rw [h.items_eq, hpending] at hhead htail
  refine ⟨hhead, ?_, h.log_eq, h.finished_eq, htail, fun t ht => h.kind_ne_eof t ?_⟩
  · rw [source, Lexer.source_next]
    exact h.source_eq
  · rw [hpending]
    exact List.mem_cons_of_mem i ht

/-- The next token is the one that is pending. -/
theorem nextToken_ok (h : r.StandsFor q) (hpending : q.pending = .ok t :: items) :
    r.nextToken.1 = t ∧ r.nextToken.2.StandsFor { q with pending := items } := by
  obtain ⟨hnext, hrest⟩ := h.next_cons hpending
  have hkind : t.kind ≠ .eof := h.kind_ne_eof t (by rw [hpending]; exact List.mem_cons_self)
  rw [nextToken]
  split
  · next t' lexer heq =>
    rw [heq] at hnext hrest
    cases hnext
    exact ⟨rfl, { hrest with }⟩
  · next heq =>
    rw [heq] at hnext
    cases hnext
  · next heq =>
    rw [heq] at hnext
    cases hnext

/-- A pending problem is logged, and the search for a token goes on after it. -/
theorem nextToken_error (h : r.StandsFor q) (hpending : q.pending = .error p :: items) :
    ∃ r' : LiveReader, r.nextToken = r'.nextToken ∧
      r'.StandsFor { q with pending := items, log := q.log.lexical p } := by
  obtain ⟨hnext, hrest⟩ := h.next_cons hpending
  refine ⟨({ r with lexer := r.lexer.next.2 }.mute.emit p), ?_,
    { hrest with log_eq := by rw [log_mute_emit, hrest.log_eq] }⟩
  rw [nextToken]
  split
  · next heq =>
    rw [heq] at hnext
    cases hnext
  · next p' lexer heq =>
    rw [heq] at hnext ⊢
    cases hnext
    rfl
  · next heq =>
    rw [heq] at hnext
    cases hnext

/-- Where nothing is pending the end of the source comes next. -/
theorem nextToken_nil (h : r.StandsFor q) (hfinished : q.finished = false)
    (hpending : q.pending = []) :
    r.nextToken.1 = .eof q.source.finish ∧
      r.nextToken.2.finish.StandsFor { q with finished := true } := by
  obtain ⟨hhead, htail⟩ := r.lexer.next_eq
  rw [h.items_eq, hpending, hfinished] at hhead htail
  have hsource : r.lexer.next.2.source = q.source := by
    rw [Lexer.source_next]
    exact h.source_eq
  rw [nextToken]
  split
  · next t lexer heq =>
    rw [heq] at hhead htail hsource
    cases hhead
    exact ⟨rfl, hsource, h.log_eq, rfl, by rw [hpending]; exact htail, h.kind_ne_eof⟩
  · next heq =>
    rw [heq] at hhead
    cases hhead
  · next heq =>
    rw [heq] at hhead
    cases hhead

end StandsFor

/-! ## Lists -/

/-- Whether the source ends in a list. -/
def endsIn : ListEnd → Bool
  | .unclosed => true
  | .form _ | .tooDeep => false

/-- The state of a reader after a list. -/
def stateAfter (q : Reader) (after : After) : Reader :=
  { q with
    pending := after.rest
    log := after.log
    finished := endsIn after.listEnd }

/-- Skipping by calls of the lexer goes as far as skipping by items. -/
theorem skipToDepth_standsFor {r : LiveReader} {q : Reader} (h : r.StandsFor q)
    (hfinished : q.finished = false) (depth : Nat) :
    (r.skipToDepth depth).StandsFor (stateAfter q (Reader.skip q.log depth q.pending)) := by
  obtain ⟨src, items, log, finished⟩ := q
  obtain rfl : finished = false := hfinished
  dsimp only
  -- the live reader is handed the next item as a token, and takes the same branch for it
  fun_induction Reader.skip log depth items generalizing r with
  | case1 log items =>
    rw [skipToDepth]
    exact h
  | case2 log d =>
    obtain ⟨hkind, hend⟩ := h.nextToken_nil rfl rfl
    rw [skipToDepth]
    simp only [hkind, Token.eof, dite_true]
    exact hend
  | case3 log d p items ih =>
    obtain ⟨r', hnext, hr'⟩ := h.nextToken_error rfl
    have heq : r.skipToDepth (d + 1) = r'.skipToDepth (d + 1) := by
      unfold skipToDepth
      rw [hnext]
    rw [heq]
    exact ih hr'
  | case4 log d t items hkind ih =>
    obtain ⟨htoken, hr'⟩ := h.nextToken_ok rfl
    rw [skipToDepth]
    simp only [htoken, hkind, reduceCtorEq, dite_false]
    exact ih hr'
  | case5 log d t items hkind ih =>
    obtain ⟨htoken, hr'⟩ := h.nextToken_ok rfl
    rw [skipToDepth]
    simp only [htoken, hkind, reduceCtorEq, dite_false]
    exact ih hr'
  | case6 log d t items hleft hright ih =>
    obtain ⟨htoken, hr'⟩ := h.nextToken_ok rfl
    have hne : t.kind ≠ .eof := h.kind_ne_eof t List.mem_cons_self
    rw [skipToDepth]
    simp only [htoken, hne, dite_false]
    exact ih hr'

/-- Nothing that is passed over is a form. -/
theorem form?_skip (log : Log) (depth : Nat) (items : List Item) :
    (Reader.skip log depth items).listEnd.form? = none := by
  fun_induction Reader.skip log depth items <;> first | rfl | assumption

/-- A list is read by calls of the lexer as it is by items. -/
theorem readList_standsFor {r : LiveReader} {q : Reader} (h : r.StandsFor q)
    (hfinished : q.finished = false) (current : Opened) (parents : List Opened) :
    (r.readList current parents).1 =
        (Reader.readList q.source q.log current parents q.pending).listEnd.form? ∧
      (r.readList current parents).2.StandsFor
        (stateAfter q (Reader.readList q.source q.log current parents q.pending)) := by
  obtain ⟨src, items, log, finished⟩ := q
  obtain rfl : finished = false := hfinished
  dsimp only
  fun_induction Reader.readList src log current parents items generalizing r with
  | case1 log current parents =>
    obtain ⟨hend, hr'⟩ := h.nextToken_nil rfl rfl
    rw [readList]
    simp only [hend, Token.eof, dite_true, finish_report]
    exact ⟨rfl, hr'.report _⟩
  | case2 log current parents p items ih =>
    -- a lexical problem is told by the call that goes on to the next token
    obtain ⟨r', hnext, hr'⟩ := h.nextToken_error rfl
    have heq : r.readList current parents = r'.readList current parents := by
      unfold readList
      rw [hnext]
    rw [heq]
    exact ih hr'
  | case3 log current parents t items hkind depth =>
    rename_i hdeep
    obtain ⟨htoken, hr'⟩ := h.nextToken_ok rfl
    rw [readList]
    simp only [htoken, hkind, reduceCtorEq, dite_false]
    rw [if_pos hdeep]
    refine ⟨(form?_skip _ _ items).symm, ?_⟩
    exact skipToDepth_standsFor (hr'.report ⟨.formsTooDeep, t.span⟩).mute rfl _
  | case4 log current parents t items hkind depth =>
    rename_i hdeep ih
    obtain ⟨htoken, hr'⟩ := h.nextToken_ok rfl
    rw [readList]
    simp only [htoken, hkind, reduceCtorEq, dite_false]
    rw [if_neg hdeep]
    exact ih hr'
  | case5 log current t items hkind =>
    obtain ⟨htoken, hr'⟩ := h.nextToken_ok rfl
    rw [readList]
    simp only [htoken, hkind, reduceCtorEq, dite_false]
    exact ⟨rfl, hr'⟩
  | case6 log current t items hkind f p ps =>
    rename_i ih
    obtain ⟨htoken, hr'⟩ := h.nextToken_ok rfl
    rw [readList]
    simp only [htoken, hkind, reduceCtorEq, dite_false]
    exact ih hr'
  | case7 log current parents t items hleft hright ih =>
    obtain ⟨htoken, hr'⟩ := h.nextToken_ok rfl
    have hne : t.kind ≠ .eof := h.kind_ne_eof t List.mem_cons_self
    rw [readList]
    simp only [htoken, hne, dite_false]
    exact ih hr'

/-- The same, told by what the list ends in. -/
theorem readList_of_listEnd {r : LiveReader} {q : Reader} (h : r.StandsFor q)
    (hfinished : q.finished = false) {current : Opened} {parents : List Opened} {e : ListEnd}
    (hend : (Reader.readList q.source q.log current parents q.pending).listEnd = e) :
    (r.readList current parents).1 = e.form? ∧
      (r.readList current parents).2.finished = endsIn e ∧
      (r.readList current parents).2.StandsFor
        { stateAfter q (Reader.readList q.source q.log current parents q.pending) with
          finished := endsIn e } := by
  subst hend
  obtain ⟨hform, hstate⟩ := readList_standsFor h hfinished current parents
  exact ⟨hform, hstate.finished_eq, hstate⟩

/-! ## Forms -/

/-- The state of a reader after a step. -/
def stateAt (q : Reader) (step : Step) : Reader :=
  { q with
    pending := step.rest
    log := step.log
    finished := step.ended }

/-- The next form is read by calls of the lexer as it is by items. -/
theorem readTopLevel_standsFor {r : LiveReader} {q : Reader} (h : r.StandsFor q)
    (hfinished : q.finished = false) (fresh skipping : Bool) :
    (r.readTopLevel fresh skipping).1 =
        (Reader.next q.source fresh q.log skipping q.pending).form? ∧
      (r.readTopLevel fresh skipping).2.StandsFor
        (stateAt q (Reader.next q.source fresh q.log skipping q.pending)) := by
  obtain ⟨src, items, log, finished⟩ := q
  obtain rfl : finished = false := hfinished
  dsimp only
  fun_induction Reader.next src fresh log skipping items generalizing r with
  | case1 log skipping =>
    obtain ⟨hend, hr'⟩ := h.nextToken_nil rfl rfl
    rw [readTopLevel]
    simp only [hend, Token.eof, dite_true]
    exact ⟨trivial, hr'⟩
  | case2 log skipping p items ih =>
    obtain ⟨r', hnext, hr'⟩ := h.nextToken_error rfl
    have heq : r.readTopLevel fresh skipping = r'.readTopLevel fresh skipping := by
      unfold readTopLevel
      rw [hnext]
    rw [heq]
    exact ih hr'
  | case3 log skipping t items hkind after f =>
    rename_i hend
    obtain ⟨htoken, hr'⟩ := h.nextToken_ok rfl
    obtain ⟨hform, -, hstate⟩ := readList_of_listEnd (hr'.start fresh) rfl hend
    rw [readTopLevel]
    simp only [htoken, hkind, reduceCtorEq, dite_false, hform, ListEnd.form?]
    exact ⟨trivial, hstate⟩
  | case4 log skipping t items hkind after =>
    rename_i hend
    obtain ⟨htoken, hr'⟩ := h.nextToken_ok rfl
    obtain ⟨hform, hends, hstate⟩ := readList_of_listEnd (hr'.start fresh) rfl hend
    rw [readTopLevel]
    simp only [htoken, hkind, reduceCtorEq, dite_false, hform, ListEnd.form?, hends, endsIn,
      Bool.true_or, if_true]
    exact ⟨trivial, hstate⟩
  -- a list that nests too deeply is passed over, and only a fresh search goes on behind it
  | case5 log skipping t items hkind after hend hfresh =>
    rename_i ih
    obtain rfl : fresh = true := hfresh
    obtain ⟨htoken, hr'⟩ := h.nextToken_ok rfl
    obtain ⟨hform, hends, hstate⟩ := readList_of_listEnd (hr'.start true) rfl hend
    rw [readTopLevel]
    simp only [htoken, hkind, reduceCtorEq, dite_false, hform, ListEnd.form?, hends, endsIn,
      Bool.not_true, Bool.or_false, Bool.false_eq_true, if_false]
    exact ih hstate
  | case6 log skipping t items hkind after hend =>
    rename_i hfresh
    obtain rfl : fresh = false := Bool.eq_false_of_not_eq_true hfresh
    obtain ⟨htoken, hr'⟩ := h.nextToken_ok rfl
    obtain ⟨hform, -, hstate⟩ := readList_of_listEnd (hr'.start false) rfl hend
    rw [readTopLevel]
    simp only [htoken, hkind, reduceCtorEq, dite_false, hform, ListEnd.form?,
      Bool.not_false, Bool.or_true, if_true]
    exact ⟨trivial, hstate⟩
  | case7 log skipping t items hkind ih =>
    obtain ⟨htoken, hr'⟩ := h.nextToken_ok rfl
    rw [readTopLevel]
    simp only [htoken, hkind, reduceCtorEq, dite_false]
    exact ih ((hr'.start fresh).report _)
  | case8 log t items hleft hright ih =>
    obtain ⟨htoken, hr'⟩ := h.nextToken_ok rfl
    have hne : t.kind ≠ .eof := h.kind_ne_eof t List.mem_cons_self
    rw [readTopLevel]
    simp only [htoken, hne, dite_false, if_true]
    exact ih hr'
  | case9 log skipping t items hskipping hleft hright ih =>
    obtain ⟨htoken, hr'⟩ := h.nextToken_ok rfl
    have hne : t.kind ≠ .eof := h.kind_ne_eof t List.mem_cons_self
    rw [readTopLevel]
    simp only [htoken, hne, dite_false, hskipping]
    exact ih (hr'.report _)

/-- Reading a form answers the same in states that stand for each other, and leads to such. -/
theorem StandsFor.read {r : LiveReader} {q : Reader} (h : r.StandsFor q) (fresh : Bool) :
    (r.read fresh).1 = (q.read fresh).1 ∧ (r.read fresh).2.StandsFor (q.read fresh).2 := by
  obtain hfinished | hfinished := Bool.eq_false_or_eq_true q.finished
  · rw [Reader.read_of_finished hfinished, LiveReader.read, h.finished_eq, if_pos hfinished]
    exact ⟨rfl, h⟩
  · rw [Reader.read_of_not_finished hfinished, LiveReader.read, h.finished_eq, hfinished]
    exact readTopLevel_standsFor h hfinished fresh false

end LiveReader

/-! ## Looking ahead -/

namespace Reader

/-- The keyword of a list that comes next among some items. -/
def peekIn (items : List Item) : Option Keyword :=
  match nextToken? items with
  | some (⟨.leftParen, _, _⟩, rest) => keywordOf? (nextToken? rest)
  | _ => none

/-- What is peeked at depends on the items left. -/
theorem peekKeyword?_eq (q : Reader) : q.peekKeyword? = peekIn q.pending := by
  cases hnext : nextToken? q.pending with
  | none =>
    rw [peekKeyword?, peekIn, hnext]
    rfl
  | some next =>
    obtain ⟨⟨kind, text, span⟩, rest⟩ := next
    cases kind with
    | leftParen => rw [peekKeyword?_of_left hnext rfl, peekIn, hnext]
    | _ =>
      rw [peekKeyword?, peekIn, hnext]
      rfl

theorem nextToken?_append_eof (items : List Item) (p : Pos) :
    nextToken? (items ++ [.ok (.eof p)]) =
      match nextToken? items with
      | some (t, rest) => some (t, rest ++ [.ok (.eof p)])
      | none => some (.eof p, []) := by
  fun_induction nextToken? items with
  | case1 => rfl
  | case2 p items ih => exact ih
  | case3 => rfl

/-- The end of a source is no parenthesis and no keyword. -/
theorem peekIn_append_eof (items : List Item) (p : Pos) :
    peekIn (items ++ [.ok (.eof p)]) = peekIn items := by
  unfold peekIn
  rw [nextToken?_append_eof]
  rcases nextToken? items with _ | ⟨⟨kind, text, span⟩, rest⟩
  · rfl
  cases kind with
  | leftParen =>
    dsimp only
    rw [nextToken?_append_eof]
    rcases nextToken? rest with _ | ⟨⟨kind, text, span⟩, rest⟩
    · rfl
    · cases kind <;> rfl
  | _ => rfl

end Reader

namespace Lexer

/-- A lexer runs on to the next token among its items. -/
theorem nextToken?_items (l : Lexer) :
    Reader.nextToken? l.items = l.nextToken.1.map fun t => (t, l.nextToken.2.items) := by
  fun_induction nextToken l with
  | case1 l t l' h =>
    rw [l.items_eq, h]
    rfl
  | case2 l p l' h ih =>
    rw [l.items_eq, h]
    exact ih
  | case3 l l' h =>
    obtain ⟨hhead, htail⟩ := l.next_eq
    rw [h] at hhead
    rw [List.head?_eq_none_iff.mp hhead.symm]
    rfl

/-- A lexer peeks at the items it has left. -/
theorem peekKeyword_fst (l : Lexer) : l.peekKeyword.1 = Reader.peekIn l.items := by
  unfold peekKeyword Reader.peekIn
  rw [l.nextToken?_items]
  rcases l.nextToken with ⟨_ | ⟨kind, text, span⟩, l'⟩
  · rfl
  cases kind with
  | leftParen =>
    dsimp only [Option.map_some]
    rw [l'.nextToken?_items]
    rcases l'.nextToken with ⟨_ | ⟨kind, text, span⟩, l''⟩
    · rfl
    · cases kind <;> rfl
  | _ => rfl

end Lexer

/-- What is seen ahead is the same in states that stand for each other. -/
theorem LiveReader.StandsFor.peekKeyword {r : LiveReader} {q : Reader} (h : r.StandsFor q) :
    r.peekKeyword.1 = q.peekKeyword? := by
  rw [Reader.peekKeyword?_eq]
  show r.lexer.peekKeyword.1 = _
  rw [Lexer.peekKeyword_fst, h.items_eq]
  split
  · rw [List.append_nil]
  · exact Reader.peekIn_append_eof _ _

namespace LiveReader

/-- Peeking leaves a live reader as it was, its lexer restored. -/
theorem peekKeyword_snd (r : LiveReader) : r.peekKeyword.2 = r := by
  show { r with lexer := r.lexer.peekKeyword.2 } = r
  rw [r.lexer.peekKeyword_snd]

end LiveReader

/-! ## Rows of operations -/

namespace Reader

/-- One call of a reader and what it answers. -/
def step (q : Reader) : Op → Answer × Reader
  | .form => let (f?, q') := q.readForm; (.form f?, q')
  | .continuation => let (f?, q') := q.readContinuation; (.form f?, q')
  | .peek => (.keyword q.peekKeyword?, q)
  | .report p => (.reported, q.report p)

/-- The answers to a row of operations, and the reader after them. -/
def run (q : Reader) : List Op → List Answer × Reader
  | [] => ([], q)
  | op :: ops =>
    let (answer, q') := q.step op
    let (answers, q'') := q'.run ops
    (answer :: answers, q'')

end Reader

namespace LiveReader

variable {r : LiveReader} {q : Reader}

/-- Readers in step answer a call the same and stay in step. -/
theorem StandsFor.step (h : r.StandsFor q) (op : Reader.Op) :
    (r.step op).1 = (q.step op).1 ∧ (r.step op).2.StandsFor (q.step op).2 := by
  cases op with
  | form => exact ⟨congrArg Reader.Answer.form (h.read true).1, (h.read true).2⟩
  | continuation => exact ⟨congrArg Reader.Answer.form (h.read false).1, (h.read false).2⟩
  | peek =>
    refine ⟨congrArg Reader.Answer.keyword h.peekKeyword, ?_⟩
    show r.peekKeyword.2.StandsFor q
    rw [peekKeyword_snd]
    exact h
  | report p => exact ⟨rfl, h.report p⟩

/-- Readers in step answer all calls the same. -/
theorem StandsFor.run (h : r.StandsFor q) (ops : List Reader.Op) :
    (r.run ops).1 = (q.run ops).1 ∧ (r.run ops).2.StandsFor (q.run ops).2 := by
  induction ops generalizing r q with
  | nil => exact ⟨rfl, h⟩
  | cons op ops ih =>
    obtain ⟨hanswer, hstate⟩ := h.step op
    obtain ⟨hanswers, hend⟩ := ih hstate
    exact ⟨congrArg₂ List.cons hanswer hanswers, hend⟩

/-- A reader that takes its items from a lexer answers any row of operations as one that has them
at hand, logs the same problems and finishes where that one does. -/
theorem run_ofSource (src : Source) (ops : List Reader.Op) :
    ((ofSource src).run ops).1 = ((Reader.ofSource src).run ops).1 ∧
      ((ofSource src).run ops).2.log = ((Reader.ofSource src).run ops).2.log ∧
      ((ofSource src).run ops).2.finished = ((Reader.ofSource src).run ops).2.finished := by
  obtain ⟨hanswers, hend⟩ := (StandsFor.ofSource src).run ops
  exact ⟨hanswers, hend.log_eq, hend.finished_eq⟩

end LiveReader

end WasmText
