import WasmText.Proofs.Log

/-!
# Forms as they stand among the items

`Form.Spells items forms` says that the tokens among the items are those of the forms, each list
between its own parentheses, with lexical problems anywhere between them. A list that closes and
nests no deeper than the reader allows is then read as the form it spells, and of the log nothing
changes but that the lexical problems inside it are added (`Reader.next_list`).
-/

namespace WasmText

/-- The lexical problems among some items. -/
def Item.problems (items : List Item) : List Problem :=
  items.filterMap fun i => match i with | .error p => some p | .ok _ => none

namespace Item

@[simp] theorem problems_nil : problems [] = [] := rfl

@[simp] theorem problems_error (p : Problem) (items : List Item) :
    problems (.error p :: items) = p :: problems items := rfl

@[simp] theorem problems_ok (t : Token) (items : List Item) :
    problems (.ok t :: items) = problems items := rfl

@[simp] theorem problems_append (items items' : List Item) :
    problems (items ++ items') = problems items ++ problems items' := List.filterMap_append

@[simp] theorem problems_map_error (ps : List Problem) :
    problems (ps.map .error) = ps := by
  induction ps with
  | nil => rfl
  | cons p ps ih => rw [List.map_cons, problems_error, ih]

end Item

/-! ## Logging lexical problems -/

namespace Log

/-- Logs lexical problems. -/
def lexicals (log : Log) (ps : List Problem) : Log := ps.foldl lexical log

@[simp] theorem lexicals_nil (log : Log) : log.lexicals [] = log := rfl

@[simp] theorem lexicals_cons (log : Log) (p : Problem) (ps : List Problem) :
    log.lexicals (p :: ps) = (log.lexical p).lexicals ps := rfl

/-- Lexical problems are logged one after the other. -/
theorem lexicals_append (log : Log) (ps qs : List Problem) :
    log.lexicals (ps ++ qs) = (log.lexicals ps).lexicals qs := List.foldl_append

/-- Lexical problems are logged at the end. -/
@[simp] theorem toList_problems_lexicals (log : Log) (ps : List Problem) :
    (log.lexicals ps).problems.toList = log.problems.toList ++ ps := by
  induction ps generalizing log with
  | nil => rw [lexicals_nil, List.append_nil]
  | cons p ps ih =>
    rw [lexicals_cons, ih, problems_lexical, Array.toList_push, List.append_assoc]
    rfl

/-- The log is muted by the first lexical problem, and stays so. -/
@[simp] theorem muted_lexicals (log : Log) (ps : List Problem) :
    (log.lexicals ps).muted = (log.muted || !ps.isEmpty) := by
  induction ps generalizing log with
  | nil => simp
  | cons p ps ih => rw [lexicals_cons, ih]; simp

@[simp] theorem problems_start (log : Log) (fresh : Bool) :
    (log.start fresh).problems = log.problems := by
  cases fresh <;> rfl

@[simp] theorem muted_start_true (log : Log) : (log.start true).muted = false := rfl

/-- A problem reported after lexical ones is dropped. -/
theorem toList_problems_report_lexicals {log : Log} (h : log.muted = false) (ps : List Problem)
    (p : Problem) :
    ((log.lexicals ps).report p).problems.toList =
      log.problems.toList ++ if ps = [] then [p] else ps := by
  by_cases hps : ps = []
  · rw [if_pos hps, hps, lexicals_nil, report, h]
    exact Array.toList_push
  · have hmuted : (log.lexicals ps).muted = true := by
      rw [muted_lexicals, h, Bool.false_or, List.isEmpty_eq_false_iff.mpr hps]
      rfl
    rw [if_neg hps, report, if_pos hmuted, toList_problems_lexicals]

end Log

/-! ## What items spell -/

namespace Form

mutual

/-- How many lists deep a form nests, counting itself. -/
def depth : Form → Nat
  | atom _ => 0
  | list _ items => depthAll items + 1

/-- How many lists deep some forms nest. -/
def depthAll : List Form → Nat
  | [] => 0
  | f :: fs => max (depth f) (depthAll fs)

end

/-- Some items are the tokens of some forms in order, with lexical problems anywhere. -/
inductive Spells : List Item → List Form → Prop
  | nil : Spells [] []
  | problem {p : Problem} {items : List Item} {forms : List Form} (h : Spells items forms) :
    Spells (.error p :: items) forms
  | atom {t : Token} {items : List Item} {forms : List Form} (hleft : t.kind ≠ .leftParen)
    (hright : t.kind ≠ .rightParen) (h : Spells items forms) :
    Spells (.ok t :: items) (.atom t :: forms)
  | list {left right : Token} {body items : List Item} {inner forms : List Form}
    (hleft : left.kind = .leftParen) (hright : right.kind = .rightParen)
    (hbody : Spells body inner) (h : Spells items forms) :
    Spells (.ok left :: (body ++ .ok right :: items))
      (.list (left.span.join right.span) inner :: forms)

/-- What is spelled one after the other is spelled together. -/
theorem Spells.append {items items' : List Item} {forms forms' : List Form}
    (h : Spells items forms) (h' : Spells items' forms') :
    Spells (items ++ items') (forms ++ forms') := by
  induction h with
  | nil => exact h'
  | problem _ ih => exact .problem ih
  | atom hleft hright _ ih => exact .atom hleft hright ih
  | list hleft hright hbody _ _ ih =>
    simp only [List.cons_append, List.append_assoc]
    exact .list hleft hright hbody ih

end Form

namespace Reader

/-- Items that spell forms are read into the list that is open, unless they nest too deeply. -/
theorem readList_append (src : Source) {items : List Item} {forms : List Form}
    (h : Form.Spells items forms) (log : Log) (current : Opened) (parents : List Opened)
    (rest : List Item) (hdepth : parents.length + 1 + Form.depthAll forms ≤ maxNesting) :
    readList src log current parents (items ++ rest) =
      readList src (log.lexicals (Item.problems items))
        { current with items := forms.reverse ++ current.items } parents rest := by
  -- a list inside is read with one more around it, so the lists that are open vary
  induction h generalizing log current parents rest with
  | nil => rfl
  | problem h ih =>
    rw [List.cons_append, readList, ih _ _ _ _ hdepth]
    rfl
  | @atom t items forms hleft hright h ih =>
    rw [Form.depthAll] at hdepth
    rw [List.cons_append, readList]
    split
    · next hk => exact absurd hk hleft
    · next hk => exact absurd hk hright
    · rw [ih _ _ _ _ (by omega)]
      simp
  | @list left right body items inner forms hleft hright hbody h ihbody ih =>
    rw [Form.depthAll, Form.depth] at hdepth
    have hopen : ¬ maxNesting < parents.length + 2 := by omega
    have hinner : (current :: parents).length + 1 + Form.depthAll inner ≤ maxNesting := by
      rw [List.length_cons]
      omega
    rw [List.cons_append, readList, hleft, List.append_assoc, List.cons_append]
    simp only [if_neg hopen]
    rw [ihbody _ _ _ _ hinner, readList, hright]
    simp only
    rw [ih _ _ _ _ (by omega)]
    simp [Opened.close, Log.lexicals_append]

/-- A list is read up to its own closing parenthesis. -/
theorem readList_list (src : Source) {body : List Item} {inner : List Form} {right : Token}
    (h : Form.Spells body inner) (hright : right.kind = .rightParen)
    (hdepth : 1 + Form.depthAll inner ≤ maxNesting) (log : Log) (start : Span)
    (rest : List Item) :
    readList src log ⟨start, []⟩ [] (body ++ .ok right :: rest) =
      ⟨.form (.list (start.join right.span) inner), rest, log.lexicals (Item.problems body)⟩ := by
  rw [readList_append src h log ⟨start, []⟩ [] _ (by simpa using hdepth), readList, hright]
  simp [Opened.close]

/-- Lexical problems in front of a form are logged, and the search goes on after them. -/
theorem next_problems (src : Source) (fresh : Bool) (log : Log) (skipping : Bool)
    (ps : List Problem) (rest : List Item) :
    next src fresh log skipping (ps.map .error ++ rest) =
      next src fresh (log.lexicals ps) skipping rest := by
  induction ps generalizing log with
  | nil => rfl
  | cons p ps ih => rw [List.map_cons, List.cons_append, next, ih, Log.lexicals_cons]

/-- Where a list comes next it is the next form. -/
theorem next_list (src : Source) (fresh : Bool) (log : Log) (skipping : Bool)
    {left right : Token} {body : List Item} {inner : List Form} (hleft : left.kind = .leftParen)
    (h : Form.Spells body inner) (hright : right.kind = .rightParen)
    (hdepth : 1 + Form.depthAll inner ≤ maxNesting) (rest : List Item) :
    next src fresh log skipping (.ok left :: (body ++ .ok right :: rest)) =
      ⟨some (.list (left.span.join right.span) inner), rest,
        (log.start fresh).lexicals (Item.problems body), false⟩ := by
  rw [next, hleft]
  simp only [readList_list src h hright hdepth]

/-! ## Readers that have finished, or have not -/

/-- A reader at its end reads nothing. -/
theorem read_of_finished {r : Reader} (h : r.finished = true) (fresh : Bool) :
    r.read fresh = (none, r) :=
  if_pos h

/-- Elsewhere a reader reads the next form. -/
theorem read_of_not_finished {r : Reader} (h : r.finished = false) (fresh : Bool) :
    r.read fresh =
      ((next r.source fresh r.log false r.pending).form?,
        { r with
          pending := (next r.source fresh r.log false r.pending).rest
          log := (next r.source fresh r.log false r.pending).log
          finished := (next r.source fresh r.log false r.pending).ended }) := by
  rw [read, h]
  rfl

/-! ## What is left of the items -/

/-- What is left after skipping is the end of what there was. -/
theorem skip_rest_suffix (log : Log) (d : Nat) (items : List Item) :
    (skip log d items).rest <:+ items := by
  fun_induction skip log d items with
  | case1 | case2 => exact List.suffix_rfl
  | case3 | case4 | case5 | case6 => rename_i ih; exact ih.trans (List.suffix_cons _ _)

/-- What is left after a list is the end of what there was. -/
theorem readList_rest_suffix (src : Source) (log : Log) (current : Opened)
    (parents : List Opened) (items : List Item) :
    (readList src log current parents items).rest <:+ items := by
  fun_induction readList src log current parents items with
  | case1 => exact List.suffix_rfl
  | case3 => exact (skip_rest_suffix ..).trans (List.suffix_cons _ _)
  | case5 => exact List.suffix_cons _ _
  | case2 | case4 | case6 | case7 => rename_i ih; exact ih.trans (List.suffix_cons _ _)

/-- Skipping that finds no end leaves nothing. -/
theorem skip_rest_of_unclosed (log : Log) (d : Nat) (items : List Item)
    (h : (skip log d items).listEnd = .unclosed) : (skip log d items).rest = [] := by
  fun_induction skip log d items with
  | case1 => cases h
  | case2 => rfl
  | case3 | case4 | case5 | case6 => rename_i ih; exact ih h

/-- Nothing is left where the source ends in an open list. -/
theorem readList_rest_of_unclosed (src : Source) (log : Log) (current : Opened)
    (parents : List Opened) (items : List Item)
    (h : (readList src log current parents items).listEnd = .unclosed) :
    (readList src log current parents items).rest = [] := by
  fun_induction readList src log current parents items with
  | case1 => rfl
  | case3 => exact skip_rest_of_unclosed _ _ _ h
  | case5 => cases h
  | case2 | case4 | case6 | case7 => rename_i ih; exact ih h

end Reader

end WasmText
