import WasmText.Proofs.Layout

/-!
# The top-level lists of a source

`Form.TopLevel tokens forms` says which lists stand side by side in a row of tokens, without regard
to how deep they nest: each runs from an opening parenthesis to the closing one that matches it,
what stands between them counts for nothing, and a list that never closes takes all that follows.
`Reader.readForms_topLevel` says that a source is read as those of its top-level lists that nest no
deeper than the reader allows. The reader keeps a stack of open lists, and a mere count of them once
one is too deep; both close at the same parenthesis, which `Form.Closes` states for several lists
at once.
-/

namespace WasmText

namespace Item

/-- The tokens among some items. -/
def tokens (items : List Item) : List Token :=
  items.filterMap fun i => match i with | .ok t => some t | .error _ => none

@[simp] theorem tokens_nil : tokens [] = [] := rfl

@[simp] theorem tokens_error (p : Problem) (items : List Item) :
    tokens (.error p :: items) = tokens items := rfl

@[simp] theorem tokens_ok (t : Token) (items : List Item) :
    tokens (.ok t :: items) = t :: tokens items := rfl

@[simp] theorem tokens_append (items items' : List Item) :
    tokens (items ++ items') = tokens items ++ tokens items' := List.filterMap_append

@[simp] theorem tokens_map_ok (ts : List Token) : tokens (ts.map .ok) = ts := by
  induction ts with
  | nil => rfl
  | cons t ts ih => rw [List.map_cons, tokens_ok, ih]

end Item

namespace Form

/-! ## Closing several lists -/

/-- Some items close `d` lists that are open in each other, and `rest` is left: the items of each
list spell forms and end at a closing parenthesis. -/
inductive Closes : Nat → List Item → List Item → Prop
  | zero {rest : List Item} : Closes 0 rest rest
  | succ {d : Nat} {body items rest : List Item} {inner : List Form} {right : Token}
    (hbody : Spells body inner) (hright : right.kind = .rightParen) (h : Closes d items rest) :
    Closes (d + 1) (body ++ .ok right :: items) rest

namespace Closes

variable {d : Nat} {items rest : List Item} {t : Token}

/-- Lexical problems do not close a list. -/
theorem problem (h : Closes (d + 1) items rest) (p : Problem) :
    Closes (d + 1) (.error p :: items) rest := by
  cases h with
  | succ hbody hright h => exact .succ (.problem hbody) hright h

/-- An atom does not close a list. -/
theorem atom (h : Closes (d + 1) items rest) (hleft : t.kind ≠ .leftParen)
    (hright : t.kind ≠ .rightParen) : Closes (d + 1) (.ok t :: items) rest := by
  cases h with
  | succ hbody hclose h => exact .succ (.atom hleft hright hbody) hclose h

/-- A list that opens is closed first, and is then an item of the one around it. -/
theorem left (h : Closes (d + 2) items rest) (hleft : t.kind = .leftParen) :
    Closes (d + 1) (.ok t :: items) rest := by
  cases h with
  | @succ _ body _ _ _ right hbody hright h =>
    cases h with
    | @succ _ body' items' _ _ right' hbody' hright' h =>
      have hlist := Closes.succ (Spells.list hleft hright hbody hbody') hright' h
      simpa only [List.cons_append, List.append_assoc] using hlist

/-- A parenthesis that closes is one level less. -/
theorem right (h : Closes d items rest) (hright : t.kind = .rightParen) :
    Closes (d + 1) (.ok t :: items) rest :=
  .succ .nil hright h

/-- Items that close one list are its forms and a closing parenthesis. -/
theorem exists_body (h : Closes 1 items rest) :
    ∃ body inner right, items = body ++ .ok right :: rest ∧ right.kind = .rightParen ∧
      Spells body inner := by
  cases h with
  | @succ _ body _ _ inner right hbody hright h =>
    cases h with
    | zero => exact ⟨body, inner, right, rfl, hright, hbody⟩

end Closes

end Form

namespace Reader

open Form

variable {items rest : List Item}

/-! ## Passing over lists -/

/-- Items that spell forms are passed over without closing a list that is open. -/
theorem skip_append {forms : List Form} (h : Spells items forms) (log : Log) (d : Nat)
    (rest : List Item) :
    skip log (d + 1) (items ++ rest) =
      skip (log.lexicals (Item.problems items)) (d + 1) rest := by
  induction h generalizing log d rest with
  | nil => rfl
  | problem h ih =>
    rw [List.cons_append, skip, ih]
    rfl
  | @atom t items forms hleft hright h ih =>
    rw [List.cons_append, skip]
    split
    · next hk => exact absurd hk hleft
    · next hk => exact absurd hk hright
    · rw [ih]
      rfl
  | @list left right body items inner forms hleft hright hbody h ihbody ih =>
    rw [List.cons_append, skip, hleft, List.append_assoc, List.cons_append]
    simp only
    rw [ihbody, skip, hright]
    simp only
    rw [ih]
    simp [Log.lexicals_append]

/-- Skipping goes to where the lists are closed. -/
theorem skip_of_closes {d : Nat} (h : Closes d items rest) (log : Log) :
    (skip log d items).listEnd = .tooDeep ∧ (skip log d items).rest = rest := by
  induction h generalizing log with
  | zero => exact ⟨by rw [skip], by rw [skip]⟩
  | @succ d body items rest inner right hbody hright h ih =>
    rw [skip_append hbody, skip, hright]
    exact ih _

/-- Skipping that ends closes the lists. -/
theorem closes_of_skip (log : Log) (d : Nat) (items : List Item)
    (h : (skip log d items).listEnd ≠ .unclosed) : Closes d items (skip log d items).rest := by
  fun_induction skip log d items with
  | case1 => exact .zero
  | case2 => exact absurd rfl h
  | case3 log d p items ih => exact (ih h).problem p
  | case4 log d t items hleft ih => exact (ih h).left hleft
  | case5 log d t items hright ih => exact (ih h).right hright
  | case6 log d t items hleft hright ih => exact (ih h).atom hleft hright

/-- Whether lists close depends on the tokens only. -/
theorem skip_tokens (log log' : Log) (d : Nat) (items : List Item) :
    (skip log' d ((Item.tokens items).map .ok)).listEnd = (skip log d items).listEnd := by
  fun_induction skip log d items generalizing log' with
  | case1 => rw [skip]
  | case2 => rfl
  | case3 log d p items ih => exact ih log'
  | case4 log d t items hleft ih | case5 log d t items hright ih =>
    rw [Item.tokens_ok, List.map_cons, skip, ‹t.kind = _›]
    exact ih log'
  | case6 log d t items hleft hright ih =>
    rw [Item.tokens_ok, List.map_cons, skip]
    split
    · next hk => exact absurd hk hleft
    · next hk => exact absurd hk hright
    · exact ih log'

/-! ## Reading one list -/

/-- A list that is read to its end is closed. -/
theorem closes_of_readList (src : Source) (log : Log) (current : Opened) (parents : List Opened)
    (items : List Item) (h : (readList src log current parents items).listEnd ≠ .unclosed) :
    Closes (parents.length + 1) items (readList src log current parents items).rest := by
  fun_induction readList src log current parents items with
  | case1 => exact absurd rfl h
  | case2 log current parents p items ih => exact (ih h).problem p
  | case3 log current parents t items hleft depth _ => exact (closes_of_skip _ _ _ h).left hleft
  | case4 log current parents t items hleft depth _ ih => exact (ih h).left hleft
  | case5 log current t items hright f => exact Closes.zero.right hright
  | case6 log current t items hright f p ps ih => exact (ih h).right hright
  | case7 log current parents t items hleft hright ih => exact (ih h).atom hleft hright

/-- Where items nest too deeply, reading them turns into passing over the lists that are open. -/
theorem exists_skip_of_readList (src : Source) {forms : List Form} (h : Spells items forms)
    (log : Log) (current : Opened) (parents : List Opened)
    (hopen : parents.length + 1 ≤ maxNesting)
    (hdeep : maxNesting < parents.length + 1 + depthAll forms) :
    ∃ log', ∀ rest, readList src log current parents (items ++ rest) =
      skip log' (parents.length + 1) rest := by
  -- on how the items spell the forms, down to the first list that is too deep
  induction h generalizing log current parents with
  | nil =>
    rw [depthAll] at hdeep
    omega
  | problem h ih =>
    obtain ⟨log', hskip⟩ := ih (log.lexical _) current parents hopen hdeep
    refine ⟨log', fun rest => ?_⟩
    rw [List.cons_append, readList]
    exact hskip rest
  | @atom t items forms hleft hright h ih =>
    rw [depthAll, depth, Nat.zero_max] at hdeep
    obtain ⟨log', hskip⟩ := ih log { current with items := .atom t :: current.items } parents
      hopen hdeep
    refine ⟨log', fun rest => ?_⟩
    rw [List.cons_append, readList]
    split
    · next hk => exact absurd hk hleft
    · next hk => exact absurd hk hright
    · exact hskip rest
  | @list left right body items inner forms hleft hright hbody h ihbody ih =>
    rw [depthAll, depth] at hdeep
    by_cases hfull : maxNesting < parents.length + 2
    · -- this list is the first that is too deep
      refine ⟨((log.report ⟨.formsTooDeep, left.span⟩).mute.lexicals
        (Item.problems body)).lexicals (Item.problems items), fun rest => ?_⟩
      rw [List.cons_append, readList, hleft, List.append_assoc, List.cons_append]
      simp only
      rw [if_pos hfull, skip_append hbody, skip, hright]
      exact skip_append h _ _ _
    by_cases hinner : maxNesting < parents.length + 2 + depthAll inner
    · -- one of the lists inside is
      have hopen' : (current :: parents).length + 1 ≤ maxNesting := by
        rw [List.length_cons]
        omega
      have hdeep' : maxNesting < (current :: parents).length + 1 + depthAll inner := by
        rwa [List.length_cons]
      obtain ⟨log', hskip⟩ := ihbody log ⟨left.span, []⟩ (current :: parents) hopen' hdeep'
      refine ⟨log'.lexicals (Item.problems items), fun rest => ?_⟩
      rw [List.cons_append, readList, hleft, List.append_assoc, List.cons_append]
      simp only
      rw [if_neg hfull, hskip, List.length_cons, skip, hright]
      exact skip_append h _ _ _
    · -- one of the lists after it is
      have hdepth : (current :: parents).length + 1 + depthAll inner ≤ maxNesting := by
        rw [List.length_cons]
        omega
      obtain ⟨log', hskip⟩ := ih (log.lexicals (Item.problems body))
        { current with items := .list (left.span.join right.span) inner :: current.items } parents
        hopen (by omega)
      refine ⟨log', fun rest => ?_⟩
      rw [List.cons_append, readList, hleft, List.append_assoc, List.cons_append]
      simp only
      rw [if_neg hfull, readList_append src hbody _ _ _ _ hdepth, readList, hright,
        ← hskip rest]
      simp [Opened.close]

/-- A list that closes but nests too deeply is passed over up to its closing parenthesis. -/
theorem readList_tooDeep (src : Source) {body : List Item} {inner : List Form} {right : Token}
    (h : Spells body inner) (hright : right.kind = .rightParen)
    (hdepth : maxNesting < 1 + depthAll inner) (log : Log) (start : Span) :
    ∃ log', ∀ rest, readList src log ⟨start, []⟩ [] (body ++ .ok right :: rest) =
      ⟨.tooDeep, rest, log'⟩ := by
  obtain ⟨log', hskip⟩ := exists_skip_of_readList src h log ⟨start, []⟩ [] (by decide) hdepth
  refine ⟨log', fun rest => ?_⟩
  rw [hskip, skip, hright]
  exact skip.eq_1 log' rest

end Reader

namespace Form

/-! ## Top-level lists -/

/-- Some forms are the top-level lists of some tokens, in order. -/
inductive TopLevel : List Token → List Form → Prop
  | nil : TopLevel [] []
  | stray {t : Token} {tokens : List Token} {forms : List Form} (ht : t.kind ≠ .leftParen)
    (h : TopLevel tokens forms) : TopLevel (t :: tokens) forms
  | closed {left right : Token} {body tokens : List Token} {inner forms : List Form}
    (hleft : left.kind = .leftParen) (hright : right.kind = .rightParen)
    (hbody : Spells (body.map .ok) inner) (h : TopLevel tokens forms) :
    TopLevel (left :: (body ++ right :: tokens))
      (.list (left.span.join right.span) inner :: forms)
  | unclosed {left : Token} {tokens : List Token} (hleft : left.kind = .leftParen)
    (hopen : ∀ body right rest inner, tokens = body ++ right :: rest →
      right.kind = .rightParen → ¬ Spells (body.map .ok) inner) : TopLevel (left :: tokens) []

/-- What items spell depends on the tokens only. -/
theorem Spells.tokens {items : List Item} {forms : List Form} (h : Spells items forms) :
    Spells ((Item.tokens items).map .ok) forms := by
  induction h with
  | nil => exact .nil
  | problem h ih => exact ih
  | atom hleft hright h ih => exact .atom hleft hright ih
  | @list left right body items inner forms hleft hright hbody h ihbody ih =>
    rw [Item.tokens_ok, Item.tokens_append, Item.tokens_ok, List.map_cons, List.map_append,
      List.map_cons]
    exact .list hleft hright ihbody ih

/-- A list closes at one parenthesis only. -/
theorem Spells.closing_unique {body body' : List Item} {inner inner' : List Form}
    {right right' : Token} {rest rest' : List Item} (h : Spells body inner)
    (h' : Spells body' inner') (hright : right.kind = .rightParen)
    (hright' : right'.kind = .rightParen)
    (heq : body ++ .ok right :: rest = body' ++ .ok right' :: rest') :
    body = body' ∧ right = right' ∧ rest = rest' := by
  have hclose : Closes 1 (body ++ .ok right :: rest) rest := .succ h hright .zero
  have hclose' : Closes 1 (body' ++ .ok right' :: rest') rest' := .succ h' hright' .zero
  obtain rfl : rest = rest' := by
    rw [← (Reader.skip_of_closes hclose .empty).2, heq]
    exact (Reader.skip_of_closes hclose' .empty).2
  have hlength : body.length = body'.length := by
    have := congrArg List.length heq
    simpa using this
  obtain ⟨hbody, htail⟩ := List.append_inj heq hlength
  refine ⟨hbody, ?_, rfl⟩
  injection htail with hhead
  injection hhead

/-- Items spell one row of forms only. -/
theorem Spells.unique {items : List Item} {forms forms' : List Form} (h : Spells items forms)
    (h' : Spells items forms') : forms = forms' := by
  induction h generalizing forms' with
  | nil =>
    cases h'
    rfl
  | problem h ih =>
    cases h' with
    | problem h' => exact ih h'
  | atom hleft hright h ih =>
    cases h' with
    | atom _ _ h' => rw [ih h']
    | list hleft' => exact absurd hleft' hleft
  | @list left right body items inner forms hleft hright hbody h ihbody ih =>
    generalize heq : Except.ok left :: (body ++ .ok right :: items) = all at h'
    cases h' with
    | nil | problem => cases heq
    | atom hleft' =>
      injection heq with hhead
      injection hhead with hhead
      exact absurd hleft (hhead ▸ hleft')
    | list hleft' hright' hbody' h' =>
      injection heq with hhead htail
      injection hhead with hhead
      obtain ⟨rfl, rfl, rfl⟩ := hbody.closing_unique hbody' hright hright' htail
      rw [ihbody hbody', ih h', hhead]

/-- Tokens have one row of top-level lists. -/
theorem TopLevel.unique {tokens : List Token} {forms forms' : List Form}
    (h : TopLevel tokens forms) (h' : TopLevel tokens forms') : forms = forms' := by
  -- a list closes at one token only, and what does not close in one reading does in none
  induction h generalizing forms' with
  | nil =>
    cases h'
    rfl
  | stray ht h ih =>
    cases h' with
    | stray _ h' => exact ih h'
    | closed hleft => exact absurd hleft ht
    | unclosed hleft => exact absurd hleft ht
  | @closed left right body tokens inner forms hleft hright hbody h ih =>
    generalize heq : left :: (body ++ right :: tokens) = all at h'
    cases h' with
    | nil => cases heq
    | stray ht =>
      injection heq with hhead
      exact absurd hleft (hhead ▸ ht)
    | @closed left' right' body' tokens' inner' forms' hleft' hright' hbody' h' =>
      injection heq with hhead htail
      have hmap := congrArg (List.map (Except.ok (ε := Problem))) htail
      simp only [List.map_append, List.map_cons] at hmap
      obtain ⟨hbodies, rfl, hrest⟩ := hbody.closing_unique hbody' hright hright' hmap
      obtain rfl : tokens = tokens' := by simpa using congrArg Item.tokens hrest
      rw [hbody.unique (hbodies ▸ hbody'), ih h', hhead]
    | unclosed _ hopen =>
      injection heq with hhead htail
      exact absurd hbody (hopen _ _ _ _ htail.symm hright)
  | @unclosed left tokens hleft hopen =>
    cases h' with
    | stray ht => exact absurd hleft ht
    | closed _ hright hbody => exact absurd hbody (hopen _ _ _ _ rfl hright)
    | unclosed => rfl

/-- A token that is no parenthesis changes nothing at the end. -/
theorem TopLevel.append_atom {tokens : List Token} {forms : List Form} {t : Token}
    (h : TopLevel tokens forms) (hleft : t.kind ≠ .leftParen) (hright : t.kind ≠ .rightParen) :
    TopLevel (tokens ++ [t]) forms := by
  induction h with
  | nil => exact .stray hleft .nil
  | stray ht h ih => exact .stray ht ih
  | @closed left right body tokens inner forms hleft' hright' hbody h ih =>
    rw [List.cons_append, List.append_assoc, List.cons_append]
    exact .closed hleft' hright' hbody ih
  | @unclosed left tokens hleft' hopen =>
    refine .unclosed hleft' fun body right rest inner heq hclose => ?_
    rcases List.eq_nil_or_concat rest with rfl | ⟨rest, last, rfl⟩
    · obtain ⟨-, hlast⟩ := List.append_inj' heq rfl
      injection hlast with hlast
      exact absurd hclose (hlast ▸ hright)
    · rw [List.concat_eq_append, ← List.cons_append, ← List.append_assoc] at heq
      obtain ⟨hinit, -⟩ := List.append_inj' heq rfl
      exact hopen body right rest inner hinit hclose

end Form

namespace Reader

open Form

/-! ## Reading a source -/

/-- Whether a form nests no deeper than lists may. -/
def fits (f : Form) : Bool := f.depth ≤ maxNesting

/-- The form that a list ends as, if it does. -/
def ListEnd.form? : ListEnd → Option Form
  | form f => some f
  | tooDeep | unclosed => none

/-- A list that is never closed has no other after it. -/
theorem topLevel_of_unclosed (src : Source) (log : Log) (start : Span) {left : Token}
    {items : List Item} (hleft : left.kind = .leftParen)
    (h : (readList src log ⟨start, []⟩ [] items).listEnd = .unclosed) :
    TopLevel (left :: Item.tokens items) [] := by
  refine .unclosed hleft fun body right rest inner heq hright hbody => ?_
  -- a parenthesis that closes the list among the tokens closes it among the items
  have hskip : (skip .empty 1 items).listEnd = .tooDeep := by
    rw [← skip_tokens .empty .empty, heq, List.map_append, List.map_cons]
    exact (skip_of_closes (.succ hbody hright .zero) .empty).1
  have hclose := closes_of_skip .empty 1 items (by simp [hskip])
  obtain ⟨body', inner', right', hitems, hright', hbody'⟩ := hclose.exists_body
  rw [hitems] at h
  by_cases hdepth : 1 + depthAll inner' ≤ maxNesting
  · rw [readList_list src hbody' hright' hdepth] at h
    cases h
  · obtain ⟨log', hdeep⟩ := readList_tooDeep src hbody' hright' (by omega) log start
    rw [hdeep] at h
    cases h

/-- A list that was read or passed over is the first top-level list. -/
theorem topLevel_of_readList (src : Source) (log : Log) {left : Token} {items : List Item}
    (hleft : left.kind = .leftParen) {forms : List Form}
    (h : TopLevel (Item.tokens (readList src log ⟨left.span, []⟩ [] items).rest) forms) :
    ∃ forms', TopLevel (left :: Item.tokens items) forms' ∧
      forms'.filter fits =
        (readList src log ⟨left.span, []⟩ [] items).listEnd.form?.toList ++ forms.filter fits := by
  -- a list that never closes takes everything with it and is none
  by_cases hend : (readList src log ⟨left.span, []⟩ [] items).listEnd = .unclosed
  · rw [readList_rest_of_unclosed _ _ _ _ _ hend] at h
    refine ⟨[], topLevel_of_unclosed src log left.span hleft hend, ?_⟩
    rw [hend, TopLevel.nil.unique h]
    rfl
  obtain ⟨body, inner, right, hitems, hright, hbody⟩ :=
    (closes_of_readList src log _ [] items hend).exists_body
  refine ⟨.list (left.span.join right.span) inner :: forms, ?_, ?_⟩
  · rw [hitems, Item.tokens_append, Item.tokens_ok]
    exact .closed hleft hright hbody.tokens h
  rw [List.filter_cons]
  -- one that closes is read if it fits
  by_cases hdepth : 1 + depthAll inner ≤ maxNesting
  · have hfits : fits (.list (left.span.join right.span) inner) = true := by
      rw [fits, depth]
      exact decide_eq_true (by omega)
    have hread := readList_list src hbody hright hdepth log left.span
      (readList src log ⟨left.span, []⟩ [] items).rest
    rw [if_pos hfits, hitems, hread]
    rfl
  · have hfits : ¬ fits (.list (left.span.join right.span) inner) = true := by
      rw [fits, depth]
      simp only [decide_eq_true_eq]
      omega
    obtain ⟨log', hdeep⟩ := readList_tooDeep src hbody hright (by omega) log left.span
    rw [if_neg hfits, hitems, hdeep]
    rfl

/-- What is left after a search of the first form has the top-level lists that come after it. -/
theorem topLevel_of_next (src : Source) (log : Log) (skipping : Bool) (items : List Item)
    {forms : List Form}
    (h : TopLevel (Item.tokens (next src true log skipping items).rest) forms) :
    ∃ forms', TopLevel (Item.tokens items) forms' ∧
      forms'.filter fits =
        (next src true log skipping items).form?.toList ++ forms.filter fits := by
  -- what is passed over is stray tokens and lists that do not fit
  fun_induction next src true log skipping items generalizing forms with
  | case1 => exact ⟨forms, h, rfl⟩
  | case2 log skipping p items ih => exact ih h
  | case3 log skipping t items hleft after f =>
    have hend : after.listEnd = .form f := ‹_›
    obtain ⟨forms', htop, hfilter⟩ := topLevel_of_readList src (log.start true) hleft h
    exact ⟨forms', htop, hfilter.trans (by rw [show ListEnd.form? _ = some f from
      congrArg ListEnd.form? hend])⟩
  | case4 log skipping t items hleft after =>
    have hend : after.listEnd = .unclosed := ‹_›
    obtain ⟨forms', htop, hfilter⟩ := topLevel_of_readList src (log.start true) hleft h
    exact ⟨forms', htop, hfilter.trans (by rw [show ListEnd.form? _ = none from
      congrArg ListEnd.form? hend])⟩
  | case5 log skipping t items hleft after hend _ =>
    rename_i ih
    obtain ⟨between, hbetween, hfilter⟩ := ih h
    obtain ⟨forms', htop, hfilter'⟩ := topLevel_of_readList src (log.start true) hleft hbetween
    refine ⟨forms', htop, hfilter'.trans ?_⟩
    rw [show ListEnd.form? _ = none from congrArg ListEnd.form? hend]
    exact hfilter
  | case6 => contradiction
  | case7 log skipping t items hright ih =>
    obtain ⟨forms', htop, hfilter⟩ := ih h
    exact ⟨forms', .stray (by simp [hright]) htop, hfilter⟩
  | case8 log t items hleft hright ih =>
    obtain ⟨forms', htop, hfilter⟩ := ih h
    exact ⟨forms', .stray hleft htop, hfilter⟩
  | case9 log skipping t items _ hleft hright ih =>
    obtain ⟨forms', htop, hfilter⟩ := ih h
    exact ⟨forms', .stray hleft htop, hfilter⟩

/-- A search of the first form that finds none ends the source, and leaves nothing. -/
theorem next_of_none (src : Source) (log : Log) (skipping : Bool) (items : List Item)
    (h : (next src true log skipping items).form? = none) :
    (next src true log skipping items).ended = true ∧
      (next src true log skipping items).rest = [] := by
  fun_induction next src true log skipping items with
  | case1 => exact ⟨rfl, rfl⟩
  | case3 => cases h
  | case4 => exact ⟨rfl, readList_rest_of_unclosed _ _ _ _ _ ‹_›⟩
  | case6 => contradiction
  | case2 | case5 | case7 | case8 | case9 => rename_i ih; exact ih h

/-- No forms are read where none is next. -/
theorem readForms_of_none {r : Reader} (h : (r.read true).1 = none) :
    r.readForms = ([], (r.read true).2) := by
  rw [readForms]
  split
  · rfl
  · next f hf =>
    rw [readForm, h] at hf
    cases hf

/-- A form is read where one is next, and then those after it. -/
theorem readForms_of_some {r : Reader} {f : Form} (h : (r.read true).1 = some f) :
    r.readForms = (f :: (r.read true).2.readForms.1, (r.read true).2.readForms.2) := by
  rw [readForms]
  split
  · next hf =>
    rw [readForm, h] at hf
    cases hf
  · next g hg =>
    rw [readForm, h] at hg
    cases hg
    rfl

/-- The forms that are read are the lists that are no deeper than allowed. -/
theorem readForms_of_pending (r : Reader) (hr : r.finished = false) :
    ∃ forms, TopLevel (Item.tokens r.pending) forms ∧
      r.readForms.1 = forms.filter fits ∧ r.readForms.2.finished = true := by
  fun_induction readForms r with
  | case1 r step hnone =>
    have hread : r.readForm = _ := read_of_not_finished hr true
    simp only [step, hread] at hnone ⊢
    obtain ⟨hended, hrest⟩ := next_of_none _ _ _ _ hnone
    have hnil : TopLevel (Item.tokens (next r.source true r.log false r.pending).rest) [] := by
      rw [hrest]
      exact .nil
    obtain ⟨forms, htop, hfilter⟩ := topLevel_of_next _ _ _ _ hnil
    rw [hnone] at hfilter
    exact ⟨forms, htop, hfilter.symm, hended⟩
  | case2 r step f hsome fs r' heq ih =>
    have hread : r.readForm = _ := read_of_not_finished hr true
    simp only [step, hread] at hsome heq ih
    have hended : (next r.source true r.log false r.pending).ended = false := by
      refine Bool.eq_false_iff.mpr fun hended => ?_
      have hnone := next_form_of_ended hended
      rw [hsome] at hnone
      cases hnone
    obtain ⟨forms, htop, hforms, hfinished⟩ := ih hended
    rw [heq] at hforms hfinished
    obtain ⟨forms', htop', hfilter⟩ := topLevel_of_next _ _ _ _ htop
    rw [hsome] at hfilter
    refine ⟨forms', htop', ?_, hfinished⟩
    rw [hfilter, ← hforms]
    rfl

/-- A source is read as its top-level lists that nest no deeper than lists may, and to its end. -/
theorem readForms_topLevel (src : Source) :
    ∃ lists, (∀ forms, TopLevel (Item.tokens src.tokens) forms ↔ forms = lists) ∧
      (ofSource src).readForms.1 = lists.filter (·.depth ≤ maxNesting) ∧
      (ofSource src).readForms.2.finished = true := by
  obtain ⟨lists, htop, hread, hend⟩ := readForms_of_pending (ofSource src) rfl
  have htokens : TopLevel (Item.tokens src.tokens) lists := by
    rw [Source.tokens, Item.tokens_append]
    exact htop.append_atom (by simp [Token.eof]) (by simp [Token.eof])
  refine ⟨lists, fun forms => ⟨fun h => h.unique htokens, ?_⟩, hread, hend⟩
  rintro rfl
  exact htokens

end Reader

end WasmText
