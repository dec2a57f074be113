import Mathlib.Data.List.SplitBy
import WasmText.Proofs.Group
import WasmText.Proofs.Layout

/-!
# What each command contributes to the problems of a script

`Reader.Entry` is a top-level list of a source. In a source of such lists the commands are the
groups of `Entry.groups`: a list that heads no module field is a command, and so is a longest row of
those that do. What is found wrong with the source is, group by group, the lexical problems in front
of it, and of the group itself the lexical problems inside it, or if there are none the problem for
which it is refused (`Script.problemsOf`).

The reader gets this right because its log is unmuted by the first list of each group only, and
because it looks at the list after a row of fields before it takes it.
-/

namespace WasmText

namespace Reader

/-- A top-level list that closes and is not nested too deeply, with the lexical problems between it
and the list before it. -/
structure Entry where
  before : List Problem
  left : Token
  body : List Item
  right : Token
  inner : List Form
  left_kind : left.kind = .leftParen
  right_kind : right.kind = .rightParen
  spells : Form.Spells body inner
  depth_le : 1 + Form.depthAll inner ≤ maxNesting

namespace Entry

/-- The form of a list. -/
def form (e : Entry) : Form := .list (e.left.span.join e.right.span) e.inner

/-- The items of a list and of what stands in front of it. -/
def items (e : Entry) : List Item :=
  e.before.map .error ++ .ok e.left :: (e.body ++ [.ok e.right])

/-- The lexical problems inside a list. -/
def inside (e : Entry) : List Problem := Item.problems e.body

/-- Whether two lists that follow each other belong to one command. -/
def joins (e e' : Entry) : Bool := e.form.isField && e'.form.isField

/-- Top-level lists by commands: the longest rows of module fields, and each other list alone. -/
def groups (es : List Entry) : List (List Entry) :=
  es.splitBy joins

end Entry

end Reader

/-! ## Refused groups -/

namespace Command

/-- A module that is kept as it stands is the only one to depend on the source. -/
theorem ofMalformed_source (src src' : Source) (f : Form) :
    ScriptModule.ofMalformed src' f = ScriptModule.ofMalformed src f ∨
      ∃ text text', ScriptModule.ofMalformed src f = .ok (.source text) ∧
        ScriptModule.ofMalformed src' f = .ok (.source text') := by
  unfold ScriptModule.ofMalformed
  by_cases hhead : f.isHeadedBy .moduleKw = true
  · rw [if_pos hhead, if_pos hhead]
    split
    · exact .inl rfl
    · exact .inl rfl
    · exact .inr ⟨_, _, rfl, rfl⟩
  · rw [if_neg hhead, if_neg hhead]
    exact .inl rfl

/-- An assertion about a malformed module is refused the same from any source. -/
theorem onModule_ofMalformed_refused {make : ScriptModule → String → CommandKind}
    {src : Source} (src' : Source) {f : Form} {e : Failure}
    (h : onModule make (ScriptModule.ofMalformed src) f = .error e) :
    onModule make (ScriptModule.ofMalformed src') f = .error e := by
  unfold onModule at h ⊢
  cases hneed : Form.need .module f.span f.args[0]? with
  | error p =>
    rw [hneed] at h
    exact h
  | ok g =>
    rw [hneed] at h
    change (ScriptModule.ofMalformed src g >>= _) = _ at h
    show (ScriptModule.ofMalformed src' g >>= _) = _
    rcases ofMalformed_source src src' g with hsame | ⟨text, text', hsrc, hsrc'⟩
    · rw [hsame]
      exact h
    · rw [hsrc] at h
      rw [hsrc']
      cases hm : message f with
      | error p =>
        rw [hm] at h
        exact h
      | ok text =>
        rw [hm] at h
        cases h

/-- A command is refused the same from any source. -/
theorem kindOf_refused {src : Source} (src' : Source) {f : Form} {e : Failure}
    (h : kindOf src f = .error e) : kindOf src' f = .error e := by
  by_cases hmalformed : f.headKeyword? = some .assertMalformedKw
  · unfold kindOf at h ⊢
    rw [hmalformed] at h ⊢
    cases hlist : f.expectList .command with
    | error p =>
      rw [hlist] at h
      exact h
    | ok items =>
      rw [hlist] at h
      exact onModule_ofMalformed_refused src' h
  · -- no other command keeps a piece of the source
    have hsame : kindOf src' f = kindOf src f := by
      unfold kindOf
      congr 1
      funext _
      split <;> first | rfl | contradiction
    rw [hsame, h]

/-- A group is refused the same from any source. -/
theorem ofGroup_refused {src : Source} (src' : Source) {f : Form} {others : List Form}
    {e : Failure} (h : ofGroup src f others = .error e) : ofGroup src' f others = .error e := by
  unfold ofGroup at h ⊢
  split at h
  · next hfield =>
    rw [if_pos hfield, h]
  · next hfield =>
    rw [if_neg hfield]
    unfold ofForm at h ⊢
    cases hkind : kindOf src f with
    | error e' =>
      rw [hkind] at h
      rw [kindOf_refused src' hkind]
      exact h
    | ok kind =>
      rw [hkind] at h
      cases h

/-- The problem for which the command of a group is refused, in whatever source it stands. -/
def refusal? (f : Form) (others : List Form) : Option Problem :=
  match ofGroup ⟨"", ""⟩ f others with
  | .error (.problem p) => some p
  | _ => none

/-- What a group is refused for does not depend on the source. -/
theorem refusal?_of_error {src : Source} {f : Form} {others : List Form} {p : Problem}
    (h : ofGroup src f others = .error (.problem p)) : refusal? f others = some p := by
  rw [refusal?, ofGroup_refused _ h]

theorem refusal?_of_ok {src : Source} {f : Form} {others : List Form} {c : Command}
    (h : ofGroup src f others = .ok c) : refusal? f others = none := by
  unfold refusal?
  split
  · next p hp =>
    rw [ofGroup_refused src hp] at h
    cases h
  · rfl

/-- Reading is abandoned at the command of a group, in whatever source it stands. -/
def IsAbandoned (f : Form) (others : List Form) : Prop :=
  ofGroup ⟨"", ""⟩ f others = .error .abandoned

/-- A group is abandoned the same from any source. -/
theorem isAbandoned_iff (src : Source) (f : Form) (others : List Form) :
    IsAbandoned f others ↔ ofGroup src f others = .error .abandoned :=
  ⟨ofGroup_refused src, ofGroup_refused _⟩

end Command

open Reader

/-- The lexical problems in front of some lists and inside them. -/
def Reader.lexicalOf (es : List Entry) : List Problem := es.flatMap fun e => e.before ++ e.inside

/-- What is found wrong with a group and in front of it. -/
def Script.problemsOf : List Entry → List Problem
  | [] => []
  | e :: es =>
    let lexical := e.inside ++ lexicalOf es
    e.before ++
      if lexical = [] then (Command.refusal? e.form (es.map Entry.form)).toList else lexical

/-- Reading is abandoned at a group. -/
def Script.AbandonedAt : List Entry → Prop
  | [] => False
  | e :: es => Command.IsAbandoned e.form (es.map Entry.form)

namespace Reader

/-! ## Reading the lists of a group -/

/-- The items of some top-level lists and of the lexical problems after the last. -/
def itemsOf (es : List Entry) (after : List Problem) : List Item :=
  es.flatMap Entry.items ++ after.map .error

/-- The items of some lists start with those of the first. -/
theorem itemsOf_cons (e : Entry) (es : List Entry) (after : List Problem) :
    itemsOf (e :: es) after =
      e.before.map .error ++ .ok e.left :: (e.body ++ .ok e.right :: itemsOf es after) := by
  simp [itemsOf, Entry.items]

/-- The reader with some lists left to read. -/
def moveTo (r : Reader) (es : List Entry) (after : List Problem) (log : Log) : Reader :=
  { r with pending := itemsOf es after, log := log }

section moveTo

variable (r : Reader) (es es' : List Entry) (after : List Problem) (log log' : Log)

@[simp] theorem moveTo_source : (r.moveTo es after log).source = r.source := rfl

@[simp] theorem moveTo_pending : (r.moveTo es after log).pending = itemsOf es after := rfl

@[simp] theorem moveTo_log : (r.moveTo es after log).log = log := rfl

@[simp] theorem moveTo_moveTo :
    (r.moveTo es after log).moveTo es' after log' = r.moveTo es' after log' := rfl

@[simp] theorem report_moveTo (p : Problem) :
    (r.moveTo es after log).report p = r.moveTo es after (log.report p) := rfl

end moveTo

/-- A reader that has some lists to read is where it would be moved to for them. -/
theorem moveTo_self {r : Reader} {es : List Entry} {after : List Problem}
    (hpending : r.pending = itemsOf es after) : r.moveTo es after r.log = r := by
  rw [moveTo, ← hpending]

/-- Reading the next list of a source. -/
theorem read_entry {r : Reader} {e : Entry} {es : List Entry} {after : List Problem}
    (hpending : r.pending = itemsOf (e :: es) after) (hfinished : r.finished = false)
    (fresh : Bool) :
    r.read fresh = (some e.form,
      r.moveTo es after (((r.log.lexicals e.before).start fresh).lexicals e.inside)) := by
  rw [read, hfinished, hpending, itemsOf_cons, next_problems,
    next_list _ _ _ _ e.left_kind e.spells e.right_kind e.depth_le]
  simp [Entry.form, Entry.inside, moveTo, hfinished]

/-- Reading on after the last list of a source. -/
theorem read_end {r : Reader} {after : List Problem} (hpending : r.pending = itemsOf [] after)
    (hfinished : r.finished = false) (fresh : Bool) :
    r.read fresh = (none, { r with
      pending := []
      log := r.log.lexicals after
      finished := true }) := by
  have hitems : itemsOf [] after = after.map .error ++ [] := by simp [itemsOf]
  rw [read, hfinished, hpending, hitems, next_problems, next]
  simp

theorem nextToken?_problems (ps : List Problem) (items : List Item) :
    nextToken? (ps.map .error ++ items) = nextToken? items := by
  induction ps with
  | nil => rfl
  | cons p ps ih => rw [List.map_cons, List.cons_append, nextToken?, ih]

/-- The keyword that a token is. -/
def keywordOf? : Option (Token × List Item) → Option Keyword
  | some (⟨.keyword word, _, _⟩, _) => some word
  | _ => none

/-- The first token inside a list is a keyword exactly if the list is headed by it. -/
theorem keywordOf?_nextToken? {body : List Item} {inner : List Form} {right : Token}
    (h : Form.Spells body inner) (hright : right.kind = .rightParen) (span : Span)
    (rest : List Item) :
    keywordOf? (nextToken? (body ++ .ok right :: rest)) = (Form.list span inner).headKeyword? := by
  induction h with
  | nil =>
    obtain ⟨kind, text, place⟩ := right
    obtain rfl : kind = .rightParen := hright
    rfl
  | problem _ ih => exact ih
  | @atom t items forms =>
    obtain ⟨kind, text, place⟩ := t
    cases kind <;> rfl
  | @list left _ _ _ _ _ hleft =>
    obtain ⟨kind, text, place⟩ := left
    obtain rfl : kind = .leftParen := hleft
    rfl

/-- A keyword is seen where a left parenthesis comes next and the keyword after it. -/
theorem peekKeyword?_of_left {r : Reader} {left : Token} {items : List Item}
    (h : nextToken? r.pending = some (left, items)) (hleft : left.kind = .leftParen) :
    r.peekKeyword? = keywordOf? (nextToken? items) := by
  obtain ⟨kind, text, span⟩ := left
  obtain rfl : kind = .leftParen := hleft
  rw [peekKeyword?, h]
  show (nextToken? items).bind _ = _
  cases nextToken? items with
  | none => rfl
  | some next =>
    obtain ⟨⟨kind, text, span⟩, rest⟩ := next
    cases kind <;> rfl

/-- A field is seen exactly where the next list is one. -/
theorem atField_entry {r : Reader} {e : Entry} {es : List Entry} {after : List Problem}
    (hpending : r.pending = itemsOf (e :: es) after) : r.atField = e.form.isField := by
  have hnext : nextToken? r.pending = some (e.left, e.body ++ .ok e.right :: itemsOf es after) := by
    rw [hpending, itemsOf_cons, nextToken?_problems, nextToken?]
  rw [atField, peekKeyword?_of_left hnext e.left_kind,
    keywordOf?_nextToken? e.spells e.right_kind (e.left.span.join e.right.span)]
  rfl

/-- No field is next where no list is left. -/
theorem atField_end {r : Reader} {after : List Problem}
    (hpending : r.pending = itemsOf [] after) : r.atField = false := by
  have hitems : itemsOf [] after = after.map .error ++ [] := by simp [itemsOf]
  rw [atField, peekKeyword?, hpending, hitems, nextToken?_problems]
  rfl

/-! ## Reading a group -/

/-- The fields at the front of some lists are read together, up to a list that is none. -/
theorem readFields_entries {r : Reader} {es rest : List Entry} {after : List Problem}
    (hpending : r.pending = itemsOf (es ++ rest) after) (hfinished : r.finished = false)
    (hes : ∀ e ∈ es, e.form.isField = true) (hrest : ∀ e ∈ rest.head?, e.form.isField = false) :
    r.readFields =
      (es.map Entry.form, r.moveTo rest after (r.log.lexicals (lexicalOf es))) := by
  induction es generalizing r with
  | nil =>
    -- what ends the row is the end of the source, or a list that is no field
    have hfield : r.atField = false := by
      cases rest with
      | nil => exact atField_end hpending
      | cons e rest => rw [atField_entry hpending, hrest e rfl]
    rw [readFields_of_not_atField hfield]
    rw [List.nil_append] at hpending
    show ([], r) = ([], r.moveTo rest after r.log)
    rw [moveTo_self hpending]
  | cons e es ih =>
    rw [List.cons_append] at hpending
    have hfield : r.atField = true := by
      rw [atField_entry hpending, hes e List.mem_cons_self]
    rw [readFields_of_read hfield (read_entry hpending hfinished false),
      ih (moveTo_pending ..) hfinished fun e' he' => hes e' (List.mem_cons_of_mem _ he')]
    simp [lexicalOf, Log.lexicals_append, Log.start]

/-- A group reads as the lists it is made of, and `rest` is left. -/
structure Entry.IsGroup (e : Entry) (es rest : List Entry) : Prop where
  others : e.form.isField = true → ∀ e' ∈ es, e'.form.isField = true
  next : e.form.isField = true → ∀ e' ∈ rest.head?, e'.form.isField = false
  alone : e.form.isField = false → es = []

/-- The fields that go with a list are those of its group. -/
theorem readOthers_entries {r : Reader} {e : Entry} {es rest : List Entry} {after : List Problem}
    (hgroup : e.IsGroup es rest) (hpending : r.pending = itemsOf (es ++ rest) after)
    (hfinished : r.finished = false) :
    r.readOthers e.form =
      (es.map Entry.form, r.moveTo rest after (r.log.lexicals (lexicalOf es))) := by
  by_cases hfield : e.form.isField = true
  · rw [readOthers, if_pos hfield]
    exact readFields_entries hpending hfinished (hgroup.others hfield) (hgroup.next hfield)
  · obtain rfl := hgroup.alone (Bool.not_eq_true _ ▸ hfield)
    rw [List.nil_append] at hpending
    rw [readOthers, if_neg hfield]
    show ([], r) = ([], r.moveTo rest after r.log)
    rw [moveTo_self hpending]

/-! ## Reading all groups -/

/-- The groups of some lists, from the first group on. -/
inductive Entry.AreGroups : List (List Entry) → Prop
  | nil : AreGroups []
  | cons {e : Entry} {es : List Entry} {gs : List (List Entry)} (h : e.IsGroup es gs.flatten)
    (hgs : AreGroups gs) : AreGroups ((e :: es) :: gs)

/-- What is found wrong with a source of groups while its commands are read. -/
theorem readCommands_groups {r : Reader} {gs : List (List Entry)} {after : List Problem}
    (hgs : Entry.AreGroups gs) (hpending : r.pending = itemsOf gs.flatten after)
    (hfinished : r.finished = false) (h : r.readCommands.1.isSome = true) :
    r.readCommands.2.log.problems.toList =
      r.log.problems.toList ++ gs.flatMap Script.problemsOf ++ after := by
  induction hgs generalizing r with
  | nil =>
    rw [readCommands_of_none (read_end hpending hfinished true)]
    simp
  | @cons e es gs hgroup hgs ih =>
    rw [List.flatten_cons, List.cons_append] at hpending
    -- the first list unmutes the log, so what was logged before plays no part in this group
    rw [readCommands_of_some (read_entry hpending hfinished true), command_eq,
      readOthers_entries hgroup (moveTo_pending ..) hfinished] at h ⊢
    simp only [moveTo_source, moveTo_moveTo, moveTo_log, ← Log.lexicals_append] at h ⊢
    rw [List.flatMap_cons, Script.problemsOf]
    cases hc : Command.ofGroup r.source e.form (es.map Entry.form) with
    | ok c =>
      rw [hc] at h
      dsimp only [Prod.map_fst, Prod.map_snd, id] at h ⊢
      rw [Option.isSome_map] at h
      have hnone : (if e.inside ++ lexicalOf es = [] then [] else e.inside ++ lexicalOf es) =
          e.inside ++ lexicalOf es := by
        split <;> simp_all
      rw [ih (moveTo_pending ..) hfinished h, Command.refusal?_of_ok hc, Option.toList_none,
        hnone]
      simp
    | error failure =>
      rw [hc] at h
      cases failure with
      | abandoned => cases h
      | problem p =>
        have hlog := Log.toList_problems_report_lexicals
          (Log.muted_start_true (r.log.lexicals e.before)) (e.inside ++ lexicalOf es) p
        dsimp only at h ⊢
        rw [report_moveTo] at h ⊢
        rw [ih (moveTo_pending ..) hfinished h, Command.refusal?_of_error hc, Option.toList_some]
        simp only [moveTo_log, hlog, Log.problems_start, Log.toList_problems_lexicals,
          List.append_assoc]

/-- Reading is abandoned only at a group. -/
theorem isSome_readCommands_iff {r : Reader} {gs : List (List Entry)} {after : List Problem}
    (hgs : Entry.AreGroups gs) (hpending : r.pending = itemsOf gs.flatten after)
    (hfinished : r.finished = false) :
    r.readCommands.1.isSome = true ↔ ∀ g ∈ gs, ¬Script.AbandonedAt g := by
  induction hgs generalizing r with
  | nil =>
    rw [readCommands_of_none (read_end hpending hfinished true)]
    simp
  | @cons e es gs hgroup hgs ih =>
    rw [List.flatten_cons, List.cons_append] at hpending
    rw [readCommands_of_some (read_entry hpending hfinished true), command_eq,
      readOthers_entries hgroup (moveTo_pending ..) hfinished, List.forall_mem_cons,
      Script.AbandonedAt, Command.isAbandoned_iff r.source]
    simp only [moveTo_source, moveTo_moveTo]
    split
    · next c hc =>
      rw [hc, Prod.map_fst, Option.isSome_map, ih (moveTo_pending ..) hfinished]
      simp
    · next p hp =>
      rw [hp, report_moveTo, ih (moveTo_pending ..) hfinished]
      simp
    · next habandoned => simp [habandoned]

/-! ## The groups of some lists -/

namespace Entry

/-- All of a group are fields when its first is one. -/
theorem isField_of_isChain {e : Entry} {es : List Entry}
    (h : (e :: es).IsChain fun e e' => e.joins e' = true) (hfield : e.form.isField = true) :
    ∀ e' ∈ es, e'.form.isField = true := by
  induction es generalizing e with
  | nil => simp
  | cons e' es ih =>
    obtain ⟨hjoins, hes⟩ := List.isChain_cons_cons.mp h
    have hfield' : e'.form.isField = true := (Bool.and_eq_true_iff.mp hjoins).2
    intro e'' he''
    rcases List.mem_cons.mp he'' with rfl | hmem
    · exact hfield'
    · exact ih hes hfield' e'' hmem

/-- A row that a list joining neither side ends is a group. -/
theorem isGroup_of_isChain {e : Entry} {es : List Entry} {gs : List (List Entry)}
    (hrow : (e :: es).IsChain fun e e' => e.joins e' = true) (hgs : [] ∉ gs)
    (hnext : ∀ g ∈ gs.head?, ∃ h h', ((e :: es).getLast h).joins (g.head h') = false) :
    e.IsGroup es gs.flatten where
  others := isField_of_isChain hrow
  next hfield := by
    match gs, hgs, hnext with
    | [], _, _ => simp
    | [] :: gs, hgs, _ => exact absurd List.mem_cons_self hgs
    | (e' :: es') :: gs, _, hnext =>
      intro e'' he''
      obtain rfl : e' = e'' := Option.some.inj he''
      obtain ⟨h, h', hjoins⟩ := hnext _ rfl
      have hlast : ((e :: es).getLast h).form.isField = true := by
        rcases List.mem_cons.mp (List.getLast_mem h) with heq | hmem
        · rw [heq, hfield]
        · exact isField_of_isChain hrow hfield _ hmem
      rw [joins, hlast, Bool.true_and] at hjoins
      exact hjoins
  alone hfield := by
    cases es with
    | nil => rfl
    | cons e' es =>
      have hjoins := (List.isChain_cons_cons.mp hrow).1
      rw [joins, hfield, Bool.false_and] at hjoins
      cases hjoins

/-- The longest rows of fields, and the other lists alone, are groups. -/
theorem areGroups_of_isChain {gs : List (List Entry)} (hnil : [] ∉ gs)
    (hrow : ∀ g ∈ gs, g.IsChain fun e e' => e.joins e' = true)
    (hsplit : gs.IsChain fun g g' => ∃ h h', (g.getLast h).joins (g'.head h') = false) :
    AreGroups gs := by
  induction gs with
  | nil => exact .nil
  | cons g gs ih =>
    have hnils : [] ∉ gs := fun h => hnil (List.mem_cons_of_mem _ h)
    cases g with
    | nil => exact absurd List.mem_cons_self hnil
    | cons e es =>
      obtain ⟨hnext, hsplit⟩ := List.isChain_cons.mp hsplit
      exact .cons (isGroup_of_isChain (hrow _ List.mem_cons_self) hnils hnext)
        (ih hnils (fun g hg => hrow g (List.mem_cons_of_mem _ hg)) hsplit)

/-- The groups of some lists are groups. -/
theorem areGroups_groups (es : List Entry) : AreGroups (groups es) :=
  areGroups_of_isChain (List.nil_notMem_splitBy _ es)
    (fun _ hg => List.isChain_of_mem_splitBy hg) (List.isChain_getLast_head_splitBy _ es)

/-- A command on its own is one group. -/
theorem groups_of_mem {g es : List Entry} (h : g ∈ groups es) : groups g = [g] :=
  List.splitBy_of_isChain (List.ne_nil_of_mem_splitBy h) (List.isChain_of_mem_splitBy h)

end Entry

end Reader

namespace Script

/-- What is found wrong is found in the groups, one after the other. -/
theorem problems_of_areGroups {src : Source} {gs : List (List Entry)} {after : List Problem}
    (hgs : Entry.AreGroups gs) (hitems : src.items = itemsOf gs.flatten after)
    (hout : (parse src).outcome ≠ .abandoned) :
    (parse src).problems = gs.flatMap problemsOf ++ after := by
  have hgroups := readCommands_groups (r := ofSource src) hgs hitems rfl
  unfold parse at hout ⊢
  split
  · next cs r h =>
    rw [h] at hgroups
    exact hgroups rfl
  · next r h =>
    rw [h] at hout
    exact absurd rfl hout

/-- Reading is not abandoned when no group is. -/
theorem outcome_ne_abandoned_iff {src : Source} {gs : List (List Entry)} {after : List Problem}
    (hgs : Entry.AreGroups gs) (hitems : src.items = itemsOf gs.flatten after) :
    (parse src).outcome ≠ .abandoned ↔ ∀ g ∈ gs, ¬AbandonedAt g := by
  have hsome := isSome_readCommands_iff (r := ofSource src) hgs hitems rfl
  rw [← hsome, parse]
  split
  · next cs r h =>
    rw [h]
    dsimp only
    split <;> simp
  · next h => simp [h]

/-- What is found wrong with a script of top-level lists, as long as reading it is not abandoned:
what is wrong with each command, in order, and the lexical problems at the end. What is wrong with a
command is all that is found in a source where it stands alone. -/
theorem problems_of_entries {src : Source} {es : List Entry} {after : List Problem}
    (hitems : src.items = itemsOf es after) (hout : (parse src).outcome ≠ .abandoned) :
    (parse src).problems = (Entry.groups es).flatMap problemsOf ++ after ∧
      ∀ g ∈ Entry.groups es, ∀ alone : Source, alone.items = itemsOf g [] →
        (parse alone).outcome ≠ .abandoned ∧ (parse alone).problems = problemsOf g := by
  have hgs := Entry.areGroups_groups es
  have hflatten : (Entry.groups es).flatten = es := List.flatten_splitBy _ es
  rw [← hflatten] at hitems
  refine ⟨problems_of_areGroups hgs hitems hout, ?_⟩
  intro g hg alone halone
  have hself : Entry.AreGroups [g] := Entry.groups_of_mem hg ▸ Entry.areGroups_groups g
  have halone' : alone.items = itemsOf [g].flatten [] := by simpa using halone
  have hout' : (parse alone).outcome ≠ .abandoned := by
    rw [outcome_ne_abandoned_iff hself halone', List.forall_mem_singleton]
    exact (outcome_ne_abandoned_iff hgs hitems).mp hout g hg
  have hproblems := problems_of_areGroups hself halone' hout'
  exact ⟨hout', by simpa using hproblems⟩

/-- The lists of `(func $) ()`. -/
def brokenPair : List Entry :=
  [⟨[], ⟨.leftParen, ⟨"(", 0⟩, ⟨0, 1, 1, 1⟩⟩,
      [.ok ⟨.keyword .funcKw, ⟨"func", 1⟩, ⟨1, 5, 1, 2⟩⟩,
        .error ⟨.lexical .emptyIdentifier, ⟨6, 7, 1, 7⟩⟩],
      ⟨.rightParen, ⟨")", 7⟩, ⟨7, 8, 1, 8⟩⟩, [.atom ⟨.keyword .funcKw, ⟨"func", 1⟩, ⟨1, 5, 1, 2⟩⟩],
      rfl, rfl, .atom (by decide) (by decide) (.problem .nil), by decide⟩,
    ⟨[], ⟨.leftParen, ⟨"(", 9⟩, ⟨9, 10, 1, 10⟩⟩, [], ⟨.rightParen, ⟨")", 10⟩, ⟨10, 11, 1, 11⟩⟩, [],
      rfl, rfl, .nil, by decide⟩]

/-- The lexical problem of the first command hides what else is wrong with it, and nothing of what
is wrong with the second. The second is wrong in the same way where blanks stand for the first. -/
theorem problems_of_entries_brokenPair :
    (⟨"t", "(func $) ()"⟩ : Source).items = itemsOf brokenPair [] ∧
      (parse ⟨"t", "(func $) ()"⟩).outcome ≠ .abandoned ∧
      (parse ⟨"t", "(func $) ()"⟩).problems =
        [⟨.lexical .emptyIdentifier, ⟨6, 7, 1, 7⟩⟩, ⟨.expected .command "list", ⟨9, 11, 1, 10⟩⟩] ∧
      brokenPair.drop 1 ∈ Entry.groups brokenPair ∧
      (⟨"t", "         ()"⟩ : Source).items = itemsOf (brokenPair.drop 1) [] ∧
      (parse ⟨"t", "         ()"⟩).outcome ≠ .abandoned ∧
      (parse ⟨"t", "         ()"⟩).problems = [⟨.expected .command "list", ⟨9, 11, 1, 10⟩⟩] := by
  have hitems : (⟨"t", "(func $) ()"⟩ : Source).items = itemsOf brokenPair [] := by
    decide +kernel
  have hout : (parse ⟨"t", "(func $) ()"⟩).outcome ≠ .abandoned := by
    apply Outcome.ne_abandoned
    decide +kernel
  have hcontributed : (Entry.groups brokenPair).flatMap problemsOf ++ [] =
      [⟨.lexical .emptyIdentifier, ⟨6, 7, 1, 7⟩⟩,
        ⟨.expected .command "list", ⟨9, 11, 1, 10⟩⟩] := by
    decide +kernel
  have hgroup : brokenPair.drop 1 ∈ Entry.groups brokenPair := by
    rw [show Entry.groups brokenPair = [brokenPair.take 1, brokenPair.drop 1] by cbv]
    exact List.mem_cons_of_mem _ (List.mem_singleton_self _)
  have halone : (⟨"t", "         ()"⟩ : Source).items = itemsOf (brokenPair.drop 1) [] := by
    decide +kernel
  have hlast : problemsOf (brokenPair.drop 1) = [⟨.expected .command "list", ⟨9, 11, 1, 10⟩⟩] := by
    decide +kernel
  obtain ⟨hwhole, hgroups⟩ := problems_of_entries hitems hout
  obtain ⟨hout', halone'⟩ := hgroups _ hgroup _ halone
  exact ⟨hitems, hout, hwhole.trans hcontributed, hgroup, halone, hout', halone'.trans hlast⟩

end Script

end WasmText
