import WasmText.Proofs.Commands

/-!
# One module, read alone or as a script

A source that is one module can be read as such, and as a script of one command. The two readers go
through it differently: one takes all lists as continuing one command, the other looks at each list
before it takes it and starts a command with the first. They meet in what is made of the lists,
which is the same module or the same refusal (`Command.ofGroup_of_areModule`), and in a source where
nothing else is wrong nothing else is said (`Parsed.ofResult`).
-/

namespace WasmText

/-- Some forms are one module: a list headed by `module` with text in it, or fields of a module. -/
inductive Form.AreModule : List Form → Prop
  | module {f : Form} (hhead : f.isHeadedBy .moduleKw = true)
    (hbinary : f.args[(Field.name f.args).2]?.bind Form.keyword? ≠ some .binaryKw)
    (hquote : f.args[(Field.name f.args).2]?.bind Form.keyword? ≠ some .quoteKw) : AreModule [f]
  | fields {f : Form} {fs : List Form} (h : ∀ g ∈ f :: fs, g.isField = true) : AreModule (f :: fs)

/-- A source is a row of lists that close and nest no deeper than the reader allows, with no lexical
problem in them and nothing between them. -/
structure Source.IsRow (src : Source) (lists : List Form) : Prop where
  lexical : Item.problems src.items = []
  spells : Form.Spells src.items lists
  depth_le : Form.depthAll lists ≤ Reader.maxNesting

/-- What a source comes to if nothing can be wrong but what is made of its forms. -/
def Parsed.ofResult {α : Type} (src : Source) : Except Failure α → Parsed α
  | .ok a => ⟨src, .accepted a, []⟩
  | .error (.problem p) => ⟨src, .rejected 1, [p]⟩
  | .error .abandoned => ⟨src, .abandoned, []⟩

namespace Parsed

variable {α β : Type} {src : Source} {x : Except Failure α}

theorem ofResult_accepted_iff {a : α} :
    (ofResult src x).outcome = .accepted a ↔ x = .ok a := by
  unfold ofResult
  split <;> simp

theorem ofResult_abandoned_iff :
    (ofResult src x).outcome = .abandoned ↔ x = .error .abandoned := by
  unfold ofResult
  split <;> simp

theorem source_ofResult : (ofResult src x).source = src := by
  unfold ofResult
  split <;> rfl

theorem problems_ofResult_map (f : α → β) :
    (ofResult src (f <$> x)).problems = (ofResult src x).problems := by
  obtain (p | -) | a := x <;> rfl

end Parsed

/-! ## Rows of lists -/

namespace Reader

theorem problems_itemsOf (es : List Entry) (after : List Problem) :
    Item.problems (itemsOf es after) = lexicalOf es ++ after := by
  induction es with
  | nil => simp [itemsOf, lexicalOf]
  | cons e es ih =>
    rw [itemsOf_cons, Item.problems_append, Item.problems_map_error, Item.problems_ok,
      Item.problems_append, Item.problems_ok, ih]
    simp [lexicalOf, Entry.inside]

/-- Lists that are spelled, with lexical problems anywhere, are entries. -/
theorem exists_entries_of_spells {items : List Item} {lists : List Form}
    (h : Form.Spells items lists) (hlists : ∀ f ∈ lists, f.items?.isSome = true)
    (hdepth : Form.depthAll lists ≤ maxNesting) :
    ∃ es after, items = itemsOf es after ∧ es.map Entry.form = lists := by
  induction h with
  | nil => exact ⟨[], [], rfl, rfl⟩
  | @problem p items forms h ih =>
    obtain ⟨es, after, rfl, rfl⟩ := ih hlists hdepth
    -- the problem stands in front of the next list, if there is one
    match es with
    | [] => exact ⟨[], p :: after, rfl, rfl⟩
    | e :: es => exact ⟨{ e with before := p :: e.before } :: es, after, rfl, rfl⟩
  | @atom t items forms =>
    exact absurd (hlists (.atom t) List.mem_cons_self) (by simp [Form.items?])
  | @list left right body items inner forms hleft hright hbody h _ ih =>
    rw [Form.depthAll, Form.depth] at hdepth
    obtain ⟨es, after, rfl, rfl⟩ :=
      ih (fun f hf => hlists f (List.mem_cons_of_mem _ hf)) (by omega)
    refine ⟨⟨[], left, body, right, inner, hleft, hright, hbody, by omega⟩ :: es, after, ?_, rfl⟩
    rw [itemsOf_cons]
    rfl

/-- A row of lists is read as one command, and its lexical problems are logged. -/
theorem readCommand_entries {r : Reader} {es : List Entry} {after : List Problem}
    (hpending : r.pending = itemsOf es after) (hfinished : r.finished = false) :
    r.readCommand = (es.map Entry.form, { r with
      pending := []
      log := r.log.lexicals (Item.problems (itemsOf es after))
      finished := true }) := by
  rw [problems_itemsOf]
  induction es generalizing r with
  | nil =>
    rw [readCommand, dif_neg (by simp [hfinished]), readContinuation,
      read_end hpending hfinished]
    rfl
  | cons e es ih =>
    have hread := read_entry hpending hfinished false
    rw [readCommand, dif_neg (by simp [hfinished]), readContinuation, hread]
    have hopen : (r.moveTo es after
        (((r.log.lexicals e.before).start false).lexicals e.inside)).finished = false := hfinished
    rw [if_neg (by simp [hopen]), ih (moveTo_pending ..) hopen]
    simp [lexicalOf, moveTo, Log.lexicals_append, Log.start]

/-- A source that is read as one command without logging anything is a row of lists. -/
theorem exists_entries_of_readCommand {r : Reader} (hends : r.EndsEmpty) (hsound : r.log.Sound)
    (hnil : r.readCommand.2.log.problems = #[]) : ∃ es, r.pending = itemsOf es [] := by
  fun_induction readCommand r with
  | case1 r hfinished => exact ⟨[], hends hfinished⟩
  | case2 r hfinished step hended =>
    obtain ⟨hpending, -⟩ | ⟨e, -, -, hopen⟩ := read_of_empty false hends hsound hnil
    · exact ⟨[], hpending⟩
    · rw [show (r.read false).2.finished = true from hended] at hopen
      cases hopen
  | case3 r hfinished step hopen fs r' heq ih =>
    obtain rfl : step.2.readCommand.2 = r' := congrArg Prod.snd heq
    have hread : (r.read false).2.log.problems = #[] := by
      by_contra hne
      exact (readCommand_extends step.2).ne_empty hne hnil
    obtain ⟨hpending, -⟩ | ⟨e, -, hpending, -⟩ := read_of_empty false hends hsound hread
    · exact ⟨[], hpending⟩
    · have hends' : step.2.EndsEmpty := fun hended => absurd hended hopen
      obtain ⟨es, hpending'⟩ := ih hends' ((read_extends r false).sound hsound) hnil
      refine ⟨e :: es, ?_⟩
      rw [hpending, show (r.read false).2.pending = _ from hpending']
      simp [itemsOf]

end Reader

open Reader

variable {src : Source} {e : Entry} {es : List Entry}

/-! ## Sources that are rows of lists -/

/-- Such a source, read as one module, comes to the module of its lists. -/
theorem Module.parse_of_entries (hitems : src.items = itemsOf es [])
    (hlexical : Item.problems src.items = []) :
    parse src = .ofResult src (ofForms (es.map Entry.form)) := by
  have hread := readCommand_entries (r := ofSource src) hitems rfl
  rw [← hitems, hlexical, Log.lexicals_nil] at hread
  rw [parse, hread]
  dsimp only
  cases ofForms (es.map Entry.form) with
  | ok m => rfl
  | error failure => cases failure <;> rfl

/-- Such a source, read as a script and if its lists are one group, comes to their command. -/
theorem Script.parse_of_group (hgroup : e.IsGroup es []) (hitems : src.items = itemsOf (e :: es) [])
    (hlexical : Item.problems src.items = []) :
    parse src =
      .ofResult src ((fun c => ⟨[c]⟩) <$> Command.ofGroup src e.form (es.map Entry.form)) := by
  rw [hitems, problems_itemsOf, List.append_nil] at hlexical
  obtain ⟨hbefore, hinside, hothers⟩ :
      e.before = [] ∧ e.inside = [] ∧ lexicalOf es = [] := by
    simpa [lexicalOf] using hlexical
  -- the first list is read, then the others of its group, and then the end
  have hread : (ofSource src).readForm = (some e.form, (ofSource src).moveTo es [] .empty) := by
    have hentry := read_entry (r := ofSource src) hitems rfl true
    rwa [hbefore, hinside] at hentry
  have hrest : ((ofSource src).moveTo es [] .empty).readOthers e.form =
      (es.map Entry.form, (ofSource src).moveTo [] [] .empty) := by
    have hfields := readOthers_entries (r := (ofSource src).moveTo es [] .empty) hgroup
      (by rw [List.append_nil]; rfl) rfl
    rwa [hothers] at hfields
  have hend (log : Log) : ((ofSource src).moveTo [] [] log).readCommands =
      (some [], { ofSource src with pending := [], log := log, finished := true }) :=
    readCommands_of_none (read_end (moveTo_pending ..) rfl true)
  have hsource : (ofSource src).source = src := rfl
  rw [parse, readCommands_of_some hread, command_eq, hrest, moveTo_source, hsource]
  dsimp only
  cases Command.ofGroup src e.form (es.map Entry.form) with
  | ok c =>
    dsimp only
    rw [hend]
    rfl
  | error failure =>
    cases failure with
    | problem p =>
      dsimp only
      rw [report_moveTo, hend]
      rfl
    | abandoned => rfl

/-! ## Accepted sources -/

/-- A source that is accepted as one module is a row of lists without lexical problems. -/
theorem Module.exists_entries_of_accepted {m : Module} (h : (parse src).outcome = .accepted m) :
    ∃ es, src.items = itemsOf es [] ∧ Item.problems src.items = [] := by
  have hnil : (ofSource src).readCommand.2.log.problems = #[] := by
    unfold parse at h
    dsimp only at h
    split at h
    · split at h
      · next hzero =>
        have hsound := (readCommand_extends (ofSource src)).sound (sound_ofSource src)
        exact Array.eq_empty_of_size_eq_zero (hsound.counted.symm.trans hzero)
      · cases h
    · cases h
    · cases h
  obtain ⟨es, hitems⟩ := exists_entries_of_readCommand (by rintro ⟨⟩) (sound_ofSource src) hnil
  refine ⟨es, hitems, ?_⟩
  rw [readCommand_entries hitems rfl] at hnil
  have hlog := congrArg Array.toList hnil
  rw [Log.toList_problems_lexicals] at hlog
  have hitems : src.items = itemsOf es [] := hitems
  rw [hitems]
  exact (List.append_eq_nil_iff.mp hlog).2

/-- A group without a problem has no lexical problem. -/
theorem lexicalOf_of_problemsOf {g : List Entry} (h : Script.problemsOf g = []) :
    lexicalOf g = [] := by
  match g with
  | [] => rfl
  | e :: es =>
    rw [Script.problemsOf, List.append_eq_nil_iff] at h
    obtain ⟨hbefore, h⟩ := h
    rw [lexicalOf, List.flatMap_cons, hbefore, List.nil_append]
    split at h
    · next hnil => exact hnil
    · exact h

theorem Script.lexical_of_accepted {s : Script} (h : (parse src).outcome = .accepted s)
    (hitems : src.items = itemsOf es []) : Item.problems src.items = [] := by
  have hnil : (parse src).problems = [] := by
    cases parse_settled src with
    | accepted _ _ hnil => exact hnil
    | abandoned h' => rw [h'] at h; cases h
    | rejected h' => rw [h'] at h; cases h
  have hout : (parse src).outcome ≠ .abandoned := by
    rw [h]
    simp
  rw [(problems_of_entries hitems hout).1, List.append_nil, List.flatMap_eq_nil_iff] at hnil
  have hflatten : (Entry.groups es).flatten = es := List.flatten_splitBy _ es
  rw [hitems, problems_itemsOf, List.append_nil, ← hflatten, lexicalOf, List.flatMap_eq_nil_iff]
  intro e he
  obtain ⟨g, hg, he⟩ := List.mem_flatten.mp he
  exact List.flatMap_eq_nil_iff.mp (lexicalOf_of_problemsOf (hnil g hg)) e he

/-- The lists of a source that is a row are those of the row. -/
theorem Source.topLevel_of_entries {after : List Problem} (hitems : src.items = itemsOf es after) :
    Form.TopLevel (Item.tokens src.tokens) (es.map Entry.form) := by
  rw [Source.tokens, Item.tokens_append, hitems]
  exact (topLevel_itemsOf es after).append_atom (by simp [Token.eof]) (by simp [Token.eof])

/-! ## One module -/

namespace Form

variable {f : Form}

theorem headKeyword?_of_isHeadedBy {word : Keyword} (h : f.isHeadedBy word = true) :
    f.headKeyword? = some word :=
  beq_iff_eq.mp h

/-- A module is no field of one. -/
theorem isField_of_module (h : f.isHeadedBy .moduleKw = true) : f.isField = false := by
  rw [isField, headKeyword?_of_isHeadedBy h]
  rfl

theorem not_module_of_isField (h : f.isField = true) : ¬f.isHeadedBy .moduleKw = true := by
  intro hhead
  rw [isField_of_module hhead] at h
  cases h

/-- What has a head is a list. -/
theorem isSome_items?_of_headKeyword? {word : Keyword} (h : f.headKeyword? = some word) :
    f.items?.isSome = true := by
  cases f with
  | atom t => cases h
  | list span items => rfl

namespace AreModule

theorem isSome_items? {lists : List Form} (h : AreModule lists) :
    ∀ f ∈ lists, f.items?.isSome = true := by
  cases h with
  | module hhead =>
    exact List.forall_mem_singleton.mpr
      (isSome_items?_of_headKeyword? (headKeyword?_of_isHeadedBy hhead))
  | fields h => exact fun f hf => isSome_items?_of_isField (h f hf)

/-- The lists of one module are one group. -/
theorem isGroup {e : Entry} {es : List Entry} (h : AreModule ((e :: es).map Entry.form)) :
    e.IsGroup es [] := by
  rw [List.map_cons] at h
  generalize hf : e.form = f at h
  generalize hfs : es.map Entry.form = fs at h
  cases h with
  | module hhead =>
    obtain rfl := List.map_eq_nil_iff.mp hfs
    exact ⟨by simp, by simp, fun _ => rfl⟩
  | fields h =>
    rw [← hf, ← hfs, List.forall_mem_cons, List.forall_mem_map] at h
    refine ⟨fun _ => h.2, by simp, fun hfield => ?_⟩
    rw [h.1] at hfield
    cases hfield

end AreModule

end Form

/-- Lists that do not start with a module are fields. -/
theorem Module.ofForms_of_bare {forms : List Form}
    (h : ∀ f ∈ forms.head?, ¬f.isHeadedBy .moduleKw = true) :
    ofForms forms = ofFields none forms := by
  match forms with
  | [] => rfl
  | [f] => rw [ofForms, if_neg (h f rfl)]
  | f :: g :: fs => rw [ofForms, if_neg (h f rfl)]

/-- The command of the lists of one module holds the module that they are, or is refused as it
is. -/
theorem Command.ofGroup_of_areModule {f : Form} {fs : List Form} (h : Form.AreModule (f :: fs))
    (src : Source) :
    ∃ span, ofGroup src f fs =
      (fun m => ⟨span, .module (.text m)⟩) <$> Module.ofForms (f :: fs) := by
  cases h with
  | module hhead hbinary hquote =>
    have hword := Form.headKeyword?_of_isHeadedBy hhead
    obtain ⟨items, hitems⟩ := Option.isSome_iff_exists.mp (Form.isSome_items?_of_headKeyword? hword)
    have hlist : f.expectList .command = .ok items := by
      rw [Form.expectList, hitems]
    have htext : ScriptModule.ofForm f = ScriptModule.text <$> Module.ofForm f := by
      unfold ScriptModule.ofForm
      dsimp only
      split
      · next hb => exact absurd hb hbinary
      · next hq => exact absurd hq hquote
      · cases Module.ofForm f <;> rfl
    have hfield : ¬f.isField = true := by simp [Form.isField_of_module hhead]
    refine ⟨f.span, ?_⟩
    rw [ofGroup, if_neg hfield, ofForm, kindOf, hlist, hword, htext, Module.ofForms, if_pos hhead]
    cases Module.ofForm f <;> rfl
  | fields h =>
    have hforms : Module.ofForms (f :: fs) = Module.ofFields none (f :: fs) :=
      Module.ofForms_of_bare fun g hg =>
        Form.not_module_of_isField (h g (List.mem_of_head? hg))
    refine ⟨f.span.join (fs.getLast?.getD f).span, ?_⟩
    rw [ofGroup, if_pos (h f List.mem_cons_self), ofFields, hforms]
    cases Module.ofFields none (f :: fs) <;> rfl

/-- A row of lists that are one module comes to it, or to its refusal, read either way. -/
theorem exists_parse_of_row {lists : List Form} {after : List Problem}
    (hmodule : Form.AreModule lists) (hlists : es.map Entry.form = lists)
    (hitems : src.items = itemsOf es after) (hlexical : Item.problems src.items = []) :
    ∃ (x : Except Failure Module) (span : Span), Module.parse src = .ofResult src x ∧
      Script.parse src = .ofResult src ((fun m => ⟨[⟨span, .module (.text m)⟩]⟩) <$> x) := by
  obtain rfl : after = [] := by
    rw [hitems, problems_itemsOf] at hlexical
    exact (List.append_eq_nil_iff.mp hlexical).2
  subst hlists
  match es with
  | [] => cases hmodule
  | e :: es =>
    obtain ⟨span, hcommand⟩ := Command.ofGroup_of_areModule hmodule src
    refine ⟨_, span, Module.parse_of_entries hitems hlexical, ?_⟩
    rw [Script.parse_of_group hmodule.isGroup hitems hlexical, hcommand, Functor.map_map]
    rfl

/-- A source whose top-level lists are one module is accepted as such if and only if it is accepted
as a script of one command, which holds the same module. If the source is nothing but these lists,
the same diagnostics are told of it either way, and it is abandoned either way or neither. -/
theorem parse_module_agrees_with_script {src : Source} {lists : List Form}
    (htop : Form.TopLevel (Item.tokens src.tokens) lists) (hmodule : Form.AreModule lists) :
    (∀ m, (Module.parse src).outcome = .accepted m ↔
      ∃ c, (Script.parse src).outcome = .accepted ⟨[c]⟩ ∧ c.kind = .module (.text m)) ∧
    (src.IsRow lists →
      (Module.parse src).problems = (Script.parse src).problems ∧
      (∀ max, (Module.parse src).diagnostics? max = (Script.parse src).diagnostics? max) ∧
      ((Module.parse src).outcome = .abandoned ↔ (Script.parse src).outcome = .abandoned)) := by
  refine ⟨fun m => ⟨fun h => ?_, ?_⟩, fun hrow => ?_⟩
  · obtain ⟨es, hitems, hlexical⟩ := Module.exists_entries_of_accepted h
    obtain ⟨x, span, hread, hscript⟩ :=
      exists_parse_of_row hmodule ((Source.topLevel_of_entries hitems).unique htop) hitems hlexical
    rw [hread, Parsed.ofResult_accepted_iff] at h
    refine ⟨⟨span, .module (.text m)⟩, ?_, rfl⟩
    rw [hscript, Parsed.ofResult_accepted_iff, h]
    rfl
  · rintro ⟨c, h, hkind⟩
    obtain ⟨es, hitems⟩ := Script.exists_entries_of_accepted h
    obtain ⟨x, span, hread, hscript⟩ := exists_parse_of_row hmodule
      ((Source.topLevel_of_entries hitems).unique htop) hitems
      (Script.lexical_of_accepted h hitems)
    rw [hscript, Parsed.ofResult_accepted_iff] at h
    obtain ⟨m', hx, hcommand⟩ := Success.of_map h
    obtain rfl : ⟨span, .module (.text m')⟩ = c := by simpa using hcommand
    obtain rfl : m' = m := by simpa using hkind
    rw [hread, Parsed.ofResult_accepted_iff, hx]
  · obtain ⟨es, after, hitems, hlists⟩ :=
      exists_entries_of_spells hrow.spells hmodule.isSome_items? hrow.depth_le
    obtain ⟨x, span, hread, hscript⟩ :=
      exists_parse_of_row hmodule hlists hitems hrow.lexical
    have hproblems : (Module.parse src).problems = (Script.parse src).problems := by
      rw [hread, hscript, Parsed.problems_ofResult_map]
    refine ⟨hproblems, fun max => ?_, ?_⟩
    · rw [Parsed.diagnostics?, Parsed.diagnostics?, hproblems, hread, hscript,
        Parsed.source_ofResult, Parsed.source_ofResult]
    · rw [hread, hscript, Parsed.ofResult_abandoned_iff, Parsed.ofResult_abandoned_iff]
      cases x <;> simp

/-- A list whose parentheses stand at two spans, with nothing before it. -/
def Reader.Entry.between (first last : Span) {body : List Item} {inner : List Form}
    (hbody : Form.Spells body inner) (hdepth : 1 + Form.depthAll inner ≤ maxNesting) : Entry :=
  ⟨[], ⟨.leftParen, ⟨"(", first.start⟩, first⟩, body, ⟨.rightParen, ⟨")", last.start⟩, last⟩, inner,
    rfl, rfl, hbody, hdepth⟩

/-- The list of `(module)`. -/
def Script.emptyModule : Entry :=
  .between ⟨0, 1, 1, 1⟩ ⟨7, 8, 1, 8⟩
    (.atom (t := ⟨.keyword .moduleKw, ⟨"module", 1⟩, ⟨1, 7, 1, 2⟩⟩) (by decide) (by decide) .nil)
    (by decide)

/-- The list of `(func br 1)`. -/
def Script.branchTooFar : Entry :=
  .between ⟨0, 1, 1, 1⟩ ⟨10, 11, 1, 11⟩
    (.atom (t := ⟨.keyword .funcKw, ⟨"func", 1⟩, ⟨1, 5, 1, 2⟩⟩) (by decide) (by decide)
      (.atom (t := ⟨.opcode .br, ⟨"br", 6⟩, ⟨6, 8, 1, 7⟩⟩) (by decide) (by decide)
        (.atom (t := ⟨.number .int, ⟨"1", 9⟩, ⟨9, 10, 1, 10⟩⟩) (by decide) (by decide) .nil)))
    (by decide)

/-- A module without fields is accepted either way, and a function that branches too far out is
refused either way. -/
theorem parse_module_agrees_with_script_branch :
    (∃ m c, Form.TopLevel (Item.tokens (⟨"t", "(module)"⟩ : Source).tokens)
        [Script.emptyModule.form] ∧
      Form.AreModule [Script.emptyModule.form] ∧
      (Module.parse ⟨"t", "(module)"⟩).outcome = .accepted m ∧
      (Script.parse ⟨"t", "(module)"⟩).outcome = .accepted ⟨[c]⟩ ∧ c.kind = .module (.text m)) ∧
    Form.TopLevel (Item.tokens (⟨"t", "(func br 1)"⟩ : Source).tokens)
        [Script.branchTooFar.form] ∧
      Form.AreModule [Script.branchTooFar.form] ∧
      (⟨"t", "(func br 1)"⟩ : Source).IsRow [Script.branchTooFar.form] ∧
      (Module.parse ⟨"t", "(func br 1)"⟩).problems = [⟨.labelOutOfRange 1, ⟨9, 10, 1, 10⟩⟩] ∧
      (Script.parse ⟨"t", "(func br 1)"⟩).problems = [⟨.labelOutOfRange 1, ⟨9, 10, 1, 10⟩⟩] := by
  constructor
  · have hitems : (⟨"t", "(module)"⟩ : Source).items = itemsOf [Script.emptyModule] [] := by
      decide +kernel
    have htop := Source.topLevel_of_entries hitems
    have hmodule : Form.AreModule [Script.emptyModule.form] :=
      .module rfl (by decide) (by decide)
    have hparse := Module.parse_of_entries hitems (by rw [hitems]; rfl)
    obtain ⟨m, hm⟩ := Outcome.exists_accepted (o := (Module.parse ⟨"t", "(module)"⟩).outcome)
      (by rw [hparse]; decide)
    obtain ⟨c, hc, hkind⟩ := ((parse_module_agrees_with_script htop hmodule).1 m).mp hm
    exact ⟨m, c, htop, hmodule, hm, hc, hkind⟩
  · have hitems : (⟨"t", "(func br 1)"⟩ : Source).items = itemsOf [Script.branchTooFar] [] := by
      decide +kernel
    have htop := Source.topLevel_of_entries hitems
    have hmodule : Form.AreModule [Script.branchTooFar.form] :=
      .fields (List.forall_mem_singleton.mpr rfl)
    have hlexical : Item.problems (⟨"t", "(func br 1)"⟩ : Source).items = [] := by
      rw [hitems]
      rfl
    have hrow : (⟨"t", "(func br 1)"⟩ : Source).IsRow [Script.branchTooFar.form] := by
      refine ⟨hlexical, ?_, by decide⟩
      rw [hitems]
      exact .list rfl rfl Script.branchTooFar.spells .nil
    have hproblems : (Module.parse ⟨"t", "(func br 1)"⟩).problems =
        [⟨.labelOutOfRange 1, ⟨9, 10, 1, 10⟩⟩] := by
      rw [Module.parse_of_entries hitems hlexical]
      decide +kernel
    have hsame := ((parse_module_agrees_with_script htop hmodule).2 hrow).1
    exact ⟨htop, hmodule, hrow, hproblems, hsame.symm.trans hproblems⟩

end WasmText
