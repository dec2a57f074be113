import WasmText.Proofs.Outcome
import WasmText.Proofs.Recovery
import WasmText.Proofs.TopLevel

/-!
# Which commands an accepted script has

`Script.Walk lists commands` goes through the top-level lists of a source: a list that heads no
module field is one command, and a longest row of those that do is one module, each with the span of
what it is made from. An accepted source has the commands of such a walk over all its top-level
lists (`Script.walk_of_accepted`).

Every way for the reader to leave a list out reports something: a stray token, a list that does not
close or nests too deeply, and the end of a row of fields that the look-ahead did not expect. So a
source whose log stays empty consists of the lists that were read, one after the other.
-/

namespace WasmText

/-- Going through the lists of a source in order, with the commands they make. -/
inductive Script.Walk (src : Source) : List Form → List Command → Prop
  | nil : Walk src [] []
  /-- A list that is no field makes a command of its own. -/
  | alone {f : Form} {lists : List Form} {c : Command} {cs : List Command}
    (hfield : f.isField = false) (hread : Command.ofForm src f = .ok c) (hspan : c.span = f.span)
    (h : Walk src lists cs) : Walk src (f :: lists) (c :: cs)
  /-- Fields that no further field follows make one text module. -/
  | fields {first : Form} {others lists : List Form} {m : Module} {c : Command}
    {cs : List Command} (hfields : ∀ f ∈ first :: others, f.isField = true)
    (hlongest : ∀ f ∈ lists.head?, f.isField = false)
    (hread : Module.ofFields none (first :: others) = .ok m)
    (hkind : c.kind = .module (.text m))
    (hspan : c.span = first.span.join (others.getLastD first).span) (h : Walk src lists cs) :
    Walk src (first :: (others ++ lists)) (c :: cs)

namespace Reader

open Log

/-! ## Reading without logging anything -/

/-- A list that is not read to its end leaves a problem. -/
theorem readList_ne_empty (src : Source) (log : Log) (current : Opened) (parents : List Opened)
    (items : List Item) (hsound : log.Sound)
    (h : ∀ f, (readList src log current parents items).listEnd ≠ .form f) :
    (readList src log current parents items).log.problems ≠ #[] := by
  fun_induction readList src log current parents items with
  | case1 log => exact report_ne_empty hsound _
  | case2 log current parents p items ih => exact ih ((lexical_extends log p).sound hsound) h
  | case3 log current parents t items hleft depth _ =>
    exact (skip_extends _ depth items).ne_empty (report_ne_empty hsound _)
  | case5 log current t items hright f => exact absurd rfl (h f)
  | case4 | case6 | case7 => rename_i ih; exact ih hsound h

/-- A list that is read is an entry. -/
theorem exists_entry_of_readList (src : Source) (log : Log) {left : Token} {items : List Item}
    {f : Form} (hleft : left.kind = .leftParen)
    (h : (readList src log ⟨left.span, []⟩ [] items).listEnd = .form f) :
    ∃ e : Entry, e.form = f ∧
      .ok left :: items = e.items ++ (readList src log ⟨left.span, []⟩ [] items).rest := by
  obtain ⟨body, inner, right, hitems, hright, hbody⟩ :=
    (closes_of_readList src log ⟨left.span, []⟩ [] items (by simp [h])).exists_body
  by_cases hdepth : 1 + Form.depthAll inner ≤ maxNesting
  · refine ⟨⟨[], left, body, right, inner, hleft, hright, hbody, hdepth⟩, ?_, ?_⟩
    · rw [hitems, readList_list src hbody hright hdepth] at h
      injection h
    · simpa [Entry.items] using hitems
  · obtain ⟨log', hdeep⟩ := readList_tooDeep src hbody hright (by omega) log left.span
    rw [hitems, hdeep] at h
    cases h

/-- A search that logs nothing finds the list that comes next, or that nothing is left. -/
theorem next_of_empty (src : Source) (fresh : Bool) (log : Log) (items : List Item)
    (hsound : log.Sound) (hnil : (next src fresh log false items).log.problems = #[]) :
    items = [] ∨ ∃ e : Entry, (next src fresh log false items).form? = some e.form ∧
      items = e.items ++ (next src fresh log false items).rest ∧
      (next src fresh log false items).ended = false := by
  have hstart : (log.start fresh).Sound := (start_extends log fresh).sound hsound
  obtain _ | ⟨p | t, items⟩ := items
  · exact .inl rfl
  · rw [next] at hnil
    exact absurd hnil ((next_extends ..).ne_empty (by simp))
  refine .inr ?_
  by_cases hleft : t.kind = .leftParen
  · cases hend : (readList src (log.start fresh) ⟨t.span, []⟩ [] items).listEnd with
    | form f =>
      obtain ⟨e, rfl, hitems⟩ := exists_entry_of_readList src _ hleft hend
      have hnext : next src fresh log false (.ok t :: items) =
          ⟨some e.form, (readList src (log.start fresh) ⟨t.span, []⟩ [] items).rest,
            (readList src (log.start fresh) ⟨t.span, []⟩ [] items).log, false⟩ := by
        rw [next, hleft]
        simp only [hend]
      rw [hnext]
      exact ⟨e, rfl, hitems, rfl⟩
    | unclosed =>
      have hne := readList_ne_empty src _ ⟨t.span, []⟩ [] items hstart (by simp [hend])
      rw [next, hleft] at hnil
      simp only [hend] at hnil
      exact absurd hnil hne
    | tooDeep =>
      have hne := readList_ne_empty src _ ⟨t.span, []⟩ [] items hstart (by simp [hend])
      rw [next, hleft] at hnil
      simp only [hend] at hnil
      split at hnil
      · exact absurd hnil ((next_extends ..).ne_empty hne)
      · exact absurd hnil hne
  -- any other token is reported where no list has begun
  rw [next] at hnil
  split at hnil
  · next hk => exact absurd hk hleft
  · exact absurd hnil ((next_extends ..).ne_empty (report_ne_empty hstart _))
  · rw [if_neg (by decide)] at hnil
    exact absurd hnil ((next_extends ..).ne_empty (report_ne_empty hsound _))

/-- Whether a reader has read all of its source once it has finished. -/
def EndsEmpty (r : Reader) : Prop := r.finished = true → r.pending = []

/-- A read that logs nothing takes the list that comes next, or nothing is left. -/
theorem read_of_empty {r : Reader} (fresh : Bool) (hends : r.EndsEmpty) (hsound : r.log.Sound)
    (hnil : (r.read fresh).2.log.problems = #[]) :
    (r.pending = [] ∧ (r.read fresh).1 = none ∧ (r.read fresh).2.pending = []) ∨
      ∃ e : Entry, (r.read fresh).1 = some e.form ∧
        r.pending = e.items ++ (r.read fresh).2.pending ∧ (r.read fresh).2.finished = false := by
  obtain hfinished | hfinished := Bool.eq_false_or_eq_true r.finished
  · have hpending := hends hfinished
    rw [read_of_finished hfinished]
    exact .inl ⟨hpending, rfl, hpending⟩
  · rw [read_of_not_finished hfinished] at hnil ⊢
    obtain hpending | hentry := next_of_empty r.source fresh r.log r.pending hsound hnil
    · rw [hpending]
      exact .inl ⟨rfl, by simp [next], by simp [next]⟩
    · exact .inr hentry

/-- A row of fields that is read without logging anything is a row of lists. -/
theorem readFields_of_empty {r : Reader} (hends : r.EndsEmpty) (hsound : r.log.Sound)
    (hnil : r.readFields.2.log.problems = #[]) :
    ∃ es : List Entry, r.pending = es.flatMap Entry.items ++ r.readFields.2.pending ∧
      r.readFields.2.EndsEmpty := by
  fun_induction readFields r with
  | case1 r hfield step hnone =>
    obtain ⟨hpending, -, hpending'⟩ | ⟨e, hsome, -⟩ := read_of_empty false hends hsound hnil
    · exact ⟨[], by rw [hpending]; exact hpending'.symm, fun _ => hpending'⟩
    · rw [show (r.read false).1 = none from hnone] at hsome
      cases hsome
  | case2 r hfield step f hsome fs r' heq ih =>
    obtain rfl : step.2.readFields.2 = r' := congrArg Prod.snd heq
    have hread : (r.read false).2.log.problems = #[] := by
      by_contra hne
      exact (readFields_extends step.2).ne_empty hne hnil
    obtain ⟨-, hnone, -⟩ | ⟨e, -, hpending, hfinished⟩ := read_of_empty false hends hsound hread
    · rw [show (r.read false).1 = some f from hsome] at hnone
      cases hnone
    have hends' : step.2.EndsEmpty := by
      intro hfinished'
      rw [show step.2.finished = false from hfinished] at hfinished'
      cases hfinished'
    obtain ⟨es, hpending', hends''⟩ := ih hends' ((read_extends r false).sound hsound) hnil
    refine ⟨e :: es, ?_, hends''⟩
    rw [List.flatMap_cons, List.append_assoc, ← hpending']
    exact hpending
  | case3 r hfield => exact ⟨[], rfl, hends⟩

theorem readOthers_of_empty {r : Reader} (f : Form) (hends : r.EndsEmpty) (hsound : r.log.Sound)
    (hnil : (r.readOthers f).2.log.problems = #[]) :
    ∃ es : List Entry, r.pending = es.flatMap Entry.items ++ (r.readOthers f).2.pending ∧
      (r.readOthers f).2.EndsEmpty := by
  unfold readOthers at hnil ⊢
  split at hnil
  · next hfield =>
    rw [if_pos hfield]
    exact readFields_of_empty hends hsound hnil
  · next hfield =>
    rw [if_neg hfield]
    exact ⟨[], rfl, hends⟩

/-- A source whose commands are read without logging anything is a row of lists. -/
theorem exists_entries_of_readCommands {r : Reader} {cs : List Command}
    (h : r.readCommands.1 = some cs) (hends : r.EndsEmpty) (hsound : r.log.Sound)
    (hnil : r.readCommands.2.log.problems = #[]) : ∃ es, r.pending = itemsOf es [] := by
  fun_induction readCommands r generalizing cs with
  | case1 r =>
    rename_i hnone
    obtain ⟨hpending, -⟩ | ⟨e, hsome, -⟩ := read_of_empty true hends hsound hnil
    · exact ⟨[], hpending⟩
    · rw [show (r.read true).1 = none from hnone] at hsome
      cases hsome
  | case2 r _ f hsome _ c =>
    rename_i hc cs? r'' heq ih
    obtain ⟨cs', hrest, -⟩ := Option.map_eq_some_iff.mp h
    have hlog := readCommands_extends (r.readForm.2.command f).2
    rw [show (r.readForm.2.command f).2.readCommands = _ from heq] at hlog
    rw [heq] at ih
    have hcommand : (r.readForm.2.command f).2 = (r.readForm.2.readOthers f).2 := by
      rw [command_eq]
    have hextends : (r.readForm.2.readOthers f).2.log.Extends r''.log :=
      hcommand ▸ hlog
    have htail : (r.readForm.2.readOthers f).2.EndsEmpty →
        ∃ es, (r.readForm.2.readOthers f).2.pending = itemsOf es [] := by
      rw [← hcommand]
      exact fun hends' => ih hrest hends' ((command_readForm_extends r f).sound hsound) hnil
    -- nothing is logged up to the end, so nothing is by the form and the others of its command
    have hothers : (r.readForm.2.readOthers f).2.log.problems = #[] := by
      by_contra hne
      exact hextends.ne_empty hne hnil
    have hread : (r.read true).2.log.problems = #[] := by
      by_contra hne
      exact (readOthers_extends r.readForm.2 f).ne_empty hne hothers
    obtain ⟨-, hnone, -⟩ | ⟨e, -, hpending, hfinished⟩ := read_of_empty true hends hsound hread
    · rw [show (r.read true).1 = some f from hsome] at hnone
      cases hnone
    have hends' : r.readForm.2.EndsEmpty := by
      intro hfinished'
      rw [show r.readForm.2.finished = false from hfinished] at hfinished'
      cases hfinished'
    obtain ⟨es, hpending', hends''⟩ :=
      readOthers_of_empty f hends' ((read_extends r true).sound hsound) hothers
    obtain ⟨es', hpending''⟩ := htail hends''
    refine ⟨e :: (es ++ es'), ?_⟩
    rw [hpending, show (r.read true).2.pending = _ from hpending', hpending'']
    simp [itemsOf]
  | case3 r _ f _ _ p =>
    -- the log is not empty after the report, and stays so to the end
    have hne := Log.report_ne_empty ((command_readForm_extends r f).sound hsound) p
    exact absurd hnil ((readCommands_extends _).ne_empty hne)
  | case4 => cases h

/-! ## The lists of a source -/

/-- The lists of a row are its top-level lists. -/
theorem topLevel_itemsOf (es : List Entry) (after : List Problem) :
    Form.TopLevel (Item.tokens (itemsOf es after)) (es.map Entry.form) := by
  induction es with
  | nil =>
    have hnil : Item.tokens (itemsOf [] after) = [] := by
      simp [itemsOf, Item.tokens]
    rw [hnil]
    exact .nil
  | cons e es ih =>
    have htokens : Item.tokens (itemsOf (e :: es) after) =
        e.left :: (Item.tokens e.body ++ e.right :: Item.tokens (itemsOf es after)) := by
      rw [itemsOf_cons, Item.tokens_append]
      simp [Item.tokens]
    rw [htokens]
    exact .closed e.left_kind e.right_kind e.spells.tokens ih

/-- The groups of a source that is a row of lists. -/
theorem groups_entries {r : Reader} {e : Entry} {es rest : List Entry} {after : List Problem}
    (hgroup : e.IsGroup es rest) (hpending : r.pending = itemsOf (e :: (es ++ rest)) after)
    (hfinished : r.finished = false) :
    ∃ r' : Reader, r.groups = (e.form, es.map Entry.form) :: r'.groups ∧ r'.source = r.source ∧
      r'.pending = itemsOf rest after ∧ r'.finished = false := by
  obtain ⟨log, hread⟩ : ∃ log, r.readForm = (some e.form, r.moveTo (es ++ rest) after log) :=
    ⟨_, read_entry hpending hfinished true⟩
  have hothers : r.readForm.2.readOthers e.form =
      (es.map Entry.form, r.moveTo rest after (log.lexicals (lexicalOf es))) := by
    rw [hread]
    exact readOthers_entries hgroup (moveTo_pending ..) hfinished
  refine ⟨(r.readForm.2.readOthers e.form).2, ?_, ?_, ?_, ?_⟩
  · rw [groups_of_some (congrArg Prod.fst hread), hothers]
  · rw [readOthers_source, readForm_source]
  · rw [hothers]
    rfl
  · rw [hothers]
    exact hfinished

theorem groups_end {r : Reader} {after : List Problem} (hpending : r.pending = itemsOf [] after)
    (hfinished : r.finished = false) : r.groups = [] :=
  groups_of_none (congrArg Prod.fst (read_end hpending hfinished true))

end Reader

open Reader

namespace Script

/-- The command of a group starts a walk that goes on after the group. -/
theorem Walk.cons {src : Source} {e : Entry} {es rest : List Entry} {c : Command}
    {cs : List Command} (hgroup : e.IsGroup es rest)
    (hc : Command.ofGroup src e.form (es.map Entry.form) = .ok c)
    (h : Walk src (rest.map Entry.form) cs) :
    Walk src (e.form :: (es.map Entry.form ++ rest.map Entry.form)) (c :: cs) := by
  unfold Command.ofGroup at hc
  by_cases hfield : e.form.isField = true
  · rw [if_pos hfield] at hc
    obtain ⟨m, hm, hc⟩ := Success.of_bind hc
    have hc := Success.of_pure hc
    refine .fields ?_ ?_ hm (by rw [← hc]) (by rw [← hc]; simp) h
    · rw [List.forall_mem_cons, List.forall_mem_map]
      exact ⟨hfield, hgroup.others hfield⟩
    · intro f hf
      rw [List.head?_map] at hf
      obtain ⟨e', he', rfl⟩ := Option.map_eq_some_iff.mp hf
      exact hgroup.next hfield e' he'
  · rw [if_neg hfield] at hc
    have hfield' : e.form.isField = false := Bool.not_eq_true _ ▸ hfield
    obtain rfl := hgroup.alone hfield'
    obtain ⟨kind, hkind, hkc⟩ := Success.of_bind hc
    have hkc := Success.of_pure hkc
    exact .alone hfield' hc (by rw [← hkc]) h

/-- The commands of groups are those of a walk through their lists. -/
theorem walk_of_areGroups {r : Reader} {gs : List (List Entry)} {after : List Problem}
    {cs : List Command} (hgs : Entry.AreGroups gs)
    (hpending : r.pending = itemsOf gs.flatten after) (hfinished : r.finished = false)
    (h : r.groups.mapM (fun g => Command.ofGroup r.source g.1 g.2) = .ok cs) :
    Walk r.source (gs.flatten.map Entry.form) cs := by
  induction hgs generalizing r cs with
  | nil =>
    rw [groups_end hpending hfinished] at h
    obtain rfl := Success.of_pure h
    exact .nil
  | @cons e es gs hgroup hgs ih =>
    rw [List.flatten_cons, List.cons_append] at hpending ⊢
    obtain ⟨r', hgroups, hsource, hpending', hfinished'⟩ :=
      groups_entries hgroup hpending hfinished
    rw [hgroups, Success.mapM_iff] at h
    obtain ⟨c, cs', hc, htail, rfl⟩ := List.forall₂_cons_left_iff.mp h
    rw [List.map_cons, List.map_append]
    refine .cons hgroup hc (hsource ▸ ih hpending' hfinished' ?_)
    rw [hsource]
    exact Success.mapM_iff.mpr htail

/-- An accepted source is a row of lists. -/
theorem exists_entries_of_accepted {src : Source} {s : Script}
    (h : (parse src).outcome = .accepted s) : ∃ es, src.items = itemsOf es [] := by
  unfold parse at h
  split at h
  · next cs r hread =>
    dsimp only at h
    split at h
    · next hzero =>
      have hextends := readCommands_extends (ofSource src)
      rw [hread] at hextends
      have hnil : r.log.problems = #[] := Array.eq_empty_of_size_eq_zero
        ((hextends.sound (sound_ofSource src)).counted.symm.trans hzero)
      exact exists_entries_of_readCommands (congrArg Prod.fst hread) (by rintro ⟨⟩)
        (sound_ofSource src) (hread ▸ hnil)
    · cases h
  · cases h

/-- No top-level list of an accepted script is lost, read twice or put into another command: the
commands are those of a walk through all top-level lists of the source. -/
theorem walk_of_accepted {src : Source} {s : Script} (h : (parse src).outcome = .accepted s) :
    ∃ lists, (∀ forms, Form.TopLevel (Item.tokens src.tokens) forms ↔ forms = lists) ∧
      Walk src lists s.commands := by
  obtain ⟨es, hitems⟩ := exists_entries_of_accepted h
  have htop : Form.TopLevel (Item.tokens src.tokens) (es.map Entry.form) := by
    rw [Source.tokens, Item.tokens_append, hitems]
    exact (topLevel_itemsOf es []).append_atom (by simp [Token.eof]) (by simp [Token.eof])
  refine ⟨es.map Entry.form, fun forms => ⟨fun hforms => hforms.unique htop, ?_⟩, ?_⟩
  · rintro rfl
    exact htop
  · have hflatten : (Entry.groups es).flatten = es := List.flatten_splitBy _ es
    have hpending : (ofSource src).pending = itemsOf (Entry.groups es).flatten [] := by
      rw [hflatten]
      exact hitems
    have hcommands := (parse_settled src).of_accepted h
    have hwalk := walk_of_areGroups (Entry.areGroups_groups es) hpending rfl hcommands
    rwa [hflatten] at hwalk

/-- A module, two fields and another module make three commands. -/
theorem walk_of_accepted_threeCommands :
    ∃ s, (parse ⟨"t", "(module) (func) (memory 1) (module)"⟩).outcome = .accepted s ∧
      ∃ lists, (∀ forms, Form.TopLevel
          (Item.tokens (⟨"t", "(module) (func) (memory 1) (module)"⟩ : Source).tokens) forms ↔
            forms = lists) ∧
        Walk ⟨"t", "(module) (func) (memory 1) (module)"⟩ lists s.commands := by
  obtain ⟨s, hs⟩ := Outcome.exists_accepted
    (o := (parse ⟨"t", "(module) (func) (memory 1) (module)"⟩).outcome) (by decide +kernel)
  exact ⟨s, hs, walk_of_accepted hs⟩

end Script

end WasmText
