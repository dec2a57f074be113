import WasmText.Proofs.BlamedFields
import WasmText.Proofs.Outcome
import WasmText.Proofs.ReportOrder

/-!
# What holds of every span that is reported

A span that is reported is the span of an item, the end of the source, or goes on from the start of
an item to the end of a later one. So whatever is true of the first two, and is not about where a
span stops, is true of every problem (`Module.problems_stand`, `Script.found_stand`) and of every
form that is read.
-/

namespace WasmText

/-- What holds of the spans of a source's items and of its end, and is not about where a span
stops. -/
structure Source.Grounds (src : Source) (P : Span → Prop) : Prop where
  items : ∀ i ∈ src.items, P i.span
  finish : P src.finish.point
  join : ∀ s t, P s → P (s.join t)

namespace Reader

variable {P : Span → Prop} {src : Source} {log : Log} {items : List Item}

/-- What is logged and what is still to be read stands at spans with `P`. -/
structure Stands (P : Span → Prop) (log : Log) (items : List Item) : Prop where
  logged : ∀ p ∈ log.problems, P p.span
  pending : ∀ i ∈ items, P i.span

namespace Stands

theorem tail {i : Item} (h : Stands P log (i :: items)) : Stands P log items :=
  ⟨h.logged, fun j hj => h.pending j (List.mem_cons_of_mem i hj)⟩

theorem head {i : Item} (h : Stands P log (i :: items)) : P i.span :=
  h.pending i List.mem_cons_self

/-- A problem that is added stands where it should when its span does. -/
theorem push {log' : Log} {p : Problem} (h : Stands P log items) (hp : P p.span)
    (hlog : log'.problems = log.problems.push p) : Stands P log' items where
  logged q hq := by
    rw [hlog] at hq
    obtain hq | rfl := Array.mem_push.mp hq
    · exact h.logged q hq
    · exact hp
  pending := h.pending

theorem lexical {p : Problem} (h : Stands P log (.error p :: items)) :
    Stands P (log.lexical p) items :=
  h.tail.push h.head rfl

/-- A problem that is reported is added or dropped. -/
theorem report {p : Problem} (h : Stands P log items) (hp : P p.span) :
    Stands P (log.report p) items := by
  unfold Log.report
  split
  · exact h
  · exact h.push hp rfl

theorem start (h : Stands P log items) (fresh : Bool) : Stands P (log.start fresh) items :=
  ⟨Log.problems_start log fresh ▸ h.logged, h.pending⟩

end Stands

/-! ## Reading one form -/

/-- What is reported while skipping stands where the tokens skipped do. -/
theorem skip_stands (h : Stands P log items) (depth : Nat) :
    Stands P (skip log depth items).log (skip log depth items).rest := by
  fun_induction skip log depth items with
  | case1 | case2 => exact h
  | case3 log d p items ih => exact ih h.lexical
  | case4 | case5 | case6 => rename_i ih; exact ih h.tail

/-- A list that is passed over makes no form. -/
theorem skip_listEnd_ne_form (log : Log) (depth : Nat) (items : List Item) (f : Form) :
    (skip log depth items).listEnd ≠ .form f := by
  fun_induction skip log depth items with
  | case1 | case2 => simp
  | case3 | case4 | case5 | case6 => assumption

/-- A list that is closed stands where its start does. -/
theorem Opened.Placed.closed {o : Opened} {last : Span} (ho : o.Placed P)
    (hjoin : ∀ s t, P s → P (s.join t)) : (o.close last).Placed P :=
  Form.placed_list.mpr
    ⟨hjoin _ _ ho.1, fun f hf => ho.2 f (List.mem_reverse.mp hf)⟩

/-- The lists that are open stand where their parentheses do, and so does the form they make. -/
theorem readList_stands (hP : src.Grounds P) {current : Opened} {parents : List Opened}
    (h : Stands P log items) (hopen : ∀ o ∈ current :: parents, o.Placed P) :
    let after := readList src log current parents items
    Stands P after.log after.rest ∧ ∀ f, after.listEnd = .form f → f.Placed P := by
  fun_induction readList src log current parents items with
  | case1 => exact ⟨h.report hP.finish, by simp⟩
  | case2 log current parents p items ih => exact ih h.lexical hopen
  | case3 log current parents t items _ depth _ =>
    have hreport : Stands P (log.report ⟨.formsTooDeep, t.span⟩).mute items :=
      ⟨(h.tail.report h.head).logged, h.tail.pending⟩
    refine ⟨skip_stands hreport depth, fun f hf => ?_⟩
    exact absurd hf (skip_listEnd_ne_form _ _ _ f)
  | case4 log current parents t items _ depth _ ih =>
    exact ih h.tail (List.forall_mem_cons.mpr ⟨⟨h.head, by simp⟩, hopen⟩)
  | case5 log current t items _ f =>
    refine ⟨h.tail, fun g hg => ?_⟩
    cases hg
    exact (hopen current List.mem_cons_self).closed hP.join
  | case6 log current t items _ f p ps ih =>
    obtain ⟨hcurrent, hp, hps⟩ : current.Placed P ∧ p.Placed P ∧ ∀ o ∈ ps, o.Placed P := by
      simpa using hopen
    have hf : f.Placed P := hcurrent.closed hP.join
    exact ih h.tail (List.forall_mem_cons.mpr ⟨⟨hp.1, List.forall_mem_cons.mpr ⟨hf, hp.2⟩⟩, hps⟩)
  | case7 log current parents t items _ _ ih =>
    rw [List.forall_mem_cons] at hopen
    have hatom : (Form.atom t).Placed P := h.head
    exact ih h.tail (List.forall_mem_cons.mpr
      ⟨⟨hopen.1.1, List.forall_mem_cons.mpr ⟨hatom, hopen.1.2⟩⟩, hopen.2⟩)

/-- What is reported while a form is read stands where its tokens do. -/
theorem next_stands (hP : src.Grounds P) (fresh skipping : Bool) (h : Stands P log items) :
    let step := next src fresh log skipping items
    Stands P step.log step.rest ∧ ∀ f, step.form? = some f → f.Placed P := by
  have hread {log : Log} {t : Token} {items : List Item} (h : Stands P log (.ok t :: items)) :=
    have hopen : ∀ o ∈ [(⟨t.span, []⟩ : Opened)], o.Placed P :=
      List.forall_mem_singleton.mpr ⟨h.head, by simp⟩
    readList_stands hP (h.tail.start fresh) hopen
  fun_induction next src fresh log skipping items with
  | case1 => exact ⟨h, by simp⟩
  | case2 log skipping p items ih => exact ih h.lexical
  | case3 log skipping t items _ after f hend =>
    refine ⟨(hread h).1, fun g hg => ?_⟩
    obtain rfl := Option.some.inj hg
    exact (hread h).2 f hend
  | case4 | case6 => exact ⟨(hread h).1, by simp⟩
  | case5 log skipping t items _ after _ _ ih => exact ih (hread h).1
  | case7 log skipping t items _ ih => exact ih ((h.tail.start fresh).report h.head)
  | case8 => rename_i ih; exact ih h.tail
  | case9 log skipping t items _ _ _ ih => exact ih (h.tail.report h.head)

/-! ## Reading all forms -/

/-- Reading a form keeps `I` of the reader, and `Q` holds of the form. -/
def Keeps (I : Reader → Prop) (Q : Form → Prop) : Prop :=
  ∀ r fresh, I r → I (r.read fresh).2 ∧ ∀ f, (r.read fresh).1 = some f → Q f

namespace Keeps

variable {I : Reader → Prop} {Q : Form → Prop} {r : Reader}

/-- What the reader keeps for a form it keeps for fields. -/
theorem readFields (h : Keeps I Q) (hr : I r) :
    I r.readFields.2 ∧ ∀ f ∈ r.readFields.1, Q f := by
  fun_induction Reader.readFields r with
  | case1 r _ next _ => exact ⟨(h r false hr).1, by simp⟩
  | case2 r _ next f hf fs r' heq ih =>
    have hrest := ih (h r false hr).1
    rw [heq] at hrest
    exact ⟨hrest.1, List.forall_mem_cons.mpr ⟨(h r false hr).2 f hf, hrest.2⟩⟩
  | case3 r _ => exact ⟨hr, by simp⟩

theorem readOthers (h : Keeps I Q) (hr : I r) (f : Form) :
    I (r.readOthers f).2 ∧ ∀ g ∈ (r.readOthers f).1, Q g := by
  unfold Reader.readOthers
  split
  · exact h.readFields hr
  · exact ⟨hr, by simp⟩

/-- What the reader keeps for a form it keeps for the forms of a command. -/
theorem readCommand (h : Keeps I Q) (hr : I r) :
    I r.readCommand.2 ∧ ∀ f ∈ r.readCommand.1, Q f := by
  fun_induction Reader.readCommand r with
  | case1 r => exact ⟨hr, by simp⟩
  | case2 r _ next _ =>
    exact ⟨(h r false hr).1, fun f hf => (h r false hr).2 f (Option.mem_toList.mp hf)⟩
  | case3 r _ next _ fs r' heq ih =>
    have hrest := ih (h r false hr).1
    rw [heq] at hrest
    refine ⟨hrest.1, List.forall_mem_append.mpr ⟨fun f hf => ?_, hrest.2⟩⟩
    exact (h r false hr).2 f (Option.mem_toList.mp hf)

end Keeps

/-- What a reader has logged and what it has to read stands at spans with `P`. -/
structure IsPlaced (P : Span → Prop) (r : Reader) : Prop where
  grounds : r.source.Grounds P
  stands : Stands P r.log r.pending

variable {r : Reader}

theorem isPlaced_ofSource (hP : src.Grounds P) : (ofSource src).IsPlaced P where
  grounds := hP
  stands := ⟨by simp [ofSource, Log.empty], hP.items⟩

/-- Reading a form places it where its tokens are. -/
theorem keeps_isPlaced (P : Span → Prop) : Keeps (IsPlaced P) (Form.Placed P) := by
  intro r fresh h
  unfold Reader.read
  split
  · exact ⟨h, by simp⟩
  · have hnext := next_stands h.grounds fresh false h.stands
    exact ⟨⟨h.grounds, hnext.1⟩, hnext.2⟩

theorem IsPlaced.report {p : Problem} (h : r.IsPlaced P) (hp : P p.span) :
    (r.report p).IsPlaced P :=
  ⟨h.grounds, h.stands.report hp⟩

/-- A command leaves a reader in place, and is refused at a span with `P`. -/
theorem IsPlaced.command (h : r.IsPlaced P) {f : Form} (hf : f.Placed P) :
    (r.command f).2.IsPlaced P ∧ BlamesOrAbandons P (r.command f).1 := by
  rw [command_eq]
  obtain ⟨hreader, hothers⟩ := (keeps_isPlaced P).readOthers h f
  exact ⟨hreader, Command.blames_ofGroup r.source hf hothers⟩

/-! ## Reading that is abandoned -/

/-- The log where the commands of a source end, or where reading them is abandoned. -/
def finalLog (r : Reader) : Log :=
  match _h : r.readForm.1 with
  | none => r.readForm.2.log
  | some f =>
    match (r.readForm.2.command f).1 with
    | .ok _ => (r.readForm.2.command f).2.finalLog
    | .error (.problem p) => ((r.readForm.2.command f).2.report p).finalLog
    | .error .abandoned => (r.readForm.2.command f).2.log
termination_by r.pending.length
decreasing_by
  all_goals
    refine Nat.lt_of_le_of_lt (command_pending_length_le _ _) (pending_length_of_read _h)

/-- Commands are read up to the final log. -/
theorem log_readCommands (r : Reader) : r.readCommands.2.log = r.finalLog := by
  fun_induction finalLog r with
  | case1 r hnone => rw [readCommands_of_none (Prod.ext hnone rfl)]
  | case2 r f hf c hc ih =>
    rw [readCommands_of_some (Prod.ext hf rfl), hc]
    exact ih
  | case3 r f hf p hp ih =>
    rw [readCommands_of_some (Prod.ext hf rfl), hp]
    exact ih
  | case4 r f hf hab => rw [readCommands_of_some (Prod.ext hf rfl), hab]

/-- What is reported at the end stands in the source. -/
theorem finalLog_stands (h : r.IsPlaced P) : ∀ p ∈ r.finalLog.problems, P p.span := by
  fun_induction finalLog r with
  | case1 r _ => exact (keeps_isPlaced P r true h).1.stands.logged
  | case2 r f hf c _ ih =>
    have hread := keeps_isPlaced P r true h
    exact ih (hread.1.command (hread.2 f hf)).1
  | case3 r f hf p hp ih =>
    have hread := keeps_isPlaced P r true h
    have hcommand := hread.1.command (hread.2 f hf)
    exact ih (hcommand.1.report (hcommand.2 p hp))
  | case4 r f hf _ =>
    have hread := keeps_isPlaced P r true h
    exact (hread.1.command (hread.2 f hf)).1.stands.logged

end Reader

/-! ## The problems of a source -/

theorem Script.parse_source (src : Source) : (parse src).source = src := by
  unfold parse
  split <;> rfl

theorem Module.parse_source (src : Source) : (parse src).source = src := by
  unfold parse
  dsimp only
  split <;> rfl

/-- The problems that reading a script finds, also where it is abandoned after them. -/
def Script.found (src : Source) : List Problem := (Reader.ofSource src).finalLog.problems.toList

variable {P : Span → Prop} {src : Source}

/-- All that was found is told, also of a script that is abandoned. -/
theorem Script.problems_eq_found (src : Source) : (parse src).problems = found src := by
  rw [found, ← Reader.log_readCommands, parse]
  split
  · next hread => rw [hread]
  · next hread => rw [hread]

theorem Script.found_stand (hP : src.Grounds P) : ∀ p ∈ found src, P p.span := by
  intro p hp
  exact Reader.finalLog_stands (Reader.isPlaced_ofSource hP) p (Array.mem_toList_iff.mp hp)

namespace Module

theorem blames_ofForms {forms : List Form} (h : ∀ f ∈ forms, f.Placed P) :
    BlamesOrAbandons P (ofForms forms) := by
  match forms with
  | [] => exact blames_ofFields none h
  | [f] =>
    rw [ofForms]
    split
    · exact blames_ofForm (h f List.mem_cons_self)
    · exact blames_ofFields none h
  | f :: g :: fs =>
    rw [ofForms]
    split
    · exact .error (h g (by simp)).span
    · exact blames_ofFields none h

/-- Every problem of a source stands where its tokens do. -/
theorem problems_stand (hP : src.Grounds P) : ∀ p ∈ (parse src).problems, P p.span := by
  have hplaced := (Reader.keeps_isPlaced P).readCommand (Reader.isPlaced_ofSource hP)
  intro p hp
  unfold parse at hp
  dsimp only at hp
  split at hp
  · exact hplaced.1.stands.logged p (Array.mem_toList_iff.mp hp)
  · next q hq =>
    have hreport := hplaced.1.report (blames_ofForms hplaced.2 q hq)
    exact hreport.stands.logged p (Array.mem_toList_iff.mp hp)
  · exact hplaced.1.stands.logged p (Array.mem_toList_iff.mp hp)

end Module

end WasmText
