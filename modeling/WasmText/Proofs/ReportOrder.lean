import WasmText.Proofs.BlamedFields
import WasmText.Proofs.Layout
import WasmText.Proofs.Places

/-!
# Problems are logged in the order of the source

Forms are read before they are understood, so a command is refused at a place that the reader has
left behind. The log is in order all the same: while it is not muted, nothing was logged since the
command started, and all its forms stand between what is logged and what is still to come
(`Reader.Fits`).

There is one exception. Where the source ends in an open list, in a row of module fields, this is
logged at once and the log is not muted; if the row is refused, the refusal comes after the end of
the source, although it stands before it. `Script.problems_inOrder` says that no other source has
its problems out of order, and that no other problem of this one is out of place.
-/

namespace WasmText

/-- Some problems come in the order of the source. -/
def InOrder (ps : List Problem) : Prop := ps.Pairwise fun p q => p.place ≤ q.place

instance (ps : List Problem) : Decidable (InOrder ps) :=
  inferInstanceAs (Decidable (ps.Pairwise fun p q => p.place ≤ q.place))

namespace Reader

/-! ## What is logged and what is to come -/

/-- The problems of a log and then the items to come are in the order of the source, and stand at
its end at most. -/
structure Ordered (finish : Place) (log : Log) (items : List Item) : Prop where
  logged : InOrder log.problems.toList
  pending : items.Pairwise fun i j => i.place ≤ j.place
  between : ∀ p ∈ log.problems.toList, ∀ i ∈ items, p.place ≤ i.place
  logged_le : ∀ p ∈ log.problems.toList, p.place ≤ finish
  pending_le : ∀ i ∈ items, i.place ≤ finish

/-- A span starts after what is logged and before what is to come. -/
structure Fits (finish : Place) (log : Log) (items : List Item) (span : Span) : Prop where
  after : ∀ p ∈ log.problems.toList, p.place ≤ span.place
  before : ∀ i ∈ items, span.place ≤ i.place
  le : span.place ≤ finish

section Ordered

variable {finish : Place} {log log' : Log} {items : List Item} {i : Item} {span : Span}

/-- What fits before some items fits before fewer. -/
theorem Fits.mono {items' : List Item} (h : Fits finish log items span) (hsub : items' ⊆ items) :
    Fits finish log items' span :=
  ⟨h.after, fun i hi => h.before i (hsub hi), h.le⟩

theorem Fits.tail (h : Fits finish log (i :: items) span) : Fits finish log items span :=
  h.mono (List.subset_cons_self i items)

/-- What is the same of two logs is what is logged. -/
theorem Fits.congr (h : Fits finish log items span) (hlog : log'.problems = log.problems) :
    Fits finish log' items span :=
  ⟨by rw [hlog]; exact h.after, h.before, h.le⟩

/-- Only the problems of a log matter to their order. -/
theorem Ordered.congr (h : Ordered finish log items) (hlog : log'.problems = log.problems) :
    Ordered finish log' items := by
  obtain ⟨logged, pending, between, logged_le, pending_le⟩ := h
  rw [← hlog] at logged between logged_le
  exact ⟨logged, pending, between, logged_le, pending_le⟩

theorem Ordered.tail (h : Ordered finish log (i :: items)) : Ordered finish log items where
  logged := h.logged
  pending := h.pending.tail
  between p hp j hj := h.between p hp j (List.mem_cons_of_mem _ hj)
  logged_le := h.logged_le
  pending_le j hj := h.pending_le j (List.mem_cons_of_mem _ hj)

/-- The next item stands after all that is reported, and before the end. -/
theorem Ordered.fits_head (h : Ordered finish log (i :: items)) :
    Fits finish log items i.span where
  after p hp := h.between p hp i List.mem_cons_self
  before := (List.pairwise_cons.mp h.pending).1
  le := h.pending_le i List.mem_cons_self

/-- Logging a problem that fits. -/
theorem Ordered.push (h : Ordered finish log items) {p : Problem}
    (hp : Fits finish log items p.span) (hlog : log'.problems = log.problems.push p) :
    Ordered finish log' items where
  logged := by
    rw [InOrder, hlog, Array.toList_push, List.pairwise_append]
    refine ⟨h.logged, List.pairwise_singleton _ p, fun q hq => ?_⟩
    exact List.forall_mem_singleton.mpr (hp.after q hq)
  pending := h.pending
  between := by
    rw [hlog, Array.toList_push, List.forall_mem_append, List.forall_mem_singleton]
    exact ⟨h.between, hp.before⟩
  logged_le := by
    rw [hlog, Array.toList_push, List.forall_mem_append, List.forall_mem_singleton]
    exact ⟨h.logged_le, hp.le⟩
  pending_le := h.pending_le

theorem Ordered.lexical {p : Problem} (h : Ordered finish log (.error p :: items)) :
    Ordered finish (log.lexical p) items :=
  h.tail.push h.fits_head rfl

/-- What fits is reported in order. -/
theorem Ordered.report (h : Ordered finish log items) {p : Problem}
    (hp : Fits finish log items p.span) : Ordered finish (log.report p) items := by
  unfold Log.report
  split
  · exact h
  · exact h.push hp rfl

/-- The end of the source stands after all that is logged. -/
theorem Ordered.fits_finish {p : Pos} (h : Ordered p.place log []) :
    Fits p.place log [] p.point :=
  ⟨h.logged_le, by simp, le_rfl⟩

end Ordered

/-! ## One list -/

theorem report_muted {log : Log} (h : log.muted = true) (p : Problem) : log.report p = log :=
  if_pos h

/-- Skipping leaves a log muted. -/
theorem skip_muted {log : Log} (h : log.muted = true) (depth : Nat) (items : List Item) :
    (skip log depth items).log.muted = true := by
  fun_induction skip log depth items with
  | case1 | case2 => exact h
  | case3 log d p items ih => exact ih rfl
  | case4 | case5 | case6 => rename_i ih; exact ih h

/-- Reading the rest of a list leaves a log muted. -/
theorem readList_muted (src : Source) {log : Log} (h : log.muted = true) (current : Opened)
    (parents : List Opened) (items : List Item) :
    (readList src log current parents items).log.muted = true := by
  fun_induction readList src log current parents items with
  | case1 log => rwa [report_muted h]
  | case2 log current parents p items ih => exact ih rfl
  | case3 => exact skip_muted rfl _ _
  | case5 => exact h
  | case4 | case6 | case7 => rename_i ih; exact ih h

/-- What is reported while skipping is in order. -/
theorem ordered_skip {finish : Place} {log : Log} {items : List Item}
    (h : Ordered finish log items) (depth : Nat) :
    Ordered finish (skip log depth items).log (skip log depth items).rest := by
  fun_induction skip log depth items with
  | case1 | case2 => exact h
  | case3 log d p items ih => exact ih h.lexical
  | case4 | case5 | case6 => rename_i ih; exact ih h.tail

/-- Where the source ends in an open list. -/
def unclosedAt (src : Source) : Problem := ⟨.unclosed, src.finish.point⟩

/-- A list that was read leaves the log in order. If the log is not muted, a list that closes has
logged nothing, and fits between what is logged and what is to come; a list that does not close has
logged this and nothing else. -/
structure EndsInOrder (src : Source) (log : Log) (a : After) : Prop where
  ordered : Ordered src.finish.place a.log a.rest
  form : ∀ f, a.listEnd = .form f → a.log.muted = false →
    a.log = log ∧ f.Placed (Fits src.finish.place a.log a.rest)
  tooDeep : a.listEnd = .tooDeep → a.log.muted = true
  unclosed : a.listEnd = .unclosed → a.log.muted = false →
    a.log.problems = log.problems.push (unclosedAt src)

/-- Of a list that leaves the log muted there is only the order to show. -/
theorem EndsInOrder.of_muted {src : Source} {log : Log} {a : After}
    (h : Ordered src.finish.place a.log a.rest) (hmuted : a.log.muted = true) :
    EndsInOrder src log a where
  ordered := h
  form f _ hf := absurd hmuted (by simp [hf])
  tooDeep _ := hmuted
  unclosed _ hf := absurd hmuted (by simp [hf])

/-- An open list starts and holds forms at spans with `P`. -/
def Opened.Placed (P : Span → Prop) (o : Opened) : Prop := P o.start ∧ ∀ f ∈ o.items, f.Placed P

theorem Opened.Placed.imp {P Q : Span → Prop} {o : Opened} (h : o.Placed P)
    (hPQ : ∀ s, P s → Q s) : o.Placed Q :=
  ⟨hPQ _ h.1, fun f hf => (h.2 f hf).imp hPQ⟩

/-- A list that is closed stands where it was opened. -/
theorem Opened.Placed.close {finish : Place} {log : Log} {items : List Item} {o : Opened}
    (h : o.Placed (Fits finish log items)) (last : Span) :
    (o.close last).Placed (Fits finish log items) := by
  rw [Opened.close, Form.placed_list]
  exact ⟨⟨h.1.after, h.1.before, h.1.le⟩, fun f hf => h.2 f (List.mem_reverse.mp hf)⟩

/-- A list is read in order, as long as the lists that are open fit where they stand. -/
theorem readList_inOrder (src : Source) {log : Log} {current : Opened} {parents : List Opened}
    {items : List Item} (h : Ordered src.finish.place log items)
    (hopen : log.muted = false →
      ∀ o ∈ current :: parents, o.Placed (Fits src.finish.place log items)) :
    EndsInOrder src log (readList src log current parents items) := by
  fun_induction readList src log current parents items with
  | case1 log current parents =>
    refine ⟨h.report h.fits_finish, by simp, by simp, fun _ hf => ?_⟩
    dsimp only at hf ⊢
    rw [Log.report] at hf ⊢
    split at hf
    · next hmuted => rw [hmuted] at hf; cases hf
    · next hmuted =>
      rw [if_neg hmuted]
      rfl
  | case2 log current parents p items ih =>
    have hmuted : (log.lexical p).muted = true := rfl
    exact .of_muted (ih h.lexical fun hf => by cases hf).ordered
      (readList_muted src hmuted current parents items)
  | case3 log current parents t items _ depth _ =>
    have hmute : Ordered src.finish.place (log.report ⟨.formsTooDeep, t.span⟩).mute items :=
      (h.tail.report h.fits_head).congr rfl
    exact .of_muted (ordered_skip hmute depth) (skip_muted rfl _ _)
  | case4 log current parents t items _ depth _ ih =>
    refine ih h.tail fun hf => List.forall_mem_cons.mpr ⟨⟨h.fits_head, by simp⟩, ?_⟩
    exact fun o ho => (hopen hf o ho).imp fun _ => .tail
  | case5 log current t items _ f =>
    refine ⟨h.tail, fun g hg hf => ⟨rfl, ?_⟩, by simp, by simp⟩
    obtain rfl : f = g := ListEnd.form.inj hg
    exact ((hopen hf current List.mem_cons_self).imp fun _ => .tail).close t.span
  | case6 log current t items _ f p ps ih =>
    refine ih h.tail fun hf => ?_
    have hplaced := fun o ho => (hopen hf o ho).imp fun _ => Fits.tail
    rw [List.forall_mem_cons, List.forall_mem_cons] at hplaced
    obtain ⟨hcurrent, hp, hps⟩ := hplaced
    -- the list just closed is an item of the one around it
    have hf' := hcurrent.close t.span
    exact List.forall_mem_cons.mpr ⟨⟨hp.1, List.forall_mem_cons.mpr ⟨hf', hp.2⟩⟩, hps⟩
  | case7 log current parents t items _ _ ih =>
    refine ih h.tail fun hf => ?_
    have hplaced := fun o ho => (hopen hf o ho).imp fun _ => Fits.tail
    rw [List.forall_mem_cons] at hplaced
    obtain ⟨hcurrent, hparents⟩ := hplaced
    have hatom : (Form.atom t).Placed (Fits src.finish.place log items) := h.fits_head
    exact List.forall_mem_cons.mpr
      ⟨⟨hcurrent.1, List.forall_mem_cons.mpr ⟨hatom, hcurrent.2⟩⟩, hparents⟩

/-! ## The next form -/

/-- Reading on in a command leaves a log muted. -/
theorem next_muted (src : Source) {log : Log} (h : log.muted = true) (skipping : Bool)
    (items : List Item) : (next src false log skipping items).log.muted = true := by
  fun_induction next src false log skipping items with
  | case1 => exact h
  | case2 log skipping p items ih => exact ih rfl
  | case3 | case4 | case6 => exact readList_muted src h _ _ _
  | case5 => contradiction
  | case7 log skipping t items _ ih =>
    refine ih ?_
    rwa [Log.start, if_neg Bool.false_ne_true, report_muted h]
  | case8 => rename_i ih; exact ih h
  | case9 log skipping t items _ _ _ ih =>
    refine ih ?_
    rwa [report_muted h]

/-- Looking for a form keeps the log in order, and the form that is found fits between what is
logged and what is to come, unless the log is muted. -/
theorem next_inOrder (src : Source) (fresh : Bool) {log : Log} {skipping : Bool}
    {items : List Item} (h : Ordered src.finish.place log items) :
    let step := next src fresh log skipping items
    Ordered src.finish.place step.log step.rest ∧ ∀ f, step.form? = some f →
      step.log.muted = false → f.Placed (Fits src.finish.place step.log step.rest) := by
  have hread {log : Log} {t : Token} {items : List Item}
      (h : Ordered src.finish.place log (.ok t :: items)) :
      EndsInOrder src (log.start fresh)
        (readList src (log.start fresh) ⟨t.span, []⟩ [] items) := by
    have hlog : (log.start fresh).problems = log.problems := Log.problems_start log fresh
    refine readList_inOrder src (h.tail.congr hlog) fun _ => List.forall_mem_singleton.mpr ?_
    exact ⟨h.fits_head.congr hlog, by simp⟩
  fun_induction next src fresh log skipping items with
  | case1 => exact ⟨h, by simp⟩
  | case2 log skipping p items ih => exact ih h.lexical
  | case3 log skipping t items _ after f hend =>
    refine ⟨(hread h).ordered, fun g hg hmuted => ?_⟩
    obtain rfl := Option.some.inj hg
    exact ((hread h).form f hend hmuted).2
  | case4 | case6 => exact ⟨(hread h).ordered, by simp⟩
  | case5 log skipping t items _ after _ _ ih =>
    -- past a form that nests too deeply the search goes on
    exact ih (hread h).ordered
  | case7 log skipping t items _ ih =>
    have hlog : (log.start fresh).problems = log.problems := Log.problems_start log fresh
    exact ih ((h.tail.congr hlog).report (h.fits_head.congr hlog))
  | case8 => rename_i ih; exact ih h.tail
  | case9 log skipping t items _ _ _ ih => exact ih (h.tail.report h.fits_head)

/-- Before the next token there are lexical problems only. -/
theorem exists_of_nextToken? {items rest : List Item} {t : Token}
    (h : nextToken? items = some (t, rest)) :
    ∃ ps : List Problem, items = ps.map .error ++ .ok t :: rest := by
  fun_induction nextToken? items with
  | case1 => cases h
  | case2 p items ih =>
    obtain ⟨ps, rfl⟩ := ih h
    exact ⟨p :: ps, rfl⟩
  | case3 t' items =>
    obtain ⟨rfl, rfl⟩ := Prod.mk.inj (Option.some.inj h)
    exact ⟨[], rfl⟩

/-- Where the next token opens a list and the log is not muted after it, nothing was logged, or the
list is open where the source ends. -/
theorem next_continues {src : Source} {log : Log} {items rest : List Item} {t : Token} {step : Step}
    (h : Ordered src.finish.place log items) (hpeek : nextToken? items = some (t, rest))
    (hleft : t.kind = .leftParen) (hstep : next src false log false items = step)
    (hmuted : step.log.muted = false) :
    (step.log = log ∧ step.rest ⊆ items) ∨
      (step.form? = none ∧ step.ended = true ∧ step.rest = [] ∧
        step.log.problems = log.problems.push (unclosedAt src)) := by
  obtain ⟨ps, rfl⟩ := exists_of_nextToken? hpeek
  subst hstep
  match ps with
  | p :: ps =>
    -- a lexical problem mutes the log
    have hlog : (log.lexicals (p :: ps)).muted = true := by
      rw [Log.muted_lexicals]
      exact Bool.or_true _
    rw [next_problems, next_muted src hlog] at hmuted
    cases hmuted
  | [] =>
    rw [List.map_nil, List.nil_append] at h ⊢
    have hends : EndsInOrder src log (readList src log ⟨t.span, []⟩ [] rest) :=
      readList_inOrder src h.tail fun _ => List.forall_mem_singleton.mpr ⟨h.fits_head, by simp⟩
    have hsuffix := readList_rest_suffix src log ⟨t.span, []⟩ [] rest
    have hnil := readList_rest_of_unclosed src log ⟨t.span, []⟩ [] rest
    have hstart : log.start false = log := rfl
    rw [List.map_nil, List.nil_append, next, hleft] at hmuted
    rw [next, hleft]
    simp only [hstart] at hmuted ⊢
    generalize readList src log ⟨t.span, []⟩ [] rest = after at *
    obtain ⟨listEnd, rest', log'⟩ := after
    cases listEnd with
    | form f =>
      have hlog := (hends.form f rfl hmuted).1
      exact .inl ⟨hlog, List.subset_cons_of_subset _ hsuffix.subset⟩
    | tooDeep =>
      have hdeep := hends.tooDeep rfl
      rw [show log'.muted = false from hmuted] at hdeep
      cases hdeep
    | unclosed => exact .inr ⟨rfl, rfl, hnil rfl, hends.unclosed rfl hmuted⟩

/-! ## Rows of forms -/

/-- The log of a reader and what it has to read are in the order of the source. -/
def IsOrdered (r : Reader) : Prop := Ordered r.source.finish.place r.log r.pending

/-- The reader `r` has read some forms of a command, the log being `log` after the first. It is
muted, or nothing was logged since and the forms stand before what is to come, or the source ends in
an open list, which was logged and nothing else. -/
inductive Row (log : Log) (forms : List Form) (r : Reader) : Prop
  | muted (h : r.log.muted = true)
  | closed (hlog : r.log.problems = log.problems)
    (h : ∀ f ∈ forms, f.Placed (Fits r.source.finish.place log r.pending))
  | opened (hlog : r.log.problems = log.problems.push (unclosedAt r.source))
    (hfinished : r.finished = true)
    (h : ∀ f ∈ forms, f.Placed (Fits r.source.finish.place log []))

/-- What is reported while a form is read is in order, and the form fits between what is logged and
what is to come, unless the log is muted. -/
theorem read_inOrder {r : Reader} (h : r.IsOrdered) (fresh : Bool) :
    (r.read fresh).2.IsOrdered ∧ ∀ f, (r.read fresh).1 = some f →
      (r.read fresh).2.log.muted = false →
        f.Placed (Fits r.source.finish.place (r.read fresh).2.log (r.read fresh).2.pending) := by
  unfold read
  split
  · exact ⟨h, by simp⟩
  · exact next_inOrder r.source fresh h

/-- Where a field comes next, its parenthesis is the next token. -/
theorem exists_left_of_atField {r : Reader} (h : r.atField = true) :
    ∃ t rest, nextToken? r.pending = some (t, rest) ∧ t.kind = .leftParen := by
  unfold atField peekKeyword? at h
  cases hpeek : nextToken? r.pending with
  | none =>
    rw [hpeek] at h
    cases h
  | some next =>
    obtain ⟨⟨kind, text, span⟩, rest⟩ := next
    rw [hpeek] at h
    cases kind with
    | leftParen => exact ⟨_, rest, rfl, rfl⟩
    | _ => cases h

/-- A field that is read goes on a row of fields. -/
theorem row_read {log : Log} {forms : List Form} {r : Reader} (h : Row log forms r)
    (hr : r.IsOrdered) (hat : r.atField = true) :
    Row log (forms ++ (r.read false).1.toList) (r.read false).2 := by
  cases hfinished : r.finished with
  | true =>
    rw [read_of_finished hfinished]
    rwa [Option.toList_none, List.append_nil]
  | false =>
    obtain ⟨t, rest, hpeek, hleft⟩ := exists_left_of_atField hat
    have hform := (read_inOrder hr false).2
    rw [read_of_not_finished hfinished] at hform ⊢
    generalize hstep : next r.source false r.log false r.pending = step at hform ⊢
    dsimp only at hform ⊢
    cases hmuted : step.log.muted with
    | true => exact .muted hmuted
    | false =>
      cases h with
      | muted hm =>
        have hm' := next_muted r.source hm false r.pending
        rw [hstep, hmuted] at hm'
        cases hm'
      | opened _ hend =>
        rw [hfinished] at hend
        cases hend
      | closed hlog hforms =>
        -- the forms read before stay in place, as the log is the same and less is to come
        rcases next_continues hr hpeek hleft hstep hmuted with
          ⟨hsame, hsub⟩ | ⟨hnone, hended, hnil, hpush⟩
        · refine .closed (hsame ▸ hlog) (List.forall_mem_append.mpr ⟨?_, ?_⟩) <;> intro f hf
          · exact (hforms f hf).imp fun _ hfits => hfits.mono hsub
          · have hplaced := hform f (Option.mem_toList.mp hf) hmuted
            exact hplaced.imp fun _ hfits => hfits.congr (hsame ▸ hlog.symm)
        · refine .opened (hlog ▸ hpush) hended ?_
          rw [hnone, Option.toList_none, List.append_nil]
          exact fun f hf => (hforms f hf).imp fun _ hfits => hfits.mono (List.nil_subset _)

/-- Fields are read in a row, in order. -/
theorem row_readFields {log : Log} {forms : List Form} {r : Reader} (h : Row log forms r)
    (hr : r.IsOrdered) :
    Row log (forms ++ r.readFields.1) r.readFields.2 ∧ r.readFields.2.IsOrdered := by
  fun_induction readFields r generalizing forms with
  | case1 r hat _ =>
    rename_i hnone
    have hrow := row_read h hr hat
    change (r.read false).1 = none at hnone
    rw [hnone] at hrow
    exact ⟨hrow, (read_inOrder hr false).1⟩
  | case2 r hat _ f =>
    rename_i hsome fs r' heq ih
    have hrow := row_read h hr hat
    change (r.read false).1 = some f at hsome
    rw [hsome] at hrow
    have hrest := ih hrow (read_inOrder hr false).1
    rw [heq, List.append_assoc] at hrest
    exact hrest
  | case3 r hat =>
    rw [List.append_nil]
    exact ⟨h, hr⟩

/-- A command leaves the log in order, and its forms are a row. -/
theorem row_of_readForm {r : Reader} {f : Form} (hr : r.IsOrdered) (hf : r.readForm.1 = some f) :
    Row r.readForm.2.log (f :: (r.readForm.2.readOthers f).1) (r.readForm.2.readOthers f).2 ∧
      (r.readForm.2.readOthers f).2.IsOrdered := by
  have hfirst : Row r.readForm.2.log [f] r.readForm.2 := by
    cases hmuted : r.readForm.2.log.muted with
    | true => exact .muted hmuted
    | false =>
      refine .closed rfl (List.forall_mem_singleton.mpr ?_)
      rw [readForm_source]
      exact (read_inOrder hr true).2 f hf hmuted
  have hr' : r.readForm.2.IsOrdered := (read_inOrder hr true).1
  unfold readOthers
  split
  · exact row_readFields hfirst hr'
  · exact ⟨hfirst, hr'⟩

/-! ## Reports -/

/-- Some problems come in order, but the last may be late: it stands before the end of the source,
and comes after the open list there. -/
def InOrderButLast (src : Source) (ps : List Problem) : Prop :=
  InOrder ps ∨ ∃ front p, ps = front ++ [unclosedAt src, p] ∧
    InOrder (front ++ [p, unclosedAt src])

/-- A command is refused in order, or it is late and the source has ended. -/
theorem row_report {log : Log} {forms : List Form} {r : Reader} {p : Problem}
    (h : Row log forms r) (hr : r.IsOrdered)
    (hp : ∀ P : Span → Prop, (∀ f ∈ forms, f.Placed P) → P p.span) :
    (r.report p).IsOrdered ∨ (r.report p).finished = true ∧
      InOrderButLast r.source (r.report p).log.problems.toList := by
  cases h with
  | muted hmuted =>
    refine .inl ?_
    rw [Reader.report, report_muted hmuted]
    exact hr
  | closed hlog hforms =>
    exact .inl (Ordered.report hr ((hp _ hforms).congr hlog))
  | opened hlog hfinished hforms =>
    have hfits := hp _ hforms
    cases hmuted : r.log.muted with
    | true =>
      refine .inl ?_
      rw [Reader.report, report_muted hmuted]
      exact hr
    | false =>
      -- the open list is logged, and the command that was read before it is still to be refused
      refine .inr ⟨hfinished, .inr ⟨log.problems.toList, p, ?_, ?_⟩⟩
      · rw [Reader.report, Log.report, hmuted, if_neg Bool.false_ne_true]
        rw [Log.problems_emit, Array.toList_push, hlog, Array.toList_push, List.append_assoc]
        rfl
      · have hlogged := hr.logged
        rw [hlog, Array.toList_push, InOrder, List.pairwise_append] at hlogged
        obtain ⟨hfront, -, hend⟩ := hlogged
        rw [InOrder, List.pairwise_append]
        refine ⟨hfront, ?_, fun q hq => ?_⟩
        · exact List.pairwise_pair.mpr hfits.le
        · exact List.forall_mem_cons.mpr ⟨hfits.after q hq, hend q hq⟩

theorem command_source (r : Reader) (f : Form) : (r.command f).2.source = r.source := by
  rw [command_eq, readOthers_source]

/-- What all commands report is in order, but for the last problem of a source that ends in an open
list. -/
theorem readCommands_inOrder {r : Reader} (hr : r.IsOrdered) :
    InOrderButLast r.source r.readCommands.2.log.problems.toList := by
  fun_induction readCommands r with
  | case1 r => exact .inl (read_inOrder hr true).1.logged
  | case2 r _ f hf =>
    rename_i heq ih
    rw [heq] at ih
    have horder : (r.readForm.2.command f).2.IsOrdered := by
      rw [command_eq]
      exact (row_of_readForm hr hf).2
    have hsource : (r.readForm.2.command f).2.source = r.source := by
      rw [command_source, readForm_source]
    rw [← hsource]
    exact ih horder
  | case3 r _ f hf =>
    rename_i p hrefused ih
    change (r.readForm.2.command f).1 = _ at hrefused
    have hsource : ((r.readForm.2.command f).2.report p).source = r.source :=
      (command_source _ f).trans (readForm_source r)
    rw [← hsource]
    obtain ⟨hrow, horder⟩ := row_of_readForm hr hf
    rw [command_eq] at hrefused
    -- the command is refused at one of its forms, whatever is known of them
    have hplaced (P : Span → Prop)
        (hP : ∀ g ∈ f :: (r.readForm.2.readOthers f).1, g.Placed P) : P p.span := by
      rw [List.forall_mem_cons] at hP
      exact Command.blames_ofGroup _ hP.1 hP.2 p hrefused
    have hreport := row_report hrow horder hplaced
    rw [← congrArg Prod.snd (command_eq r.readForm.2 f)] at hreport
    rcases hreport with hreport | ⟨hfinished, hlast⟩
    · exact ih hreport
    · rw [readCommands_of_none (read_of_finished hfinished true)]
      exact hlast
  | case4 r _ f hf =>
    have horder := (row_of_readForm hr hf).2.logged
    rw [← congrArg Prod.snd (command_eq r.readForm.2 f)] at horder
    exact .inl horder

theorem inOrder_ofSource (src : Source) : (ofSource src).IsOrdered where
  logged := .nil
  pending := src.between_items.sorted
  between := by simp [ofSource, Log.empty]
  logged_le := by simp [ofSource, Log.empty]
  pending_le := src.between_items.le

end Reader

/-- The problems of a script come in the order of the source, line by line and from left to right.
The one exception is the last problem of a source that ends in an open list: it may come after that
list although it stands before it. -/
theorem Script.problems_inOrder (src : Source) :
    InOrder (parse src).problems ∨ ∃ front p,
      (parse src).problems = front ++ [Reader.unclosedAt src, p] ∧
        InOrder (front ++ [p, Reader.unclosedAt src]) := by
  have horder := Reader.readCommands_inOrder (Reader.inOrder_ofSource src)
  unfold parse
  split
  · next cs r h =>
    rw [h] at horder
    exact horder
  · next r h =>
    rw [h] at horder
    exact horder

/-- The label of the branch in the first field is out of range, and the second field is open. -/
theorem Script.problems_not_inOrder :
    ¬ InOrder (parse ⟨"t", "(func br 1) (func"⟩).problems := by
  decide +kernel

end WasmText
