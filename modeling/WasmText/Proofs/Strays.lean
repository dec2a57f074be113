import WasmText.Proofs.Located
import WasmText.Proofs.Relexing
import WasmText.Proofs.ReportOrder
import WasmText.Proofs.TopLevel

/-!
# Stray tokens

Between two top-level lists of a source stands a stretch of items that open no list. Its first
token that is no parenthesis is a problem of the source, unless the log is muted there. Only a
parenthesis unmutes the log, so a lexical problem inside the list before the stretch keeps it muted,
and so does a list that nests too deeply. `Reader.strayToken_reported_iff` says that such a list is
the one way for a stretch without lexical problems to pass in silence, and that a closing
parenthesis in front of the token prevents it.
-/

namespace WasmText

/-! ## Stretches between lists -/

namespace Reader

/-- Some items that open no list. -/
def IsGap (items : List Item) : Prop := ∀ t, Except.ok t ∈ items → t.kind ≠ .leftParen

/-- Some items go from the start of a source to the end of a top-level list, or are none. The list
is broken if a lexical problem is inside it or it nests too deeply. -/
inductive ToListEnd : List Item → Bool → Prop
  | start : ToListEnd [] false
  | list {front gap body : List Item} {left right : Token} {inner : List Form} {broken : Bool}
    (h : ToListEnd front broken) (hgap : IsGap gap) (hleft : left.kind = .leftParen)
    (hright : right.kind = .rightParen) (hbody : Form.Spells body inner) :
    ToListEnd (front ++ (gap ++ .ok left :: (body ++ [.ok right])))
      (!(Item.problems body).isEmpty || maxNesting < 1 + Form.depthAll inner)

/-- The items of a source with the stretch `gap` picked out, which stands between two top-level
lists or at an end of the source. -/
structure IsStretch (src : Source) (before gap after : List Item) (broken : Bool) : Prop where
  items : src.items = before ++ (gap ++ after)
  before : ToListEnd before broken
  gap : IsGap gap
  after : ∀ i ∈ after.head?, ∃ t, i = .ok t ∧ t.kind = .leftParen

/-! ## What may still be logged -/

/-- `Q` holds of the problems that are logged, of those that are still to come, and of any found at
a token that is still to come or at the end of the source. -/
structure Finds (Q : Problem → Prop) (src : Source) (log : Log) (items : List Item) : Prop where
  logged : ∀ p ∈ log.problems, Q p
  problems : ∀ p, Except.error p ∈ items → Q p
  tokens : ∀ t, Except.ok t ∈ items → ∀ cause, Q ⟨cause, t.span⟩
  finish : ∀ cause, Q ⟨cause, src.finish.point⟩

section Finds

variable {Q : Problem → Prop} {src : Source} {log : Log} {items : List Item}

namespace Finds

theorem tail {i : Item} (h : Finds Q src log (i :: items)) : Finds Q src log items where
  logged := h.logged
  problems p hp := h.problems p (List.mem_cons_of_mem i hp)
  tokens t ht := h.tokens t (List.mem_cons_of_mem i ht)
  finish := h.finish

/-- A problem with `Q` is logged. -/
theorem push {log' : Log} {p : Problem} (h : Finds Q src log items) (hp : Q p)
    (hlog : log'.problems = log.problems.push p) : Finds Q src log' items where
  logged q hq := by
    rw [hlog] at hq
    obtain hq | rfl := Array.mem_push.mp hq
    · exact h.logged q hq
    · exact hp
  problems := h.problems
  tokens := h.tokens
  finish := h.finish

theorem lexical {p : Problem} (h : Finds Q src log (.error p :: items)) :
    Finds Q src (log.lexical p) items :=
  h.tail.push (h.problems p List.mem_cons_self) rfl

/-- A problem with `Q` is reported or dropped. -/
theorem report {p : Problem} (h : Finds Q src log items) (hp : Q p) :
    Finds Q src (log.report p) items := by
  unfold Log.report
  split
  · exact h
  · exact h.push hp rfl

/-- Whether the log is muted does not matter. -/
theorem congr {log' : Log} (h : Finds Q src log items) (hlog : log'.problems = log.problems) :
    Finds Q src log' items :=
  ⟨hlog ▸ h.logged, h.problems, h.tokens, h.finish⟩

end Finds

/-- Skipping logs what is still to come. -/
theorem skip_finds (h : Finds Q src log items) (depth : Nat) :
    Finds Q src (skip log depth items).log (skip log depth items).rest := by
  fun_induction skip log depth items with
  | case1 | case2 => exact h
  | case3 log d p items ih => exact ih h.lexical
  | case4 | case5 | case6 => rename_i ih; exact ih h.tail

/-- Reading a list logs what is still to come, or what is found at its tokens. -/
theorem readList_finds (h : Finds Q src log items) (current : Opened) (parents : List Opened) :
    Finds Q src (readList src log current parents items).log
      (readList src log current parents items).rest := by
  fun_induction readList src log current parents items with
  | case1 => exact h.report (h.finish _)
  | case2 log current parents p items ih => exact ih h.lexical
  | case3 log current parents t items _ depth _ =>
    have hreport := h.tail.report (h.tokens t List.mem_cons_self .formsTooDeep)
    have hmute : Finds Q src (log.report ⟨.formsTooDeep, t.span⟩).mute items := hreport.congr rfl
    exact skip_finds hmute depth
  | case5 => exact h.tail
  | case4 | case6 | case7 => rename_i ih; exact ih h.tail

/-- Reading a form logs what is still to come, or what is found at its tokens. -/
theorem next_finds (h : Finds Q src log items) (skipping : Bool) :
    Finds Q src (next src true log skipping items).log
      (next src true log skipping items).rest := by
  have hread {log : Log} {t : Token} {items : List Item} (h : Finds Q src log (.ok t :: items)) :=
    readList_finds (h.tail.congr (Log.problems_start log true)) ⟨t.span, []⟩ []
  fun_induction next src true log skipping items with
  | case1 => exact h
  | case2 log skipping p items ih => exact ih h.lexical
  | case3 | case4 => exact hread h
  | case5 log skipping t items _ after _ _ ih => exact ih (hread h)
  | case6 => contradiction
  | case7 log skipping t items _ ih =>
    have hstart := h.tail.congr (Log.problems_start log true)
    exact ih (hstart.report (h.tokens t List.mem_cons_self _))
  | case8 => rename_i ih; exact ih h.tail
  | case9 log skipping t items _ _ _ ih =>
    exact ih (h.tail.report (h.tokens t List.mem_cons_self _))

/-- All that is logged in the end has `Q`. -/
theorem readForms_finds {r : Reader} (h : Finds Q r.source r.log r.pending) :
    ∀ p ∈ r.readForms.2.log.problems, Q p := by
  have hread {r : Reader} (h : Finds Q r.source r.log r.pending) :
      Finds Q (r.read true).2.source (r.read true).2.log (r.read true).2.pending := by
    unfold read
    split
    · exact h
    · exact next_finds h false
  fun_induction readForms r with
  | case1 r => exact (hread h).logged
  | case2 r _ f _ fs r' heq ih =>
    have hrest := ih (hread h)
    rw [heq] at hrest
    exact hrest

end Finds

/-! ## The search for the next form -/

/-- The log after all is read, where the search for the next form has come to some items. -/
def logFrom (src : Source) (log : Log) (skipping : Bool) (items : List Item) : Log :=
  let step := next src true log skipping items
  (readForms ⟨src, step.rest, step.log, step.ended⟩).2.log

/-- A search that begins with some items is the reading of all forms in them. -/
theorem readForms_log (src : Source) (log : Log) (items : List Item) :
    (readForms ⟨src, items, log, false⟩).2.log = logFrom src log false items := by
  have hread := read_of_not_finished (r := ⟨src, items, log, false⟩) rfl true
  unfold logFrom
  cases hform : (next src true log false items).form? with
  | none =>
    -- the source has ended, so the reader that is left finds nothing more
    have hended := (next_of_none src log false items hform).1
    rw [readForms_of_none (by rw [hread]; exact hform), hread]
    dsimp only
    rw [hended, readForms_of_none] <;> rw [read_of_finished rfl]
  | some f =>
    rw [readForms_of_some (by rw [hread]; exact hform), hread]

theorem readForms_extends (r : Reader) : r.log.Extends r.readForms.2.log := by
  fun_induction readForms r with
  | case1 r => exact read_extends r true
  | case2 r _ f _ fs r' heq ih =>
    rw [heq] at ih
    exact (read_extends r true).trans ih

/-- Reading on only adds to the log. -/
theorem logFrom_extends (src : Source) (log : Log) (skipping : Bool) (items : List Item) :
    log.Extends (logFrom src log skipping items) := by
  have hnext := next_extends src true log skipping items
  exact hnext.trans (readForms_extends ⟨src, _, _, _⟩)

theorem logFrom_finds {Q : Problem → Prop} {src : Source} {log : Log} {items : List Item}
    (h : Finds Q src log items) (skipping : Bool) :
    ∀ p ∈ (logFrom src log skipping items).problems, Q p :=
  readForms_finds (next_finds h skipping)

/-- The search passes over some items, whatever comes after them, and logs on the way only what it
finds there. -/
structure Passes (src : Source) (log : Log) (skipping : Bool) (items : List Item) (log' : Log)
    (skipping' : Bool) : Prop where
  same : ∀ rest, logFrom src log skipping (items ++ rest) = logFrom src log' skipping' rest
  finds : ∀ Q, Finds Q src log items → ∀ p ∈ log'.problems, Q p

theorem Passes.nil (src : Source) (log : Log) (skipping : Bool) :
    Passes src log skipping [] log skipping :=
  ⟨fun _ => rfl, fun _ h => h.logged⟩

/-- Items that are passed one after the other are passed together. -/
theorem Passes.append {src : Source} {log log' log'' : Log} {skipping skipping' skipping'' : Bool}
    {items items' : List Item} (h : Passes src log skipping items log' skipping')
    (h' : Passes src log' skipping' items' log'' skipping'') :
    Passes src log skipping (items ++ items') log'' skipping'' where
  same rest := by rw [List.append_assoc, h.same, h'.same]
  finds Q hQ := by
    have hitems : Finds Q src log items :=
      ⟨hQ.logged, fun p hp => hQ.problems p (List.mem_append_left _ hp),
        fun t ht => hQ.tokens t (List.mem_append_left _ ht), hQ.finish⟩
    exact h'.finds Q ⟨h.finds Q hitems, fun p hp => hQ.problems p (List.mem_append_right _ hp),
      fun t ht => hQ.tokens t (List.mem_append_right _ ht), hQ.finish⟩

section Search

variable (src : Source) (log : Log) (skipping : Bool)

/-- A lexical problem is passed over, and mutes the log. -/
theorem passes_problem (p : Problem) :
    Passes src log skipping [.error p] (log.lexical p) skipping where
  same rest := by
    unfold logFrom
    rw [List.singleton_append, next]
  finds Q h := h.lexical.logged

/-- A stray parenthesis is reported in any case, as the log is unmuted for it. -/
theorem passes_closing {t : Token} (ht : t.kind = .rightParen) :
    Passes src log skipping [.ok t] ((log.start true).report ⟨.strayClosing, t.span⟩) skipping where
  same rest := by
    unfold logFrom
    rw [List.singleton_append, next, ht]
  finds Q h := by
    have hstart := h.congr (Log.problems_start log true)
    exact (hstart.report (h.tokens t List.mem_cons_self _)).logged

/-- A stray atom is reported if it is the first of its row, as far as the log is not muted. -/
theorem passes_stray {t : Token} (hleft : t.kind ≠ .leftParen) (hright : t.kind ≠ .rightParen) :
    Passes src log skipping [.ok t]
      (if skipping then log else log.report ⟨.strayToken t.text, t.span⟩) true where
  same rest := by
    unfold logFrom
    rw [List.singleton_append, next]
    split
    · contradiction
    · contradiction
    · cases skipping <;> rfl
  finds Q h := by
    cases skipping with
    | true => exact h.logged
    | false => exact (h.report (h.tokens t List.mem_cons_self _)).logged

/-- A list that nests too deeply mutes the log, and nothing in it unmutes it. -/
theorem readList_muted_of_tooDeep (current : Opened) (parents : List Opened) (items : List Item)
    (h : (readList src log current parents items).listEnd = .tooDeep) :
    (readList src log current parents items).log.muted = true := by
  fun_induction readList src log current parents items with
  | case1 | case5 => cases h
  | case3 => exact skip_muted rfl _ _
  | case2 | case4 | case6 | case7 => rename_i ih; exact ih h

/-- After a list that closes the search starts anew, in a log that a broken list leaves muted. -/
theorem passes_list {left right : Token} {body : List Item} {inner : List Form}
    (hleft : left.kind = .leftParen) (hright : right.kind = .rightParen)
    (hbody : Form.Spells body inner) :
    ∃ log', Passes src log skipping (.ok left :: (body ++ [.ok right])) log' false ∧
      log'.muted = (!(Item.problems body).isEmpty || maxNesting < 1 + Form.depthAll inner) := by
  have hfinds (Q : Problem → Prop) (h : Finds Q src log (.ok left :: (body ++ [.ok right]))) :=
    readList_finds (h.tail.congr (Log.problems_start log true)) ⟨left.span, []⟩ []
  by_cases hdepth : 1 + Form.depthAll inner ≤ maxNesting
  · have hread := readList_list src hbody hright hdepth (log.start true) left.span
    refine ⟨(log.start true).lexicals (Item.problems body), ⟨fun rest => ?_, fun Q h => ?_⟩, ?_⟩
    · rw [List.cons_append, List.append_assoc, List.singleton_append, logFrom,
        next_list src true log skipping hleft hbody hright hdepth]
      exact readForms_log src _ rest
    · have hlogged := (hfinds Q h).logged
      rwa [hread []] at hlogged
    · rw [Log.muted_lexicals]
      simp [hdepth]
  · obtain ⟨log', hread⟩ := readList_tooDeep src hbody hright (by omega) (log.start true) left.span
    have hmuted := readList_muted_of_tooDeep src (log.start true) ⟨left.span, []⟩ []
      (body ++ [.ok right]) (by rw [hread []])
    rw [hread []] at hmuted
    refine ⟨log', ⟨fun rest => ?_, fun Q h => ?_⟩, hmuted.trans (by simp; omega)⟩
    · rw [List.cons_append, List.append_assoc, List.singleton_append, logFrom, next, hleft]
      simp only [hread rest, if_true]
      rfl
    · have hlogged := (hfinds Q h).logged
      rwa [hread []] at hlogged

/-- Whatever stands between two lists is passed over. -/
theorem passes_gap {gap : List Item} (h : IsGap gap) :
    ∃ log' skipping', Passes src log skipping gap log' skipping' := by
  induction gap generalizing log skipping with
  | nil => exact ⟨log, skipping, .nil src log skipping⟩
  | cons i gap ih =>
    have hgap : IsGap gap := fun t ht => h t (List.mem_cons_of_mem i ht)
    obtain ⟨log', skipping', hstep⟩ :
        ∃ log' skipping', Passes src log skipping [i] log' skipping' := by
      cases i with
      | error p => exact ⟨_, _, passes_problem src log skipping p⟩
      | ok t =>
        by_cases hright : t.kind = .rightParen
        · exact ⟨_, _, passes_closing src log skipping hright⟩
        · exact ⟨_, _, passes_stray src log skipping (h t List.mem_cons_self) hright⟩
    obtain ⟨log'', skipping'', hrest⟩ := ih log' skipping' hgap
    exact ⟨log'', skipping'', hstep.append hrest⟩

/-- Stray closing parentheses start no row of stray tokens, and leave the log unmuted. -/
theorem passes_closings {closings : List Token} (h : ∀ c ∈ closings, c.kind = .rightParen) :
    ∃ log', Passes src log skipping (closings.map .ok) log' skipping ∧
      log'.muted = (log.muted && closings.isEmpty) := by
  induction closings generalizing log with
  | nil => exact ⟨log, .nil src log skipping, (Bool.and_true _).symm⟩
  | cons c closings ih =>
    have hstep := passes_closing src log skipping (h c List.mem_cons_self)
    obtain ⟨log', hrest, hmuted⟩ := ih ((log.start true).report ⟨.strayClosing, c.span⟩)
      fun d hd => h d (List.mem_cons_of_mem c hd)
    refine ⟨log', hstep.append hrest, ?_⟩
    rw [hmuted, Log.report, if_neg (by simp)]
    simp

end Search

/-- The search passes to the end of any list, and the log is muted there if the list is broken. -/
theorem passes_toListEnd (src : Source) {before : List Item} {broken : Bool}
    (h : ToListEnd before broken) :
    ∃ log, Passes src .empty false before log false ∧ log.muted = broken := by
  induction h with
  | start => exact ⟨.empty, .nil src .empty false, rfl⟩
  | list h hgap hleft hright hbody ih =>
    obtain ⟨log, hfront, -⟩ := ih
    obtain ⟨log', skipping, hgapped⟩ := passes_gap src log false hgap
    obtain ⟨log'', hlist, hmuted⟩ := passes_list src log' skipping hleft hright hbody
    exact ⟨log'', hfront.append (hgapped.append hlist), hmuted⟩

end Reader

/-! ## The tokens of a source -/

/-- What goes wrong in a lexeme is a lexical problem. -/
theorem Item.kind_of_mem_ofChars (p : Pos) (cs : List Char) :
    ∀ q, .error q ∈ ofChars p cs → q.kind = .lexical := by
  induction p, cs using ofChars_induction with
  | nil p =>
    rw [ofChars]
    intro q hq
    cases hq
  | blank p c cs hc ih =>
    rw [ofChars_blank p hc]
    exact ih
  | comment p c cs n hc hgap ih =>
    rw [ofChars_comment p hgap]
    exact ih
  | unterminated p c cs hgap =>
    rw [ofChars_unterminated p hgap]
    intro q hq
    cases List.mem_singleton.mp hq
    rfl
  | lexeme p c cs hc hgap ih =>
    rw [ofChars_lexeme p hgap]
    intro q hq
    obtain hq | hq := List.mem_append.mp hq
    · unfold ofLexeme at hq
      split at hq
      · obtain hq | hq := List.mem_cons.mp hq
        · cases hq
          rfl
        · cases List.mem_singleton.mp hq
      · cases List.mem_singleton.mp hq
      · cases List.mem_singleton.mp hq
        rfl
    · exact ih q hq

namespace Source

variable {src : Source} {t : Token}

/-- A token other than the end of the source takes a character. -/
theorem start_lt_stop (h : .ok t ∈ src.items) : t.span.start < t.span.stop := by
  have hspelled := spelledBy_of_mem h
  obtain ⟨front, body, back, -, hspan, hsource⟩ := Item.cutFrom_ofChars _ _ _ h
  have htext : t.text.toList = body := by
    rw [Token.text, hsource t rfl, String.toList_ofList]
  change t.span = _ at hspan
  rw [hspan, Pos.spanTo, Pos.offset_after, Pos.offset_after, Slice.byteSize_append]
  dsimp only
  cases body with
  | nil =>
    rw [htext] at hspelled
    exact hspelled.elim
  | cons c body =>
    have hpos := c.utf8Size_pos
    rw [Slice.byteSize_cons]
    omega

/-- No two tokens stand at the same span, and none at the end of the source. -/
theorem span_ne {front back : List Item} (h : src.items = front ++ .ok t :: back) :
    (∀ u, .ok u ∈ front ∨ .ok u ∈ back → u.span ≠ t.span) ∧ src.finish.point ≠ t.span := by
  have hmem : .ok t ∈ src.items := h ▸ by simp
  have hlt : t.span.start < t.span.stop := start_lt_stop hmem
  have hpairs : src.items.Pairwise Item.Follows := Item.pairwise_ofChars .start src.chars
  rw [h, List.pairwise_append] at hpairs
  refine ⟨fun u hu heq => ?_, fun heq => ?_⟩
  · obtain hu | hu := hu
    · have hle := (hpairs.2.2 _ hu _ List.mem_cons_self).2 u t rfl rfl
      rw [heq] at hle
      omega
    · have hle := ((List.pairwise_cons.mp hpairs.2.1).1 _ hu).2 t u rfl rfl
      rw [heq] at hle
      omega
  · -- the end of the source is a point
    have hpoint : src.finish.point.start = src.finish.point.stop := rfl
    rw [heq] at hpoint
    omega

end Source

/-! ## Stray tokens -/

namespace Reader

/-- The first stray token of a stretch, with no lexical problem in front of it, is reported exactly
if the list before the stretch is not broken or a closing parenthesis stands between the two. -/
theorem strayToken_reported_iff {src : Source} {before gap after more : List Item} {broken : Bool}
    {closings : List Token} {t : Token} (h : IsStretch src before gap after broken)
    (hgap : gap = closings.map .ok ++ .ok t :: more)
    (hclosings : ∀ c ∈ closings, c.kind = .rightParen) (ht : t.kind ≠ .rightParen) :
    (∃ p ∈ (ofSource src).readForms.2.log.problems, p.kind = .grammar ∧ p.span = t.span) ↔
      broken = false ∨ closings ≠ [] := by
  have hleft : t.kind ≠ .leftParen := h.gap t (by simp [hgap])
  have hitems : src.items = before ++ (closings.map .ok ++ .ok t :: (more ++ after)) := by
    rw [h.items, hgap, List.append_assoc, List.cons_append]
  -- the search comes to the token in a log that is muted if neither is the case
  obtain ⟨log, hbefore, hbroken⟩ := passes_toListEnd src h.before
  obtain ⟨log', hclosed, hmuted⟩ := passes_closings src log false hclosings
  have hpasses := hbefore.append hclosed
  have hlog : (ofSource src).readForms.2.log =
      logFrom src (log'.report ⟨.strayToken t.text, t.span⟩) true (more ++ after) := by
    have hstray := (passes_stray src log' false hleft ht).same (more ++ after)
    rw [ofSource, readForms_log, hitems, ← List.append_assoc, hpasses.same]
    exact hstray
  rw [hbroken] at hmuted
  constructor
  · rintro ⟨p, hp, hkind, hspan⟩
    by_contra hcon
    obtain ⟨hb, hc⟩ := not_or.mp hcon
    have hsilent : log'.muted = true := by
      rw [hmuted, not_not.mp hc, Bool.eq_true_of_not_eq_false hb]
      rfl
    rw [hlog, report_muted hsilent] at hp
    -- what else is found is lexical or stands at another token
    rw [← List.append_assoc] at hitems
    obtain ⟨hother, hfinish⟩ := Source.span_ne hitems
    have hproblems (q : Problem) (hq : .error q ∈ src.items) : q.kind = .lexical :=
      Item.kind_of_mem_ofChars .start src.chars q hq
    rw [hitems] at hproblems
    have hlogged := hpasses.finds (fun q => q.kind = .lexical ∨ q.span ≠ t.span)
      ⟨by simp [Log.empty], fun q hq => .inl (hproblems q (List.mem_append_left _ hq)),
        fun u hu _ => .inr (hother u (.inl hu)), fun _ => .inr hfinish⟩
    have hfinds : Finds (fun q => q.kind = .lexical ∨ q.span ≠ t.span) src log' (more ++ after) :=
      ⟨hlogged, fun q hq => .inl (hproblems q (by simp [List.mem_append.mp hq])),
        fun u hu _ => .inr (hother u (.inr hu)), fun _ => .inr hfinish⟩
    obtain hlexical | hne := logFrom_finds hfinds true p hp
    · rw [hkind] at hlexical
      cases hlexical
    · exact hne hspan
  · intro hsound
    have hunmuted : log'.muted = false := by
      rw [hmuted]
      obtain rfl | hc := hsound
      · rfl
      · simp [hc]
    have hextends := logFrom_extends src (log'.report ⟨.strayToken t.text, t.span⟩) true
      (more ++ after)
    refine ⟨⟨.strayToken t.text, t.span⟩, ?_, rfl, rfl⟩
    rw [hlog]
    refine Array.mem_toList_iff.mp (hextends.problems.subset ?_)
    rw [Log.report, hunmuted]
    simp

end Reader

/-! ## Two broken lists -/

/-- A token of a source of one line, by its first byte. -/
def Token.atByte (kind : TokenKind) (text : String) (offset : Nat) : Token :=
  ⟨kind, ⟨text, offset⟩, ⟨offset, offset + text.length, 1, offset + 1⟩⟩

/-- A list from a byte on that holds nothing but a string with a refused escape. -/
def Item.brokenList (offset : Nat) : List Item :=
  [.ok (.atByte .leftParen "(" offset),
    .error (.lexical (.escape 'q') ⟨offset + 3, offset + 3, 1, offset + 4⟩),
    .ok (.atByte .rightParen ")" (offset + 5))]

/-- Two broken lists with a stray token after each, the second behind a stray parenthesis. -/
def Source.brokenLists : Source := ⟨"t", "(\"\\q\") 1 (\"\\q\") ) 2"⟩

theorem Source.brokenLists_items : brokenLists.items =
    Item.brokenList 0 ++ ([.ok (.atByte (.number .int) "1" 7)] ++ (Item.brokenList 9 ++
      [.ok (.atByte .rightParen ")" 16), .ok (.atByte (.number .int) "2" 18)])) := by
  decide +kernel

namespace Reader

theorem toListEnd_brokenList {front gap : List Item} {broken : Bool} (h : ToListEnd front broken)
    (hgap : IsGap gap) (offset : Nat) :
    ToListEnd (front ++ (gap ++ Item.brokenList offset)) true :=
  .list h hgap rfl rfl (.problem (p := .lexical (.escape 'q') _) .nil)

/-- The stretch after the first list has a stray token and no lexical problem, and no grammatical
problem is reported there. -/
theorem strayToken_silent : ∃ before gap after broken t,
    IsStretch .brokenLists before gap after broken ∧ gap = [.ok t] ∧ t.kind = .number .int ∧
      ¬∃ p ∈ (ofSource .brokenLists).readForms.2.log.problems,
        p.kind = .grammar ∧ p.span = t.span := by
  refine ⟨Item.brokenList 0, _, _, true, .atByte (.number .int) "1" 7,
    ⟨Source.brokenLists_items, ?_, ?_, ?_⟩, rfl, rfl, ?_⟩
  · have hempty : IsGap [] := by simp [IsGap]
    exact toListEnd_brokenList .start hempty 0
  · simp [IsGap, Token.atByte]
  · simp [Item.brokenList, Token.atByte]
  · decide +kernel

/-- The stray token after the second list is reported. -/
theorem strayToken_reported_iff_brokenLists :
    IsStretch .brokenLists
        (Item.brokenList 0 ++ ([.ok (.atByte (.number .int) "1" 7)] ++ Item.brokenList 9))
        ([Token.atByte .rightParen ")" 16].map .ok ++ [.ok (.atByte (.number .int) "2" 18)]) []
        true ∧
      ∃ p ∈ (ofSource .brokenLists).readForms.2.log.problems,
        p.kind = .grammar ∧ p.span = ⟨18, 19, 1, 19⟩ := by
  have hempty : IsGap [] := by simp [IsGap]
  have hfirst : ToListEnd (Item.brokenList 0) true := toListEnd_brokenList .start hempty 0
  have hstretch : IsStretch .brokenLists
      (Item.brokenList 0 ++ ([.ok (.atByte (.number .int) "1" 7)] ++ Item.brokenList 9))
      ([Token.atByte .rightParen ")" 16].map .ok ++ [.ok (.atByte (.number .int) "2" 18)]) []
      true := by
    refine ⟨Source.brokenLists_items, ?_, ?_, by simp⟩
    · exact toListEnd_brokenList hfirst (by simp [IsGap, Token.atByte]) 9
    · simp [IsGap, Token.atByte]
  refine ⟨hstretch, (strayToken_reported_iff hstretch rfl ?_ ?_).mpr (.inr (by simp))⟩
  · simp [Token.atByte]
  · simp [Token.atByte]

end Reader

end WasmText
