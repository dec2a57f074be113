import WasmText.Script.OfSource

/-!
# Logs that only grow

Reading never takes a problem back, counts each that it logs, and mutes its log only once it has
logged one. These facts go together as `Log.Extends`, which is reflexive and transitive. Each way of
writing to a log is an extension, so each reader is one, however strays, lexical problems, deep
forms and the end of the source follow on each other.
-/

namespace WasmText

namespace Outcome

variable {α : Type}

/-- Whether reading was given up. -/
def isAbandoned : Outcome α → Bool
  | abandoned => true
  | _ => false

theorem ne_abandoned {o : Outcome α} (h : o.isAbandoned = false) : o ≠ .abandoned := by
  rintro rfl
  cases h

/-- Whether something was read. -/
def isAccepted : Outcome α → Bool
  | accepted _ => true
  | _ => false

theorem exists_accepted {o : Outcome α} (h : o.isAccepted = true) : ∃ a, o = .accepted a := by
  cases o with
  | accepted a => exact ⟨a, rfl⟩
  | rejected | abandoned => cases h

end Outcome

namespace Log

/-- The errors counted are the problems logged, and what is dropped follows from one of them. -/
structure Sound (log : Log) : Prop where
  counted : log.errors = log.problems.size
  muted : log.muted = true → log.problems ≠ #[]

/-- What is logged in `log` stays in `log'`, which is sound if `log` is. -/
structure Extends (log log' : Log) : Prop where
  sound : log.Sound → log'.Sound
  problems : log.problems.toList <+: log'.problems.toList

theorem sound_empty : empty.Sound where
  counted := rfl
  muted h := absurd h (by decide)

theorem Extends.refl (log : Log) : log.Extends log := ⟨id, List.prefix_rfl⟩

theorem Extends.trans {a b c : Log} (hab : a.Extends b) (hbc : b.Extends c) : a.Extends c :=
  ⟨fun h => hbc.sound (hab.sound h), hab.problems.trans hbc.problems⟩

/-- A log with a problem in it is never empty again. -/
theorem Extends.ne_empty {log log' : Log} (h : log.Extends log') (hne : log.problems ≠ #[]) :
    log'.problems ≠ #[] := by
  intro hnil
  have hprefix := h.problems
  rw [hnil] at hprefix
  exact hne (Array.toList_eq_nil_iff.mp (List.prefix_nil.mp hprefix))

/-- A log with a problem in it is not empty. -/
theorem emit_ne_empty (log : Log) (p : Problem) : (log.emit p).problems ≠ #[] := by
  simp

/-- A problem is added at the end, and counted. -/
theorem emit_extends (log : Log) (p : Problem) : log.Extends (log.emit p) where
  sound h := {
    counted := by rw [emit, h.counted, Array.size_push]
    muted := fun _ => emit_ne_empty log p }
  problems := by
    rw [problems_emit, Array.toList_push]
    exact List.prefix_append _ _

/-- A log may be muted once it has a problem in it. -/
theorem Extends.mute {log log' : Log} (h : log.Extends log')
    (hne : log.Sound → log'.problems ≠ #[]) : log.Extends log'.mute where
  sound hlog := ⟨(h.sound hlog).counted, fun _ => hne hlog⟩
  problems := h.problems

theorem lexical_extends (log : Log) (p : Problem) : log.Extends (log.lexical p) :=
  (emit_extends log p).mute fun _ => emit_ne_empty log p

/-- A problem that is reported is added or dropped. -/
theorem report_extends (log : Log) (p : Problem) : log.Extends (log.report p) := by
  unfold report
  split
  · exact .refl log
  · exact emit_extends log p

/-- A sound log has a problem in it after a report, dropped or not. -/
theorem report_ne_empty {log : Log} (h : log.Sound) (p : Problem) :
    (log.report p).problems ≠ #[] := by
  unfold report
  split
  · next hm => exact h.muted hm
  · exact emit_ne_empty log p

/-- Muting after a report is sound, as there is a problem in the log. -/
theorem report_mute_extends (log : Log) (p : Problem) : log.Extends (log.report p).mute :=
  (report_extends log p).mute fun h => report_ne_empty h p

theorem start_extends (log : Log) (fresh : Bool) : log.Extends (log.start fresh) := by
  cases fresh with
  | false => exact .refl log
  | true => exact ⟨fun h => ⟨h.counted, fun hm => absurd hm (by simp [start])⟩, List.prefix_rfl⟩

end Log

namespace Reader

open Log

/-- Skipping adds lexical problems only. -/
theorem skip_extends (log : Log) (depth : Nat) (items : List Item) :
    log.Extends (skip log depth items).log := by
  fun_induction skip log depth items with
  | case1 | case2 => exact .refl _
  | case3 log d p items ih => exact (lexical_extends log p).trans ih
  | case4 log d t items _ ih | case5 log d t items _ ih | case6 log d t items _ _ ih => exact ih

/-- Reading a list adds to the log. -/
theorem readList_extends (src : Source) (log : Log) (current : Opened) (parents : List Opened)
    (items : List Item) : log.Extends (readList src log current parents items).log := by
  fun_induction readList src log current parents items with
  | case1 log => exact report_extends log _
  | case2 log current parents p items ih => exact (lexical_extends log p).trans ih
  | case3 log current parents t items _ depth _ =>
    exact (report_mute_extends log _).trans (skip_extends _ depth items)
  | case5 log => exact .refl log
  | case4 | case6 | case7 => rename_i ih; exact ih

/-- Reading the next form adds to the log. -/
theorem next_extends (src : Source) (fresh : Bool) (log : Log) (skipping : Bool)
    (items : List Item) : log.Extends (next src fresh log skipping items).log := by
  fun_induction next src fresh log skipping items with
  | case1 log => exact .refl log
  | case2 log skipping p items ih => exact (lexical_extends log p).trans ih
  | case3 log | case4 log | case6 log =>
    exact (start_extends log fresh).trans (readList_extends src _ _ _ _)
  | case5 log skipping t items _ after _ _ ih =>
    exact ((start_extends log fresh).trans (readList_extends src _ _ _ _)).trans ih
  | case7 log skipping t items _ ih =>
    exact ((start_extends log fresh).trans (report_extends _ _)).trans ih
  | case8 => rename_i ih; exact ih
  | case9 log skipping t items _ _ _ ih => exact (report_extends log _).trans ih

theorem read_extends (r : Reader) (fresh : Bool) : r.log.Extends (r.read fresh).2.log := by
  unfold read
  split
  · exact .refl _
  · exact next_extends ..

theorem readFields_extends (r : Reader) : r.log.Extends r.readFields.2.log := by
  fun_induction readFields r with
  | case1 r _ next _ => exact read_extends r false
  | case2 r _ next f h fs r' heq ih =>
    rw [heq] at ih
    exact (read_extends r false).trans ih
  | case3 r _ => exact .refl _

theorem readCommand_extends (r : Reader) : r.log.Extends r.readCommand.2.log := by
  fun_induction readCommand r with
  | case1 r => exact .refl _
  | case2 r _ next _ => exact read_extends r false
  | case3 r _ next _ fs r' heq ih =>
    rw [heq] at ih
    exact (read_extends r false).trans ih

end Reader

end WasmText
