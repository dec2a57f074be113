import WasmText.Proofs.Group
import WasmText.Proofs.Success

/-!
# The outcome tells the number of diagnostics

A source is accepted exactly if a reporter is told nothing, and a rejected one counts what a
reporter is told. What is at stake is a problem that is dropped because the log is muted: a log is
muted only after a problem was logged (`Log.Sound`), so dropping a problem never empties the count,
and the command it is about is never missing from an accepted script.
-/

namespace WasmText

namespace Reader

theorem sound_ofSource (src : Source) : (ofSource src).log.Sound := Log.sound_empty

/-- The log after a form and the rest of its command were read extends the log before. -/
theorem command_readForm_extends (r : Reader) (f : Form) :
    r.log.Extends (r.readForm.2.command f).2.log := by
  rw [command_eq]
  exact (read_extends r true).trans (readOthers_extends _ f)

/-- Reading commands adds to the log. -/
theorem readCommands_extends (r : Reader) : r.log.Extends r.readCommands.2.log := by
  fun_induction readCommands r with
  | case1 r => exact read_extends r true
  | case2 r _ f _ _ _ _ cs? r' heq ih =>
    rw [heq] at ih
    exact (command_readForm_extends r f).trans ih
  | case3 r _ f _ _ p _ ih =>
    exact ((command_readForm_extends r f).trans (Log.report_extends _ p)).trans ih
  | case4 r _ f => exact command_readForm_extends r f

/-- If reading logs no problem at all, the commands read are those of all groups. -/
theorem mapM_groups_of_readCommands {r : Reader} {cs : List Command}
    (h : r.readCommands.1 = some cs) (hsound : r.log.Sound)
    (hnil : r.readCommands.2.log.problems = #[]) :
    r.groups.mapM (fun g => Command.ofGroup r.source g.1 g.2) = .ok cs := by
  fun_induction readCommands r generalizing cs with
  | case1 r =>
    rename_i hnone
    obtain rfl := Option.some.inj h
    rw [groups_of_none hnone]
    rfl
  | case2 r _ f hsome _ c =>
    rename_i hc cs? r' heq ih
    obtain ⟨cs', hrest, rfl⟩ := Option.map_eq_some_iff.mp h
    rw [heq] at ih
    have htail := ih hrest ((command_readForm_extends r f).sound hsound) hnil
    change (r.readForm.2.command f).1 = .ok c at hc
    change (r.readForm.2.command f).2.groups.mapM
      (fun g => Command.ofGroup (r.readForm.2.command f).2.source g.1 g.2) = .ok cs' at htail
    rw [command_eq, readForm_source] at hc
    rw [command_eq, readOthers_source, readForm_source] at htail
    rw [groups_of_some hsome, Success.mapM_iff]
    exact .cons hc (Success.mapM_iff.mp htail)
  | case3 r _ f _ _ p =>
    -- the log is not empty after the report, and stays so to the end
    have hne := Log.report_ne_empty ((command_readForm_extends r f).sound hsound) p
    exact absurd hnil ((readCommands_extends _).ne_empty hne)
  | case4 => cases h

end Reader

/-! ## Outcomes that fit what was found -/

namespace Parsed

variable {α : Type}

/-- The diagnostics told of a source that was read without being abandoned. -/
def Reports (p : Parsed α) (max : Nat) (told : List Diagnostic) : Prop :=
  p.outcome ≠ .abandoned ∧ p.diagnostics? max = some told

/-- What is parsed reports as many diagnostics as it has problems. -/
theorem exists_reports {p : Parsed α} (max n : Nat) (hout : p.outcome.isAbandoned = false)
    (hlength : (p.diagnostics? max).map List.length = some n) :
    ∃ told, p.Reports max told ∧ told.length = n := by
  obtain ⟨told, htold, hn⟩ := Option.map_eq_some_iff.mp hlength
  exact ⟨told, ⟨Outcome.ne_abandoned hout, htold⟩, hn⟩

/-- The source is accepted if and only if nothing is told of it; otherwise it is rejected, and the
errors counted are those told. -/
structure Counts (p : Parsed α) (told : List Diagnostic) : Prop where
  accepted_iff : (∃ a, p.outcome = .accepted a) ↔ told = []
  rejected : told ≠ [] → p.outcome = .rejected told.length

/-- The outcome fits the problems found, and `good` holds of what was accepted. -/
inductive Settled (good : α → Prop) (p : Parsed α) : Prop
  | abandoned (h : p.outcome = .abandoned)
  | accepted (a : α) (h : p.outcome = .accepted a) (hnil : p.problems = []) (hgood : good a)
  | rejected (h : p.outcome = .rejected p.problems.length) (hne : p.problems ≠ [])

/-- A reader that counts every problem found gives an outcome that fits them. -/
theorem settled_of_reader {good : α → Prop} {src : Source} {r : Reader} {a : α}
    (hsound : r.log.Sound) (hgood : r.log.problems = #[] → good a) :
    Settled good ⟨src, if r.errors = 0 then .accepted a else .rejected r.errors,
      r.log.problems.toList⟩ := by
  rw [Reader.errors, hsound.counted]
  by_cases hzero : r.log.problems.size = 0
  · have hnil : r.log.problems = #[] := Array.eq_empty_of_size_eq_zero hzero
    refine .accepted a (if_pos hzero) ?_ (hgood hnil)
    show r.log.problems.toList = []
    rw [hnil]
  · refine .rejected ?_ fun hnil => hzero (congrArg List.length hnil)
    rw [if_neg hzero, Array.length_toList]

/-- What is accepted is good. -/
theorem Settled.of_accepted {good : α → Prop} {p : Parsed α} {a : α} (h : p.Settled good)
    (ha : p.outcome = .accepted a) : good a := by
  cases h with
  | abandoned hp =>
    rw [ha] at hp
    cases hp
  | accepted b hp _ hgood =>
    rw [ha] at hp
    rw [Outcome.accepted.inj hp]
    exact hgood
  | rejected hp _ =>
    rw [ha] at hp
    cases hp

/-- Every problem has its diagnostic. -/
theorem length_of_ofProblems? {src : Source} {max : Nat} {ps : List Problem}
    {ds : List Diagnostic} (h : Diagnostic.ofProblems? src max ps = some ds) :
    ds.length = ps.length := by
  induction ps generalizing ds with
  | nil =>
    obtain rfl : [] = ds := Option.some.inj h
    rfl
  | cons p ps ih =>
    rw [Diagnostic.ofProblems?, List.mapM_cons] at h
    obtain ⟨d, -, h⟩ := Option.bind_eq_some_iff.mp h
    obtain ⟨ds', hds, h⟩ := Option.bind_eq_some_iff.mp h
    obtain rfl := Option.some.inj h
    rw [List.length_cons, List.length_cons, ih hds]

/-- An outcome that fits the problems found fits the diagnostics told, one for each problem. -/
theorem Settled.counts {good : α → Prop} {p : Parsed α} {max : Nat} {told : List Diagnostic}
    (hp : p.Settled good) (h : p.Reports max told) : p.Counts told := by
  have hlength : told.length = p.problems.length := length_of_ofProblems? h.2
  cases hp with
  | abandoned hout => exact absurd hout h.1
  | accepted a hout hnil _ =>
    have htold : told = [] := by
      rw [← List.length_eq_zero_iff, hlength, hnil, List.length_nil]
    exact ⟨⟨fun _ => htold, fun _ => ⟨a, hout⟩⟩, fun hne => absurd htold hne⟩
  | rejected hout hne =>
    have htold : told ≠ [] := by
      rwa [← List.length_pos_iff, hlength, List.length_pos_iff]
    refine ⟨⟨fun ⟨a, ha⟩ => ?_, fun hnil => absurd hnil htold⟩, fun _ => hlength ▸ hout⟩
    rw [ha] at hout
    cases hout

end Parsed

/-! ## The two readers -/

namespace Script

theorem parse_settled (src : Source) :
    (parse src).Settled fun s =>
      (Reader.ofSource src).groups.mapM (fun g => Command.ofGroup src g.1 g.2) =
        .ok s.commands := by
  unfold parse
  split
  · next cs r h =>
    have hextends := Reader.readCommands_extends (Reader.ofSource src)
    rw [h] at hextends
    refine Parsed.settled_of_reader (hextends.sound (Reader.sound_ofSource src)) fun hnil => ?_
    have hgroups := Reader.mapM_groups_of_readCommands (congrArg Prod.fst h)
      (Reader.sound_ofSource src) (h ▸ hnil)
    exact hgroups
  · exact .abandoned rfl

theorem parseBytes_settled (file : String) (bytes : List UInt8) :
    (parseBytes file bytes).Settled fun _ => True := by
  unfold parseBytes
  split
  · next src _ =>
    cases parse_settled src with
    | abandoned h => exact .abandoned h
    | accepted s h hnil _ => exact .accepted s h hnil trivial
    | rejected h hne => exact .rejected h hne
  · exact .rejected rfl (by simp)

end Script

namespace Module

theorem parse_settled (src : Source) :
    (parse src).Settled fun m => ofForms (Reader.ofSource src).readCommand.1 = .ok m := by
  have hsound : (Reader.ofSource src).readCommand.2.log.Sound :=
    (Reader.readCommand_extends _).sound (Reader.sound_ofSource src)
  unfold parse
  generalize (Reader.ofSource src).readCommand = result at hsound ⊢
  obtain ⟨forms, r⟩ := result
  dsimp only at hsound ⊢
  split
  · next m h =>
    exact Parsed.settled_of_reader hsound fun _ => h
  · next p _ =>
    -- the problem may be dropped, but then one was logged before it
    have hne : (r.report p).log.problems ≠ #[] := Log.report_ne_empty hsound p
    have hcounted : (r.report p).errors = (r.report p).log.problems.size :=
      ((Log.report_extends r.log p).sound hsound).counted
    have hpos : 1 ≤ (r.report p).errors := hcounted ▸ Array.size_pos_iff.mpr hne
    refine .rejected ?_ fun hnil => hne (Array.toList_eq_nil_iff.mp hnil)
    rw [Nat.max_eq_left hpos, Array.length_toList, hcounted]
  · exact .abandoned rfl

end Module

/-- What a script, a script in bytes or a single module comes to is told by the diagnostics: it is
accepted if and only if there is none, and a rejected one counts them. An accepted script has the
command of every group of its source, and an accepted module is that of all forms, so none was
refused with its problem dropped. -/
theorem outcome_counts_diagnostics :
    (∀ src max told, (Script.parse src).Reports max told → (Script.parse src).Counts told) ∧
    (∀ file bytes max told, (Script.parseBytes file bytes).Reports max told →
      (Script.parseBytes file bytes).Counts told) ∧
    (∀ src max told, (Module.parse src).Reports max told → (Module.parse src).Counts told) ∧
    (∀ src s, (Script.parse src).outcome = .accepted s →
      (Reader.ofSource src).groups.mapM (fun g => Command.ofGroup src g.1 g.2) =
        .ok s.commands) ∧
    ∀ src m, (Module.parse src).outcome = .accepted m →
      Module.ofForms (Reader.ofSource src).readCommand.1 = .ok m := by
  refine ⟨?_, ?_, ?_, ?_, ?_⟩
  · intro src max told h
    exact (Script.parse_settled src).counts h
  · intro file bytes max told h
    exact (Script.parseBytes_settled file bytes).counts h
  · intro src max told h
    exact (Module.parse_settled src).counts h
  · intro src s h
    exact (Script.parse_settled src).of_accepted h
  · intro src m h
    exact (Module.parse_settled src).of_accepted h

/-- What is refused in a function without a name is dropped after the lexical problem, which still
counts; bytes that are no text count one problem, and an empty source none. -/
theorem outcome_counts_diagnostics_emptyName :
    (∃ told, (Script.parse ⟨"t", "(func $ 1)"⟩).Reports 60 told ∧ told.length = 1 ∧
      (Script.parse ⟨"t", "(func $ 1)"⟩).Counts told) ∧
    (∃ told, (Script.parseBytes "t" [0xFF]).Reports 60 told ∧ told.length = 1 ∧
      (Script.parseBytes "t" [0xFF]).Counts told) ∧
    (∃ told, (Module.parse ⟨"t", "(func $ 1)"⟩).Reports 60 told ∧ told.length = 1 ∧
      (Module.parse ⟨"t", "(func $ 1)"⟩).Counts told) ∧
    (∃ s, (Script.parse ⟨"t", ""⟩).outcome = .accepted s ∧
      (Reader.ofSource ⟨"t", ""⟩).groups.mapM (fun g => Command.ofGroup ⟨"t", ""⟩ g.1 g.2) =
        .ok s.commands) ∧
    ∃ m, (Module.parse ⟨"t", ""⟩).outcome = .accepted m ∧
      Module.ofForms (Reader.ofSource ⟨"t", ""⟩).readCommand.1 = .ok m := by
  obtain ⟨hscript, hbytes, hmodule, hcommands, hforms⟩ := outcome_counts_diagnostics
  refine ⟨?_, ?_, ?_, ?_, ?_⟩
  · obtain ⟨told, htold, hlength⟩ := Parsed.exists_reports
      (p := Script.parse ⟨"t", "(func $ 1)"⟩) 60 1 (by decide +kernel) (by decide +kernel)
    exact ⟨told, htold, hlength, hscript _ _ _ htold⟩
  · obtain ⟨told, htold, hlength⟩ := Parsed.exists_reports
      (p := Script.parseBytes "t" [0xFF]) 60 1 (by decide +kernel) (by decide +kernel)
    exact ⟨told, htold, hlength, hbytes _ _ _ _ htold⟩
  · obtain ⟨told, htold, hlength⟩ := Parsed.exists_reports
      (p := Module.parse ⟨"t", "(func $ 1)"⟩) 60 1 (by decide +kernel) (by decide +kernel)
    exact ⟨told, htold, hlength, hmodule _ _ _ htold⟩
  · obtain ⟨s, hs⟩ := Outcome.exists_accepted (o := (Script.parse ⟨"t", ""⟩).outcome)
      (by decide +kernel)
    exact ⟨s, hs, hcommands _ s hs⟩
  · obtain ⟨m, hm⟩ := Outcome.exists_accepted (o := (Module.parse ⟨"t", ""⟩).outcome)
      (by decide +kernel)
    exact ⟨m, hm, hforms _ m hm⟩

end WasmText
