import WasmText.Proofs.UnspannedCommands

/-!
# The layout of a source has no meaning

Sources of the same tokens, however these are laid out with blanks and comments between them, come
to the same module or the same script but for spans, and otherwise to the same problems in the same
order.
-/

namespace WasmText

/-- Two sources have the same tokens, of the same kinds and with the same texts, and where one has
what is no token the other has it too, refused for the same cause. Where anything stands does not
matter. -/
def Source.SameTokens (src src' : Source) : Prop :=
  src.items.map Item.unspanned = src'.items.map Item.unspanned

/-- The outcome with something done to what is accepted. -/
def Outcome.map {α β : Type} (f : α → β) : Outcome α → Outcome β
  | .accepted a => .accepted (f a)
  | .rejected errors => .rejected errors
  | .abandoned => .abandoned

/-- Two sources come to the same but for what `erase` takes away, and the same is found wrong with
them, of the same kinds and in the same words. -/
structure Parsed.Alike {α : Type} (erase : α → α) (p p' : Parsed α) : Prop where
  outcome : p.outcome.map erase = p'.outcome.map erase
  kinds : p.problems.map Problem.kind = p'.problems.map Problem.kind
  messages : p.problems.map Problem.message = p'.problems.map Problem.message

variable {src src' : Source} {r r' : Reader}

theorem Reader.unspanned_ofSource (h : src.SameTokens src') :
    (ofSource src).unspanned = (ofSource src').unspanned := by
  unfold unspanned ofSource
  dsimp only
  rw [h]

/-! ## Logs -/

theorem Log.errors_eq (h : r.log.unspanned = r'.log.unspanned) : r.errors = r'.errors := by
  have herrors := congrArg (fun log : Log => log.errors) h
  exact herrors

/-- What does not depend on spans is the same of the problems of two logs. -/
theorem Log.map_problems_eq {α : Type} {log log' : Log} (h : log.unspanned = log'.unspanned)
    {g : Problem → α} (hg : ∀ p : Problem, g p.unspanned = g p) :
    log.problems.toList.map g = log'.problems.toList.map g := by
  have hproblems := congrArg (fun log : Log => log.problems.toList.map g) h
  have hcomp : g ∘ Problem.unspanned = g := funext hg
  simpa [unspanned, hcomp] using hproblems

theorem Parsed.alike_of_log {α : Type} {erase : α → α} {o o' : Outcome α} {log log' : Log}
    (ho : o.map erase = o'.map erase) (h : log.unspanned = log'.unspanned) :
    Alike erase ⟨src, o, log.problems.toList⟩ ⟨src', o', log'.problems.toList⟩ :=
  ⟨ho, Log.map_problems_eq h fun _ => rfl, Log.map_problems_eq h fun _ => rfl⟩

/-- What is read to its end is accepted if and only if there are no problems. -/
theorem Outcome.map_of_errors {α : Type} {erase : α → α} {a a' : α} {n n' : Nat}
    (ha : erase a = erase a') (hn : n = n') :
    Outcome.map erase (if n = 0 then .accepted a else .rejected n) =
      Outcome.map erase (if n' = 0 then .accepted a' else .rejected n') := by
  subst hn
  split
  · exact congrArg Outcome.accepted ha
  · rfl

/-! ## The two readers -/

theorem Module.parse_alike (h : src.SameTokens src') :
    (parse src).Alike unspanned (parse src') := by
  have hread : (Reader.ofSource src).unspanned.readCommand =
      (Reader.ofSource src').unspanned.readCommand :=
    congrArg Reader.readCommand (Reader.unspanned_ofSource h)
  rw [Reader.readCommand_unspanned, Reader.readCommand_unspanned] at hread
  unfold parse
  generalize (Reader.ofSource src).readCommand = read at hread
  generalize (Reader.ofSource src').readCommand = read' at hread
  obtain ⟨forms, r⟩ := read
  obtain ⟨forms', r'⟩ := read'
  obtain ⟨hforms, hreader⟩ := Prod.mk.inj hread
  have hlog : r.log.unspanned = r'.log.unspanned := congrArg Reader.log hreader
  have hresult : Failure.unspan unspanned (ofForms forms) =
      Failure.unspan unspanned (ofForms forms') := by
    rw [← ofForms_unspanned, ← ofForms_unspanned]
    exact congrArg ofForms hforms
  dsimp only
  -- the results are of the same sort, as they differ only in spans
  match hm : ofForms forms, hm' : ofForms forms' with
  | .ok m, .ok m' =>
    rw [hm, hm'] at hresult
    have herrors := Log.errors_eq hlog
    exact Parsed.alike_of_log (Outcome.map_of_errors (Except.ok.inj hresult) herrors) hlog
  | .error (.problem p), .error (.problem p') =>
    rw [hm, hm'] at hresult
    have hp : p.unspanned = p'.unspanned := Failure.problem.inj (Except.error.inj hresult)
    have hreported : (r.report p).log.unspanned = (r'.report p').log.unspanned := by
      rw [Reader.report, Reader.report, ← Log.report_unspanned, ← Log.report_unspanned, hlog, hp]
    refine Parsed.alike_of_log ?_ hreported
    rw [Log.errors_eq hreported]
  | .error .abandoned, .error .abandoned => exact Parsed.alike_of_log rfl hlog
  | .ok _, .error (.problem _) | .ok _, .error .abandoned | .error (.problem _), .ok _
  | .error (.problem _), .error .abandoned | .error .abandoned, .ok _
  | .error .abandoned, .error (.problem _) =>
    rw [hm, hm'] at hresult
    cases hresult

theorem Script.parse_alike (h : src.SameTokens src') :
    (parse src).Alike unspanned (parse src') := by
  have hread : (Reader.ofSource src).unspanned.readCommands =
      (Reader.ofSource src').unspanned.readCommands :=
    congrArg Reader.readCommands (Reader.unspanned_ofSource h)
  rw [Reader.readCommands_unspanned, Reader.readCommands_unspanned] at hread
  unfold parse
  match hr : (Reader.ofSource src).readCommands, hr' : (Reader.ofSource src').readCommands with
  | (some cs, r), (some cs', r') =>
    rw [hr, hr'] at hread
    obtain ⟨hcs, hreader⟩ := Prod.mk.inj hread
    have hlog : r.log.unspanned = r'.log.unspanned := congrArg Reader.log hreader
    have hscript : Script.unspanned ⟨cs⟩ = Script.unspanned ⟨cs'⟩ :=
      congrArg Script.mk (Option.some.inj hcs)
    exact Parsed.alike_of_log (Outcome.map_of_errors hscript (Log.errors_eq hlog)) hlog
  | (none, r), (none, r') =>
    rw [hr, hr'] at hread
    have hlog : r.log.unspanned = r'.log.unspanned :=
      congrArg Reader.log (Prod.mk.inj hread).2
    exact Parsed.alike_of_log rfl hlog
  | (some _, _), (none, _) | (none, _), (some _, _) =>
    rw [hr, hr'] at hread
    cases (Prod.mk.inj hread).1

/-- Sources of the same tokens come to the same module and to the same script, but for spans and for
the text of modules that are kept as they stand, or they fail with the same problems. -/
theorem layout_irrelevant (h : src.SameTokens src') :
    (Module.parse src).Alike Module.unspanned (Module.parse src') ∧
      (Script.parse src).Alike Script.unspanned (Script.parse src') :=
  ⟨Module.parse_alike h, Script.parse_alike h⟩

/-- A module that is asserted to be malformed, laid out with comments and without. -/
theorem layout_irrelevant_comments :
    let src : Source := ⟨"t", "(;a;) (module (func $f nop)) ;;b\n(assert_malformed (module ) \"\")"⟩
    let src' : Source := ⟨"t", "(module(func $f nop))(assert_malformed(module)\"\")"⟩
    src.SameTokens src' ∧
      (Module.parse src).Alike Module.unspanned (Module.parse src') ∧
      (Script.parse src).Alike Script.unspanned (Script.parse src') := by
  intro src src'
  have h : src.SameTokens src' := by
    unfold Source.SameTokens
    decide +kernel
  exact ⟨h, layout_irrelevant h⟩

end WasmText
