import WasmText.Proofs.UnspannedFields
import WasmText.Proofs.UnspannedReading

/-!
# Commands and spans

The readers of commands do not look at spans, with one exception: a module that is asserted to be
malformed is kept as the text between the ends of its form. With that text not told from another, a
command whose forms have lost their spans is the command without its spans, or is refused with the
same cause, and so for all commands of a source (`Reader.readCommands_unspanned`).
-/

namespace WasmText

open Form

/-! ## Commands without spans -/

/-- The module with no span told from another, and no text of one that is not read. -/
def ScriptModule.unspanned : ScriptModule → ScriptModule
  | .text m => .text m.unspanned
  | .source _ => .source ""
  | m => m

/-- The command with no span told from another. Actions and constants have no spans. -/
def CommandKind.unspanned : CommandKind → CommandKind
  | .module m => .module m.unspanned
  | .assertModuleTrap m message => .assertModuleTrap m.unspanned message
  | .assertInvalid m message => .assertInvalid m.unspanned message
  | .assertMalformed m message => .assertMalformed m.unspanned message
  | .assertUnlinkable m message => .assertUnlinkable m.unspanned message
  | .assertUninstantiable m message => .assertUninstantiable m.unspanned message
  | kind => kind

def Command.unspanned (c : Command) : Command := ⟨.origin, c.kind.unspanned⟩

def Script.unspanned (s : Script) : Script := ⟨s.commands.map Command.unspanned⟩

/-! ## Modules -/

namespace Module

theorem ofForm_unspanned (f : Form) :
    ofForm f.unspanned = Failure.unspan unspanned (ofForm f) := by
  unfold ofForm
  rw [args_unspanned, Field.name_unspanned]
  dsimp only
  rw [← List.map_drop]
  exact ofFields_unspanned _ _

/-- The forms of a source are the same module, whether it is written out or not. -/
theorem ofForms_unspanned (forms : List Form) :
    ofForms (forms.map Form.unspanned) = Failure.unspan unspanned (ofForms forms) := by
  rcases forms with _ | ⟨f, _ | ⟨g, fs⟩⟩
  · exact ofFields_unspanned none []
  · rw [List.map_singleton, ofForms, ofForms, isHeadedBy_unspanned]
    split
    · exact ofForm_unspanned f
    · exact ofFields_unspanned none [f]
  · rw [List.map_cons, List.map_cons, ofForms, ofForms, isHeadedBy_unspanned]
    split
    · rw [span_unspanned]
      rfl
    · exact ofFields_unspanned none (f :: g :: fs)

end Module

/-! ## Constants and actions -/

/-- A constant has the same value. -/
theorem Const.ofForm_unspanned (f : Form) : ofForm f.unspanned = unspan id (ofForm f) := by
  unfold ofForm
  refine unspan_bind (unspan_discard (expectList_unspanned f .constant)) fun _ => ?_
  rw [headOpcode?_unspanned, args_unspanned, span_unspanned, unexpected_unspanned, List.head?_map,
    ← List.map_tail]
  cases f.headOpcode?.filter Opcode.isConst with
  | none => rfl
  | some op =>
    refine unspan_bind (Immediate.const_unspanned f.span op f.args.head?) fun value => ?_
    exact unspan_bind (noMore_unspanned f.args.tail) fun _ => rfl

/-- An action has the same name and arguments. -/
theorem Action.ofForm_unspanned (f : Form) : ofForm f.unspanned = unspan id (ofForm f) := by
  unfold ofForm
  refine unspan_bind (unspan_discard (expectList_unspanned f .action)) fun _ => ?_
  rw [headKeyword?_unspanned, args_unspanned, span_unspanned, unexpected_unspanned,
    Field.name_unspanned]
  generalize Field.name f.args = named
  obtain ⟨moduleName, n⟩ := named
  dsimp only
  split
  · rfl
  · rw [List.getElem?_map, ← List.map_drop]
    refine unspan_bind (need_unspanned .exportName f.span _) fun g => ?_
    refine unspan_bind (expectName_unspanned g) fun name => ?_
    split
    · refine unspan_bind (u := id) ?_ fun args => rfl
      rw [← List.map_id_fun]
      exact unspan_mapM Const.ofForm_unspanned _
    · exact unspan_bind (noMore_unspanned _) fun _ => rfl

/-! ## Modules of scripts -/

namespace ScriptModule

theorem ofForm_unspanned (f : Form) :
    ofForm f.unspanned = Failure.unspan unspanned (ofForm f) := by
  unfold ofForm
  have hword (n : Nat) : (f.unspanned.args[n]?).bind Form.keyword? =
      (f.args[n]?).bind Form.keyword? := by
    rw [args_unspanned, List.getElem?_map, Option.bind_map]
    exact congrArg _ (funext keyword?_unspanned)
  rw [args_unspanned, Field.name_unspanned, ← args_unspanned]
  generalize Field.name f.args = named
  obtain ⟨name, n⟩ := named
  dsimp only
  rw [hword, args_unspanned, ← List.map_drop]
  split
  · exact Failure.unspan_bind (Failure.unspan_lift (expectAllBytes_unspanned _)) fun bytes => rfl
  · exact Failure.unspan_bind (Failure.unspan_lift (expectAllBytes_unspanned _)) fun bytes => rfl
  · exact Failure.unspan_bind (Module.ofForm_unspanned f) fun m => rfl

/-- A module inside an assertion is the same, read or kept as text. -/
theorem ofNested_unspanned (f : Form) :
    ofNested f.unspanned = Failure.unspan unspanned (ofNested f) := by
  unfold ofNested
  rw [isHeadedBy_unspanned, unexpected_unspanned]
  split
  · exact ofForm_unspanned f
  · rfl

/-- Of a source without text nothing is kept. -/
theorem ofMalformed_unspanned (src : Source) (f : Form) :
    ofMalformed ⟨"", ""⟩ f.unspanned = Failure.unspan unspanned (ofMalformed src f) := by
  unfold ofMalformed
  have hword (n : Nat) : (f.unspanned.args[n]?).bind Form.keyword? =
      (f.args[n]?).bind Form.keyword? := by
    rw [args_unspanned, List.getElem?_map, Option.bind_map]
    exact congrArg _ (funext keyword?_unspanned)
  rw [isHeadedBy_unspanned, unexpected_unspanned, hword, args_unspanned, Field.name_unspanned,
    span_unspanned]
  split
  · split
    · exact ofForm_unspanned f
    · exact ofForm_unspanned f
    · rfl
  · rfl

end ScriptModule

/-! ## Commands -/

/-- A result that is dropped is dropped from both. -/
theorem Failure.unspan_discard {α : Type} {u : α → α} {x x' : Except Failure α}
    (hx : x' = Failure.unspan u x) :
    Functor.discard x' = Failure.unspan id (Functor.discard x) := by
  rw [hx]
  match x with
  | .ok _ | .error (.problem _) | .error .abandoned => rfl

namespace Command

variable (f : Form)

theorem message_unspanned : message f.unspanned = unspan id (message f) := by
  unfold message
  rw [args_unspanned, span_unspanned, List.getElem?_map, ← List.map_drop]
  refine unspan_bind (need_unspanned .string f.span _) fun g => ?_
  refine unspan_bind (expectBytes_unspanned g) fun bytes => ?_
  exact unspan_bind (noMore_unspanned _) fun _ => rfl

theorem action_unspanned : action f.unspanned = unspan id (action f) := by
  unfold action
  rw [args_unspanned, span_unspanned, List.getElem?_map]
  exact unspan_bind (need_unspanned .action f.span _) Action.ofForm_unspanned

/-- An assertion is about the same module, when that is read in the same way. -/
theorem onModule_unspanned {make : ScriptModule → String → CommandKind}
    {read read' : Form → Except Failure ScriptModule}
    (hmake : ∀ m text, (make m text).unspanned = make m.unspanned text)
    (hread : ∀ g, read' g.unspanned = Failure.unspan ScriptModule.unspanned (read g)) :
    onModule make read' f.unspanned =
      Failure.unspan CommandKind.unspanned (onModule make read f) := by
  unfold onModule
  rw [args_unspanned, span_unspanned, List.getElem?_map]
  refine Failure.unspan_bind (Failure.unspan_lift (need_unspanned .module f.span _)) fun g => ?_
  refine Failure.unspan_bind (hread g) fun m => ?_
  refine Failure.unspan_bind (Failure.unspan_lift (message_unspanned f)) fun text => ?_
  exact congrArg Except.ok (hmake m text).symm

theorem register_unspanned : register f.unspanned = unspan CommandKind.unspanned (register f) := by
  unfold register
  rw [args_unspanned, span_unspanned, List.getElem?_map, ← List.map_tail, Field.name_unspanned]
  refine unspan_bind (need_unspanned .string f.span _) fun g => ?_
  refine unspan_bind (expectName_unspanned g) fun asName => ?_
  dsimp only
  rw [← List.map_drop]
  exact unspan_bind (noMore_unspanned _) fun _ => rfl

/-- A command does the same, apart from the text that it keeps. -/
theorem kindOf_unspanned (src : Source) :
    kindOf ⟨"", ""⟩ f.unspanned = Failure.unspan CommandKind.unspanned (kindOf src f) := by
  unfold kindOf
  have haction := Failure.unspan_lift (action_unspanned f)
  have hmessage := Failure.unspan_lift (message_unspanned f)
  refine Failure.unspan_bind
    (Failure.unspan_discard (Failure.unspan_lift (expectList_unspanned f .command))) fun _ => ?_
  rw [headKeyword?_unspanned, unexpected_unspanned, args_unspanned, span_unspanned,
    List.getElem?_map, ← List.map_drop]
  have hnoMore := Failure.unspan_lift (noMore_unspanned (f.args.drop 1))
  split
  · exact Failure.unspan_bind (ScriptModule.ofForm_unspanned f) fun m => rfl
  · exact Failure.unspan_lift (register_unspanned f)
  · exact Failure.unspan_bind (Failure.unspan_lift (Action.ofForm_unspanned f)) fun a => rfl
  · exact Failure.unspan_bind (Failure.unspan_lift (Action.ofForm_unspanned f)) fun a => rfl
  · refine Failure.unspan_bind haction fun a => ?_
    have hexpected := unspan_mapM Const.ofForm_unspanned (f.args.drop 1)
    rw [List.map_id_fun] at hexpected
    exact Failure.unspan_bind (Failure.unspan_lift hexpected) fun cs => rfl
  · refine Failure.unspan_bind haction fun a => ?_
    exact Failure.unspan_bind hnoMore fun _ => rfl
  · refine Failure.unspan_bind haction fun a => ?_
    exact Failure.unspan_bind hnoMore fun _ => rfl
  · -- a trap of a module or of an action
    refine Failure.unspan_bind (Failure.unspan_lift (need_unspanned .actionOrModule f.span _))
      fun g => ?_
    refine Failure.unspan_bind hmessage fun text => ?_
    rw [isHeadedBy_unspanned]
    split
    · exact Failure.unspan_bind (ScriptModule.ofForm_unspanned g) fun m => rfl
    · exact Failure.unspan_bind (Failure.unspan_lift (Action.ofForm_unspanned g)) fun a => rfl
  · refine Failure.unspan_bind haction fun a => ?_
    exact Failure.unspan_bind hmessage fun text => rfl
  · exact onModule_unspanned f (fun _ _ => rfl) ScriptModule.ofNested_unspanned
  · exact onModule_unspanned f (fun _ _ => rfl) (ScriptModule.ofMalformed_unspanned src)
  · exact onModule_unspanned f (fun _ _ => rfl) ScriptModule.ofNested_unspanned
  · exact onModule_unspanned f (fun _ _ => rfl) ScriptModule.ofNested_unspanned
  · rfl

theorem ofForm_unspanned (src : Source) :
    ofForm ⟨"", ""⟩ f.unspanned = Failure.unspan unspanned (ofForm src f) := by
  unfold ofForm
  rw [span_unspanned]
  exact Failure.unspan_bind (kindOf_unspanned f src) fun kind => rfl

theorem ofFields_unspanned (others : List Form) :
    ofFields f.unspanned (others.map Form.unspanned) =
      Failure.unspan unspanned (ofFields f others) := by
  unfold ofFields
  have hlast : ((others.map Form.unspanned).getLast?.getD f.unspanned).span = .origin := by
    rw [List.getLast?_map, Option.getD_map, span_unspanned]
  rw [span_unspanned, hlast, ← List.map_cons]
  exact Failure.unspan_bind (Module.ofFields_unspanned none (f :: others)) fun m => rfl

end Command

/-! ## Commands of a source -/

namespace Reader

variable (r : Reader)

theorem report_unspanned (p : Problem) :
    r.unspanned.report p.unspanned = (r.report p).unspanned := by
  unfold report unspanned
  rw [Log.report_unspanned]

/-- A command that is refused is so for the same reason. -/
theorem command_unspanned (f : Form) :
    r.unspanned.command f.unspanned =
      (Failure.unspan Command.unspanned (r.command f).1, (r.command f).2.unspanned) := by
  unfold command
  rw [headKeyword?_unspanned]
  split
  · rw [readFields_unspanned]
    exact Prod.ext (Command.ofFields_unspanned f _) rfl
  · exact Prod.ext (Command.ofForm_unspanned f r.source) rfl

/-- Commands are read up to the same token, and abandoned at the same one. -/
theorem readCommands_unspanned :
    r.unspanned.readCommands =
      r.readCommands.map (Option.map (List.map Command.unspanned)) unspanned := by
  -- both go on after a command that is refused, and both stop at one that is abandoned
  fun_induction readCommands r with
  | case1 r next hnone =>
    have hread := r.read_unspanned true
    rw [show (r.read true).1 = none from hnone] at hread
    rw [readCommands_of_none hread]
    rfl
  | case2 r next f hsome result c hc cs? r' heq ih =>
    have hread := r.read_unspanned true
    rw [show (r.read true).1 = some f from hsome] at hread
    have hcommand := (r.read true).2.command_unspanned f
    rw [show ((r.read true).2.command f).1 = .ok c from hc] at hcommand
    have ih : ((r.read true).2.command f).2.unspanned.readCommands = _ := ih
    rw [readCommands_of_some hread, hcommand]
    dsimp only [Failure.unspan]
    rw [ih, heq]
    cases cs? <;> rfl
  | case3 r next f hsome result p hp ih =>
    have hread := r.read_unspanned true
    rw [show (r.read true).1 = some f from hsome] at hread
    have hcommand := (r.read true).2.command_unspanned f
    rw [show ((r.read true).2.command f).1 = .error (.problem p) from hp] at hcommand
    rw [readCommands_of_some hread, hcommand]
    dsimp only [Failure.unspan]
    rw [report_unspanned]
    exact ih
  | case4 r next f hsome result habandoned =>
    have hread := r.read_unspanned true
    rw [show (r.read true).1 = some f from hsome] at hread
    have hcommand := (r.read true).2.command_unspanned f
    rw [show ((r.read true).2.command f).1 = .error .abandoned from habandoned] at hcommand
    rw [readCommands_of_some hread, hcommand]
    rfl

end Reader

end WasmText
