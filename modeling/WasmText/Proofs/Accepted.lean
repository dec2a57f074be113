import WasmText.Proofs.Outcome
import WasmText.Proofs.Part

/-!
# Accepted modules

A module is accepted on its own, or as a text module of an accepted script: of a command that is a
module, or of an assertion on one. `Module.Accepted` ties it to the fields that it is read from, and
`Accepted.run` says that it is what reading all of them one after the other comes to.
-/

namespace WasmText

/-- The fields of a `(module $name? field*)`. -/
def Form.moduleFields (f : Form) : List Form := f.args.drop (Field.name f.args).2

namespace Module

/-- The fields among the forms of a source that is one module. -/
def fieldsOf : List Form → List Form
  | [f] => if f.isHeadedBy .moduleKw then f.moduleFields else [f]
  | forms => forms

theorem ofFields_of_ofForms {forms : List Form} {m : Module} (h : ofForms forms = .ok m) :
    ∃ name, ofFields name (fieldsOf forms) = .ok m := by
  match forms with
  | [] => exact ⟨none, h⟩
  | [f] =>
    rw [ofForms] at h
    rw [fieldsOf]
    split at h
    · next hhead =>
      rw [if_pos hhead]
      exact ⟨_, h⟩
    · next hhead =>
      rw [if_neg hhead]
      exact ⟨none, h⟩
  | f :: g :: fs =>
    rw [ofForms] at h
    split at h
    · cases h
    · exact ⟨none, h⟩

end Module

/-! ## Modules of commands -/

/-- The fields of the text module of a group: the group itself, or those of its form or of the
module that the form is about. -/
def Command.moduleFields (f : Form) (others : List Form) : List Form :=
  if f.isField then f :: others
  else if f.isHeadedBy .moduleKw then f.moduleFields
  else (f.args.head?.map Form.moduleFields).getD []

namespace ScriptModule

theorem ofFields_of_ofForm {f : Form} {m : Module} (h : ofForm f = .ok (.text m)) :
    ∃ name, Module.ofFields name f.moduleFields = .ok m := by
  unfold ofForm at h
  dsimp only at h
  split at h
  · obtain ⟨bytes, -, h⟩ := Success.of_bind h
    cases Success.of_pure h
  · obtain ⟨bytes, -, h⟩ := Success.of_bind h
    cases Success.of_pure h
  · obtain ⟨m', hm, h⟩ := Success.of_bind h
    obtain rfl := text.inj (Success.of_pure h)
    exact ⟨_, hm⟩

theorem ofFields_of_ofNested {f : Form} {m : Module} (h : ofNested f = .ok (.text m)) :
    ∃ name, Module.ofFields name f.moduleFields = .ok m := by
  unfold ofNested at h
  split at h
  · exact ofFields_of_ofForm h
  · cases h

/-- A module that is asserted to be malformed is not read. -/
theorem ofMalformed_ne_text {src : Source} {f : Form} {m : Module} :
    ofMalformed src f ≠ .ok (.text m) := by
  intro h
  unfold ofMalformed at h
  split at h
  · split at h
    · next hbinary =>
      unfold ofForm at h
      dsimp only at h
      rw [hbinary] at h
      obtain ⟨bytes, -, h⟩ := Success.of_bind h
      cases Success.of_pure h
    · next hquote =>
      unfold ofForm at h
      dsimp only at h
      rw [hquote] at h
      obtain ⟨bytes, -, h⟩ := Success.of_bind h
      cases Success.of_pure h
    · cases h
  · cases h

end ScriptModule

namespace Command

theorem of_onModule {make : ScriptModule → String → CommandKind}
    {read : Form → Except Failure ScriptModule} {f : Form} {kind : CommandKind}
    (h : onModule make read f = .ok kind) :
    ∃ g m text, f.args[0]? = some g ∧ read g = .ok m ∧ kind = make m text := by
  obtain ⟨g, hneed, h⟩ := Success.of_bind h
  obtain ⟨m, hm, h⟩ := Success.of_bind h
  obtain ⟨text, -, h⟩ := Success.of_bind h
  exact ⟨g, m, text, Form.eq_some_of_need (Success.of_mapError hneed), hm,
    (Success.of_pure h).symm⟩

/-- The module that an assertion is about. -/
theorem ofFields_of_first {f g : Form} {m : Module} {word : Keyword}
    (hhead : f.headKeyword? = some word) (hword : word ≠ .moduleKw) (hfirst : f.args[0]? = some g)
    (h : ∃ name, Module.ofFields name g.moduleFields = .ok m) :
    ∃ name, Module.ofFields name
      (if f.isHeadedBy .moduleKw then f.moduleFields
        else (f.args.head?.map Form.moduleFields).getD []) = .ok m := by
  have hmodule : ¬f.isHeadedBy .moduleKw = true := by
    rw [Form.isHeadedBy_iff, hhead]
    exact fun heq => hword (Option.some.inj heq)
  rw [if_neg hmodule, List.head?_eq_getElem?, hfirst]
  exact h

/-- The text module of a form that stands alone. -/
theorem ofFields_of_kindOf {src : Source} {f : Form} {kind : CommandKind} {m : Module}
    (h : kindOf src f = .ok kind) (hm : kind.module? = some (.text m)) :
    ∃ name, Module.ofFields name
      (if f.isHeadedBy .moduleKw then f.moduleFields
        else (f.args.head?.map Form.moduleFields).getD []) = .ok m := by
  unfold kindOf at h
  obtain ⟨_, -, h⟩ := Success.of_bind h
  split at h
  case h_1 hhead =>
    obtain ⟨m', hm', h⟩ := Success.of_bind h
    obtain rfl := Success.of_pure h
    obtain rfl := Option.some.inj hm
    rw [if_pos (Form.isHeadedBy_iff.mpr hhead)]
    exact ScriptModule.ofFields_of_ofForm hm'
  -- registrations, actions and assertions on actions hold no module
  case h_2 =>
    obtain ⟨_, -, h⟩ := Success.of_bind (Success.of_mapError h)
    obtain ⟨_, -, h⟩ := Success.of_bind h
    obtain ⟨_, -, h⟩ := Success.of_bind h
    obtain rfl := Success.of_pure h
    cases hm
  case h_3 | h_4 =>
    obtain ⟨_, -, h⟩ := Success.of_bind h
    obtain rfl := Success.of_pure h
    cases hm
  case h_5 | h_6 | h_7 | h_9 =>
    obtain ⟨_, -, h⟩ := Success.of_bind h
    obtain ⟨_, -, h⟩ := Success.of_bind h
    obtain rfl := Success.of_pure h
    cases hm
  -- a trap is asserted of an action or of a module
  case h_8 hhead =>
    obtain ⟨g, hneed, h⟩ := Success.of_bind h
    obtain ⟨_, -, h⟩ := Success.of_bind h
    split at h
    · obtain ⟨m', hm', h⟩ := Success.of_bind h
      obtain rfl := Success.of_pure h
      obtain rfl := Option.some.inj hm
      have hfirst := Form.eq_some_of_need (Success.of_mapError hneed)
      exact ofFields_of_first hhead (by simp) hfirst (ScriptModule.ofFields_of_ofForm hm')
    · obtain ⟨_, -, h⟩ := Success.of_bind h
      obtain rfl := Success.of_pure h
      cases hm
  -- modules that are asserted to be invalid, not to link or not to be instantiated are read
  case h_10 hhead | h_12 hhead | h_13 hhead =>
    obtain ⟨g, m', text, hfirst, hm', rfl⟩ := of_onModule h
    obtain rfl := Option.some.inj hm
    exact ofFields_of_first hhead (by simp) hfirst (ScriptModule.ofFields_of_ofNested hm')
  case h_11 =>
    obtain ⟨g, m', text, hfirst, hm', rfl⟩ := of_onModule h
    obtain rfl := Option.some.inj hm
    exact absurd hm' ScriptModule.ofMalformed_ne_text
  case h_14 => cases h

theorem ofFields_of_ofGroup {src : Source} {f : Form} {others : List Form} {c : Command}
    {m : Module} (h : ofGroup src f others = .ok c) (hm : c.kind.module? = some (.text m)) :
    ∃ name, Module.ofFields name (moduleFields f others) = .ok m := by
  unfold ofGroup at h
  rw [moduleFields]
  split at h
  · next hfield =>
    rw [if_pos hfield]
    obtain ⟨m', hm', h⟩ := Success.of_bind h
    obtain rfl := Success.of_pure h
    obtain rfl := ScriptModule.text.inj (Option.some.inj hm)
    exact ⟨none, hm'⟩
  · next hfield =>
    rw [if_neg hfield]
    obtain ⟨kind, hkind, h⟩ := Success.of_bind h
    obtain rfl := Success.of_pure h
    exact ofFields_of_kindOf hkind hm

end Command

/-! ## Accepted sources -/

namespace Module

/-- The modules that are accepted, with their fields: modules that are a source of their own, and
text modules of a script. -/
inductive Accepted : List Form → Module → Prop
  | alone {src : Source} {m : Module} (h : (parse src).outcome = .accepted m) :
    Accepted (fieldsOf (Reader.ofSource src).readCommand.1) m
  | inScript {src : Source} {s : Script} {i : Nat} {c : Command} {f : Form} {others : List Form}
    {m : Module} (h : (Script.parse src).outcome = .accepted s) (hcommand : s.commands[i]? = some c)
    (hgroup : (Reader.ofSource src).groups[i]? = some (f, others))
    (hmodule : c.kind.module? = some (.text m)) : Accepted (Command.moduleFields f others) m

theorem Accepted.ofFields {fields : List Form} {m : Module} (h : Accepted fields m) :
    ∃ name, Module.ofFields name fields = .ok m := by
  cases h with
  | alone h => exact ofFields_of_ofForms ((parse_settled _).of_accepted h)
  | @inScript src s i c f others m h hcommand hgroup hmodule =>
    have hgroups := (Script.parse_settled src).of_accepted h
    have hread := Success.of_mapM_getElem? hgroups hgroup hcommand
    exact Command.ofFields_of_ofGroup hread hmodule

/-- A module that is read makes it through the three passes over its fields. -/
theorem passes_of_ofFields {name : Option String} {fields : List Form} {m : Module}
    (h : ofFields name fields = .ok m) :
    ∃ spaces types d, Spaces.ofFields fields = .ok spaces ∧ typesOfFields fields = .ok types ∧
      fields.foldlM (Field.add spaces) (.ofTypes ⟨spaces.types, types⟩) = .ok d ∧
        m = d.toModule name := by
  obtain ⟨spaces, hspaces, h⟩ := Success.of_bind h
  obtain ⟨types, htypes, h⟩ := Success.of_bind h
  obtain ⟨d, hd, h⟩ := Success.of_bind h
  exact ⟨spaces, types, d, Success.of_mapError hspaces, htypes, Success.of_mapError hd,
    (Success.of_pure h).symm⟩

/-- An accepted module is read from its fields one after the other. -/
theorem Accepted.run {fields : List Form} {m : Module} (h : Accepted fields m) :
    ∃ name spaces types d parts, Spaces.ofFields fields = .ok spaces ∧
      typesOfFields fields = .ok types ∧
      Draft.Run spaces (.ofTypes ⟨spaces.types, types⟩) fields parts d ∧ m = d.toModule name := by
  obtain ⟨name, h⟩ := h.ofFields
  obtain ⟨spaces, types, d, hspaces, htypes, hd, hm⟩ := passes_of_ofFields h
  obtain ⟨parts, hrun⟩ := Draft.run_of_foldlM hd
  exact ⟨name, spaces, types, d, parts, hspaces, htypes, hrun, hm⟩

end Module

end WasmText
