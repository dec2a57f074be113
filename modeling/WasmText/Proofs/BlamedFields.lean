import WasmText.Proofs.BlamedBodies
import WasmText.Proofs.Group
import WasmText.Proofs.Part

/-!
# Where problems of commands are placed

A field is blamed at itself or at a form in it, and so are a module and a command: whatever is known
of the spans of a group of forms is known of the span at which the group is refused.
-/

namespace WasmText

open Form

variable {P : Span → Prop} {α β : Type} {f : Form} {items : List Form} {span : Span}

/-! ## Drafts -/

namespace Draft

theorem blames_addImport (d : Draft) (i : Import) (hspan : P span) :
    Blames P (d.addImport i span) := by
  unfold addImport
  split
  · exact .error hspan
  · exact .ok _

theorem blames_addExport (d : Draft) (e : Export) (hspan : P span) :
    Blames P (d.addExport e span) := by
  unfold addExport
  split
  · exact .error hspan
  · exact .ok _

/-- A reader with a type table blames the same in a draft. -/
theorem blames_withTypes (d : Draft) {r : Elab α} (hr : BlamesRun P r) :
    Blames P (d.withTypes r) :=
  (hr d.types).bind fun _ _ => .pure _

end Draft

/-! ## Parts of fields -/

namespace Field

theorem blames_importNames (hf : f.Placed P) : Blames P (importNames f) := by
  refine blames_need_bind hf.span (fun _ => placed_of_getElem? hf.args) fun g hg => ?_
  refine (blames_expectName hg).bind fun moduleName _ => ?_
  refine blames_need_bind hf.span (fun _ => placed_of_getElem? hf.args) fun g' hg' => ?_
  exact (blames_expectName hg').bind fun field _ => .pure _

theorem blames_inlineImport (hitems : ∀ f ∈ items, f.Placed P) : Blames P (inlineImport items) := by
  unfold inlineImport
  split
  · next f hf =>
    have hf := placed_of_head? hitems (Option.filter_eq_some_iff.mp hf).1
    refine (blames_importNames hf).bind fun names _ => ?_
    exact (blames_noMore (placed_drop hf.args 2)).bind fun _ _ => .pure _
  · exact .ok _

theorem blames_inlineExport (kind : ExternKind) (index : Nat) (d : Draft) (hf : f.Placed P) :
    Blames P (inlineExport kind index d f) := by
  refine blames_need_bind hf.span (fun g => placed_of_head? hf.args) fun g hg => ?_
  refine (blames_expectName hg).bind fun name _ => ?_
  exact (blames_noMore (placed_tail hf.args)).bind fun _ _ => Draft.blames_addExport d _ hf.span

/-- The opening of a definition blames its names, its exports and its import. -/
theorem blames_opening (kind : ExternKind) (d : Draft) (hf : f.Placed P) :
    Blames P (opening kind d f) := by
  refine Blames.bind (.foldlM (fun d' g hg => ?_) d) fun d' _ => ?_
  · have hafter := placed_drop hf.args (name f.args).2
    exact blames_inlineExport kind _ d' (placed_takeWhile hafter _ g hg)
  · exact (blames_inlineImport (placed_drop hf.args _)).bind fun _ _ => .pure _

/-- What an opening leaves of a field is in the field. -/
theorem placed_of_opening {kind : ExternKind} {d d' : Draft} {o : Opening} (hf : f.Placed P)
    (h : opening kind d f = .ok (o, d')) : ∀ g ∈ o.rest, g.Placed P := by
  unfold opening at h
  obtain ⟨_, -, h⟩ := Success.of_bind h
  obtain ⟨⟨_, n⟩, -, h⟩ := Success.of_bind h
  obtain ⟨rfl, -⟩ := Prod.mk.inj (Success.of_pure h)
  exact placed_drop (placed_drop hf.args _) n

/-- Limits blame their numbers, or the list they should stand in. -/
theorem blames_limits (hspan : P span) (hitems : ∀ f ∈ items, f.Placed P) :
    Blames P (limits span items) := by
  refine blames_need_bind hspan (fun g => placed_of_head? hitems) fun first hfirst => ?_
  split
  · exact blames_unexpected _ hfirst
  · next t ht =>
    refine (blames_natural _ (placed_of_number? hfirst ht)).bind fun min _ => ?_
    split
    · exact .pure _
    · next t' ht' =>
      obtain ⟨g, hg, ht'⟩ := Option.bind_eq_some_iff.mp ht'
      have hg := placed_of_head? (placed_tail hitems) hg
      exact (blames_natural _ (placed_of_number? hg ht')).bind fun _ _ => .pure _

theorem blames_elemType {f? : Option Form} (hspan : P span)
    (hf : ∀ f, f? = some f → f.Placed P) : Blames P (elemType span f?) := by
  cases f? with
  | none => exact .error hspan
  | some f =>
    unfold elemType
    dsimp only
    split
    · exact .ok _
    · exact blames_unexpected _ (hf f rfl)

theorem blames_tableType (hspan : P span) (hitems : ∀ f ∈ items, f.Placed P) :
    Blames P (tableType span items) := by
  refine (blames_limits hspan hitems).bind fun ⟨_, n⟩ _ => ?_
  refine Blames.bind (blames_elemType hspan fun g => placed_of_head? (placed_drop hitems n))
    fun _ _ => .pure _

theorem blames_globalType {item : Option Form} (hspan : P span)
    (hitem : ∀ f, item = some f → f.Placed P) : Blames P (globalType span item) := by
  refine blames_need_bind hspan hitem fun f hf => ?_
  cases f with
  | atom t => exact (blames_valueType hf).bind fun _ _ => .pure _
  | list place inside =>
    dsimp only
    split
    · exact blames_unexpected _ hf
    · refine blames_need_bind hf.span (fun g => placed_of_head? hf.args) fun g hg => ?_
      refine (blames_valueType hg).bind fun type _ => ?_
      exact (blames_noMore (placed_tail hf.args)).bind fun _ _ => .pure _

/-! ## Imports -/

/-- The description of an import blames its own items. -/
theorem blames_importDesc (d : Draft) (hf : f.Placed P) : Blames P (importDesc d f) := by
  have hitems := placed_drop hf.args (name f.args).2
  unfold importDesc
  dsimp only
  split
  · refine (Draft.blames_withTypes d (TypeUse.blames_read true hitems)).bind fun ⟨⟨_, n⟩, _⟩ _ => ?_
    exact (blames_noMore (placed_drop hitems n)).bind fun _ _ => .pure _
  · refine (blames_tableType hf.span hitems).bind fun ⟨_, n⟩ _ => ?_
    exact (blames_noMore (placed_drop hitems n)).bind fun _ _ => .pure _
  · refine (blames_limits hf.span hitems).bind fun ⟨_, n⟩ _ => ?_
    exact (blames_noMore (placed_drop hitems n)).bind fun _ _ => .pure _
  · refine (blames_globalType hf.span fun g => placed_of_head? hitems).bind fun _ _ => ?_
    exact (blames_noMore (placed_tail hitems)).bind fun _ _ => .pure _
  · exact blames_unexpected _ hf

theorem blames_addImport (d : Draft) (hf : f.Placed P) : Blames P (addImport d f) := by
  refine (blames_importNames hf).bind fun ⟨moduleName, field⟩ _ => ?_
  refine blames_need_bind hf.span (fun g => placed_of_getElem? hf.args) fun item hitem => ?_
  refine blames_expectList_bind hitem ?_
  refine (blames_noMore (placed_drop hf.args 3)).bind fun _ _ => ?_
  exact (blames_importDesc d hitem).bind fun ⟨desc, d'⟩ _ => d'.blames_addImport _ hf.span

/-! ## Functions -/

/-- Locals blame their types and names. -/
theorem blames_addLocals (locals : Names × List ValType) (hf : f.Placed P) :
    Blames P (addLocals locals f) := by
  unfold addLocals
  split
  · refine blames_need_bind hf.span (fun g => placed_of_head? (placed_tail hf.args)) fun g hg => ?_
    refine (blames_valueType hg).bind fun type _ => ?_
    refine (blames_noMore (placed_drop hf.args 2)).bind fun _ _ => ?_
    exact (Names.blames_declare _ _ _ hf.span).bind fun _ _ => .pure _
  · exact Blames.bind (.mapM fun g hg => blames_valueType (hf.args g hg)) fun _ _ => .pure _

theorem blames_parameters {use : TypeUse} (h : ∀ p ∈ use.params, P p.span) :
    Blames P (parameters use) :=
  .foldlM (fun names p hp => Names.blames_declare _ names p.name (h p hp)) _

/-- A function blames its opening, its types, its locals and its body. -/
theorem blames_addFunc (spaces : Spaces) (d : Draft) (hf : f.Placed P) :
    Blames P (addFunc spaces d f) := by
  refine (blames_opening .func d hf).bind fun ⟨o, d₁⟩ hopen => ?_
  have hrest := placed_of_opening hf hopen
  refine (d₁.blames_withTypes (TypeUse.blames_read true hrest)).bind
    fun ⟨⟨use, n⟩, d₂⟩ huse => ?_
  obtain ⟨t, huse, -⟩ := Draft.of_withTypes huse
  -- a parameter is blamed for its name only after the type use was read
  have hparams := (TypeUse.readAs_of_read huse).placed hrest
  dsimp only
  split
  · exact (blames_noMore (placed_drop hrest n)).bind fun _ _ => d₂.blames_addImport _ hf.span
  · refine (blames_parameters hparams).bind fun params _ => ?_
    refine Blames.bind (.foldlM (fun locals g hg => ?_) _) fun ⟨names, locals⟩ _ => ?_
    · exact blames_addLocals locals (placed_takeWhile (placed_drop hrest n) _ g hg)
    · have hbody := placed_drop (placed_drop hrest n)
      exact (d₂.blames_withTypes (Body.blames_whole _ _ (hbody _))).bind fun _ _ => .pure _

/-! ## Tables, memories and globals -/

/-- A table blames its type, or the references it is filled with. -/
theorem blames_addTable (spaces : Spaces) (d : Draft) (hf : f.Placed P) :
    Blames P (addTable spaces d f) := by
  refine (blames_opening .table d hf).bind fun ⟨o, d₁⟩ hopen => ?_
  have hrest := placed_of_opening hf hopen
  dsimp only
  split
  · refine (blames_tableType hf.span hrest).bind fun ⟨_, n⟩ _ => ?_
    exact (blames_noMore (placed_drop hrest n)).bind fun _ _ => d₁.blames_addImport _ hf.span
  · split
    · refine Blames.bind (blames_elemType hf.span fun g => placed_of_head? hrest) fun _ _ => ?_
      have htail := placed_tail hrest
      refine blames_need_bind hf.span (fun g => placed_of_head? htail) fun list hlist => ?_
      refine blames_expectList_bind hlist ?_
      split
      · exact blames_unexpected _ hlist
      · refine (blames_noMore (placed_drop hrest 2)).bind fun _ _ => ?_
        refine Blames.bind (.mapM fun v hv => ?_) fun _ _ => .pure _
        exact Names.blames_resolve _ _ hlist.span (placed_some (hlist.args v hv))
    · refine (blames_tableType hf.span hrest).bind fun ⟨_, n⟩ _ => ?_
      exact (blames_noMore (placed_drop hrest n)).bind fun _ _ => .pure _

/-- A memory blames its limits, or the text it is filled with. -/
theorem blames_addMemory (d : Draft) (hf : f.Placed P) : Blames P (addMemory d f) := by
  refine (blames_opening .memory d hf).bind fun ⟨o, d₁⟩ hopen => ?_
  have hrest := placed_of_opening hf hopen
  have hlimits := blames_limits hf.span hrest
  dsimp only
  split
  · refine hlimits.bind fun ⟨_, n⟩ _ => ?_
    exact (blames_noMore (placed_drop hrest n)).bind fun _ _ => d₁.blames_addImport _ hf.span
  · split
    · next list hlist =>
      have hlist := placed_of_head? hrest (Option.filter_eq_some_iff.mp hlist).1
      refine (blames_noMore (placed_tail hrest)).bind fun _ _ => ?_
      exact (blames_expectAllBytes hlist.args).bind fun _ _ => .pure _
    · refine hlimits.bind fun ⟨_, n⟩ _ => ?_
      exact (blames_noMore (placed_drop hrest n)).bind fun _ _ => .pure _

theorem blames_addGlobal (spaces : Spaces) (d : Draft) (hf : f.Placed P) :
    Blames P (addGlobal spaces d f) := by
  refine (blames_opening .global d hf).bind fun ⟨o, d₁⟩ hopen => ?_
  have hrest := placed_of_opening hf hopen
  refine (blames_globalType hf.span fun g => placed_of_head? hrest).bind fun type _ => ?_
  dsimp only
  split
  · exact (blames_noMore (placed_tail hrest)).bind fun _ _ => d₁.blames_addImport _ hf.span
  · have hinit := Body.blames_whole (constScope spaces) o.rest.tail (placed_tail hrest)
    exact (d₁.blames_withTypes hinit).bind fun _ _ => .pure _

/-! ## Exports, start and segments -/

theorem blames_addExport (spaces : Spaces) (d : Draft) (hf : f.Placed P) :
    Blames P (addExport spaces d f) := by
  refine blames_need_bind hf.span (fun _ => placed_of_getElem? hf.args) fun g hg => ?_
  refine (blames_expectName hg).bind fun name _ => ?_
  refine blames_need_bind hf.span (fun _ => placed_of_getElem? hf.args) fun desc hdesc => ?_
  refine blames_expectList_bind hdesc ?_
  refine (blames_noMore (placed_drop hf.args 2)).bind fun _ _ => ?_
  split
  · exact blames_unexpected _ hdesc
  · refine Blames.bind (Names.blames_resolve _ _ hdesc.span fun g => placed_of_head? hdesc.args)
      fun index _ => ?_
    exact (blames_noMore (placed_tail hdesc.args)).bind fun _ _ => d.blames_addExport _ hf.span

theorem blames_addStart (spaces : Spaces) (d : Draft) (hf : f.Placed P) :
    Blames P (addStart spaces d f) := by
  unfold addStart
  dsimp only
  split
  · exact .error hf.span
  · refine Blames.bind (Names.blames_resolve _ _ hf.span fun g => placed_of_head? hf.args)
      fun index _ => ?_
    exact (blames_noMore (placed_tail hf.args)).bind fun _ _ => .pure _

/-- The target of a segment is blamed where it is written. -/
theorem blames_target (space : Space) (names : Names) (hitems : ∀ f ∈ items, f.Placed P) :
    Blames P (target space names items) := by
  unfold target
  split
  · next t hhead =>
    have ht := placed_of_head? hitems hhead
    exact (Names.blames_resolve space names ht.span (placed_some ht)).bind fun _ _ => .pure _
  · exact .ok _

/-- An offset that is missing is blamed on its segment. -/
theorem blames_offset (spaces : Spaces) (d : Draft) {item : Option Form} (hspan : P span)
    (hitem : ∀ f, item = some f → f.Placed P) : Blames P (offset spaces d span item) := by
  refine blames_need_bind hspan hitem fun f hf => ?_
  refine blames_expectList_bind hf (d.blames_withTypes (Body.blames_whole _ _ ?_))
  split
  · exact hf.args
  · exact List.forall_mem_singleton.mpr hf

theorem blames_addElem (spaces : Spaces) (d : Draft) (hf : f.Placed P) :
    Blames P (addElem spaces d f) := by
  refine (blames_target _ _ hf.args).bind fun ⟨table, n⟩ _ => ?_
  refine Blames.bind (blames_offset spaces d hf.span fun g => placed_of_getElem? hf.args)
    fun ⟨offset, d'⟩ _ => ?_
  refine Blames.bind (.mapM fun v hv => ?_) fun _ _ => .pure _
  exact Names.blames_resolve _ _ hf.span (placed_some (placed_drop hf.args (n + 1) v hv))

theorem blames_addData (spaces : Spaces) (d : Draft) (hf : f.Placed P) :
    Blames P (addData spaces d f) := by
  refine (blames_target _ _ hf.args).bind fun ⟨memory, n⟩ _ => ?_
  refine Blames.bind (blames_offset spaces d hf.span fun g => placed_of_getElem? hf.args)
    fun ⟨offset, d'⟩ _ => ?_
  exact (blames_expectAllBytes (placed_drop hf.args (n + 1))).bind fun _ _ => .pure _

/-- A field is blamed at itself or at a form in it. -/
theorem blames_add (spaces : Spaces) (d : Draft) (hf : f.Placed P) :
    Blames P (add spaces d f) := by
  refine blames_expectList_bind hf ?_
  split
  · exact .pure _
  · exact blames_addImport d hf
  · exact blames_addFunc spaces d hf
  · exact blames_addTable spaces d hf
  · exact blames_addMemory d hf
  · exact blames_addGlobal spaces d hf
  · exact blames_addExport spaces d hf
  · exact blames_addStart spaces d hf
  · exact blames_addElem spaces d hf
  · exact blames_addData spaces d hf
  · exact blames_unexpected _ hf

end Field

/-! ## Readers that may be abandoned -/

/-- If reading is not abandoned, a refusal is placed at a span with `P`. -/
def BlamesOrAbandons (P : Span → Prop) (x : Except Failure α) : Prop :=
  ∀ p, x = .error (.problem p) → P p.span

namespace BlamesOrAbandons

theorem pure (a : α) : BlamesOrAbandons P (Pure.pure a : Except Failure α) := by
  intro p h
  cases h

theorem error {p : Problem} (h : P p.span) :
    BlamesOrAbandons P (.error (.problem p) : Except Failure α) := by
  intro q hq
  cases hq
  exact h

theorem abandoned : BlamesOrAbandons P (.error .abandoned : Except Failure α) := by
  intro p h
  cases h

/-- What cannot be abandoned blames the same as a step of what can. -/
theorem lift {x : Except Problem α} (hx : Blames P x) : BlamesOrAbandons P (Failure.lift x) := by
  cases x with
  | error p => exact error (hx p rfl)
  | ok a => exact pure a

/-- Readers one after the other blame the same when each does. -/
theorem bind {x : Except Failure α} {g : α → Except Failure β} (hx : BlamesOrAbandons P x)
    (hg : ∀ a, x = .ok a → BlamesOrAbandons P (g a)) : BlamesOrAbandons P (x >>= g) := by
  cases x with
  | error e =>
    intro p hp
    exact hx p (by cases hp; rfl)
  | ok a => exact hg a rfl

theorem map {x : Except Failure α} {g : α → β} (hx : BlamesOrAbandons P x) :
    BlamesOrAbandons P (g <$> x) := by
  cases x with
  | error e =>
    intro p hp
    exact hx p (by cases hp; rfl)
  | ok a => exact pure (g a)

theorem bind_lift {x : Except Problem α} {g : α → Except Failure β} (hx : Blames P x)
    (hg : ∀ a, x = .ok a → BlamesOrAbandons P (g a)) :
    BlamesOrAbandons P ((liftM x : Except Failure α) >>= g) := by
  refine bind (lift hx) fun a ha => hg a ?_
  cases x with
  | error p => cases ha
  | ok a' => rw [Except.ok.inj ha]

theorem mapM {γ : Type} {g : γ → Except Failure α} {xs : List γ}
    (h : ∀ x ∈ xs, BlamesOrAbandons P (g x)) : BlamesOrAbandons P (xs.mapM g) := by
  induction xs with
  | nil => exact pure []
  | cons x xs ih =>
    rw [List.forall_mem_cons] at h
    rw [List.mapM_cons]
    exact h.1.bind fun y _ => (ih h.2).bind fun ys _ => pure (y :: ys)

end BlamesOrAbandons

/-! ## Modules -/

namespace Module

variable {fields : List Form}

/-- The type definitions of a module blame its fields, unless one of them is empty. -/
theorem blames_typesOfFields (h : ∀ f ∈ fields, f.Placed P) :
    BlamesOrAbandons P (typesOfFields fields) := by
  refine .mapM fun f hf => ?_
  split
  · next type htype =>
    -- the definitions are read apart from the other fields, but are among them
    have hf := h f (List.mem_filter.mp hf).1
    exact .lift (FuncType.blames_ofDefinition? hf htype)
  · exact .abandoned

/-- A module blames its fields. -/
theorem blames_ofFields (name : Option String) (h : ∀ f ∈ fields, f.Placed P) :
    BlamesOrAbandons P (ofFields name fields) := by
  refine .bind_lift (Spaces.blames_ofFields h) fun spaces _ => ?_
  refine .bind (blames_typesOfFields h) fun types _ => ?_
  refine .bind_lift (.foldlM (fun d f hf => ?_) _) fun draft _ => .pure _
  exact Field.blames_add spaces d (h f hf)

theorem blames_ofForm (hf : f.Placed P) : BlamesOrAbandons P (ofForm f) :=
  blames_ofFields _ (placed_drop hf.args _)

end Module

/-! ## Commands -/

theorem Const.blames_ofForm (hf : f.Placed P) : Blames P (Const.ofForm f) := by
  refine blames_expectList_bind hf ?_
  split
  · refine Blames.bind (Immediate.blames_const _ hf.span fun g => placed_of_head? hf.args)
      fun value _ => ?_
    exact (blames_noMore (placed_tail hf.args)).bind fun _ _ => .pure _
  · exact blames_unexpected _ hf

theorem Action.blames_ofForm (hf : f.Placed P) : Blames P (Action.ofForm f) := by
  refine blames_expectList_bind hf ?_
  dsimp only
  split
  · exact blames_unexpected _ hf
  · refine blames_need_bind hf.span (fun _ => placed_of_getElem? hf.args) fun g hg => ?_
    refine (blames_expectName hg).bind fun name _ => ?_
    have hargs := placed_drop hf.args
    split
    · exact Blames.bind (.mapM fun v hv => Const.blames_ofForm (hargs _ v hv)) fun _ _ => .pure _
    · exact (blames_noMore (hargs _)).bind fun _ _ => .pure _

namespace ScriptModule

theorem blames_ofForm (hf : f.Placed P) : BlamesOrAbandons P (ofForm f) := by
  have hbytes (n : Nat) := blames_expectAllBytes (placed_drop hf.args n)
  unfold ofForm
  dsimp only
  split
  · exact .bind_lift (hbytes _) fun _ _ => .pure _
  · exact .bind_lift (hbytes _) fun _ _ => .pure _
  · exact .bind (Module.blames_ofForm hf) fun _ _ => .pure _

theorem blames_ofNested (hf : f.Placed P) : BlamesOrAbandons P (ofNested f) := by
  unfold ofNested
  split
  · exact blames_ofForm hf
  · exact .error hf.span

theorem blames_ofMalformed (src : Source) (hf : f.Placed P) :
    BlamesOrAbandons P (ofMalformed src f) := by
  unfold ofMalformed
  split
  · split
    · exact blames_ofForm hf
    · exact blames_ofForm hf
    · exact .pure _
  · exact .error hf.span

end ScriptModule

namespace Command

theorem blames_message (hf : f.Placed P) : Blames P (message f) := by
  refine blames_need_bind hf.span (fun _ => placed_of_getElem? hf.args) fun g hg => ?_
  refine (blames_expectBytes hg).bind fun bytes _ => ?_
  exact (blames_noMore (placed_drop hf.args 2)).bind fun _ _ => .pure _

theorem blames_action (hf : f.Placed P) : Blames P (action f) :=
  blames_need_bind hf.span (fun _ => placed_of_getElem? hf.args) fun _ => Action.blames_ofForm

/-- An assertion about a module blames the module or its message. -/
theorem blames_onModule (make : ScriptModule → String → CommandKind)
    {read : Form → Except Failure ScriptModule} (hf : f.Placed P)
    (hread : ∀ g : Form, g.Placed P → BlamesOrAbandons P (read g)) :
    BlamesOrAbandons P (onModule make read f) := by
  refine .bind_lift (blames_need _ hf.span _) fun g hg => ?_
  have hg := placed_of_need hg fun _ => placed_of_getElem? hf.args
  exact .bind (hread g hg) fun m _ => .bind_lift (blames_message hf) fun _ _ => .pure _

theorem blames_register (hf : f.Placed P) : Blames P (register f) := by
  refine blames_need_bind hf.span (fun _ => placed_of_getElem? hf.args) fun g hg => ?_
  refine (blames_expectName hg).bind fun asName _ => ?_
  exact (blames_noMore (placed_drop hf.args _)).bind fun _ _ => .pure _

/-- A command blames its own forms, whichever it is. -/
theorem blames_kindOf (src : Source) (hf : f.Placed P) : BlamesOrAbandons P (kindOf src f) := by
  have haction := blames_action hf
  have hmessage := blames_message hf
  refine .bind (.map (.lift (blames_expectList _ hf))) fun _ _ => ?_
  split
  · exact .bind (ScriptModule.blames_ofForm hf) fun _ _ => .pure _
  · exact .lift (blames_register hf)
  · exact .bind_lift (Action.blames_ofForm hf) fun _ _ => .pure _
  · exact .bind_lift (Action.blames_ofForm hf) fun _ _ => .pure _
  · refine .bind_lift haction fun a _ => ?_
    have hconsts := placed_drop hf.args 1
    exact .bind_lift (.mapM fun v hv => Const.blames_ofForm (hconsts v hv)) fun _ _ => .pure _
  · refine .bind_lift haction fun a _ => ?_
    exact .bind_lift (blames_noMore (placed_drop hf.args 1)) fun _ _ => .pure _
  · refine .bind_lift haction fun a _ => ?_
    exact .bind_lift (blames_noMore (placed_drop hf.args 1)) fun _ _ => .pure _
  · refine .bind_lift (blames_need _ hf.span _) fun inner hinner => ?_
    have hinner := placed_of_need hinner fun _ => placed_of_getElem? hf.args
    refine .bind_lift hmessage fun text _ => ?_
    split
    · exact .bind (ScriptModule.blames_ofForm hinner) fun _ _ => .pure _
    · exact .bind_lift (Action.blames_ofForm hinner) fun _ _ => .pure _
  · exact .bind_lift haction fun a _ => .bind_lift hmessage fun _ _ => .pure _
  · exact blames_onModule _ hf fun g => ScriptModule.blames_ofNested
  · exact blames_onModule _ hf fun g => ScriptModule.blames_ofMalformed src
  · exact blames_onModule _ hf fun g => ScriptModule.blames_ofNested
  · exact blames_onModule _ hf fun g => ScriptModule.blames_ofNested
  · exact .error hf.span

/-- A group is blamed at one of its forms, or at a form inside one. -/
theorem blames_ofGroup (src : Source) {others : List Form} (hf : f.Placed P)
    (hothers : ∀ g ∈ others, g.Placed P) : BlamesOrAbandons P (ofGroup src f others) := by
  unfold ofGroup
  split
  · have hfields := Module.blames_ofFields none (List.forall_mem_cons.mpr ⟨hf, hothers⟩)
    exact .bind hfields fun _ _ => .pure _
  · exact .bind (blames_kindOf src hf) fun _ _ => .pure _

end Command

end WasmText
