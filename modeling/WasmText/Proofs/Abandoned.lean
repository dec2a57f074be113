import WasmText.Proofs.Commands
import WasmText.Proofs.Reported

/-!
# Where reading is abandoned

Reading is abandoned at one kind of form only, a type definition with an empty list in place of the
function type (`Form.IsEmptyDefinition`), and every form that is read stands somewhere in the source
(`Source.Contains`). So a source without such a form is accepted or rejected, as a module and as a
script (`Module.contains_of_abandoned`, `Script.contains_of_abandoned`).
-/

namespace WasmText

/-! ## Forms of a source -/

/-- A stretch of some items is the tokens of a form. -/
def Item.Hold (items : List Item) (f : Form) : Prop :=
  ∃ before body after, items = before ++ (body ++ after) ∧ Form.Spells body [f]

/-- A form stands in a source, at the top level or inside other forms. -/
def Source.Contains (src : Source) (f : Form) : Prop := Item.Hold src.items f

namespace Item.Hold

variable {items : List Item} {f g : Form}

theorem prepend (h : Hold items f) (front : List Item) : Hold (front ++ items) f := by
  obtain ⟨before, body, after, rfl, hbody⟩ := h
  exact ⟨front ++ before, body, after, by simp, hbody⟩

theorem append (h : Hold items f) (back : List Item) : Hold (items ++ back) f := by
  obtain ⟨before, body, after, rfl, hbody⟩ := h
  exact ⟨before, body, after ++ back, by simp, hbody⟩

theorem cons (h : Hold items f) (i : Item) : Hold (i :: items) f := h.prepend [i]

/-- What a suffix holds is held. -/
theorem of_suffix {items' : List Item} (h : Hold items f) (hsuffix : items <:+ items') :
    Hold items' f := by
  obtain ⟨front, rfl⟩ := hsuffix
  exact h.prepend front

/-- The forms that tokens spell are held by them. -/
theorem of_spells {forms : List Form} (h : Form.Spells items forms) :
    ∀ f ∈ forms, Hold items f := by
  induction h with
  | nil => simp
  | problem h ih => exact fun f hf => (ih f hf).cons _
  | @atom t items forms hleft hright h ih =>
    refine List.forall_mem_cons.mpr ⟨?_, fun f hf => (ih f hf).cons _⟩
    exact ⟨[], [.ok t], items, rfl, .atom hleft hright .nil⟩
  | @list left right body items inner forms hleft hright hbody h ihbody ih =>
    refine List.forall_mem_cons.mpr ⟨?_, fun f hf => ?_⟩
    · exact ⟨[], .ok left :: (body ++ [.ok right]), items, by simp, .list hleft hright hbody .nil⟩
    · have hrest := (ih f hf).prepend (.ok left :: (body ++ [.ok right]))
      simpa using hrest

/-- What spells a list has in it what spells the items of the list. -/
theorem of_spells_list {forms : List Form} (h : Form.Spells items forms) :
    ∀ span inner, .list span inner ∈ forms → ∀ g ∈ inner, Hold items g := by
  induction h with
  | nil => simp
  | problem h ih => exact fun span inner hmem g hg => (ih span inner hmem g hg).cons _
  | @atom t items forms hleft hright h ih =>
    intro span inner hmem g hg
    obtain heq | hmem := List.mem_cons.mp hmem
    · cases heq
    · exact (ih span inner hmem g hg).cons _
  | @list left right body items inner forms hleft hright hbody h ihbody ih =>
    intro span inner' hmem g hg
    obtain heq | hmem := List.mem_cons.mp hmem
    · cases heq
      exact ((of_spells hbody g hg).append _).cons _
    · have hrest := (ih span inner' hmem g hg).prepend (.ok left :: (body ++ [.ok right]))
      simpa using hrest

/-- The arguments of a form stand where the form does. -/
theorem args (h : Hold items f) : ∀ g ∈ f.args, Hold items g := by
  obtain ⟨before, body, after, rfl, hbody⟩ := h
  intro g hg
  cases f with
  | atom t => cases hg
  | list span inner =>
    have hinner := of_spells_list hbody span inner List.mem_cons_self g (List.mem_of_mem_tail hg)
    exact (hinner.append after).prepend before

end Item.Hold

namespace Reader

/-- The next form is a list that stands among the items that it is read from. -/
theorem exists_entry_of_next (src : Source) (fresh : Bool) (log : Log) (skipping : Bool)
    (items : List Item) {f : Form} (h : (next src fresh log skipping items).form? = some f) :
    ∃ e : Entry, e.form = f ∧ e.items <:+: items := by
  fun_induction next src fresh log skipping items with
  | case1 | case4 | case6 => cases h
  | case3 log skipping t items hleft after g hend =>
    obtain rfl := Option.some.inj h
    obtain ⟨e, rfl, hitems⟩ := exists_entry_of_readList src (log.start fresh) hleft hend
    exact ⟨e, rfl, hitems ▸ (List.prefix_append ..).isInfix⟩
  | case5 log skipping t items _ after _ _ ih =>
    obtain ⟨e, he, hpart⟩ := ih h
    have hsuffix := readList_rest_suffix src (log.start fresh) ⟨t.span, []⟩ [] items
    exact ⟨e, he, (hpart.trans hsuffix.isInfix).trans (List.suffix_cons _ _).isInfix⟩
  | case2 | case7 | case8 | case9 =>
    rename_i ih
    obtain ⟨e, he, hpart⟩ := ih h
    exact ⟨e, he, hpart.trans (List.suffix_cons _ _).isInfix⟩

/-- The next form stands among the items that it is read from. -/
theorem hold_of_next (src : Source) (fresh : Bool) (log : Log) (skipping : Bool)
    (items : List Item) {f : Form} (h : (next src fresh log skipping items).form? = some f) :
    Item.Hold items f := by
  obtain ⟨e, rfl, front, back, hitems⟩ := exists_entry_of_next src fresh log skipping items h
  have hspells : Form.Spells (.ok e.left :: (e.body ++ [.ok e.right])) [e.form] :=
    .list e.left_kind e.right_kind e.spells .nil
  have hform : Item.Hold e.items e.form :=
    (Item.Hold.of_spells hspells e.form List.mem_cons_self).prepend _
  rw [← hitems]
  exact (hform.prepend front).append back

/-- What is left after a form is the end of what there was. -/
theorem next_rest_suffix (src : Source) (fresh : Bool) (log : Log) (skipping : Bool)
    (items : List Item) : (next src fresh log skipping items).rest <:+ items := by
  fun_induction next src fresh log skipping items with
  | case1 => exact List.suffix_rfl
  | case3 log skipping t items | case4 log skipping t items | case6 log skipping t items =>
    exact (readList_rest_suffix src _ _ _ items).trans (List.suffix_cons _ _)
  | case5 log skipping t items _ after _ _ ih =>
    exact (ih.trans (readList_rest_suffix src _ _ _ items)).trans (List.suffix_cons _ _)
  | case2 | case7 | case8 | case9 => rename_i ih; exact ih.trans (List.suffix_cons _ _)

/-- A reader has some of the items of a source to read, up to their end. -/
def ReadsFrom (src : Source) (r : Reader) : Prop := r.pending <:+ src.items

/-- Every form that is read stands in the source. -/
theorem keeps_readsFrom (src : Source) : Keeps (ReadsFrom src) src.Contains := by
  intro r fresh h
  unfold Reader.read
  split
  · exact ⟨h, by simp⟩
  · refine ⟨(next_rest_suffix r.source fresh r.log false r.pending).trans h, fun f hf => ?_⟩
    exact (hold_of_next r.source fresh r.log false r.pending hf).of_suffix h

end Reader

/-! ## Definitions without a function type -/

/-- A type definition has an empty list in place of its function type. -/
def Form.IsEmptyDefinition (f : Form) : Prop :=
  f.isHeadedBy .typeKw = true ∧ ∃ span, f.args[(Field.name f.args).2]? = some (.list span [])

theorem Field.name_snd (items : List Form) :
    (name items).2 = if (items.head?.bind Form.id?).isSome then 1 else 0 := by
  unfold name
  split
  · next hn => rw [hn]; rfl
  · next hnone => rw [hnone]; rfl

/-- A type definition is not looked at when it has no items in its list. -/
theorem FuncType.isEmptyDefinition_of_ofDefinition? {f : Form} (hhead : f.isHeadedBy .typeKw = true)
    (h : ofDefinition? f = none) : f.IsEmptyDefinition := by
  unfold ofDefinition? at h
  dsimp only at h
  split at h
  · cases h
  · cases h
  · next span hitem =>
    refine ⟨hhead, span, ?_⟩
    rw [List.head?_drop] at hitem
    rw [Field.name_snd]
    exact hitem
  · cases h

/-! ## Readers that are abandoned at such a definition only -/

/-- Reading is abandoned only if `E`. -/
def AbandonedOnlyIf {α : Type} (E : Prop) (x : Except Failure α) : Prop :=
  x = .error .abandoned → E

namespace AbandonedOnlyIf

variable {α β : Type} {E : Prop}

theorem pure (a : α) : AbandonedOnlyIf E (Pure.pure a : Except Failure α) := by
  intro h
  cases h

theorem problem (p : Problem) : AbandonedOnlyIf E (.error (.problem p) : Except Failure α) := by
  intro h
  cases h

theorem lift (x : Except Problem α) : AbandonedOnlyIf E (Failure.lift x) := by
  intro h
  cases x <;> cases h

/-- Readers one after the other are abandoned only where one of them is. -/
theorem bind {x : Except Failure α} {g : α → Except Failure β} (hx : AbandonedOnlyIf E x)
    (hg : ∀ a, AbandonedOnlyIf E (g a)) : AbandonedOnlyIf E (x >>= g) := by
  cases x with
  | error e =>
    intro h
    exact hx (by cases h; rfl)
  | ok a => exact hg a

theorem discard {x : Except Failure α} (hx : AbandonedOnlyIf E x) :
    AbandonedOnlyIf E (Functor.discard x) := by
  cases x with
  | error e =>
    intro h
    exact hx (by cases h; rfl)
  | ok a => exact pure _

/-- A reader that meets problems only is passed by. -/
theorem bind_lift {x : Except Problem α} {g : α → Except Failure β}
    (hg : ∀ a, x = .ok a → AbandonedOnlyIf E (g a)) :
    AbandonedOnlyIf E ((liftM x : Except Failure α) >>= g) := by
  cases x with
  | error p => exact problem p
  | ok a => exact hg a rfl

/-- A reader run over a list is abandoned only on one of the items. -/
theorem mapM {γ : Type} {g : γ → Except Failure α} {xs : List γ}
    (h : ∀ x ∈ xs, AbandonedOnlyIf E (g x)) : AbandonedOnlyIf E (xs.mapM g) := by
  induction xs with
  | nil => exact pure []
  | cons x xs ih =>
    rw [List.forall_mem_cons] at h
    rw [List.mapM_cons]
    exact h.1.bind fun y => (ih h.2).bind fun ys => pure (y :: ys)

end AbandonedOnlyIf

/-- Some form with `P` is a definition without a function type. -/
def Form.SomeEmptyDefinition (P : Form → Prop) : Prop := ∃ f, P f ∧ f.IsEmptyDefinition

open Form (SomeEmptyDefinition)

variable {P : Form → Prop} {f : Form}

namespace Module

variable {fields : List Form}

/-- Reading the types of a module is abandoned only on an empty definition. -/
theorem abandonedOnlyIf_typesOfFields (h : ∀ f ∈ fields, P f) :
    AbandonedOnlyIf (SomeEmptyDefinition P) (typesOfFields fields) := by
  refine .mapM fun f hf => ?_
  obtain ⟨hmem, hhead⟩ := List.mem_filter.mp hf
  split
  · exact .lift _
  · next hnone =>
    exact fun _ => ⟨f, h f hmem, FuncType.isEmptyDefinition_of_ofDefinition? hhead hnone⟩

/-- A module is abandoned only on an empty definition, as nothing is once the types are read. -/
theorem abandonedOnlyIf_ofFields (name : Option String) (h : ∀ f ∈ fields, P f) :
    AbandonedOnlyIf (SomeEmptyDefinition P) (ofFields name fields) := by
  refine .bind_lift fun spaces _ => ?_
  exact .bind (abandonedOnlyIf_typesOfFields h) fun types => .bind_lift fun draft _ => .pure _

theorem abandonedOnlyIf_ofForm (h : ∀ g ∈ f.args, P g) :
    AbandonedOnlyIf (SomeEmptyDefinition P) (ofForm f) :=
  abandonedOnlyIf_ofFields _ fun g hg => h g (List.mem_of_mem_drop hg)

end Module

/-! What follows is for a `P` that goes over from a form to its arguments. -/

section

variable (hP : ∀ f, P f → ∀ g ∈ f.args, P g)

include hP

theorem Module.abandonedOnlyIf_ofForms {forms : List Form} (h : ∀ f ∈ forms, P f) :
    AbandonedOnlyIf (SomeEmptyDefinition P) (ofForms forms) := by
  match forms with
  | [] => exact abandonedOnlyIf_ofFields none h
  | [f] =>
    rw [ofForms]
    split
    · exact abandonedOnlyIf_ofForm (hP f (h f List.mem_cons_self))
    · exact abandonedOnlyIf_ofFields none h
  | f :: g :: fs =>
    rw [ofForms]
    split
    · exact .problem _
    · exact abandonedOnlyIf_ofFields none h

namespace ScriptModule

theorem abandonedOnlyIf_ofForm (hf : P f) :
    AbandonedOnlyIf (SomeEmptyDefinition P) (ofForm f) := by
  unfold ofForm
  dsimp only
  split
  · exact .bind_lift fun _ _ => .pure _
  · exact .bind_lift fun _ _ => .pure _
  · exact .bind (Module.abandonedOnlyIf_ofForm (hP f hf)) fun _ => .pure _

theorem abandonedOnlyIf_ofNested (hf : P f) :
    AbandonedOnlyIf (SomeEmptyDefinition P) (ofNested f) := by
  unfold ofNested
  split
  · exact abandonedOnlyIf_ofForm hP hf
  · exact .problem _

theorem abandonedOnlyIf_ofMalformed (src : Source) (hf : P f) :
    AbandonedOnlyIf (SomeEmptyDefinition P) (ofMalformed src f) := by
  unfold ofMalformed
  split
  · split
    · exact abandonedOnlyIf_ofForm hP hf
    · exact abandonedOnlyIf_ofForm hP hf
    · exact .pure _
  · exact .problem _

end ScriptModule

namespace Command

/-- An assertion about a module is abandoned only where the module is. -/
theorem abandonedOnlyIf_onModule (make : ScriptModule → String → CommandKind)
    {read : Form → Except Failure ScriptModule} (hf : P f)
    (hread : ∀ g, P g → AbandonedOnlyIf (SomeEmptyDefinition P) (read g)) :
    AbandonedOnlyIf (SomeEmptyDefinition P) (onModule make read f) := by
  refine .bind_lift fun g hneed => ?_
  have hg := hP f hf g (List.mem_of_getElem? (Form.eq_some_of_need hneed))
  exact .bind (hread g hg) fun m => .bind_lift fun _ _ => .pure _

/-- A command is abandoned only on an empty definition in one of its forms. -/
theorem abandonedOnlyIf_kindOf (src : Source) (hf : P f) :
    AbandonedOnlyIf (SomeEmptyDefinition P) (kindOf src f) := by
  refine .bind (.discard (.lift _)) fun _ => ?_
  split
  · exact .bind (ScriptModule.abandonedOnlyIf_ofForm hP hf) fun _ => .pure _
  · exact .lift _
  · exact .bind_lift fun _ _ => .pure _
  · exact .bind_lift fun _ _ => .pure _
  · exact .bind_lift fun _ _ => .bind_lift fun _ _ => .pure _
  · exact .bind_lift fun _ _ => .bind_lift fun _ _ => .pure _
  · exact .bind_lift fun _ _ => .bind_lift fun _ _ => .pure _
  · refine .bind_lift fun inner hneed => .bind_lift fun text _ => ?_
    have hinner := hP f hf inner (List.mem_of_getElem? (Form.eq_some_of_need hneed))
    split
    · exact .bind (ScriptModule.abandonedOnlyIf_ofForm hP hinner) fun _ => .pure _
    · exact .bind_lift fun _ _ => .pure _
  · exact .bind_lift fun _ _ => .bind_lift fun _ _ => .pure _
  · exact abandonedOnlyIf_onModule hP _ hf fun g => ScriptModule.abandonedOnlyIf_ofNested hP
  · exact abandonedOnlyIf_onModule hP _ hf fun g => ScriptModule.abandonedOnlyIf_ofMalformed hP src
  · exact abandonedOnlyIf_onModule hP _ hf fun g => ScriptModule.abandonedOnlyIf_ofNested hP
  · exact abandonedOnlyIf_onModule hP _ hf fun g => ScriptModule.abandonedOnlyIf_ofNested hP
  · exact .problem _

theorem abandonedOnlyIf_ofGroup (src : Source) {others : List Form} (hf : P f)
    (hothers : ∀ g ∈ others, P g) :
    AbandonedOnlyIf (SomeEmptyDefinition P) (ofGroup src f others) := by
  unfold ofGroup
  split
  · have hfields := Module.abandonedOnlyIf_ofFields none (List.forall_mem_cons.mpr ⟨hf, hothers⟩)
    exact .bind hfields fun _ => .pure _
  · exact .bind (abandonedOnlyIf_kindOf hP src hf) fun _ => .pure _

end Command

end

/-! ## Sources that are abandoned -/

namespace Reader

variable {src : Source} {r : Reader}

theorem readsFrom_ofSource (src : Source) : (ofSource src).ReadsFrom src := List.suffix_rfl

theorem ReadsFrom.report (h : r.ReadsFrom src) (p : Problem) : (r.report p).ReadsFrom src := h

/-- A command leaves a reader among the items of the source, and is abandoned only at one of its
forms. -/
theorem ReadsFrom.command (h : r.ReadsFrom src) {f : Form} (hf : src.Contains f) :
    (r.command f).2.ReadsFrom src ∧
      AbandonedOnlyIf (SomeEmptyDefinition src.Contains) (r.command f).1 := by
  rw [command_eq]
  obtain ⟨hreader, hothers⟩ := (keeps_readsFrom src).readOthers h f
  exact ⟨hreader, Command.abandonedOnlyIf_ofGroup (fun _ => Item.Hold.args) r.source hf hothers⟩

/-- Reading commands is abandoned only when the source has an empty definition. -/
theorem ReadsFrom.contains_of_readCommands (h : r.ReadsFrom src)
    (hnone : r.readCommands.1 = none) : SomeEmptyDefinition src.Contains := by
  fun_induction Reader.finalLog r with
  | case1 r hread =>
    rw [readCommands_of_none (Prod.ext hread rfl)] at hnone
    cases hnone
  | case2 r f hf c hc ih =>
    have hread := keeps_readsFrom src r true h
    rw [readCommands_of_some (Prod.ext hf rfl), hc] at hnone
    exact ih (hread.1.command (hread.2 f hf)).1 (Option.map_eq_none_iff.mp hnone)
  | case3 r f hf p hp ih =>
    have hread := keeps_readsFrom src r true h
    rw [readCommands_of_some (Prod.ext hf rfl), hp] at hnone
    exact ih ((hread.1.command (hread.2 f hf)).1.report p) hnone
  | case4 r f hf hab =>
    have hread := keeps_readsFrom src r true h
    exact (hread.1.command (hread.2 f hf)).2 hab

end Reader

/-- A source that is abandoned as a module has a definition without a function type. -/
theorem Module.contains_of_abandoned {src : Source} (h : (parse src).outcome = .abandoned) :
    SomeEmptyDefinition src.Contains := by
  have hforms := ((Reader.keeps_readsFrom src).readCommand (Reader.readsFrom_ofSource src)).2
  unfold parse at h
  dsimp only at h
  split at h
  · split at h <;> cases h
  · cases h
  · next hab => exact abandonedOnlyIf_ofForms (fun _ => Item.Hold.args) hforms hab

/-- A source that is abandoned as a script has a definition without a function type. -/
theorem Script.contains_of_abandoned {src : Source} (h : (parse src).outcome = .abandoned) :
    SomeEmptyDefinition src.Contains := by
  unfold parse at h
  split at h
  · split at h <;> cases h
  · next hnone =>
    exact (Reader.readsFrom_ofSource src).contains_of_readCommands (congrArg Prod.fst hnone)

end WasmText
