import WasmText.Proofs.Accepted
import WasmText.Proofs.FieldTypes

/-!
# What holds of all forms that are read

A body is read from forms by seven readers that call each other. What is to be known of all these
forms is often the same from the outside in: it holds of a form once it holds of the forms in it,
each in the scope it is read in. `Body.FormInvariant` lists what there is to show, and
`FormInvariant.of_whole` is the induction over the readers, made once.

A field of a module is a few lists behind keywords around bodies and around forms without
instructions (`Form.Layered`), so what holds of bodies reaches the fields (`Module.layered`).
-/

namespace WasmText

open Form

/-! ## Parts of a row -/

namespace Form

variable {p : Form → Prop} {f : Form} {items : List Form} {m n : Nat}

/-- Something holds of the first `n` of some forms. -/
def TakeAll (p : Form → Prop) (n : Nat) (items : List Form) : Prop := ∀ f ∈ items.take n, p f

theorem takeAll_zero (p : Form → Prop) (items : List Form) : TakeAll p 0 items := by
  simp [TakeAll]

theorem TakeAll.cons (hf : p f) (h : TakeAll p n items) : TakeAll p (n + 1) (f :: items) :=
  List.forall_mem_cons.mpr ⟨hf, h⟩

/-- Items with a property followed by items with it. -/
theorem TakeAll.add (hm : TakeAll p m items) (hn : TakeAll p n (items.drop m)) :
    TakeAll p (m + n) items := by
  intro f hf
  rw [List.take_add, List.mem_append] at hf
  exact hf.elim (hm f) (hn f)

theorem TakeAll.imp {q : Form → Prop} (h : TakeAll p n items) (hpq : ∀ f, p f → q f) :
    TakeAll q n items :=
  fun f hf => hpq f (h f hf)

/-- What is taken and what is left is all there is. -/
theorem TakeAll.all (h : TakeAll p n items) (hrest : ∀ f ∈ items.drop n, p f) :
    ∀ f ∈ items, p f := by
  intro f hf
  rw [← List.take_append_drop n items, List.mem_append] at hf
  exact hf.elim (h f) (hrest f)

/-- Items are inert when those taken are, and nothing is left. -/
theorem InertTake.all_of_drop {items : List Form} {n : Nat} (h : InertTake n items)
    (hrest : items.drop n = []) : ∀ f ∈ items, f.Inert := by
  rwa [InertTake, List.take_of_length_le (List.drop_eq_nil_iff.mp hrest)] at h

/-- Inert items have what inert forms have. -/
theorem InertTake.takeAll (h : InertTake n items) (hp : ∀ f, f.Inert → p f) : TakeAll p n items :=
  fun f hf => hp f (h f hf)

/-- An arm of a folded conditional. -/
def IsArm (f : Form) : Prop := f.isHeadedBy .thenKw = true ∨ f.headOpcode? = some .elseOp

end Form

/-! ## Bodies -/

namespace Body

/-- What has to be shown of a property of forms and scopes for it to hold of all forms of a body:
it holds of atoms and of what is no instruction, it does not depend on labels, it is kept from one
level of nesting to the level around it, and it goes from what stands in a folded instruction, or in
an arm of it, to the instruction. -/
structure FormInvariant (P : Scope → Form → Prop) : Prop where
  atom (sc : Scope) (t : Token) : P sc (.atom t)
  inert (sc : Scope) {f : Form} (h : f.Inert) : P sc f
  enter {sc : Scope} {kind : LabelKind} {name : Option String} {sig : ValType} {f : Form}
    (h : P (sc.enter kind name sig) f) : P sc f
  enterElse {sc other : Scope} {span : Span} {f : Form}
    (hother : sc.enterElse span = .ok other) (h : P other f) : P sc f
  descend {sc deeper : Scope} {span : Span} {f : Form}
    (hdeeper : sc.descend span = .ok deeper) (h : P deeper f) : P sc f
  folded {sc deeper : Scope} {f : Form} {t t' : TypeTable} {is : List Instr}
    (hread : (Body.folded sc f).run t = .ok (is, t')) (hdeeper : sc.descend f.span = .ok deeper)
    (hargs : ∀ g ∈ f.args, P deeper g ∨ g.IsArm ∧ ∀ x ∈ g.args, P deeper x) : P sc f

namespace FormInvariant

variable {P : Scope → Form → Prop}

/-- The end of a flat block has what an invariant says. -/
theorem of_flatEnd (inv : FormInvariant P) {sc : Scope} {name : Option String} {span : Span}
    {items : List Form} {n : Nat} (h : Block.flatEnd name span items = .ok n) :
    TakeAll (P sc) n items := by
  obtain ⟨f, rest, m, rfl, hend, rfl, hlabel⟩ := Block.takes_of_flatEnd h
  have hlabel := (Block.inertTake_of_repeatedLabel hlabel).takeAll fun f => inv.inert sc
  obtain ⟨t⟩ | ⟨place, inside⟩ := f
  · rw [Nat.add_comm]
    exact .cons (inv.atom sc t) hlabel
  · cases hend

mutual

/-- The items of a sequence have what an invariant says. The cases are those of the readers, here
and below. -/
theorem of_sequence (inv : FormInvariant P) {sc : Scope} {t t' : TypeTable} {is : List Instr}
    {n : Nat} (items : List Form) (h : (sequence sc items).run t = .ok ((is, n), t')) :
    TakeAll (P sc) n items := by
  cases sequenceAs_of_run h with
  | nil | delimiter => exact takeAll_zero _ _
  | @folded place inside rest _ _ _ _ _ hfront hothers =>
    exact .cons (inv.of_folded (.list place inside) hfront) (inv.of_sequence rest hothers)
  | @block a rest _ _ _ _ k _ _ _ _ _ hflat hothers =>
    have hblock := inv.of_flat rest hflat
    exact .cons (inv.atom sc a) (hblock.add (inv.of_sequence (rest.drop k) hothers))
  | @plain a rest _ _ _ k _ _ _ _ _ _ _ hread hothers =>
    have himmediates := (Plain.readAs_of_read hread).inertTake.takeAll fun f => inv.inert sc
    exact .cons (inv.atom sc a) (himmediates.add (inv.of_sequence (rest.drop k) hothers))
termination_by 2 * sizeOf items
decreasing_by
  all_goals subst_vars
  · exact two_mul_sizeOf_head_lt _ rest
  · exact Nat.lt_of_succ_lt (two_mul_sizeOf_drop_lt _ 0 rest)
  · exact two_mul_sizeOf_drop_lt _ 0 rest
  · exact Nat.lt_of_succ_lt (two_mul_sizeOf_drop_lt _ _ rest)
  · exact Nat.lt_of_succ_lt (two_mul_sizeOf_drop_lt _ _ rest)

/-- The items of a flat block have what an invariant says. -/
theorem of_flat (inv : FormInvariant P) {sc : Scope} {t t' : TypeTable} {kind : BlockKind}
    {place : Span} {i : Instr} {n : Nat} (items : List Form)
    (h : (flat sc kind place items).run t = .ok ((i, n), t')) : TakeAll (P sc) n items := by
  obtain @⟨deeper, name, sig, _, _, k, m, _, _, _, _, hheader, hdeeper, hbody, helse, hlast⟩ :=
    flatBlockAs_of_run h
  have hout (f : Form) (hf : P (deeper.enter kind.label name sig) f) : P sc f :=
    inv.descend hdeeper (inv.enter hf)
  have hheader := (Block.inertTake_of_header hheader).takeAll fun f => inv.inert sc
  have hbody := (inv.of_sequence (items.drop k) hbody).imp hout
  have helse := (inv.of_otherArm (items.drop (k + m)) helse).imp hout
  exact ((hheader.add hbody).add helse).add (inv.of_flatEnd hlast)
termination_by 2 * sizeOf items + 1
decreasing_by
  all_goals exact Nat.lt_succ_of_le (Nat.mul_le_mul_left 2 (sizeOf_drop_le _ items))

theorem of_otherArm (inv : FormInvariant P) {sc : Scope} {t t' : TypeTable} {kind : BlockKind}
    {name : Option String} {is : List Instr} {n : Nat} (items : List Form)
    (h : (otherArm sc kind name items).run t = .ok ((is, n), t')) : TakeAll (P sc) n items := by
  cases otherArmAs_of_run h with
  | none => exact takeAll_zero _ _
  | @arm _ rest _ _ k _ _ _ hword hlabel hother hbody =>
    have hfirst := inv.inert sc (.leaf (leaf_of_else hword))
    have hlabel := (Block.inertTake_of_repeatedLabel hlabel).takeAll fun f => inv.inert sc
    have hbody := (inv.of_sequence (rest.drop k) hbody).imp fun _ => inv.enterElse hother
    rw [Nat.add_assoc, Nat.add_comm]
    exact .cons hfirst (hlabel.add hbody)
termination_by 2 * sizeOf items
decreasing_by
  subst_vars
  exact Nat.lt_of_succ_lt (two_mul_sizeOf_drop_lt _ _ rest)

/-- A folded instruction has what an invariant says. -/
theorem of_folded (inv : FormInvariant P) {sc : Scope} {t t' : TypeTable} {is : List Instr}
    (f : Form) (h : (Body.folded sc f).run t = .ok (is, t')) : P sc f := by
  have hall {deeper : Scope} {rest : List Form} {n : Nat} (hn : InertTake n rest)
      (hrest : ∀ g ∈ rest.drop n, P deeper g ∨ g.IsArm ∧ ∀ x ∈ g.args, P deeper x) :
      ∀ g ∈ rest, P deeper g ∨ g.IsArm ∧ ∀ x ∈ g.args, P deeper x :=
    (hn.takeAll fun _ hg => .inl (inv.inert deeper hg)).all hrest
  match f with
  | .atom _ | .list _ [] | .list _ (.list _ _ :: _) => cases foldedAs_of_run h
  | .list place (.atom a :: rest) =>
    -- what is no instruction stands in front, and the others are read in the deeper scope
    cases foldedAs_of_run h with
    | @plain deeper _ _ _ op p n s t' groups hdeeper _ _ _ _ hread hgroups =>
      exact inv.folded h hdeeper (hall (Plain.readAs_of_read hread).inertTake fun g hg =>
        .inl (inv.of_operands (rest.drop n) hgroups g hg))
    | @cond deeper _ _ _ op name sig n is t' hdeeper _ _ hheader harms =>
      exact inv.folded h hdeeper
        (hall (Block.inertTake_of_header hheader) (inv.of_conditional (rest.drop n) harms))
    | @block deeper _ _ _ op kind name sig n body t' hdeeper _ _ _ hheader hbody =>
      exact inv.folded h hdeeper (hall (Block.inertTake_of_header hheader) fun g hg =>
        .inl (inv.enter (inv.of_whole (rest.drop n) hbody g hg)))
termination_by 2 * sizeOf f
decreasing_by
  · exact Nat.lt_of_succ_lt (two_mul_sizeOf_drop_lt_list _ _ _ _)
  · exact Nat.lt_of_succ_lt (two_mul_sizeOf_drop_lt_list _ _ _ _)
  · exact two_mul_sizeOf_drop_lt_list _ _ _ _

/-- Operands have what an invariant says. -/
theorem of_operands (inv : FormInvariant P) {sc : Scope} {t t' : TypeTable}
    {groups : List (List Instr)} (items : List Form)
    (h : (operands sc items).run t = .ok (groups, t')) : ∀ f ∈ items, P sc f := by
  cases operandsAs_of_run h with
  | nil => simp
  | @cons place inside rest _ _ _ _ hgroup hgroups =>
    exact List.forall_mem_cons.mpr
      ⟨inv.of_folded (.list place inside) hgroup, inv.of_operands rest hgroups⟩
termination_by 2 * sizeOf items
decreasing_by
  all_goals subst_vars
  · exact two_mul_sizeOf_head_lt _ rest
  · exact Nat.lt_of_succ_lt (two_mul_sizeOf_drop_lt _ 0 rest)

/-- What follows the header of a folded conditional has what an invariant says. -/
theorem of_conditional (inv : FormInvariant P) {sc : Scope} {t t' : TypeTable}
    {name : Option String} {sig : ValType} {span : Span} {is : List Instr} (items : List Form)
    (h : (conditional sc name sig span items).run t = .ok (is, t')) :
    ∀ f ∈ items, P sc f ∨ f.IsArm ∧ ∀ x ∈ f.args, P sc x := by
  cases conditionalAs_of_run h with
  | @one f _ _ hthen hbody =>
    have hfirst := inv.of_arm f hbody
    rw [List.forall_mem_singleton]
    exact .inr ⟨.inl hthen, fun x hx => inv.enter (hfirst x hx)⟩
  | @two f g _ _ _ _ _ hthen hbody hword hother helse =>
    have hfirst := inv.of_arm f hbody
    have hsecond := inv.of_arm g helse
    rw [List.forall_mem_cons, List.forall_mem_singleton]
    exact ⟨.inr ⟨.inl hthen, fun x hx => inv.enter (hfirst x hx)⟩,
      .inr ⟨.inr hword, fun x hx => inv.enter (inv.enterElse hother (hsecond x hx))⟩⟩
  | @condition f rest _ _ _ _ _ hgroup _ hothers =>
    exact List.forall_mem_cons.mpr
      ⟨.inl (inv.of_folded f hgroup), inv.of_conditional rest hothers⟩
termination_by 2 * sizeOf items
decreasing_by
  all_goals subst_vars
  · exact two_mul_sizeOf_head_lt _ _
  · exact two_mul_sizeOf_head_lt _ _
  · exact two_mul_sizeOf_second_lt _ _ _
  · exact two_mul_sizeOf_head_lt _ rest
  · exact Nat.lt_of_succ_lt (two_mul_sizeOf_drop_lt _ 0 rest)

/-- The items of an arm have what an invariant says. -/
theorem of_arm (inv : FormInvariant P) {sc : Scope} {t t' : TypeTable} {is : List Instr}
    (f : Form) (h : (arm sc f).run t = .ok (is, t')) : ∀ g ∈ f.args, P sc g := by
  rw [arm_eq_whole] at h
  exact inv.of_whole f.args h
termination_by 2 * sizeOf f
decreasing_by exact two_mul_sizeOf_args_lt f

/-- What goes from the inside out holds of all forms of a whole body. -/
theorem of_whole (inv : FormInvariant P) {sc : Scope} {t t' : TypeTable} {is : List Instr}
    (items : List Form) (h : (whole sc items).run t = .ok (is, t')) : ∀ f ∈ items, P sc f := by
  obtain ⟨n, hbody, hnil⟩ := sequence_of_whole h
  refine (inv.of_sequence items hbody).all ?_
  rw [hnil]
  simp
termination_by 2 * sizeOf items + 1

end

end FormInvariant

/-- A form of a body that is read. -/
def IsRead (f : Form) : Prop :=
  ∃ sc items t is t', (whole sc items).run t = .ok (is, t') ∧ f ∈ items

/-- A form that is read in a body has what an invariant says, in some scope. -/
theorem FormInvariant.of_isRead {P : Scope → Form → Prop} (inv : FormInvariant P) {f : Form}
    (h : IsRead f) : ∃ sc, P sc f := by
  obtain ⟨sc, items, t, is, t', hrun, hf⟩ := h
  exact ⟨sc, inv.of_whole items hrun f hf⟩

end Body

/-! ## Layers of a field -/

namespace Form

/-- At most `k` lists behind keywords, one in the other, around forms without instructions and forms
of which `p` holds. -/
inductive Layered (p : Form → Prop) : Nat → Form → Prop
  | inert {k : Nat} {f : Form} (h : f.Inert) : Layered p k f
  | body {k : Nat} {f : Form} (h : p f) : Layered p k f
  | list {k : Nat} {f : Form} {word : Keyword} (hhead : f.headKeyword? = some word)
    (hargs : ∀ g ∈ f.args, Layered p k g) : Layered p (k + 1) f

theorem Layered.imp {p q : Form → Prop} {k : Nat} {f : Form} (hpq : ∀ g, p g → q g)
    (h : f.Layered p k) : f.Layered q k := by
  induction h with
  | inert h => exact .inert h
  | body h => exact .body (hpq _ h)
  | list hhead _ ih => exact .list hhead ih

end Form

namespace Field

variable {p : Form → Prop} {span : Span} {items : List Form} {f : Form} {d : Draft} {n k : Nat}

/-- The limits of a memory have no words. -/
theorem inertTake_of_limits {type : Limits} (h : limits span items = .ok (type, n)) :
    InertTake n items := by
  obtain ⟨first, hfirst, h⟩ := Success.of_bind h
  split at h
  · cases h
  · next t hnumber =>
    have hleast := inertTake_leaf ⟨first, eq_some_of_need hfirst,
      leaf_of_isSome (by simp [hnumber])⟩
    obtain ⟨_, -, h⟩ := Success.of_bind h
    split at h
    · obtain ⟨-, rfl⟩ := Prod.mk.inj (Success.of_pure h)
      exact hleast
    · next t' hmore =>
      obtain ⟨_, -, h⟩ := Success.of_bind h
      obtain ⟨-, rfl⟩ := Prod.mk.inj (Success.of_pure h)
      obtain ⟨g, hg, hnumber'⟩ := Option.bind_eq_some_iff.mp hmore
      rw [← List.drop_one] at hg
      exact hleast.add (inertTake_leaf ⟨g, hg, leaf_of_isSome (by simp [hnumber'])⟩)

theorem inertTake_of_tableType {type : TableType} (h : tableType span items = .ok (type, n)) :
    InertTake n items := by
  obtain ⟨⟨_, m⟩, hlimits, h⟩ := Success.of_bind h
  obtain ⟨_, helem, h⟩ := Success.of_bind h
  obtain ⟨-, rfl⟩ := Prod.mk.inj (Success.of_pure h)
  cases hfirst : (items.drop m).head? with
  | none =>
    rw [hfirst] at helem
    cases helem
  | some g =>
    rw [hfirst] at helem
    exact (inertTake_of_limits hlimits).add (inertTake_leaf ⟨g, hfirst, leaf_of_elemType helem⟩)

/-- The description of an import has no words. -/
theorem DescAs.inert {t t' : TypeTable} {desc : ImportDesc} (h : DescAs span items t desc t') :
    ∀ f ∈ items, f.Inert := by
  cases h with
  | func huse hrest => exact huse.inertTake.all_of_drop hrest
  | table htype hrest => exact (inertTake_of_tableType htype).all_of_drop hrest
  | memory htype hrest => exact (inertTake_of_limits htype).all_of_drop hrest
  | global htype hrest =>
    rw [← List.drop_one] at hrest
    exact (inertTake_head (inert_of_globalType htype)).all_of_drop hrest

/-- A field with an opening holds what follows the opening. -/
theorem Opens.layered {kind : ExternKind} {o : Opening} {es : List Export} {word : Keyword}
    (h : Opens kind d f o es) (hhead : f.headKeyword? = some word)
    (hrest : ∀ g ∈ o.rest, g.Layered p k) : f.Layered p (k + 1) := by
  obtain ⟨n, htake, heq⟩ := h.exists_inertTake
  rw [heq] at hrest
  exact .list hhead ((htake.takeAll fun _ => .inert).all hrest)

/-- What stands before and behind one form are no instructions. -/
theorem layered_of_item {item : Form} (htake : InertTake n items) (hitem : items[n]? = some item)
    (hlayered : item.Layered p k) (hrest : ∀ g ∈ items.drop (n + 1), g.Inert) :
    ∀ g ∈ items, g.Layered p k := by
  obtain ⟨hn, rfl⟩ := List.getElem?_eq_some_iff.mp hitem
  refine (htake.takeAll fun _ => .inert).all ?_
  rw [List.drop_eq_getElem_cons hn]
  exact List.forall_mem_cons.mpr ⟨hlayered, fun g hg => .inert (hrest g hg)⟩

/-- An offset may stand in a list of its own. -/
theorem layered_of_offset {item : Form}
    (h : ∀ g ∈ if item.isHeadedBy .offsetKw then item.args else [item], p g) :
    item.Layered p (k + 1) := by
  split at h
  · next hoffset => exact .list (isHeadedBy_iff.mp hoffset) fun g hg => .body (h g hg)
  · exact .body (List.forall_mem_singleton.mp h)

/-- A type definition has its types two layers down. -/
theorem layered_of_definition {sig : FuncType} (hhead : f.headKeyword? = some .typeKw)
    (h : FuncType.ofDefinition? f = some (.ok sig)) : f.Layered p 2 := by
  cases definedAs_of_ofDefinition? h with
  | @func span head parts _ _ _ hafter hfunc hread hrest =>
    have hparts := (Signature.inertTake_of_read hread).all_of_drop hrest
    have htype : (Form.list span (head :: parts)).Layered p 1 :=
      .list hfunc fun g hg => .inert (hparts g hg)
    refine .list hhead (((inertTake_of_name f.args).takeAll fun _ => .inert).all ?_)
    rw [show f.args.drop (name f.args).2 = _ from hafter]
    exact List.forall_mem_singleton.mpr htype

end Field

namespace Part

open WasmText.Field

/-- What is read into a draft is a field. -/
theorem ReadFrom.isField {spaces : Spaces} {d : Draft} {f : Form} {part : Part}
    {types : TypeTable} (h : part.ReadFrom spaces d f types) : f.isField = true := by
  have hfield {word : Keyword} (hhead : f.headKeyword? = some word) (hword : word.isField = true) :
      f.isField = true := by
    rw [Form.isField, hhead]
    exact hword
  cases h with
  | inlineImport hkind =>
    have hhead := Spaces.eq_of_kindOf? hkind
    refine hfield hhead ?_
    split <;> rfl
  | type hhead | «import» hhead | func hhead | table hhead | tableOfElems hhead | memory hhead
  | memoryOfData hhead | global hhead | «export» hhead | start hhead | elem hhead | data hhead =>
    exact hfield hhead rfl

/-- Whether a field that adds a part has a body. Elements and data have an offset only in a field of
their own. -/
def HasBody (f : Form) (part : Part) : Prop :=
  part.funcs ≠ [] ∨ part.globals ≠ [] ∨ (part.elems ≠ [] ∧ f.headKeyword? = some .elemKw) ∨
    (part.data ≠ [] ∧ f.headKeyword? = some .dataKw)

/-- A field is two lists at most around the forms of its body, if it has one. -/
theorem ReadFrom.layered {spaces : Spaces} {d : Draft} {f : Form} {part : Part}
    {types : TypeTable} (h : part.ReadFrom spaces d f types)
    (htype : f.headKeyword? ≠ some .typeKw) :
    f.Layered (fun g => Body.IsRead g ∧ part.HasBody f) 2 := by
  have hinert {p : Form → Prop} {k : Nat} {items : List Form} (hitems : ∀ g ∈ items, g.Inert) :
      ∀ g ∈ items, g.Layered p k := fun g hg => .inert (hitems g hg)
  -- what stands beside a body is inert, and a body stands in the field itself or in its offset
  cases h with
  | type hhead => exact absurd hhead htype
  | @«import» item names desc t hhead hitem hnames hmore hkind hdesc horder =>
    obtain ⟨first, second, hfirst, hsecond, hleaf, hleaf'⟩ := leaf_of_importNames hnames
    have htake : InertTake 2 f.args := by
      refine (inertTake_leaf ⟨first, ?_, hleaf⟩).add (inertTake_leaf ⟨second, ?_, hleaf'⟩)
      · rw [List.head?_eq_getElem?, hfirst]
      · rw [List.head?_drop, hsecond]
    refine .list hhead (layered_of_item htake hitem (.list (Spaces.eq_of_kindOf? hkind)
      (((inertTake_of_name item.args).takeAll fun _ => .inert).all (hinert hdesc.inert))) ?_)
    rw [hmore]
    simp
  | inlineImport hkind hopen himport hdesc horder =>
    exact hopen.layered (Spaces.eq_of_kindOf? hkind) (hinert hdesc.inert)
  | @func o es use n params names decls rest locals body t t' hhead hopen himport huse hdecls hrest
      hparams hlocals hbody =>
    have htake := huse.inertTake.add (inertTake_of_locals hdecls hlocals)
    rw [hrest, List.drop_drop] at hbody
    refine hopen.layered hhead ((htake.takeAll fun _ => .inert).all fun g hg => .body ?_)
    exact ⟨⟨_, _, _, _, _, hbody, hg⟩, .inl (by simp)⟩
  | table hhead hopen himport hlimits hrest =>
    exact hopen.layered hhead (hinert ((inertTake_of_tableType hlimits).all_of_drop hrest))
  | tableOfElems hhead hopen himport hrest helem hinit hmembers =>
    refine hopen.layered hhead (hinert ?_)
    rw [hrest]
    exact List.forall_mem_cons.mpr ⟨.leaf (leaf_of_elemType helem),
      List.forall_mem_singleton.mpr (.list hinit (leaf_of_mapM_resolve hmembers))⟩
  | memory hhead hopen himport hlimits hrest =>
    exact hopen.layered hhead (hinert ((inertTake_of_limits hlimits).all_of_drop hrest))
  | memoryOfData hhead hopen himport hrest hinit hbytes hpages =>
    refine hopen.layered hhead (hinert ?_)
    rw [hrest]
    exact List.forall_mem_singleton.mpr (.list hinit (leaf_of_expectAllBytes hbytes))
  | global hhead hopen himport hglobal hinit =>
    have htake := inertTake_head (inert_of_globalType hglobal)
    rw [← List.drop_one] at hinit
    refine hopen.layered hhead ((htake.takeAll fun _ => .inert).all fun g hg => .body ?_)
    exact ⟨⟨_, _, _, _, _, hinit, hg⟩, .inr (.inl (by simp))⟩
  | «export» hhead hargs hname hkind hdesc href =>
    obtain ⟨_, hsome, hleaf⟩ := Names.leaf_of_resolve href
    cases hsome
    refine .list hhead (hinert ?_)
    rw [hargs]
    refine List.forall_mem_cons.mpr ⟨.leaf (leaf_of_expectName hname),
      List.forall_mem_singleton.mpr (.list (Spaces.eq_of_kindOf? hkind) ?_)⟩
    rw [hdesc]
    exact List.forall_mem_singleton.mpr hleaf
  | start hhead hfirst hargs href =>
    obtain ⟨_, hsome, hleaf⟩ := Names.leaf_of_resolve href
    cases hsome
    refine .list hhead (hinert ?_)
    rw [hargs]
    exact List.forall_mem_singleton.mpr (.leaf hleaf)
  | elem hhead htarget hitem hoffsetList hoffset hinit =>
    refine .list hhead (layered_of_item (inertTake_of_target htarget) hitem
      (layered_of_offset fun g hg => ⟨⟨_, _, _, _, _, hoffset, hg⟩, ?_⟩)
      fun g hg => .leaf (leaf_of_mapM_resolve hinit g hg))
    exact .inr (.inr (.inl ⟨by simp, hhead⟩))
  | data hhead htarget hitem hoffsetList hoffset hinit =>
    refine .list hhead (layered_of_item (inertTake_of_target htarget) hitem
      (layered_of_offset fun g hg => ⟨⟨_, _, _, _, _, hoffset, hg⟩, ?_⟩)
      fun g hg => .leaf (leaf_of_expectAllBytes hinit g hg))
    exact .inr (.inr (.inr ⟨by simp, hhead⟩))

end Part

/-! ## Modules -/

namespace Module

/-- The type fields of a module that is read hold no instructions. -/
theorem layered_of_typeField {fields : List Form} {types : List FuncType}
    (h : typesOfFields fields = .ok types) {f : Form} (hf : f ∈ fields)
    (htype : f.headKeyword? = some .typeKw) (p : Form → Prop) : f.Layered p 2 := by
  have hmem : f ∈ fields.filter (Form.isHeadedBy .typeKw) :=
    List.mem_filter.mpr ⟨hf, isHeadedBy_iff.mpr htype⟩
  obtain ⟨sig, hread⟩ := Success.of_mapM h f hmem
  split at hread
  · next r hr =>
    rw [Success.of_mapError hread] at hr
    exact Field.layered_of_definition htype hr
  · cases hread

/-- Each field of a module that is read is two lists at most around the forms of its body. -/
theorem layered_of_run {spaces : Spaces} {types : List FuncType} {d₀ d : Draft}
    {fields : List Form} {parts : List Part} (htypes : typesOfFields fields = .ok types)
    (hrun : Draft.Run spaces d₀ fields parts d) :
    List.Forall₂ (fun f part => f.Layered (fun g => Body.IsRead g ∧ part.HasBody f) 2)
      fields parts := by
  have hother : List.Forall₂ (fun f part => f.headKeyword? ≠ some .typeKw →
      f.Layered (fun g => Body.IsRead g ∧ part.HasBody f) 2) fields parts :=
    hrun.forall₂ fun hread => hread.layered
  refine ((List.forall₂_and_left _ _).mpr
    ⟨fun f hf htype p => layered_of_typeField htypes hf htype p, hother⟩).imp ?_
  intro f part hlayered
  by_cases htype : f.headKeyword? = some .typeKw
  · exact hlayered.1 htype _
  · exact hlayered.2 htype

/-- The bodies of accepted fields are no more than two layers down. -/
theorem layered_of_ofFields {name : Option String} {fields : List Form} {m : Module}
    (h : ofFields name fields = .ok m) : ∀ f ∈ fields, f.Layered Body.IsRead 2 := by
  obtain ⟨spaces, types, d, -, htypes, hd, -⟩ := passes_of_ofFields h
  obtain ⟨parts, hrun⟩ := Draft.run_of_foldlM hd
  have hlayered := layered_of_run htypes hrun
  intro f hf
  obtain ⟨part, -, hfield⟩ := Success.exists_right hlayered hf
  exact hfield.imp fun _ => And.left

end Module

end WasmText
