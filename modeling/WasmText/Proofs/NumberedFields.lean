import WasmText.Proofs.FieldOrder
import WasmText.Proofs.Locals
import WasmText.Proofs.NumberedBodies
import WasmText.Proofs.Ranges

/-!
# Fields with names written as numbers

References stand in the bodies and type uses of fields, in the lists of elements, and in exports,
starts and segments. `Field.Numbered` says that a field comes from another by writing some of them
as numbers. Such a field declares the same and adds the same, so a module of fields is the same if
references in one of them are numbers (`Module.ofFields_numbered`).
-/

namespace WasmText

open Form

namespace Field

/-- The second field is the first with some references written as numbers, where the locals of a
function have the names `locals`. -/
inductive Numbered (spaces : Spaces) (locals : Names) : Form → Form → Prop
  | func {span : Span} {head : Form} {args args' : List Form}
    (hhead : head.keyword? = some .funcKw)
    (h : NumberedAll ⟨spaces, locals, [none]⟩ [] args args') :
    Numbered spaces locals (.list span (head :: args)) (.list span (head :: args'))
  | entity {span : Span} {head : Form} {word : Keyword} {args args' : List Form}
    (hhead : head.keyword? = some word)
    (hword : word = .importKw ∨ word = .tableKw ∨ word = .globalKw)
    (h : NumberedAll ⟨spaces, [], []⟩ [] args args') :
    Numbered spaces locals (.list span (head :: args)) (.list span (head :: args'))
  | export {span place : Span} {head name kind : Form} {sort : ExternKind} {refs refs' : List Form}
    (hhead : head.keyword? = some .exportKw) (hkind : Spaces.kindOf? kind.keyword? = some sort)
    (h : NumberedAll ⟨spaces, [], []⟩ (spaces.ofKind sort) refs refs') :
    Numbered spaces locals (.list span [head, name, .list place (kind :: refs)])
      (.list span [head, name, .list place (kind :: refs')])
  | start {span : Span} {head : Form} {refs refs' : List Form}
    (hhead : head.keyword? = some .startKw)
    (h : NumberedAll ⟨spaces, [], []⟩ spaces.funcs refs refs') :
    Numbered spaces locals (.list span (head :: refs)) (.list span (head :: refs'))
  | elem {span : Span} {head offset offset' : Form} {target? target?' : Option Form}
    {refs refs' : List Form} (hhead : head.keyword? = some .elemKw)
    (hatom : ∀ f ∈ target?, f.items? = none) (hlist : offset.items?.isSome = true)
    (htarget : Option.Rel (Form.Numbered ⟨spaces, [], []⟩ spaces.tables) target? target?')
    (hoffset : Form.Numbered ⟨spaces, [], []⟩ [] offset offset')
    (h : NumberedAll ⟨spaces, [], []⟩ spaces.funcs refs refs') :
    Numbered spaces locals (.list span (head :: (target?.toList ++ offset :: refs)))
      (.list span (head :: (target?'.toList ++ offset' :: refs')))
  | data {span : Span} {head offset offset' : Form} {target? target?' : Option Form}
    {strings : List Form} (hhead : head.keyword? = some .dataKw)
    (hatom : ∀ f ∈ target?, f.items? = none) (hlist : offset.items?.isSome = true)
    (htarget : Option.Rel (Form.Numbered ⟨spaces, [], []⟩ spaces.memories) target? target?')
    (hoffset : Form.Numbered ⟨spaces, [], []⟩ [] offset offset') :
    Numbered spaces locals (.list span (head :: (target?.toList ++ offset :: strings)))
      (.list span (head :: (target?'.toList ++ offset' :: strings)))

end Field

variable {s : NameScope} {spaces : Spaces} {locals names : Names}
  {items items' args args' : List Form} {f f' head : Form} {span : Span} {n : Nat} {d : Draft}
  {kind : ExternKind}

/-! ## Forms that hold no references -/

namespace Form

/-- Atoms are left as they are. -/
theorem Alike.eq_of_items? (h : Alike f f') (hatom : f.items? = none) : f' = f := by
  cases h with
  | same => rfl
  | list => cases hatom

theorem items?_of_number? {t : Token} (h : f.number? = some t) : f.items? = none := by
  cases f with
  | atom => rfl
  | list => cases h

theorem items?_of_valType? {type : ValType} (h : f.valType? = some type) : f.items? = none := by
  cases f with
  | atom => rfl
  | list => cases h

theorem items?_of_expectName {name : String} (h : f.expectName = .ok name) :
    f.items? = none ∧ f.opcode? = none := by
  unfold expectName expectBytes at h
  obtain ⟨bytes, hbytes, -⟩ := Success.of_bind h
  obtain ⟨⟨kind, source, place⟩⟩ | ⟨place, inside⟩ := f
  · cases kind with
    | string => exact ⟨rfl, rfl⟩
    | _ => cases hbytes
  · cases hbytes

/-- A form that is no list and no word is the same, where no name refers to anything. -/
theorem NumberedAll.exists_same (h : NumberedAll s [] (f :: items) items') (hatom : f.items? = none)
    (hop : f.opcode? = none) : ∃ rest', items' = f :: rest' ∧ NumberedAll s [] items rest' := by
  obtain ⟨f', rest', rfl, hf, hrest⟩ := h.exists_item hop
  rw [hf.alike.eq_of_items? hatom]
  exact ⟨rest', rfl, hrest⟩

theorem NumberedAll.forall₂ (h : NumberedAll s names items items')
    (hop : ∀ f ∈ items, f.opcode? = none) : List.Forall₂ (Form.Numbered s names) items items' := by
  induction items generalizing items' with
  | nil =>
    rw [h.eq_nil]
    exact .nil
  | cons f items ih =>
    obtain ⟨hf, hrest⟩ := List.forall_mem_cons.mp hop
    obtain ⟨f', rest', rfl, hff', h⟩ := h.exists_item hf
    exact .cons hff' (ih h hrest)

end Form

theorem Names.mapM_resolve_numbered {space : Space} {indices : List Nat}
    (hitems : NumberedAll s names items items')
    (h : items.mapM (fun v => names.resolve space span (some v)) = .ok indices) :
    items'.mapM (fun v => names.resolve space span (some v)) = .ok indices := by
  refine Success.mapM_of_forall₂ (hitems.forall₂ fun f hf => ?_)
    (fun _ _ _ hf => resolve_numbered List.prefix_rfl (.some hf)) h
  obtain ⟨index, hindex⟩ := Success.of_mapM h f hf
  exact opcode?_of_resolve hindex f rfl

namespace Field

/-! ## Openings -/

theorem name_numbered (h : NumberedAll s [] items items') :
    name items' = name items ∧
      NumberedAll s [] (items.drop (name items).2) (items'.drop (name items).2) := by
  have hhead := h.head?_alike
  have hid : items'.head?.bind id? = items.head?.bind id? := by
    generalize items.head? = f?, items'.head? = f'? at hhead
    cases hhead with
    | none => rfl
    | some hf => exact hf.id?_eq
  refine ⟨by rw [name, name, hid], ?_⟩
  unfold name
  split
  · next hsome =>
    obtain ⟨f, hf, hid⟩ := Option.bind_eq_some_iff.mp hsome
    refine h.drop_one fun g hg => ?_
    obtain rfl : f = g := Option.some.inj (hf.symm.trans hg)
    exact opcode?_eq_none (by simp [hid])
  · exact h

/-- An import is not written in another way. -/
theorem filter_import_alike {f? f'? : Option Form} (h : Option.Rel Alike f? f'?) :
    f'?.filter (isHeadedBy .importKw) = f?.filter (isHeadedBy .importKw) := by
  cases h with
  | none => rfl
  | some hf =>
    rw [Option.filter_some, Option.filter_some, hf.isHeadedBy_eq]
    split
    · next himport => rw [hf.eq_of_headKeyword? (isHeadedBy_iff.mp himport) rfl]
    · rfl

theorem inlineImport_numbered {imported : Option (String × String)}
    (h : NumberedAll s [] items items') (himport : inlineImport items = .ok (imported, n)) :
    inlineImport items' = .ok (imported, n) ∧
      NumberedAll s [] (items.drop n) (items'.drop n) := by
  refine ⟨by rwa [inlineImport, filter_import_alike h.head?_alike], ?_⟩
  cases importedAs_of_inlineImport himport with
  | absent => exact h
  | @written g _ hg =>
    obtain ⟨hfirst, hhead⟩ := Option.filter_eq_some_iff.mp hg
    refine h.drop_one fun f hf => ?_
    obtain rfl : g = f := Option.some.inj (hfirst.symm.trans hf)
    exact opcode?_of_isHeadedBy hhead

theorem afterName_numbered (span : Span) (head : Form) (hargs : NumberedAll s [] args args') :
    Field.name (Form.list span (head :: args')).args =
        Field.name (Form.list span (head :: args)).args ∧
      NumberedAll s [] (afterName (.list span (head :: args)))
        (afterName (.list span (head :: args'))) := by
  obtain ⟨hname, hafter⟩ := name_numbered hargs
  refine ⟨hname, ?_⟩
  show NumberedAll s [] (args.drop (name args).2) (args'.drop (name args').2)
  rw [hname]
  exact hafter

/-- A field opens the same, and what it leaves is numbered. -/
theorem Opens.numbered {o : Opening} {es : List Export} (hargs : NumberedAll s [] args args')
    (h : Opens kind d (.list span (head :: args)) o es) :
    ∃ rest, Opens kind d (.list span (head :: args')) { o with rest } es ∧
      NumberedAll s [] o.rest rest := by
  obtain ⟨hname, hindex, hexports, m, himport, hrest⟩ := h
  obtain ⟨hnames, hafter⟩ := afterName_numbered span head hargs
  obtain ⟨hinline, hafter⟩ := hafter.takeWhile_isHeadedBy .exportKw rfl
  have hinline : inlineExports (.list span (head :: args')) =
      inlineExports (.list span (head :: args)) := hinline
  have hafter : NumberedAll s [] (afterExports (.list span (head :: args)))
      (afterExports (.list span (head :: args'))) := by
    rw [afterExports, afterExports, hinline]
    exact hafter
  obtain ⟨himport', hafter⟩ := inlineImport_numbered hafter himport
  refine ⟨(afterExports (.list span (head :: args'))).drop m,
    ⟨?_, hindex, hinline ▸ hexports, m, himport', rfl⟩, hrest ▸ hafter⟩
  rw [← name_fst, hnames, name_fst]
  exact hname

/-! ## What is declared with an entity -/

theorem limits_numbered {l : Limits} (hitems : NumberedAll s [] items items')
    (h : limits span items = .ok (l, n)) :
    limits span items' = .ok (l, n) ∧ NumberedAll s [] (items.drop n) (items'.drop n) := by
  have hlimits := h
  unfold limits at h
  obtain ⟨first, hneed, h⟩ := Success.of_bind h
  obtain ⟨rest, rfl⟩ := List.head?_eq_some_iff.mp (eq_some_of_need hneed)
  split at h
  · cases h
  · next t ht =>
    obtain ⟨rest', rfl, hrest⟩ :=
      hitems.exists_same (items?_of_number? ht) (opcode?_eq_none (by simp [ht]))
    have hsecond : rest'.head?.bind number? = rest.head?.bind number? := by
      have hhead := hrest.head?_alike
      generalize rest.head? = f?, rest'.head? = f'? at hhead
      cases hhead with
      | none => rfl
      | some hf => exact hf.number?_eq
    have hsame : limits span (first :: rest') = limits span (first :: rest) := by
      simp only [limits, List.head?_cons, List.tail_cons, hsecond]
    refine ⟨hsame.trans hlimits, ?_⟩
    obtain ⟨min, -, h⟩ := Success.of_bind h
    split at h
    · obtain ⟨-, rfl⟩ := Prod.mk.inj (Success.of_pure h)
      exact hrest
    · next u hu =>
      obtain ⟨max, -, h⟩ := Success.of_bind h
      obtain ⟨-, rfl⟩ := Prod.mk.inj (Success.of_pure h)
      obtain ⟨g, hg, hu⟩ := Option.bind_eq_some_iff.mp hu
      refine hrest.drop_one fun f hf => ?_
      obtain rfl : g = f := Option.some.inj (hg.symm.trans hf)
      exact opcode?_eq_none (by simp [hu])

theorem elemType_numbered {type : ValType} (hitems : NumberedAll s [] items items')
    (h : elemType span items.head? = .ok type) :
    elemType span items'.head? = .ok type ∧ NumberedAll s [] items.tail items'.tail := by
  match items, h with
  | [], h => cases h
  | f :: rest, h =>
    have htype : f.valType? = some .anyfunc := by
      by_contra hne
      rw [List.head?_cons, elemType, if_neg hne] at h
      cases h
    obtain ⟨rest', rfl, hrest⟩ :=
      hitems.exists_same (items?_of_valType? htype) (opcode?_eq_none (by simp [htype]))
    exact ⟨h, hrest⟩

theorem tableType_numbered {type : TableType} (hitems : NumberedAll s [] items items')
    (h : tableType span items = .ok (type, n)) :
    tableType span items' = .ok (type, n) ∧ NumberedAll s [] (items.drop n) (items'.drop n) := by
  unfold tableType at h ⊢
  obtain ⟨⟨l, k⟩, hlimits, h⟩ := Success.of_bind h
  obtain ⟨elem, helem, h⟩ := Success.of_bind h
  obtain ⟨rfl, rfl⟩ := Prod.mk.inj (Success.of_pure h)
  obtain ⟨hlimits', hrest⟩ := limits_numbered hitems hlimits
  obtain ⟨helem', hrest⟩ := elemType_numbered hrest helem
  rw [List.tail_drop, List.tail_drop] at hrest
  rw [Success.bind_of hlimits']
  dsimp only
  rw [Success.bind_of helem']
  exact ⟨rfl, hrest⟩

theorem globalType_numbered {type : GlobalType} (hitems : NumberedAll s [] items items')
    (h : globalType span items.head? = .ok type) :
    globalType span items'.head? = .ok type ∧ NumberedAll s [] items.tail items'.tail := by
  match items, h with
  | [], h => cases h
  | .atom t :: rest, h =>
    have htype : (Form.atom t).valType?.isSome := by
      obtain ⟨f, hneed, h⟩ := Success.of_bind h
      obtain rfl := Except.ok.inj hneed
      obtain ⟨_, hvalue, -⟩ := Success.of_bind h
      by_contra hnone
      unfold valueType at hvalue
      rw [Option.not_isSome_iff_eq_none.mp hnone] at hvalue
      cases hvalue
    obtain ⟨rest', rfl, hrest⟩ := hitems.exists_same rfl (opcode?_eq_none (by simp [htype]))
    exact ⟨h, hrest⟩
  | .list place inside :: rest, h =>
    have hhead : (Form.list place inside).headKeyword? = some .mutKw := by
      by_contra hne
      obtain ⟨f, hneed, h⟩ := Success.of_bind h
      obtain rfl := Except.ok.inj hneed
      dsimp only at h
      rw [if_pos hne] at h
      cases h
    obtain ⟨f', rest', rfl, hf, hrest⟩ := hitems.exists_item (opcode?_eq_none (by simp [hhead]))
    rw [hf.eq_of_headKeyword? hhead rfl]
    exact ⟨h, hrest⟩

/-- What is imported is the same. -/
theorem DescAs.numbered {t t' : TypeTable} {desc : ImportDesc} (ht : s.spaces.types <+: t.names)
    (hitems : NumberedAll s [] items items') (h : DescAs span items t desc t') :
    DescAs span items' t desc t' := by
  cases h with
  | func huse hrest =>
    obtain ⟨huse', hdrop⟩ := huse.numbered ht hitems
    exact .func huse' (hrest ▸ hdrop).eq_nil
  | table htype hrest =>
    obtain ⟨htype', hdrop⟩ := tableType_numbered hitems htype
    exact .table htype' (hrest ▸ hdrop).eq_nil
  | memory htype hrest =>
    obtain ⟨htype', hdrop⟩ := limits_numbered hitems htype
    exact .memory htype' (hrest ▸ hdrop).eq_nil
  | global htype hrest =>
    obtain ⟨htype', hdrop⟩ := globalType_numbered hitems htype
    exact .global htype' (hrest ▸ hdrop).eq_nil

/-! ## What is declared -/

/-- The names of an import's module and field are strings. -/
theorem importNames_numbered {strings : String × String} (hargs : NumberedAll s [] args args')
    (h : importNames (.list span (head :: args)) = .ok strings) :
    importNames (.list span (head :: args')) = .ok strings ∧
      NumberedAll s [] (args.drop 2) (args'.drop 2) := by
  have hnames := h
  obtain ⟨f, hf, h⟩ := Success.of_bind h
  obtain ⟨_, hfirst, h⟩ := Success.of_bind h
  obtain ⟨g, hg, h⟩ := Success.of_bind h
  obtain ⟨_, hsecond, -⟩ := Success.of_bind h
  match args, eq_some_of_need hf, eq_some_of_need hg with
  | f :: g :: rest, rfl, rfl =>
    obtain ⟨hatom, hop⟩ := items?_of_expectName hfirst
    obtain ⟨_, rfl, hmore⟩ := hargs.exists_same hatom hop
    obtain ⟨hatom, hop⟩ := items?_of_expectName hsecond
    obtain ⟨_, rfl, hrest⟩ := hmore.exists_same hatom hop
    exact ⟨hnames, hrest⟩

theorem declared?_numbered (hargs : NumberedAll s [] args args')
    (hword : head.keyword? ≠ some .importKw) :
    Spaces.declared? (.list span (head :: args')) =
      Spaces.declared? (.list span (head :: args)) := by
  have hname : args'.head?.bind id? = args.head?.bind id? := by
    rw [← name_fst, ← name_fst, (name_numbered hargs).1]
  simp only [Spaces.declared?, headKeyword?, Form.args, List.tail_cons, Form.span, hname]
  split
  · rfl
  · next himport => exact absurd himport hword
  · rfl

/-- What an import describes is a list with the same keyword. -/
theorem exists_args_of_kindOf? (h : Form.Numbered s [] f f')
    (hkind : Spaces.kindOf? f.headKeyword? = some kind) :
    ∃ span head args args', f = .list span (head :: args) ∧ f' = .list span (head :: args') ∧
      NumberedAll s [] args args' := by
  have hsame {word : Keyword} (hhead : f.headKeyword? = some word) (hword : word.mayRefer = false) :
      ∃ span head args args', f = .list span (head :: args) ∧ f' = .list span (head :: args') ∧
        NumberedAll s [] args args' := by
    rw [h.eq_of_headKeyword? hhead hword]
    obtain ⟨span, head, args, rfl⟩ := exists_list_of_headKeyword? hhead
    exact ⟨span, head, args, args, rfl, rfl, .refl ..⟩
  unfold Spaces.kindOf? at hkind
  split at hkind
  · next hhead => exact h.exists_keyword hhead rfl
  · next hhead => exact hsame hhead rfl
  · next hhead => exact hsame hhead rfl
  · next hhead => exact hsame hhead rfl
  · cases hkind

/-! ## Segments -/

theorem isSome_items?_numbered (h : Form.Numbered s [] f f') (hlist : f.items?.isSome = true) :
    f'.items?.isSome = true := by
  cases h.alike with
  | same => exact hlist
  | list => rfl

theorem target_of_list {space : Space} (hlist : f.items?.isSome = true) (rest : List Form) :
    target space names (f :: rest) = .ok (0, 0) := by
  cases f with
  | atom => cases hlist
  | list => rfl

/-- A segment goes where it did. -/
theorem target_numbered {space : Space} {target? target?' : Option Form} {offset offset' : Form}
    {index : Nat} (rest rest' : List Form) (hatom : ∀ f ∈ target?, f.items? = none)
    (hlist : offset.items?.isSome = true)
    (htarget : Option.Rel (Form.Numbered s names) target? target?')
    (hoffset : Form.Numbered s [] offset offset')
    (h : target space names (target?.toList ++ offset :: rest) = .ok (index, n)) :
    target space names (target?'.toList ++ offset' :: rest') = .ok (index, n) ∧
      target?.toList.length = n ∧ target?'.toList.length = n := by
  cases htarget with
  | none =>
    obtain ⟨rfl, rfl⟩ := Prod.mk.inj (Except.ok.inj ((target_of_list hlist rest).symm.trans h))
    exact ⟨target_of_list (isSome_items?_numbered hoffset hlist) rest', rfl, rfl⟩
  | @some f f' hf =>
    match f, hatom f rfl with
    | .atom t, _ =>
      obtain ⟨_, hindex, h⟩ := Success.of_bind h
      obtain ⟨rfl, rfl⟩ := Prod.mk.inj (Success.of_pure h)
      have hindex' := Names.resolve_numbered List.prefix_rfl (.some hf) hindex
      obtain ⟨u, rfl, hspan⟩ : ∃ u, f' = .atom u ∧ u.span = t.span := by
        cases hf with
        | same => exact ⟨t, rfl, rfl⟩
        | name => exact ⟨_, rfl, rfl⟩
      refine ⟨?_, rfl, rfl⟩
      show (names.resolve space u.span (some (.atom u)) >>= fun index => pure (index, 1)) = _
      rw [hspan, Success.bind_of hindex']
      rfl

/-- The offset of a segment is the same. -/
theorem offset_numbered {item item' : Form} {t t' : TypeTable} {is : List Instr}
    (ht : spaces.types <+: t.names) (hlist : item.items?.isSome = true)
    (hitem : Form.Numbered ⟨spaces, [], []⟩ [] item item')
    (h : (Body.whole (constScope spaces)
      (if item.isHeadedBy .offsetKw then item.args else [item])).run t = .ok (is, t')) :
    (Body.whole (constScope spaces)
      (if item'.isHeadedBy .offsetKw then item'.args else [item'])).run t = .ok (is, t') := by
  have hfits : (constScope spaces).Fits ⟨spaces, [], []⟩ := ⟨rfl, rfl, rfl⟩
  rw [hitem.isHeadedBy_eq]
  split at h
  · next hhead =>
    obtain ⟨_, _, args, args', rfl, rfl, hargs⟩ :=
      hitem.exists_keyword (isHeadedBy_iff.mp hhead) rfl
    rw [if_pos hhead]
    exact Body.whole_numbered args hfits ht hargs h
  · next hhead =>
    rw [if_neg hhead]
    have hop : item.opcode? = none := by
      cases item with
      | atom => cases hlist
      | list => rfl
    exact Body.whole_numbered [item] hfits ht (.item hop hitem (.nil _ _)) h

end Field

/-! ## Steps -/

namespace Part

open WasmText.Field

variable {part : Part} {types : TypeTable}

theorem readFrom_func_numbered (ht : spaces.types <+: d.types.names)
    (hhead : head.keyword? = some .funcKw)
    (hargs : NumberedAll ⟨spaces, locals, [none]⟩ [] args args')
    (hlocals : ∀ x ∈ part.funcs, localNames x.sig (.list span (head :: args)) = locals)
    (h : part.ReadFrom spaces d (.list span (head :: args)) types) :
    part.ReadFrom spaces d (.list span (head :: args')) types := by
  have hhead' : (Form.list span (head :: args')).headKeyword? = some .funcKw := hhead
  have hhead : (Form.list span (head :: args)).headKeyword? = some .funcKw := hhead
  cases h with
  | inlineImport hkind hopen himport hdesc horder =>
    obtain ⟨rest, hopen', hrest⟩ := hopen.numbered hargs
    exact .inlineImport hkind hopen' himport (hdesc.numbered ht hrest) horder
  | @func o _ _ _ _ _ _ _ _ _ _ _ _ hopen himport huse hdecls hrest hparams hdecl hbody =>
    obtain ⟨rest, hopen', hitems⟩ := hopen.numbered hargs
    obtain ⟨huse', hitems⟩ := huse.numbered ht hitems
    obtain ⟨hsame, hitems⟩ := hitems.takeWhile_isHeadedBy .localKw rfl
    rw [← hdecls] at hitems
    -- the body is read in the scope that its references were numbered by
    have hnames := eq_localNames hopen huse hparams (hdecls ▸ hdecl)
    rw [hlocals _ (List.mem_singleton_self _)] at hnames
    have hgrows := ht.trans huse.grows.names
    refine .func (o := { o with rest }) hhead' hopen' himport huse' (hdecls.trans hsame.symm) rfl
      hparams hdecl ?_
    exact Body.whole_numbered _ ⟨rfl, hnames, rfl⟩ hgrows hitems (hrest ▸ hbody)
  | type h | «import» h | table h | tableOfElems h | memory h | memoryOfData h | global h
  | «export» h | start h | elem h | data h => cases hhead.symm.trans h

/-- The module and the field of an import are no references. -/
theorem readFrom_import_numbered (ht : spaces.types <+: d.types.names)
    (hhead : head.keyword? = some .importKw) (hargs : NumberedAll ⟨spaces, [], []⟩ [] args args')
    (h : part.ReadFrom spaces d (.list span (head :: args)) types) :
    part.ReadFrom spaces d (.list span (head :: args')) types ∧
      Spaces.declared? (.list span (head :: args')) =
        Spaces.declared? (.list span (head :: args)) := by
  have hhead' : (Form.list span (head :: args')).headKeyword? = some .importKw := hhead
  have hhead : (Form.list span (head :: args)).headKeyword? = some .importKw := hhead
  cases h with
  | «import» _ hitem hnames hmore hkind hdesc horder =>
    match args, hitem, hmore with
    | [a, b, item], rfl, _ =>
      obtain ⟨hnames', hdrop⟩ := importNames_numbered hargs hnames
      have hop : item.opcode? = none := by
        cases item with
        | atom => cases hkind
        | list => rfl
      obtain ⟨item', rest, hitem', hitem, hrest⟩ := hdrop.exists_item hop
      obtain ⟨place, word, inside, inside', rfl, rfl, hinside⟩ := exists_args_of_kindOf? hitem hkind
      have hthird : args'[2]? = some (.list place (word :: inside')) := by
        rw [← List.head?_drop, hitem', List.head?_cons]
      have hmore' : args'.drop 3 = [] := by
        rw [← hrest.eq_nil, ← List.tail_drop, hitem', List.tail_cons]
      obtain ⟨hname, hafter⟩ := afterName_numbered place word hinside
      have hdesc' := hdesc.numbered (s := ⟨spaces, [], []⟩) ht hafter
      refine ⟨.import hhead' hthird hnames' hmore' hkind hdesc' horder, ?_⟩
      have hid := congrArg Prod.fst hname
      rw [name_fst, name_fst] at hid
      unfold Spaces.declared?
      rw [hhead, hhead']
      show (args'[2]? >>= fun desc => _) = _
      rw [hthird]
      show (Spaces.kindOf? _ >>= fun kind => some (some kind, _, _)) = _
      rw [hid]
      rfl
  | inlineImport hkind =>
    rw [hhead] at hkind
    cases hkind
  | type h | func h | table h | tableOfElems h | memory h | memoryOfData h | global h
  | «export» h | start h | elem h | data h => cases hhead.symm.trans h

theorem readFrom_table_numbered (ht : spaces.types <+: d.types.names)
    (hhead : head.keyword? = some .tableKw) (hargs : NumberedAll ⟨spaces, [], []⟩ [] args args')
    (h : part.ReadFrom spaces d (.list span (head :: args)) types) :
    part.ReadFrom spaces d (.list span (head :: args')) types := by
  have hhead' : (Form.list span (head :: args')).headKeyword? = some .tableKw := hhead
  have hhead : (Form.list span (head :: args)).headKeyword? = some .tableKw := hhead
  cases h with
  | inlineImport hkind hopen himport hdesc horder =>
    obtain ⟨rest, hopen', hrest⟩ := hopen.numbered hargs
    exact .inlineImport hkind hopen' himport (hdesc.numbered ht hrest) horder
  | @table o _ _ _ _ hopen himport htype hmore =>
    obtain ⟨rest, hopen', hrest⟩ := hopen.numbered hargs
    obtain ⟨htype', hdrop⟩ := tableType_numbered hrest htype
    rw [hmore] at hdrop
    exact .table (o := { o with rest }) hhead' hopen' himport htype' hdrop.eq_nil
  | @tableOfElems o _ type list _ init _ hopen himport hrest htype hlist hinit =>
    obtain ⟨rest, hopen', hitems⟩ := hopen.numbered hargs
    rw [hrest] at hitems
    obtain ⟨htype', hitems⟩ := elemType_numbered hitems htype
    obtain ⟨list', more, hmore, hsecond, hnil⟩ :=
      hitems.exists_item (opcode?_eq_none (by simp [hlist]))
    obtain ⟨place, word, refs, refs', rfl, rfl, hrefs⟩ := hsecond.exists_keyword hlist rfl
    have hlist' : (Form.list place (word :: refs')).headKeyword? = some .elemKw := hlist
    match rest, htype' with
    | type' :: tail, htype' =>
      obtain rfl : tail = _ := hmore
      obtain rfl := hnil.eq_nil
      have hinit' : refs'.mapM (fun v => spaces.funcs.resolve .func place (some v)) = .ok init :=
        Names.mapM_resolve_numbered hrefs hinit
      have hread := ReadFrom.tableOfElems hhead' hopen' himport rfl htype' hlist' hinit'
      exact hread
  | type h | «import» h | func h | memory h | memoryOfData h | global h
  | «export» h | start h | elem h | data h => cases hhead.symm.trans h

/-- A global is read as the part that it was. -/
theorem readFrom_global_numbered (ht : spaces.types <+: d.types.names)
    (hhead : head.keyword? = some .globalKw) (hargs : NumberedAll ⟨spaces, [], []⟩ [] args args')
    (h : part.ReadFrom spaces d (.list span (head :: args)) types) :
    part.ReadFrom spaces d (.list span (head :: args')) types := by
  have hhead' : (Form.list span (head :: args')).headKeyword? = some .globalKw := hhead
  have hhead : (Form.list span (head :: args)).headKeyword? = some .globalKw := hhead
  cases h with
  | inlineImport hkind hopen himport hdesc horder =>
    obtain ⟨rest, hopen', hrest⟩ := hopen.numbered hargs
    exact .inlineImport hkind hopen' himport (hdesc.numbered ht hrest) horder
  | @global o _ _ _ _ _ hopen himport htype hinit =>
    obtain ⟨rest, hopen', hrest⟩ := hopen.numbered hargs
    obtain ⟨htype', hbody⟩ := globalType_numbered hrest htype
    refine .global (o := { o with rest }) hhead' hopen' himport htype' ?_
    exact Body.whole_numbered _ ⟨rfl, rfl, rfl⟩ ht hbody hinit
  | type h | «import» h | func h | table h | tableOfElems h | memory h | memoryOfData h
  | «export» h | start h | elem h | data h => cases hhead.symm.trans h

/-- A single reference is the same. -/
theorem resolve_singleton {space : Space} {refs refs' : List Form} {ref : Form} {index : Nat}
    (hone : refs = [ref]) (hrefs : NumberedAll s names refs refs')
    (h : names.resolve space span (some ref) = .ok index) :
    ∃ ref', refs' = [ref'] ∧ names.resolve space span (some ref') = .ok index := by
  subst hone
  obtain ⟨ref', rest, rfl, href, hrest⟩ := hrefs.exists_item (Names.opcode?_of_resolve h ref rfl)
  obtain rfl := hrest.eq_nil
  exact ⟨ref', rfl, Names.resolve_numbered List.prefix_rfl (.some href) h⟩

/-- An export is read as the part that it was, by the number of its entity. -/
theorem readFrom_export_numbered {name kind : Form} {place : Span} {sort : ExternKind}
    {refs refs' : List Form} (hhead : head.keyword? = some .exportKw)
    (hsort : Spaces.kindOf? kind.keyword? = some sort)
    (hrefs : NumberedAll ⟨spaces, [], []⟩ (spaces.ofKind sort) refs refs')
    (h : part.ReadFrom spaces d (.list span [head, name, .list place (kind :: refs)]) types) :
    part.ReadFrom spaces d (.list span [head, name, .list place (kind :: refs')]) types := by
  have hword : (Form.list span [head, name, .list place (kind :: refs)]).headKeyword? =
    some .exportKw := hhead
  cases h with
  | @«export» _ _ ref e _ hargs hname hkind hdesc href =>
    obtain ⟨rfl, hdescs⟩ := List.cons.inj hargs
    obtain ⟨rfl, -⟩ := List.cons.inj hdescs
    obtain rfl : sort = e.kind := Option.some.inj (hsort.symm.trans hkind)
    obtain ⟨ref', rfl, href'⟩ := resolve_singleton hdesc hrefs href
    have hdesc' : (Form.list place [kind, ref']).args = [ref'] := rfl
    exact .export hhead rfl hname hsort hdesc' href'
  | inlineImport hkind =>
    rw [hword] at hkind
    cases hkind
  | type h | «import» h | func h | table h | tableOfElems h | memory h | memoryOfData h | global h
  | start h | elem h | data h => cases hword.symm.trans h

/-- A start field is read as the part that it was, by the number of its function. -/
theorem readFrom_start_numbered {refs refs' : List Form} (hhead : head.keyword? = some .startKw)
    (hrefs : NumberedAll ⟨spaces, [], []⟩ spaces.funcs refs refs')
    (h : part.ReadFrom spaces d (.list span (head :: refs)) types) :
    part.ReadFrom spaces d (.list span (head :: refs')) types := by
  have hhead' : (Form.list span (head :: refs')).headKeyword? = some .startKw := hhead
  have hhead : (Form.list span (head :: refs)).headKeyword? = some .startKw := hhead
  cases h with
  | start _ hfirst hargs href =>
    obtain ⟨ref', rfl, href'⟩ := resolve_singleton hargs hrefs href
    exact .start hhead' hfirst rfl href'
  | inlineImport hkind =>
    rw [hhead] at hkind
    cases hkind
  | type h | «import» h | func h | table h | tableOfElems h | memory h | memoryOfData h | global h
  | «export» h | elem h | data h => cases hhead.symm.trans h

section Segments

variable {offset offset' : Form} {target? target?' : Option Form} {refs refs' strings : List Form}

theorem getElem?_segment (target? : Option Form) (offset : Form) (rest : List Form) :
    (target?.toList ++ offset :: rest)[target?.toList.length]? = some offset ∧
      (target?.toList ++ offset :: rest).drop (target?.toList.length + 1) = rest := by
  cases target? <;> exact ⟨rfl, rfl⟩

/-- An element segment is read as the part that it was, by the numbers of its table and its
functions. -/
theorem readFrom_elem_numbered (ht : spaces.types <+: d.types.names)
    (hhead : head.keyword? = some .elemKw) (hatom : ∀ f ∈ target?, f.items? = none)
    (hlist : offset.items?.isSome = true)
    (htarget : Option.Rel (Form.Numbered ⟨spaces, [], []⟩ spaces.tables) target? target?')
    (hoffset : Form.Numbered ⟨spaces, [], []⟩ [] offset offset')
    (hrefs : NumberedAll ⟨spaces, [], []⟩ spaces.funcs refs refs')
    (h : part.ReadFrom spaces d (.list span (head :: (target?.toList ++ offset :: refs))) types) :
    part.ReadFrom spaces d (.list span (head :: (target?'.toList ++ offset' :: refs'))) types := by
  have hword : (Form.list span (head :: (target?.toList ++ offset :: refs))).headKeyword? =
    some .elemKw := hhead
  cases h with
  | @elem _ _ _ _ init _ _ hgoes hitem _ hbody hinit =>
    obtain ⟨hgoes', rfl, hn⟩ := target_numbered refs refs' hatom hlist htarget hoffset hgoes
    obtain ⟨hsecond, hrest⟩ := getElem?_segment target? offset refs
    obtain ⟨hsecond', hrest'⟩ := getElem?_segment target?' offset' refs'
    rw [hn] at hsecond' hrest'
    obtain rfl := Option.some.inj (hsecond.symm.trans hitem)
    refine .elem hhead hgoes' hsecond' (isSome_items?_numbered hoffset hlist)
      (offset_numbered ht hlist hoffset hbody) ?_
    have hinit' : refs.mapM (fun v => spaces.funcs.resolve .func span (some v)) = .ok init := by
      rw [← hrest]
      exact hinit
    exact (congrArg (List.mapM _) hrest').trans (Names.mapM_resolve_numbered hrefs hinit')
  | inlineImport hkind =>
    rw [hword] at hkind
    cases hkind
  | type h | «import» h | func h | table h | tableOfElems h | memory h | memoryOfData h | global h
  | «export» h | start h | data h => cases hword.symm.trans h

/-- A data segment is read as the part that it was, by the number of its memory. -/
theorem readFrom_data_numbered (ht : spaces.types <+: d.types.names)
    (hhead : head.keyword? = some .dataKw) (hatom : ∀ f ∈ target?, f.items? = none)
    (hlist : offset.items?.isSome = true)
    (htarget : Option.Rel (Form.Numbered ⟨spaces, [], []⟩ spaces.memories) target? target?')
    (hoffset : Form.Numbered ⟨spaces, [], []⟩ [] offset offset')
    (h : part.ReadFrom spaces d
      (.list span (head :: (target?.toList ++ offset :: strings))) types) :
    part.ReadFrom spaces d (.list span (head :: (target?'.toList ++ offset' :: strings)))
      types := by
  have hword : (Form.list span (head :: (target?.toList ++ offset :: strings))).headKeyword? =
    some .dataKw := hhead
  cases h with
  | @data _ _ _ _ init _ _ hgoes hitem _ hbody hinit =>
    obtain ⟨hgoes', rfl, hn⟩ := target_numbered strings strings hatom hlist htarget hoffset hgoes
    obtain ⟨hsecond, hrest⟩ := getElem?_segment target? offset strings
    obtain ⟨hsecond', hrest'⟩ := getElem?_segment target?' offset' strings
    rw [hn] at hsecond' hrest'
    obtain rfl := Option.some.inj (hsecond.symm.trans hitem)
    refine .data hhead hgoes' hsecond' (isSome_items?_numbered hoffset hlist)
      (offset_numbered ht hlist hoffset hbody) ?_
    have hinit' : expectAllBytes strings = .ok init := by
      rw [← hrest]
      exact hinit
    exact (congrArg expectAllBytes hrest').trans hinit'
  | inlineImport hkind =>
    rw [hword] at hkind
    cases hkind
  | type h | «import» h | func h | table h | tableOfElems h | memory h | memoryOfData h | global h
  | «export» h | start h | elem h => cases hword.symm.trans h

end Segments

/-- A field adds and declares the same if its references are numbers. -/
theorem readFrom_numbered (ht : spaces.types <+: d.types.names)
    (hf : Field.Numbered spaces locals f f')
    (hlocals : ∀ x ∈ part.funcs, localNames x.sig f = locals) (h : part.ReadFrom spaces d f types) :
    part.ReadFrom spaces d f' types ∧ Spaces.declared? f' = Spaces.declared? f := by
  have hnone {span : Span} {head : Form} {word : Keyword} (items : List Form)
      (hhead : head.keyword? = some word)
      (hword : word = .exportKw ∨ word = .startKw ∨ word = .elemKw ∨ word = .dataKw) :
      Spaces.declared? (.list span (head :: items)) = none := by
    rw [Spaces.declared?, headKeyword?, hhead]
    rcases hword with rfl | rfl | rfl | rfl <;> rfl
  cases hf with
  | func hhead hargs =>
    exact ⟨readFrom_func_numbered ht hhead hargs hlocals h,
      declared?_numbered hargs (by simp [hhead])⟩
  | entity hhead hword hargs =>
    rcases hword with rfl | rfl | rfl
    · exact readFrom_import_numbered ht hhead hargs h
    · exact ⟨readFrom_table_numbered ht hhead hargs h, declared?_numbered hargs (by simp [hhead])⟩
    · exact ⟨readFrom_global_numbered ht hhead hargs h, declared?_numbered hargs (by simp [hhead])⟩
  | «export» hhead hkind hrefs =>
    refine ⟨readFrom_export_numbered hhead hkind hrefs h, ?_⟩
    rw [hnone _ hhead (by simp), hnone _ hhead (by simp)]
  | start hhead hrefs =>
    refine ⟨readFrom_start_numbered hhead hrefs h, ?_⟩
    rw [hnone _ hhead (by simp), hnone _ hhead (by simp)]
  | elem hhead hatom hlist htarget hoffset hrefs =>
    refine ⟨readFrom_elem_numbered ht hhead hatom hlist htarget hoffset hrefs h, ?_⟩
    rw [hnone _ hhead (by simp), hnone _ hhead (by simp)]
  | data hhead hatom hlist htarget hoffset =>
    refine ⟨readFrom_data_numbered ht hhead hatom hlist htarget hoffset h, ?_⟩
    rw [hnone _ hhead (by simp), hnone _ hhead (by simp)]

end Part

/-- The types have no references in them. -/
theorem Field.Numbered.isHeadedBy_typeKw (h : Field.Numbered spaces locals f f') :
    f.isHeadedBy .typeKw = false ∧ f'.isHeadedBy .typeKw = false := by
  have hhead {span : Span} {head : Form} {word : Keyword} (items : List Form)
      (hhead : head.keyword? = some word) (hword : word ≠ .typeKw) :
      (Form.list span (head :: items)).isHeadedBy .typeKw = false := by
    simpa [isHeadedBy, headKeyword?, hhead] using hword
  cases h with
  | func h | «export» h | start h | elem h | data h =>
    exact ⟨hhead _ h (by decide), hhead _ h (by decide)⟩
  | entity h hword =>
    rcases hword with rfl | rfl | rfl <;> exact ⟨hhead _ h (by decide), hhead _ h (by decide)⟩

/-! ## Modules -/

namespace Draft

variable {d₀ : Draft} {fields : List Form} {parts : List Part}

/-- A run only adds to the entities of a kind. -/
theorem Run.space_prefix (h : Run spaces d₀ fields parts d) (kind : ExternKind) :
    d₀.space kind <+: d.space kind := by
  induction h with
  | nil => exact List.prefix_rfl
  | snoc _ hread _ ih =>
    rw [space_extend hread.imports_first]
    exact ih.trans (List.prefix_append ..)

/-- A run adds types at the end of the table. -/
theorem Run.grows (h : Run spaces d₀ fields parts d) : d₀.types.Grows d.types := by
  induction h with
  | nil => exact .refl _
  | snoc _ hread _ ih => exact ih.trans hread.grows

/-- A run leaves the names of the exports different. -/
theorem Run.distinct (h : Run spaces d₀ fields parts d) (hd₀ : Distinct d₀.exports) :
    Distinct d.exports := by
  induction h with
  | nil => exact hd₀
  | snoc _ _ hadd ih => exact Field.yieldsDistinct_add spaces ih _ _ hadd

end Draft

namespace Spaces

/-- The names of everything that fields declare. -/
def declaredBy (fields : List Form) : Spaces where
  types := Field.typeNames fields
  funcs := Field.declaredNames .func fields
  tables := Field.declaredNames .table fields
  memories := Field.declaredNames .memory fields
  globals := Field.declaredNames .global fields

theorem ofFields_eq_declaredBy {fields : List Form} (h : ofFields fields = .ok spaces) :
    declaredBy fields = spaces := by
  have hkind (kind : ExternKind) := (ofFields_ofKind h kind).1
  rw [declaredBy, ← (ofFields_types h).1, ← hkind .func, ← hkind .table, ← hkind .memory,
    ← hkind .global]
  rfl

end Spaces

namespace Module

open WasmText.Field

/-- The names of the locals of the function that a field behind others defines. -/
def localsOf (m : Module) (before : List Form) (f : Form) : Names :=
  match m.definedFunc? (declaring .func before).length with
  | some x => localNames x.sig f
  | none => []

/-- The second fields are the fields of the module with some references in one of them written as
numbers. -/
def Numbered (m : Module) (fields fields' : List Form) : Prop :=
  ∃ before f f' after, fields = before ++ f :: after ∧ fields' = before ++ f' :: after ∧
    Field.Numbered (.declaredBy fields) (m.localsOf before f) f f'

/-- A function is looked up behind those before it. -/
theorem localsOf_eq {name : Option String} {t types : TypeTable}
    {part : Part} {before after : List Form} {d₁ : Draft}
    (hbefore : before.foldlM (Field.add spaces) (.ofTypes t) = .ok d₁)
    (hread : part.ReadFrom spaces d₁ f types)
    (hafter : after.foldlM (Field.add spaces) (d₁.extend part types) = .ok d) :
    ∀ x ∈ part.funcs, localNames x.sig f = (d.toModule name).localsOf before f := by
  intro x hx
  obtain ⟨parts, hrun⟩ := Draft.run_of_foldlM hbefore
  obtain ⟨parts', hrun'⟩ := Draft.run_of_foldlM hafter
  have hspace : part.space .func = [.func x] := by
    cases hread with
    | func =>
      obtain rfl := List.mem_singleton.mp hx
      rfl
    | _ => cases hx
  have hprefix := hrun'.space_prefix .func
  rw [Draft.space_extend hread.imports_first, hspace] at hprefix
  have hindex : ((d.toModule name).space .func)[(declaring .func before).length]? =
      some (.func x) := by
    show (d.space .func)[_]? = _
    rw [(hrun.declares .func).length_eq]
    obtain ⟨rest, hrest⟩ := hprefix
    rw [← hrest, List.append_assoc, List.getElem?_append_right (Nat.le_refl _), Nat.sub_self]
    rfl
  rw [localsOf, definedFunc?_eq_some_iff.mpr hindex]

/-- Fields with references written as numbers make the same module. -/
theorem ofFields_numbered {name : Option String} {m : Module} {fields fields' : List Form}
    (hm : ofFields name fields = .ok m) (h : m.Numbered fields fields') :
    ofFields name fields' = .ok m := by
  obtain ⟨before, f, f', after, rfl, rfl, hf⟩ := h
  obtain ⟨spaces, types, d, hspaces, htypes, hd, rfl⟩ := passes_of_ofFields hm
  rw [Spaces.ofFields_eq_declaredBy hspaces] at hf
  rw [List.foldlM_append] at hd
  obtain ⟨d₁, hbefore, hd⟩ := Success.of_bind hd
  rw [List.foldlM_cons] at hd
  obtain ⟨d₂, hadd, hafter⟩ := Success.of_bind hd
  obtain ⟨part, t, hread, rfl⟩ := Part.readFrom_of_add hadd
  obtain ⟨parts, hrun⟩ := Draft.run_of_foldlM hbefore
  have hdistinct := hrun.distinct List.nodup_nil
  have hnames : spaces.types <+: d₁.types.names := hrun.grows.names
  obtain ⟨hread', hdeclared⟩ :=
    Part.readFrom_numbered hnames hf (localsOf_eq hbefore hread hafter) hread
  have hadd' := Field.add_of_readFrom hread' (Field.yieldsDistinct_add spaces hdistinct f _ hadd)
  -- the passes over names and over types look at no references
  have hspaces' : Spaces.ofFields (before ++ f' :: after) = .ok spaces := by
    have hdeclare (s : Spaces) : s.declare f' = s.declare f := by
      rw [Spaces.declare, Spaces.declare, hdeclared]
    unfold Spaces.ofFields at hspaces ⊢
    simp only [List.foldlM_append, List.foldlM_cons, hdeclare] at hspaces ⊢
    exact hspaces
  have htypes' : typesOfFields (before ++ f' :: after) = .ok types := by
    obtain ⟨htype, htype'⟩ := hf.isHeadedBy_typeKw
    unfold typesOfFields at htypes ⊢
    simp only [List.filter_append, List.filter_cons, htype, htype'] at htypes ⊢
    exact htypes
  refine ofFields_of_passes hspaces' htypes' ?_
  rw [List.foldlM_append, Success.bind_of hbefore, List.foldlM_cons, Success.bind_of hadd']
  exact hafter

end Module

end WasmText
