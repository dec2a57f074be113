import WasmText.Proofs.Part

/-!
# The words of a field are those of its body

Names, inline exports and imports, types, locals, targets, members and strings have no instruction
words in them. So the words of a function, a global or a segment are those of the one body it has,
in the same blocks, and the body is read from the words of the field.
-/

namespace WasmText

open Form

namespace Form

theorem leaf_of_expectBytes {f : Form} {bytes : List UInt8} (h : f.expectBytes = .ok bytes) :
    f.Leaf := by
  unfold expectBytes at h
  split at h
  · next bytes' hbytes => exact leaf_of_isSome (by simp [hbytes])
  · cases h

/-- A form that is read as a name is a string. -/
theorem leaf_of_expectName {f : Form} {name : String} (h : f.expectName = .ok name) :
    f.Leaf := by
  obtain ⟨bytes, hbytes, -⟩ := Success.of_bind h
  exact leaf_of_expectBytes hbytes

theorem leaf_of_expectAllBytes {fs : List Form} {bytes : List UInt8}
    (h : expectAllBytes fs = .ok bytes) : ∀ f ∈ fs, f.Leaf := by
  obtain ⟨bss, hbss, -⟩ := Success.of_map h
  intro f hf
  obtain ⟨bs, hbs⟩ := Success.of_mapM hbss f hf
  exact leaf_of_expectBytes hbs

/-- Forms that all refer to an entry are numbers and identifiers. -/
theorem leaf_of_mapM_resolve {space : Space} {names : Names} {span : Span} {fs : List Form}
    {indices : List Nat}
    (h : fs.mapM (fun v => names.resolve space span (some v)) = .ok indices) :
    ∀ f ∈ fs, f.Leaf := by
  intro f hf
  obtain ⟨index, hindex⟩ := Success.of_mapM h f hf
  obtain ⟨g, hg, hleaf⟩ := Names.leaf_of_resolve hindex
  exact Option.some.inj hg ▸ hleaf

end Form

/-! ## Parts of fields -/

namespace Field

/-- A name at the start of some items has no words. -/
theorem inertTake_of_name (items : List Form) : InertTake (name items).2 items := by
  unfold name
  split
  · next n hn =>
    obtain ⟨g, hg, hid⟩ := Option.bind_eq_some_iff.mp hn
    exact inertTake_leaf ⟨g, hg, leaf_of_isSome (by simp [hid])⟩
  · exact inertTake_zero items

/-- An export written inside a field has no words. -/
theorem inert_of_inlineExport {kind : ExternKind} {index : Nat} {f : Form} {e : Export}
    (hhead : f.isHeadedBy .exportKw = true) (h : InlineExport kind index f e) : f.Inert := by
  obtain ⟨g, hargs, hname⟩ := h.name
  refine .list (isHeadedBy_iff.mp hhead) ?_
  rw [hargs, List.forall_mem_singleton]
  exact leaf_of_expectName hname

theorem leaf_of_importNames {f : Form} {names : String × String}
    (h : importNames f = .ok names) :
    ∃ first second, f.args[0]? = some first ∧ f.args[1]? = some second ∧ first.Leaf ∧
      second.Leaf := by
  obtain ⟨first, hneed, h⟩ := Success.of_bind h
  obtain ⟨_, hmodule, h⟩ := Success.of_bind h
  obtain ⟨second, hneed', h⟩ := Success.of_bind h
  obtain ⟨_, hfield, -⟩ := Success.of_bind h
  exact ⟨first, second, eq_some_of_need hneed, eq_some_of_need hneed',
    leaf_of_expectName hmodule, leaf_of_expectName hfield⟩

/-- An import written inside a field has no words. -/
theorem inertTake_of_inlineImport {items : List Form} {names? : Option (String × String)}
    {n : Nat} (h : inlineImport items = .ok (names?, n)) : InertTake n items := by
  cases importedAs_of_inlineImport h with
  | absent => exact inertTake_zero items
  | @written g _ hg hnames hmore =>
    obtain ⟨hfirst, hhead⟩ := Option.filter_eq_some_iff.mp hg
    obtain ⟨first, second, hmodule, hfield, hleafModule, hleafField⟩ := leaf_of_importNames hnames
    refine inertTake_head ⟨g, hfirst, .list (isHeadedBy_iff.mp hhead) ?_⟩
    rw [eq_pair_of_noMore hmodule hfield hmore]
    exact List.forall_mem_cons.mpr ⟨hleafModule, List.forall_mem_singleton.mpr hleafField⟩

/-- The opening of a field holds no instructions. -/
theorem Opens.exists_inertTake {kind : ExternKind} {d : Draft} {f : Form} {o : Opening}
    {es : List Export} (h : Opens kind d f o es) :
    ∃ n, InertTake n f.args ∧ o.rest = f.args.drop n := by
  have hexports : InertTake (inlineExports f).length (afterName f) := by
    refine inertTake_takeWhile fun g hg => ?_
    have hhead : g.isHeadedBy .exportKw = true := List.mem_takeWhile_imp hg
    obtain ⟨e, -, hread⟩ := Success.exists_right h.exports hg
    exact inert_of_inlineExport hhead hread
  have hname := (inertTake_of_name f.args).add hexports
  obtain ⟨m, himport, hrest⟩ := h.imported
  rw [afterExports_eq] at himport hrest
  exact ⟨_, hname.add (inertTake_of_inlineImport himport), hrest.trans List.drop_drop⟩

/-- The words of a field are in what follows its opening. -/
theorem Opens.placedAll_rest {kind : ExternKind} {d : Draft} {f : Form} {o : Opening}
    {es : List Export} (h : Opens kind d f o es) (enclosing : List (Option String)) :
    placedAll enclosing o.rest = placedAll enclosing f.args := by
  obtain ⟨n, htake, hrest⟩ := h.exists_inertTake
  rw [hrest, htake.placedAll_drop]

/-- A list of locals has no words, with a name or without. -/
theorem inert_of_addLocals {locals locals' : Names × List ValType} {f : Form}
    (hhead : f.isHeadedBy .localKw = true) (h : addLocals locals f = .ok locals') :
    f.Inert := by
  refine .list (isHeadedBy_iff.mp hhead) ?_
  unfold addLocals at h
  split at h
  · next name hname =>
    obtain ⟨type, hneed, h⟩ := Success.of_bind h
    obtain ⟨_, htype, h⟩ := Success.of_bind h
    obtain ⟨_, hmore, -⟩ := Success.of_bind h
    obtain ⟨first, hfirst, hid⟩ := Option.bind_eq_some_iff.mp hname
    rw [List.head?_eq_getElem?] at hfirst
    rw [List.head?_tail] at hneed
    intro g hg
    rw [eq_pair_of_noMore hfirst (eq_some_of_need hneed) hmore, List.mem_pair] at hg
    rcases hg with rfl | rfl
    · exact leaf_of_isSome (by simp [hid])
    · exact leaf_of_valueType htype
  · obtain ⟨types, htypes, -⟩ := Success.of_bind h
    exact leaf_of_mapM_valueType htypes

/-- The locals at the start of a function's items have no words. -/
theorem inertTake_of_locals {fs rest : List Form} {locals locals' : Names × List ValType}
    (hfs : fs = rest.takeWhile (isHeadedBy .localKw))
    (h : fs.foldlM addLocals locals = .ok locals') : InertTake fs.length rest := by
  have hall : ∀ f ∈ fs, f.isHeadedBy .localKw = true := by
    intro f hf
    rw [hfs] at hf
    exact List.mem_takeWhile_imp hf
  have hinert : ∀ f ∈ fs, f.Inert := by
    clear hfs
    induction fs generalizing locals with
    | nil => simp
    | cons f fs ih =>
      rw [List.foldlM_cons] at h
      obtain ⟨locals₁, hf, h⟩ := Success.of_bind h
      rw [List.forall_mem_cons] at hall ⊢
      exact ⟨inert_of_addLocals hall.1 hf, ih h hall.2⟩
  rw [hfs] at hinert ⊢
  exact inertTake_takeWhile hinert

/-- The type of a global has no words, whether it is mutable or not. -/
theorem inert_of_globalType {span : Span} {item? : Option Form} {type : GlobalType}
    (h : globalType span item? = .ok type) : ∃ f, item? = some f ∧ f.Inert := by
  obtain ⟨f, hneed, h⟩ := Success.of_bind h
  refine ⟨f, eq_some_of_need hneed, ?_⟩
  match f with
  | .atom a =>
    obtain ⟨_, htype, -⟩ := Success.of_bind h
    exact .leaf (leaf_of_valueType htype)
  | .list place items =>
    dsimp only at h
    split at h
    · cases h
    · next hmut =>
      obtain ⟨g, hneed', h⟩ := Success.of_bind h
      obtain ⟨_, htype, h⟩ := Success.of_bind h
      obtain ⟨_, hmore, -⟩ := Success.of_bind h
      refine .list (Decidable.not_not.mp hmut) ?_
      rw [eq_singleton_of_noMore (eq_some_of_need hneed') hmore, List.forall_mem_singleton]
      exact leaf_of_valueType htype

theorem leaf_of_elemType {span : Span} {f : Form} {type : ValType}
    (h : elemType span (some f) = .ok type) : f.Leaf := by
  rw [elemType] at h
  split at h
  · next htype => exact leaf_of_isSome (by simp [htype])
  · cases h

/-- What a segment says of its target has no words. -/
theorem inertTake_of_target {space : Space} {names : Names} {items : List Form} {index n : Nat}
    (h : target space names items = .ok (index, n)) : InertTake n items := by
  unfold target at h
  split at h
  · next a ha =>
    obtain ⟨_, hindex, h⟩ := Success.of_bind h
    obtain ⟨-, rfl⟩ := Prod.mk.inj (Success.of_pure h)
    obtain ⟨g, hg, hleaf⟩ := Names.leaf_of_resolve hindex
    exact inertTake_leaf ⟨g, ha.trans hg, hleaf⟩
  · obtain ⟨-, rfl⟩ := Prod.mk.inj (Except.ok.inj h)
    exact inertTake_zero items

/-- The words of a segment are those of its offset. -/
theorem placedAll_of_segment {word : Keyword} {f : Form} {n : Nat} {item : Form}
    (hhead : f.headKeyword? = some word) (htake : InertTake n f.args)
    (hitem : f.args[n]? = some item) (hlist : item.items?.isSome = true)
    (hrest : ∀ g ∈ f.args.drop (n + 1), g.Leaf) :
    placedAll [] (if item.isHeadedBy .offsetKw then item.args else [item]) = f.placed := by
  have hargs : f.placed = item.placedIn [] := by
    obtain ⟨hn, rfl⟩ := List.getElem?_eq_some_iff.mp hitem
    rw [placed, placedIn_of_headKeyword? hhead, ← htake.placedAll_drop,
      List.drop_eq_getElem_cons hn, Body.placedAll_list hlist,
      placedAll_eq_nil fun g hg => (hrest g hg).wordless, List.append_nil]
  rw [hargs]
  split
  · next hoffset => exact (placedIn_of_headKeyword? (isHeadedBy_iff.mp hoffset) []).symm
  · rw [Body.placedAll_list hlist, placedAll, List.append_nil]

/-- The words of a function are those of its body. -/
theorem placedAll_of_func {kind : ExternKind} {word : Keyword} {d : Draft} {f : Form} {o : Opening}
    {es : List Export} {namesAllowed : Bool} {t t' : TypeTable} {use : TypeUse} {n : Nat}
    {decls : List Form} {locals locals' : Names × List ValType}
    (hhead : f.headKeyword? = some word) (hopen : Opens kind d f o es)
    (huse : TypeUse.ReadAs namesAllowed o.rest t use n t')
    (hdecls : decls = (o.rest.drop n).takeWhile (isHeadedBy .localKw))
    (hlocals : decls.foldlM addLocals locals = .ok locals') :
    placedAll [] ((o.rest.drop n).drop decls.length) = f.placed := by
  rw [(inertTake_of_locals hdecls hlocals).placedAll_drop, huse.inertTake.placedAll_drop,
    hopen.placedAll_rest, placed, placedIn_of_headKeyword? hhead]

/-- The words of a global are those of its initialiser. -/
theorem placedAll_of_global {kind : ExternKind} {word : Keyword} {d : Draft} {f : Form}
    {o : Opening} {es : List Export} {span : Span} {type : GlobalType}
    (hhead : f.headKeyword? = some word) (hopen : Opens kind d f o es)
    (htype : globalType span o.rest.head? = .ok type) :
    placedAll [] o.rest.tail = f.placed := by
  have htake := inertTake_head (inert_of_globalType htype)
  rw [← List.drop_one, htake.placedAll_drop, hopen.placedAll_rest, placed,
    placedIn_of_headKeyword? hhead]

end Field

/-! ## Bodies of parts -/

namespace Part

open WasmText.Field Body

variable {spaces : Spaces} {d : Draft} {f : Form} {part : Part} {types : TypeTable}

/-- The body of a function is read from the words of its field, inside the function's own label. -/
theorem ReadFrom.covers_func (h : part.ReadFrom spaces d f types) :
    ∀ x ∈ part.funcs, ∃ names result,
      Covers ⟨spaces, names, .ofFunction result, 0⟩ [] d.types types f.placed x.body := by
  cases h with
  | @func o es use n params names decls rest locals body t t' hhead hopen himport huse hdecls hrest
      hparams hlocals hbody =>
    rw [List.forall_mem_singleton]
    refine ⟨names, use.sig.result, ?_⟩
    have hcovers := covers_of_whole rest (Scope.within_self _) hbody
    rw [hrest, placedAll_of_func hhead hopen huse hdecls hlocals] at hcovers
    exact hcovers.mono huse.grows
  | _ => simp

/-- The body of a global has the words of its field, read as a constant. -/
theorem ReadFrom.covers_global (h : part.ReadFrom spaces d f types) :
    ∀ g ∈ part.globals, Covers (constScope spaces) [] d.types types f.placed g.init := by
  cases h with
  | @global o es type init t hhead hopen himport htype hinit =>
    rw [List.forall_mem_singleton]
    rw [← placedAll_of_global hhead hopen htype]
    exact covers_of_whole o.rest.tail (Scope.within_self _) hinit
  | _ => simp

/-- The offset of a segment is read from the words of its field, or it is the one that goes without
saying. -/
inductive OffsetCovers (spaces : Spaces) (start stop : TypeTable) (f : Form) : List Instr → Prop
  | written {offset : List Instr}
    (h : Covers (constScope spaces) [] start stop f.placed offset) :
    OffsetCovers spaces start stop f offset
  | zero {span : Span} (h : f.placed = []) : OffsetCovers spaces start stop f (zeroOffset span)

/-- A written offset is read from the words of its segment. -/
theorem covers_of_offset {word : Keyword} {n : Nat} {item : Form} {offset : List Instr}
    {t t' : TypeTable} (hhead : f.headKeyword? = some word) (htake : InertTake n f.args)
    (hitem : f.args[n]? = some item) (hlist : item.items?.isSome = true)
    (hrest : ∀ g ∈ f.args.drop (n + 1), g.Leaf)
    (h : (whole (constScope spaces)
      (if item.isHeadedBy .offsetKw then item.args else [item])).run t = .ok (offset, t')) :
    Covers (constScope spaces) [] t t' f.placed offset := by
  rw [← placedAll_of_segment hhead htake hitem hlist hrest]
  exact covers_of_whole _ (Scope.within_self _) h

/-- The offset of an element segment has the words of its field. -/
theorem ReadFrom.covers_elem (h : part.ReadFrom spaces d f types) :
    ∀ e ∈ part.elems, OffsetCovers spaces d.types types f e.offset := by
  cases h with
  | @tableOfElems o es type list elemType init hhead hopen himport hrest htype hlist hinit =>
    rw [List.forall_mem_singleton]
    apply OffsetCovers.zero
    rw [placed, placedIn_of_headKeyword? hhead, ← hopen.placedAll_rest, hrest]
    apply placedAll_eq_nil
    intro g hg
    rcases List.mem_pair.mp hg with rfl | rfl
    · exact (leaf_of_elemType htype).wordless
    · exact (Inert.list hlist (leaf_of_mapM_resolve hinit)).wordless
  | @elem table n offset item init t hhead htarget hitem hlist hoffset hinit =>
    rw [List.forall_mem_singleton]
    exact .written (covers_of_offset hhead (inertTake_of_target htarget) hitem hlist
      (leaf_of_mapM_resolve hinit) hoffset)
  | _ => simp

/-- The offset of a data segment has the words of its field. -/
theorem ReadFrom.covers_data (h : part.ReadFrom spaces d f types) :
    ∀ x ∈ part.data, OffsetCovers spaces d.types types f x.offset := by
  cases h with
  | @memoryOfData o es list init pages hhead hopen himport hrest hlist hinit hpages =>
    rw [List.forall_mem_singleton]
    apply OffsetCovers.zero
    rw [placed, placedIn_of_headKeyword? hhead, ← hopen.placedAll_rest, hrest]
    apply placedAll_eq_nil
    rw [List.forall_mem_singleton]
    exact (Inert.list hlist (leaf_of_expectAllBytes hinit)).wordless
  | @data memory n offset item init t hhead htarget hitem hlist hoffset hinit =>
    rw [List.forall_mem_singleton]
    exact .written (covers_of_offset hhead (inertTake_of_target htarget) hitem hlist
      (leaf_of_expectAllBytes hinit) hoffset)
  | _ => simp

end Part

end WasmText
