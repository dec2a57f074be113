import WasmText.Proofs.FieldTypes

/-!
# The type table of a module

The types of an accepted module are those that its fields define, in their order, and after them the
signatures that stand for a type alone, each where it is first met and only if it is new. A
reference has the index of what it refers to, and a signature alone the least index of its type
(`WrittenType.Denotes`). While fields are read there are as many names as types, whatever comes of
the fields, so no type that is named is missing (`Module.types_exact`).
-/

namespace WasmText

open Form WasmText.Field

/-! ## What stands for a type has an index -/

/-- A reference that is written as `v` has the index `i` among the types: a name that of the one
field that defines it, and a number itself. -/
inductive Field.RefersToType (fields : List Form) (v : Form) (i : Nat) : Prop
  | name {n : String} (hid : v.id? = some n)
    (h : ∀ j, (typeNames fields)[j]? = some (some n) ↔ j = i)
  | number {t : Token} (hnumber : v.number? = some t) (h : Form.natural t.text t.span = .ok i)

/-- The index that what stands for a type has among some types. A signature alone has the least
index of its type, and one after a reference is the type that the reference has the index of. -/
inductive WrittenType.Denotes (fields : List Form) (types : List FuncType) :
    WrittenType → Nat → Prop
  | signature {sig : FuncType} {i : Nat} (h : types[i]? = some sig)
    (hfirst : ∀ j < i, types[j]? ≠ some sig) : Denotes fields types (.signature sig) i
  | reference {v : Form} {sig? : Option FuncType} {i : Nat} (href : RefersToType fields v i)
    (hlt : i < types.length) (hsig : ∀ sig, sig? = some sig → types[i]? = some sig) :
    Denotes fields types (.reference (some v) sig?) i

section Prefix

variable {types types' : List FuncType} {i : Nat} {sig : FuncType}

/-- Types stay where they are when others are added. -/
theorem getElem?_of_grown (h : types <+: types') (hi : i < types.length) :
    types'[i]? = types[i]? := by
  obtain ⟨rest, rfl⟩ := h
  exact List.getElem?_append_left hi

/-- A type use denotes the same type when others are added. -/
theorem WrittenType.Denotes.mono {fields : List Form} {u : WrittenType} (h : types <+: types')
    (hu : u.Denotes fields types i) : u.Denotes fields types' i := by
  cases hu with
  | signature hsig hfirst =>
    have hlt : i < types.length := (List.getElem?_eq_some_iff.mp hsig).1
    refine .signature ((getElem?_of_grown h hlt).trans hsig) fun j hj => ?_
    rw [getElem?_of_grown h (Nat.lt_trans hj hlt)]
    exact hfirst j hj
  | reference href hlt hsig =>
    refine .reference href (Nat.lt_of_lt_of_le hlt h.length_le) fun sig hs => ?_
    exact (getElem?_of_grown h hlt).trans (hsig sig hs)

end Prefix

namespace TypeTable

/-- The names of a table are those of the types that fields define, and none after them. -/
structure NamedBy (fields : List Form) (t : TypeTable) : Prop where
  aligned : t.Aligned
  names : ∃ n, t.names = typeNames fields ++ List.replicate n none
  distinct : (typeNames fields).Distinct

variable {fields : List Form} {t t' stop : TypeTable} {Q : FuncType → Prop}

/-- Types that are added have no names. -/
theorem NamedBy.adds (ht : t.NamedBy fields) (h : t.Adds Q t') : t'.NamedBy fields := by
  obtain ⟨n, hn⟩ := ht.names
  obtain ⟨added, -, hnames, -⟩ := h.exists_added
  refine ⟨h.aligned ht.aligned, ⟨n + added.length, ?_⟩, ht.distinct⟩
  rw [hnames, hn, List.append_assoc, List.replicate_append_replicate]

/-- What a reference is resolved to in a table is what it refers to, however the table grows. -/
theorem NamedBy.refersToType (hstop : stop.NamedBy fields) (hgrows : t.Grows stop) {space : Space}
    {span : Span} {v : Form} {i : Nat} (h : t.names.resolve space span (some v) = .ok i) :
    RefersToType fields v i ∧ i < stop.types.length := by
  have hlt := Names.lt_of_resolve h
  refine ⟨?_, Nat.lt_of_lt_of_le hlt (hstop.aligned ▸ hgrows.names.length_le)⟩
  obtain ⟨v, ⟨⟩, h⟩ := Names.resolvedAs_of_resolve h
  cases h with
  | @name name hid hindex =>
    obtain ⟨_, hname, -⟩ := List.findIdx?_eq_some_iff_getElem.mp hindex
    -- the name stands at the index in the names of the fields, as all others are none
    obtain ⟨n, hn⟩ := hstop.names
    obtain ⟨rest, hrest⟩ := hgrows.names
    have hplace : (typeNames fields ++ List.replicate n none)[i]? = some (some name) := by
      rw [← hn, ← hrest, List.getElem?_append_left hlt, List.getElem?_eq_getElem hlt,
        beq_iff_eq.mp hname]
    have hdefined : (typeNames fields)[i]? = some (some name) := by
      rw [List.getElem?_append] at hplace
      split at hplace
      · exact hplace
      · rw [List.getElem?_replicate] at hplace
        split at hplace
        · cases hplace
        · cases hplace
    refine .name hid fun j => ⟨fun hj => hstop.distinct j i name hj hdefined, ?_⟩
    rintro rfl
    exact hdefined
  | number _ hnumber hindex => exact .number hnumber hindex

/-- A signature is found, or added, at its least index. -/
theorem getElem?_findOrAdd (ht : t.Aligned) (sig : FuncType) :
    (t.findOrAdd sig).2.types[(t.findOrAdd sig).1]? = some sig ∧
      ∀ j < (t.findOrAdd sig).1, (t.findOrAdd sig).2.types[j]? ≠ some sig := by
  unfold findOrAdd
  split
  · next i hi =>
    obtain ⟨hlt, hsig, hfirst⟩ := List.findIdx?_eq_some_iff_getElem.mp hi
    constructor
    · rw [List.getElem?_eq_getElem hlt, beq_iff_eq.mp hsig]
    · intro j hj hsame
      obtain ⟨hjlt, rfl⟩ := List.getElem?_eq_some_iff.mp hsame
      exact hfirst j hj (beq_self_eq_true _)
  · next hnone =>
    dsimp only
    rw [ht]
    constructor
    · exact List.getElem?_concat_length
    · intro j hj hsame
      rw [List.getElem?_append_left hj] at hsame
      have hne := List.findIdx?_eq_none_iff.mp hnone sig (List.mem_of_getElem? hsame)
      rw [beq_self_eq_true] at hne
      cases hne

end TypeTable

/-! ## Type uses and indirect calls -/

section Uses

variable {fields items : List Form} {t t' stop : TypeTable} {n : Nat}

/-- A type use has the index that it is read as, and the signature that is there. -/
theorem TypeUse.ReadAs.denotes {namesAllowed : Bool} {use : TypeUse} (ht : t.Aligned)
    (hstop : stop.NamedBy fields) (h : ReadAs namesAllowed items t use n t')
    (hgrows : t'.Grows stop) :
    (WrittenType.ofTypeUse items).Denotes fields stop.types use.index ∧
      stop.types[use.index]? = some use.sig := by
  cases h with
  | @explicit _ span ps rs n hexplicit hread htype hagree hunwritten =>
    obtain ⟨f, ref, hfirst, hargs, hindex⟩ := exists_ref_of_explicit? hexplicit
    obtain ⟨hrefers, hlt⟩ := hstop.refersToType hgrows hindex
    have hsig : stop.types[use.index]? = some use.sig := by
      rw [getElem?_of_grown hgrows.types (List.getElem?_eq_some_iff.mp htype).1, htype]
    refine ⟨?_, hsig⟩
    rw [WrittenType.ofTypeUse, hfirst]
    dsimp only
    rw [hargs]
    refine .reference hrefers hlt fun sig hwritten => ?_
    -- a signature that is written takes forms, and was compared with the type
    obtain ⟨hread, hn⟩ := Signature.written_of_read hread
    split at hwritten
    · next hiswritten =>
      rw [Signature.isWritten_iff, ← hn] at hiswritten
      rw [hsig, (hagree hiswritten).1, ← hread, hwritten]
    · cases hwritten
  | @implicit ps rs n hexplicit hread =>
    obtain ⟨hsig, hfirst⟩ := TypeTable.getElem?_findOrAdd ht ⟨ps.map Param.type, rs⟩
    rw [ofTypeUse_of_explicit?_none hexplicit hread]
    have hdenotes : (WrittenType.signature _).Denotes fields stop.types _ :=
      .mono hgrows.types (.signature hsig hfirst)
    refine ⟨hdenotes, ?_⟩
    cases hdenotes with
    | signature h => exact h

/-- An indirect call has the type that its word writes. -/
theorem Immediate.IndirectType.denotes {span : Span} {type : Nat} (ht : t.Aligned)
    (hstop : stop.NamedBy fields) (h : IndirectType span items t type n t')
    (hgrows : t'.Grows stop) : (WrittenType.ofCall items).Denotes fields stop.types type := by
  cases h with
  | @reference f _ hhead href hindex =>
    obtain ⟨hrefers, hlt⟩ := hstop.refersToType hgrows hindex
    rw [WrittenType.ofCall, hhead, Option.filter_some, if_pos href]
    exact .reference hrefers hlt (by simp)
  | use hhead huse _ =>
    rw [WrittenType.ofCall, hhead]
    exact (huse.denotes ht hstop hgrows).1

end Uses

/-! ## Bodies -/

namespace Instr

/-- The type of an indirect call. -/
def typeIndex? : Instr → Option Nat
  | .plain (.callIndirect i) _ => some i
  | _ => none

/-- The types of the indirect calls in a body. -/
def typeIndices (body : List Instr) : List Nat := (preorderAll body).filterMap typeIndex?

end Instr

section Bodies

variable {fields : List Form} {sc : Scope} {start stop t t' : TypeTable}

/-- An indirect call is read from the word of one, and from no other. -/
theorem Plain.ReadAs.callIndirect_or {span : Span} {items : List Form} {op : Opcode} {p : Plain}
    {n : Nat} (h : p.ReadAs sc span items t op n t') :
    (op = .callIndirect ∧ ∃ type, p = .callIndirect type ∧
        Immediate.IndirectType span items t type n t') ∨
      op ≠ .callIndirect ∧ ∀ type, p ≠ .callIndirect type := by
  by_cases hop : op = .callIndirect
  · subst hop
    refine .inl ⟨rfl, ?_⟩
    cases h with
    | callIndirect h => exact ⟨_, rfl, h⟩
    | bare h hop =>
      simp only [Plain.bare, List.mem_cons, List.not_mem_nil, or_false] at h
      rcases h with rfl | rfl | rfl | rfl | rfl | rfl | rfl <;> cases hop
    | numeric h => cases h
    | const hop | load hop | store hop => cases hop
  · refine .inr ⟨hop, ?_⟩
    rintro type rfl
    exact hop h.opcode.symm

/-- A word has the type of the instruction it is read as, or neither has one. -/
theorem rel_of_readsAs {w : Word} {s : Site} (hstart : start.Aligned)
    (hstop : stop.NamedBy fields) (h : Body.ReadsAs sc start stop w s) :
    Option.Rel (WrittenType.Denotes fields stop.types) w.type? s.instr.typeIndex? := by
  cases h with
  | plain hinner hkind hgrows hread hgrows' =>
    rcases hread.callIndirect_or with ⟨hop, type, rfl, htype⟩ | ⟨hop, hne⟩
    · rw [Word.type?, if_pos hop]
      exact .some (htype.denotes (hgrows.aligned hstart) hstop hgrows')
    · rw [Word.type?, if_neg hop, Instr.typeIndex?]
      · exact .none
      · rintro type span heq
        exact hne type (Instr.plain.inj heq).1
  | @block enclosing kind name sig body elseBody n hkind hheader =>
    have hop : w.op ≠ .callIndirect := by
      intro hop
      rw [hop] at hkind
      cases hkind
    rw [Word.type?, if_neg hop]
    cases kind <;> exact .none

/-- The indirect calls of a body have the types that their words write. -/
theorem denotes_of_covers {f : Form} {body : List Instr} (hstart : start.Aligned)
    (hstop : stop.NamedBy fields) (h : Body.Covers sc [] start stop f.placed body) :
    List.Forall₂ (WrittenType.Denotes fields stop.types) (f.words.filterMap Word.type?)
      (Instr.typeIndices body) := by
  rw [Instr.typeIndices, ← Instr.map_instr_sitesAll [], List.filterMap_map]
  exact List.rel_filterMap (fun _ _ hread => rel_of_readsAs hstart hstop hread) h.sites

end Bodies

/-! ## Parts -/

/-- The type that an import of a function has. -/
def ImportDesc.typeIndex? : ImportDesc → Option Nat
  | func type => some type
  | _ => none

namespace Part

/-- The types that a part points to: of functions, imported or not, and of indirect calls. -/
def typeIndices (p : Part) : List Nat :=
  p.imports.filterMap (·.desc.typeIndex?) ++
    p.funcs.flatMap (fun x => x.type :: Instr.typeIndices x.body) ++
    p.globals.flatMap (Instr.typeIndices ·.init) ++
    p.elems.flatMap (Instr.typeIndices ·.offset) ++
      p.data.flatMap (Instr.typeIndices ·.offset)

variable {spaces : Spaces} {fields : List Form} {d : Draft} {f : Form} {part : Part}
  {types : TypeTable}

theorem typeIndices_import (i : Import) (es : List Export) :
    typeIndices { imports := [i], exports := es } = i.desc.typeIndex?.toList := by
  cases h : i.desc.typeIndex? <;> simp [typeIndices, h]

/-- The instructions of an offset have the types that its words write. -/
theorem OffsetCovers.denotes {start : TypeTable} {offset : List Instr} (hstart : start.Aligned)
    (hstop : types.NamedBy fields) (h : OffsetCovers spaces start types f offset) :
    List.Forall₂ (WrittenType.Denotes fields types.types) (f.words.filterMap Word.type?)
      (Instr.typeIndices offset) := by
  cases h with
  | written h => exact denotes_of_covers hstart hstop h
  | zero h =>
    rw [words_eq_nil_of_placed h]
    exact .nil

/-- What a field writes for types has the indices that its part points to. -/
theorem ReadFrom.denotes (ht : d.types.Aligned) (hstop : types.NamedBy fields)
    (h : part.ReadFrom spaces d f types) :
    List.Forall₂ (WrittenType.Denotes fields types.types) (typeUses f) part.typeIndices := by
  -- what the bodies of a part cover holds before it is known which field it is of
  have hfuncs := h.covers_func
  have hglobals := h.covers_global
  have helems := h.covers_elem
  have hdata := h.covers_data
  cases h with
  | type hhead | table hhead | memory hhead | «export» hhead | start hhead | tableOfElems hhead
  | memoryOfData hhead =>
    rw [typeUses, hhead]
    exact .nil
  | @«import» item names desc t hhead hitem hnames hmore hkind hdesc horder =>
    rw [typeIndices_import, typeUses, hhead, hitem]
    dsimp only
    cases hdesc with
    | func huse =>
      have hfunc : item.isHeadedBy .funcKw = true :=
        isHeadedBy_iff.mpr (Spaces.eq_of_kindOf? hkind)
      rw [Option.filter_some, if_pos hfunc]
      exact .cons (huse.denotes ht hstop (.refl _)).1 .nil
    | table | memory | global =>
      have hfunc : ¬item.isHeadedBy .funcKw = true := by
        rw [isHeadedBy_iff, Spaces.eq_of_kindOf? hkind]
        simp [ImportDesc.kind]
      rw [Option.filter_some, if_neg hfunc]
      exact .nil
  | @inlineImport o es names desc t hkind hopen himport hdesc horder =>
    rw [typeIndices_import]
    cases hdesc with
    | func huse hrest =>
      have hhead : f.headKeyword? = some .funcKw := Spaces.eq_of_kindOf? hkind
      -- nothing follows the type use of an import
      have hwords : f.words = [] := by
        apply words_eq_nil_of_placed
        rw [placed, placedIn_of_headKeyword? hhead, ← hopen.placedAll_rest,
          ← huse.inertTake.placedAll_drop, hrest]
        rfl
      rw [typeUses, hhead, ← hopen.rest_eq_afterOpening, hwords]
      exact .cons (huse.denotes ht hstop (.refl _)).1 .nil
    | table | memory =>
      rw [typeUses, Spaces.eq_of_kindOf? hkind]
      exact .nil
    | global htype hrest =>
      have hhead : f.headKeyword? = some .globalKw := Spaces.eq_of_kindOf? hkind
      rw [typeUses, hhead, ← wordsAll_of_placedAll (placedAll_of_global hhead hopen htype), hrest]
      exact .nil
  | @func o es use n params names decls rest locals body t t' hhead hopen himport huse hdecls hrest
      hparams hlocals hbody =>
    obtain ⟨names', result, hcovers⟩ := hfuncs _ (List.mem_singleton_self _)
    have hgrows := (Body.covers_of_whole _ (Scope.within_self _) hbody).grows
    rw [typeUses, hhead, ← hopen.rest_eq_afterOpening]
    simp only [typeIndices, List.flatMap_singleton, List.flatMap_nil, List.filterMap_nil,
      List.nil_append, List.append_nil]
    exact .cons (huse.denotes ht hstop hgrows).1 (denotes_of_covers ht hstop hcovers)
  | global hhead =>
    have hinit := denotes_of_covers ht hstop (hglobals _ (List.mem_singleton_self _))
    rw [typeUses, hhead]
    simpa [typeIndices] using hinit
  | elem hhead =>
    have hoffset := (helems _ (List.mem_singleton_self _)).denotes ht hstop
    rw [typeUses, hhead]
    simpa [typeIndices] using hoffset
  | data hhead =>
    have hoffset := (hdata _ (List.mem_singleton_self _)).denotes ht hstop
    rw [typeUses, hhead]
    simpa [typeIndices] using hoffset

/-- The signature of a function is that of its type. -/
theorem ReadFrom.sig_eq (ht : d.types.Aligned) (hstop : types.NamedBy fields)
    (h : part.ReadFrom spaces d f types) :
    ∀ x ∈ part.funcs, types.types[x.type]? = some x.sig := by
  cases h with
  | func _ _ _ huse _ _ _ _ hbody =>
    rw [List.forall_mem_singleton]
    have hgrows := (Body.covers_of_whole _ (Scope.within_self _) hbody).grows
    exact (huse.denotes ht hstop hgrows).2
  | _ => simp

end Part

/-! ## Runs -/

namespace Draft

variable {spaces : Spaces} {fields before : List Form} {d₀ d : Draft} {parts : List Part}

/-- What a run adds to the table is written alone in one of its fields. -/
theorem Run.adds (ht : d₀.types.Aligned) (h : Run spaces d₀ before parts d) :
    d₀.types.Adds (fun sig => ∃ f ∈ before, WritesAlone f sig) d.types := by
  induction h with
  | nil => exact .refl
  | @snoc before parts d f part types hrun hread hadd ih =>
    refine (ih.imp ?_).trans ((hread.adds (ih.aligned ht)).imp ?_)
    · rintro sig ⟨g, hg, hsig⟩
      exact ⟨g, List.mem_append_left _ hg, hsig⟩
    · intro sig hsig
      exact ⟨f, List.mem_append_right _ (List.mem_singleton_self f), hsig⟩

/-- Whatever has been read has its types, as far as the table has grown by now. -/
theorem Run.denotes (ht : d₀.types.NamedBy fields) (h : Run spaces d₀ before parts d) :
    List.Forall₂ (fun f part =>
      List.Forall₂ (WrittenType.Denotes fields d.types.types) (typeUses f) part.typeIndices ∧
        ∀ x ∈ part.funcs, d.types.types[x.type]? = some x.sig) before parts := by
  induction h with
  | nil => exact .nil
  | @snoc before parts d f part types hrun hread hadd ih =>
    have hnamed := ht.adds (hrun.adds ht.aligned)
    have hstop := hnamed.adds (hread.adds hnamed.aligned)
    refine List.rel_append (ih.imp ?_) (.cons ⟨?_, ?_⟩ .nil)
    · rintro g p ⟨hdenotes, hsigs⟩
      refine ⟨hdenotes.imp fun _ _ => .mono hread.grows.types, fun x hx => ?_⟩
      have hlt := (List.getElem?_eq_some_iff.mp (hsigs x hx)).1
      exact (getElem?_of_grown hread.grows.types hlt).trans (hsigs x hx)
    · exact hread.denotes hnamed.aligned hstop
    · exact hread.sig_eq hnamed.aligned hstop

/-- No fields are refused for a type that is missing. -/
theorem findsTypes_foldlM (ht : d.types.Aligned) :
    FindsTypes (fields.foldlM (Field.add spaces) d) := by
  induction fields generalizing d with
  | nil => exact .pure d
  | cons f fields ih =>
    rw [List.foldlM_cons]
    refine FindsTypes.bind_iff.mpr ⟨findsTypes_add spaces f ht, fun d' hd' => ih ?_⟩
    obtain ⟨part, types, hread, rfl⟩ := Part.readFrom_of_add hd'
    exact (hread.adds ht).aligned ht

end Draft

/-! ## Modules -/

namespace Failure

variable {α β γ : Type} {p : Problem}

/-- Whether reading stops at a problem that has words. -/
def isProblem : Except Failure α → Bool
  | .error (.problem _) => true
  | _ => false

theorem exists_problem {x : Except Failure α} (h : isProblem x = true) :
    ∃ p, x = .error (.problem p) := by
  unfold isProblem at h
  split at h
  · exact ⟨_, rfl⟩
  · cases h

theorem of_lift {x : Except Problem α} (h : Failure.lift x = .error (.problem p)) :
    x = .error p := by
  cases x with
  | error q => rw [Failure.problem.inj (Except.error.inj h)]
  | ok a => cases h

theorem of_bind {x : Except Failure α} {f : α → Except Failure β}
    (h : x >>= f = .error (.problem p)) :
    x = .error (.problem p) ∨ ∃ a, x = .ok a ∧ f a = .error (.problem p) := by
  cases x with
  | error e => exact .inl (congrArg _ (Except.error.inj h))
  | ok a => exact .inr ⟨a, rfl, h⟩

theorem of_bind_lift {x : Except Problem α} {f : α → Except Failure β}
    (h : (liftM x : Except Failure α) >>= f = .error (.problem p)) :
    x = .error p ∨ ∃ a, x = .ok a ∧ f a = .error (.problem p) := by
  rcases of_bind h with h | ⟨a, ha, h⟩
  · exact .inl (of_lift h)
  · exact .inr ⟨a, Success.of_mapError ha, h⟩

/-- A reader run over a list is refused on one of the items. -/
theorem exists_of_mapM {f : γ → Except Failure α} {xs : List γ}
    (h : xs.mapM f = .error (.problem p)) : ∃ x ∈ xs, f x = .error (.problem p) := by
  induction xs with
  | nil => cases h
  | cons x xs ih =>
    rw [List.mapM_cons] at h
    rcases of_bind h with h | ⟨y, -, h⟩
    · exact ⟨x, List.mem_cons_self, h⟩
    · rcases of_bind h with h | ⟨ys, -, h⟩
      · obtain ⟨x', hx', h⟩ := ih h
        exact ⟨x', List.mem_cons_of_mem _ hx', h⟩
      · cases h

end Failure

namespace Module

variable {fields : List Form}

/-- The types of a module are exact: those that its fields define, equal ones kept, and after them
signatures that its fields write alone, each different from all before it. The module is assembled
from the parts of its fields, each of which points to the types that its field writes, and a
function has the signature of its type. -/
structure TypesExact (fields : List Form) (m : Module) : Prop where
  table : ∃ added, m.types = (definingTypes fields).map definedType ++ added ∧ added.Nodup ∧
    ∀ sig ∈ added, sig ∉ (definingTypes fields).map definedType ∧ ∃ f ∈ fields, WritesAlone f sig
  uses : ∃ parts, m.Assembled fields parts ∧ List.Forall₂ (fun f part =>
    List.Forall₂ (WrittenType.Denotes fields m.types) (typeUses f) part.typeIndices) fields parts
  sigs : ∀ x ∈ m.funcs, m.types[x.type]? = some x.sig

/-- The types of a module start with those that are defined, in order. -/
theorem typesOfFields_eq {types : List FuncType} (h : typesOfFields fields = .ok types) :
    types = (definingTypes fields).map definedType := by
  have hdefined : List.Forall₂ (fun f sig => definedType f = sig) (definingTypes fields) types := by
    refine (Success.mapM_iff.mp h).imp fun f sig hread => ?_
    split at hread
    · next type htype =>
      rw [Success.of_mapError hread] at htype
      exact definedType_of_ofDefinition? htype
    · cases hread
  rw [← List.forall₂_map_left_iff, List.forall₂_eq_eq_eq] at hdefined
  exact hdefined.symm

/-- The types of an accepted module are those that are defined, in order, and then the signatures
that are written and not yet there, each once. Every use of a type has the index that it names, or
the least index of the signature that it writes. -/
theorem typesExact_of_accepted {m : Module} (h : Accepted fields m) : m.TypesExact fields := by
  obtain ⟨name, spaces, types, d, parts, hspaces, htypes, hrun, rfl⟩ := h.run
  have hdefined := typesOfFields_eq htypes
  obtain ⟨hnames, hdistinct⟩ := Spaces.ofFields_types hspaces
  have hnamed : TypeTable.NamedBy fields ⟨spaces.types, types⟩ :=
    ⟨Spaces.aligned_of_ofFields hspaces htypes, ⟨0, by rw [hnames]; simp⟩, hdistinct⟩
  have hparts := assembled_of_run hspaces hrun name
  have hall := hrun.denotes hnamed
  refine ⟨?_, ⟨parts, hparts, hall.imp fun f part hp => hp.1⟩, ?_⟩
  · obtain ⟨added, htable, -, hnodup, hadded⟩ := (hrun.adds hnamed.aligned).exists_added
    rw [← hdefined]
    exact ⟨added, htable, hnodup, hadded⟩
  · intro x hx
    rw [hparts.join.funcs] at hx
    obtain ⟨part, hpart, hx⟩ := List.mem_flatMap.mp hx
    obtain ⟨f, -, -, hsigs⟩ := Success.exists_left hall hpart
    exact hsigs x hx

/-- Reading a module is never refused for a type that is missing from the table. -/
theorem findsTypes_of_ofFields {name : Option String} {p : Problem}
    (h : ofFields name fields = .error (.problem p)) : ∀ i, p.cause ≠ .typeOutOfRange i := by
  rcases Failure.of_bind_lift h with h | ⟨spaces, hspaces, h⟩
  · exact Spaces.findsTypes_ofFields fields p h
  · rcases Failure.of_bind h with h | ⟨types, htypes, h⟩
    · -- one of the definitions is refused
      obtain ⟨f, -, h⟩ := Failure.exists_of_mapM h
      split at h
      · next r hr => exact FuncType.findsTypes_ofDefinition? hr p (Failure.of_lift h)
      · cases h
    · rcases Failure.of_bind_lift h with h | ⟨d, -, h⟩
      · exact Draft.findsTypes_foldlM (Spaces.aligned_of_ofFields hspaces htypes) p h
      · cases h

/-- The type table of every accepted module is exact. Whenever some of the fields of a module have
been read, accepted or not, there are as many names as types, and each type use and each instruction
keeps it so. Hence reading a module is never refused for a type that is in range of the names and
missing from the types. -/
theorem types_exact :
    (∀ fields m, Accepted fields m → m.TypesExact fields) ∧
    (∀ fields spaces types, Spaces.ofFields fields = .ok spaces →
      typesOfFields fields = .ok types → ∀ before d, before <+: fields →
        before.foldlM (Field.add spaces) (.ofTypes ⟨spaces.types, types⟩) = .ok d →
          d.types.names.length = d.types.types.length) ∧
    (∀ namesAllowed items, Keeps (fun _ => True) (TypeUse.read namesAllowed items)) ∧
    (∀ sc op span items, Keeps (fun _ => True) (Plain.read sc op span items)) ∧
    ∀ name fields p, ofFields name fields = .error (.problem p) →
      ∀ i, p.cause ≠ .typeOutOfRange i := by
  refine ⟨fun fields m => typesExact_of_accepted, ?_, ?_, ?_,
    fun name fields p => findsTypes_of_ofFields⟩
  · intro fields spaces types hspaces htypes before d _ hd
    obtain ⟨parts, hrun⟩ := Draft.run_of_foldlM hd
    have haligned := Spaces.aligned_of_ofFields hspaces htypes
    exact (hrun.adds haligned).aligned haligned
  · intro namesAllowed items
    exact TypeUse.keeps_read namesAllowed fun _ _ => trivial
  · intro sc op span items
    exact Plain.keeps_read sc op span items fun _ _ _ _ => trivial

/-- A type that is defined twice, named and counted, and one that an import and an indirect call
write alone; and one that is refused, as it is out of range of the names. -/
theorem types_exact_calls :
    let src : Source := ⟨"t", "(type $a (func)) (type (func))
      (func (import \"m\" \"f\") (param i64))
      (func (type $a) call_indirect 1 call_indirect (param i64)
        call_indirect (type 2) (param i64))"⟩
    let fields := fieldsOf (Reader.ofSource src).readCommand.1
    let unknown := fieldsOf (Reader.ofSource ⟨"t", "(func (type 3))"⟩).readCommand.1
    (∃ m, (parse src).outcome = .accepted m ∧ m.TypesExact fields) ∧
    (∃ spaces types d, Spaces.ofFields fields = .ok spaces ∧ typesOfFields fields = .ok types ∧
      fields.foldlM (Field.add spaces) (.ofTypes ⟨spaces.types, types⟩) = .ok d ∧
        d.types.names.length = d.types.types.length) ∧
    (∃ use t, (TypeUse.read true []).run ⟨[], []⟩ = .ok (use, t) ∧
      TypeTable.Adds (fun _ => True) ⟨[], []⟩ t) ∧
    (∃ sc span p t, (Plain.read sc .nop span []).run ⟨[], []⟩ = .ok (p, t) ∧
      TypeTable.Adds (fun _ => True) ⟨[], []⟩ t) ∧
    ∃ p, ofFields none unknown = .error (.problem p) ∧ ∀ i, p.cause ≠ .typeOutOfRange i := by
  intro src fields unknown
  obtain ⟨haccepted, hdrafts, huses, hplain, hrefused⟩ := types_exact
  obtain ⟨m, hm⟩ : ∃ m, (parse src).outcome = .accepted m :=
    Outcome.exists_accepted (by decide +kernel)
  refine ⟨⟨m, hm, haccepted _ _ (.alone hm)⟩, ?_, ?_, ?_, ?_⟩
  · obtain ⟨name, h⟩ := (Accepted.alone hm).ofFields
    obtain ⟨spaces, types, d, hspaces, htypes, hd, -⟩ := passes_of_ofFields h
    exact ⟨spaces, types, d, hspaces, htypes, hd,
      hdrafts fields spaces types hspaces htypes fields d List.prefix_rfl hd⟩
  · exact ⟨_, _, rfl, (huses true [] ⟨[], []⟩ rfl).2 _ _ rfl⟩
  · exact ⟨⟨.empty, [], [], 0⟩, .origin, _, _, rfl,
      (hplain ⟨.empty, [], [], 0⟩ .nop .origin [] ⟨[], []⟩ rfl).2 _ _ rfl⟩
  · obtain ⟨p, hp⟩ : ∃ p, ofFields none unknown = .error (.problem p) :=
      Failure.exists_problem (by decide +kernel)
    exact ⟨p, hp, hrefused none unknown p hp⟩

end Module

end WasmText
