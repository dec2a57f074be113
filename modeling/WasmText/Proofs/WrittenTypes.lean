import WasmText.Proofs.FieldWords

/-!
# Types as they are written

A function, an imported function and an indirect call are given a type by a reference, by a
signature, or by both. `Field.typeUses` lists what stands for a type in a field, as it is written
and with no regard to the readers, and the lemmas below tell that the readers take it for that.
-/

namespace WasmText

open Form

/-! ## Signatures -/

/-- The types among the items of a `(param …)` or a `(result …)`. -/
def Form.listedTypes (f : Form) : List ValType := f.args.filterMap valType?

namespace Signature

/-- The parameters at the front of some forms. -/
def paramForms (items : List Form) : List Form := items.takeWhile (isHeadedBy .paramKw)

/-- The results after the parameters. -/
def resultForms (items : List Form) : List Form :=
  (items.drop (paramForms items).length).takeWhile (isHeadedBy .resultKw)

/-- The signature at the front of some forms, without parameters and results if none are there. -/
def written (items : List Form) : FuncType :=
  ⟨(paramForms items).flatMap listedTypes, (resultForms items).flatMap listedTypes⟩

/-- Whether there are parameters or results at the front of some forms. -/
def isWritten (items : List Form) : Bool :=
  items.head?.any fun f => f.isHeadedBy .paramKw || f.isHeadedBy .resultKw

theorem valType?_of_valueType {f : Form} {type : ValType} (h : f.valueType = .ok type) :
    f.valType? = some type := by
  unfold valueType at h
  split at h
  · next t ht =>
    split at h
    · rw [ht, Except.ok.inj h]
    · cases h
  · cases h

theorem filterMap_of_forall₂ {α : Type} {k : α → ValType} {fs : List Form} {as : List α}
    (h : List.Forall₂ (fun f a => f.valueType = .ok (k a)) fs as) :
    fs.filterMap valType? = as.map k := by
  induction h with
  | nil => rfl
  | cons hfa _ ih =>
    rw [List.filterMap_cons_some (valType?_of_valueType hfa), List.map_cons, ih]

theorem flatMap_of_mapM {α β : Type} {r : Form → Except Problem (List α)} {g : Form → List β}
    {k : α → β} {fs : List Form} {ass : List (List α)}
    (hr : ∀ f as, r f = .ok as → g f = as.map k) (h : fs.mapM r = .ok ass) :
    fs.flatMap g = ass.flatten.map k := by
  induction Success.mapM_iff.mp h with
  | nil => rfl
  | cons hfa hrest ih =>
    rw [List.flatMap_cons, List.flatten_cons, List.map_append, hr _ _ hfa,
      ih (Success.mapM_iff.mpr hrest)]

/-- Parameters have the types that are listed. -/
theorem listedTypes_of_params {namesAllowed : Bool} {f : Form} {ps : List Param}
    (h : params namesAllowed f = .ok ps) : f.listedTypes = ps.map Param.type := by
  rw [listedTypes]
  cases paramsAs_of_params h with
  | @named first _ _ _ hargs hname htype =>
    -- the name is no type
    have hfirst : first.valType? = none := by
      obtain ⟨⟨kind, text, span⟩⟩ | ⟨span, items⟩ := first
      · cases kind with
        | id _ => rfl
        | _ => cases hname
      · rfl
    rw [hargs, List.filterMap_cons_none hfirst,
      List.filterMap_cons_some (valType?_of_valueType htype)]
    rfl
  | unnamed _ h => exact filterMap_of_forall₂ (h.imp fun _ _ hp => hp.1)

/-- Results have the types that are listed. -/
theorem listedTypes_of_results {f : Form} {types : List ValType} (h : results f = .ok types) :
    f.listedTypes = types.map id :=
  filterMap_of_forall₂ (Success.mapM_iff.mp h)

/-- The signature that is read is the one that is written, and it takes the forms it is written
in. -/
theorem written_of_read {namesAllowed : Bool} {items : List Form} {ps : List Param}
    {rs : List ValType} {n : Nat} (h : read namesAllowed items = .ok (ps, rs, n)) :
    written items = ⟨ps.map Param.type, rs⟩ ∧
      n = (paramForms items).length + (resultForms items).length := by
  obtain ⟨⟨pss, hpss, rfl⟩, ⟨rss, hrss, rfl⟩, -, rfl⟩ := readAs_of_read h
  refine ⟨?_, rfl⟩
  have hparams := flatMap_of_mapM (fun _ _ => listedTypes_of_params) hpss
  have hresults := flatMap_of_mapM (fun _ _ => listedTypes_of_results) hrss
  rw [List.map_id] at hresults
  exact congrArg₂ FuncType.mk hparams hresults

/-- A signature is written where there are parameters or results. -/
theorem isWritten_iff (items : List Form) :
    isWritten items = true ↔ (paramForms items).length + (resultForms items).length ≠ 0 := by
  cases items with
  | nil => simp [isWritten, paramForms, resultForms]
  | cons f rest =>
    by_cases hparam : f.isHeadedBy .paramKw = true
    · simp [isWritten, paramForms, hparam]
    · by_cases hresult : f.isHeadedBy .resultKw = true
      · simp [isWritten, paramForms, resultForms, hparam, hresult]
      · simp [isWritten, paramForms, resultForms, hparam, hresult]

end Signature

/-! ## What stands for a type -/

/-- What stands for a type: a signature alone, or a reference and perhaps a signature. The form that
should be a reference may be missing. -/
inductive WrittenType
  | signature (sig : FuncType)
  | reference (ref? : Option Form) (sig? : Option FuncType)

namespace WrittenType

/-- What the type use at the front of some forms writes. -/
def ofTypeUse (items : List Form) : WrittenType :=
  match items.head?.filter (isHeadedBy .typeKw) with
  | some f =>
    .reference f.args.head?
      (if Signature.isWritten items.tail then some (Signature.written items.tail) else none)
  | none => .signature (Signature.written items)

/-- What an indirect call writes after its word: a reference alone, or a type use. -/
def ofCall (items : List Form) : WrittenType :=
  match items.head?.filter isReference with
  | some f => .reference (some f) none
  | none => ofTypeUse items

/-- The signature that stands for a type alone. -/
def implicit? : WrittenType → Option FuncType
  | signature sig => some sig
  | reference .. => none

end WrittenType

/-- What an instruction word writes for a type, if it is that of an indirect call. -/
def Word.type? (w : Word) : Option WrittenType :=
  if w.op = .callIndirect then some (.ofCall w.args) else none

namespace Field

/-- The forms of a field after its opening. -/
def afterOpening (f : Form) : List Form :=
  (afterExports f).drop
    (if ((afterExports f).head?.filter (isHeadedBy .importKw)).isSome then 1 else 0)

/-- What stands for a type in a field: in a function, which may be imported, and after that in the
indirect calls of the field's body. -/
def typeUses (f : Form) : List WrittenType :=
  match f.headKeyword? with
  | some .importKw =>
    match f.args[2]?.filter (isHeadedBy .funcKw) with
    | some desc => [.ofTypeUse (afterName desc)]
    | none => []
  | some .funcKw => .ofTypeUse (afterOpening f) :: f.words.filterMap Word.type?
  | some .globalKw | some .elemKw | some .dataKw => f.words.filterMap Word.type?
  | _ => []

/-- The type that a `(type $name? (func …))` defines. -/
def definedType (f : Form) : FuncType :=
  Signature.written (((afterName f).head?.map args).getD [])

/-- What follows the name of a field are its items, or all but the first. -/
theorem afterName_eq (f : Form) :
    afterName f = f.args.drop (if (f.args.head?.bind id?).isSome then 1 else 0) := by
  unfold afterName name
  split
  · next n hn => rw [hn]; rfl
  · next hnone => rw [hnone]; rfl

/-- How the type of a definition comes about. -/
inductive DefinedAs (f : Form) : FuncType → Prop
  | func {span : Span} {head : Form} {parts : List Form} {ps : List Param} {rs : List ValType}
    {n : Nat} (hafter : afterName f = [.list span (head :: parts)])
    (hhead : head.keyword? = some .funcKw) (hread : Signature.read true parts = .ok (ps, rs, n))
    (hrest : parts.drop n = []) : DefinedAs f ⟨ps.map Param.type, rs⟩

/-- A type definition defines the signature that is written in it. -/
theorem definedAs_of_ofDefinition? {f : Form} {sig : FuncType}
    (h : FuncType.ofDefinition? f = some (.ok sig)) : DefinedAs f sig := by
  unfold FuncType.ofDefinition? at h
  rw [← afterName_eq] at h
  dsimp only at h
  split at h
  · cases h
  · cases h
  · cases h
  · next hfirst =>
    have h := Option.some.inj h
    split at h
    · cases h
    · next hhead =>
      obtain ⟨_, hmore, h⟩ := Success.of_bind h
      obtain ⟨⟨ps, rs, n⟩, hread, h⟩ := Success.of_bind h
      obtain ⟨_, hmore', h⟩ := Success.of_bind h
      obtain rfl := Success.of_pure h
      exact .func (eq_singleton_of_noMore hfirst hmore) (Decidable.not_not.mp hhead) hread
        (eq_nil_of_noMore hmore')

/-- The type that is read from a definition is the one that it writes. -/
theorem definedType_of_ofDefinition? {f : Form} {sig : FuncType}
    (h : FuncType.ofDefinition? f = some (.ok sig)) : definedType f = sig := by
  cases definedAs_of_ofDefinition? h with
  | func hafter _ hread =>
    rw [definedType, hafter]
    exact (Signature.written_of_read hread).1

/-- What follows an opening can be told without reading it. -/
theorem Opens.rest_eq_afterOpening {kind : ExternKind} {d : Draft} {f : Form} {o : Opening}
    {es : List Export} (h : Opens kind d f o es) : o.rest = afterOpening f := by
  obtain ⟨m, himport, hrest⟩ := h.imported
  rw [hrest, afterOpening]
  congr 1
  generalize o.imported = imported at himport
  cases importedAs_of_inlineImport himport with
  | absent h | written h =>
    rw [h]
    rfl

end Field

/-! ## Type uses -/

namespace TypeUse

variable {t : TypeTable} {items : List Form}

theorem filter_of_explicit?_none (h : explicit? t items = .ok none) :
    items.head?.filter (isHeadedBy .typeKw) = none := by
  have hother := explicit?_eq_none_iff.mp h
  cases hf : items.head? with
  | none => rfl
  | some f => rw [Option.filter_some, hother f hf, if_neg (by simp)]

/-- A type that is named is named by a `type` with a reference in it. -/
theorem exists_ref_of_explicit? {index : Nat} {span : Span}
    (h : explicit? t items = .ok (some (index, span))) :
    ∃ f ref, items.head?.filter (isHeadedBy .typeKw) = some f ∧ f.args = [ref] ∧
      t.names.resolve .type f.span (some ref) = .ok index := by
  obtain ⟨f, ref, hf, hhead, hargs, -, hindex⟩ := explicit?_eq_some_iff.mp h
  refine ⟨f, ref, ?_, hargs, hindex⟩
  rw [hf, Option.filter_some, if_pos hhead]

/-- Without a reference, a type use writes the signature that is read. -/
theorem ofTypeUse_of_explicit?_none {namesAllowed : Bool} {ps : List Param} {rs : List ValType}
    {n : Nat} (h : explicit? t items = .ok none)
    (hread : Signature.read namesAllowed items = .ok (ps, rs, n)) :
    WrittenType.ofTypeUse items = .signature ⟨ps.map Param.type, rs⟩ := by
  rw [WrittenType.ofTypeUse, filter_of_explicit?_none h, (Signature.written_of_read hread).1]

end TypeUse

end WasmText
