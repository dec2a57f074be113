import WasmText.Proofs.Spaces
import WasmText.Proofs.WrittenTypes

/-!
# The names of locals

The locals of a function are its parameters, and after them those that it declares.
`Field.localNames` lists their names, `none` for a local without one, off the field of the function
and with no regard to the readers. If the function writes no signature, the parameters are those of
its type and have no names.
-/

namespace WasmText

open Form WasmText.Field

/-- The names in a `(param …)` or a `(local …)`, which holds one entity with a name, or any number
without. -/
def Form.listedNames (f : Form) : Names :=
  match f.args.head?.bind id? with
  | some name => [some name]
  | none => f.args.map fun _ => none

namespace Field

/-- The forms after a `(type …)`, if one comes first. -/
def afterType (items : List Form) : List Form :=
  items.drop (if (items.head?.filter (isHeadedBy .typeKw)).isSome then 1 else 0)

/-- The names of the parameters of a signature, which the forms after its `(type …)` may write. -/
def paramNames (sig : FuncType) (items : List Form) : Names :=
  if Signature.isWritten items then (Signature.paramForms items).flatMap listedNames
  else sig.params.map fun _ => none

/-- The `(local …)` forms after a signature. -/
def localForms (items : List Form) : List Form :=
  let used := (Signature.paramForms items).length + (Signature.resultForms items).length
  (items.drop used).takeWhile (isHeadedBy .localKw)

/-- The names of the locals of a function with a given signature. -/
def localNames (sig : FuncType) (f : Form) : Names :=
  paramNames sig (afterType (afterOpening f)) ++
    (localForms (afterType (afterOpening f))).flatMap listedNames

end Field

/-! ## Parameters -/

namespace Signature

theorem listedNames_of_params {namesAllowed : Bool} {f : Form} {ps : List Param}
    (h : params namesAllowed f = .ok ps) : f.listedNames = ps.map Param.name := by
  rw [listedNames]
  cases paramsAs_of_params h with
  | named hargs hname =>
    rw [hargs, List.head?_cons, Option.bind_some, hname]
    rfl
  | unnamed hfirst hps =>
    rw [hfirst]
    dsimp only
    clear h
    generalize f.args = fs at hps
    induction hps with
    | nil => rfl
    | cons hp _ ih => rw [List.map_cons, List.map_cons, ih, hp.2.1]

theorem names_of_read {namesAllowed : Bool} {items : List Form} {ps : List Param}
    {rs : List ValType} {n : Nat} (h : read namesAllowed items = .ok (ps, rs, n)) :
    (paramForms items).flatMap listedNames = ps.map Param.name := by
  obtain ⟨⟨pss, hpss, rfl⟩, -, -, -⟩ := readAs_of_read h
  exact flatMap_of_mapM (fun _ _ => listedNames_of_params) hpss

end Signature

namespace Field

theorem eq_names_of_parameters {use : TypeUse} {params : Names} (h : parameters use = .ok params) :
    params = use.params.map Param.name := by
  have hfold : ∀ (ps : List Param) (names : Names),
      ps.foldlM (fun names p => Names.declare .localVar names p.name p.span) names = .ok params →
        params = names ++ ps.map Param.name := by
    intro ps
    induction ps with
    | nil =>
      intro names h
      rw [List.map_nil, List.append_nil, Success.of_pure h]
    | cons p ps ih =>
      intro names h
      rw [List.foldlM_cons] at h
      obtain ⟨names₁, hp, h⟩ := Success.of_bind h
      rw [ih names₁ h, (Names.of_declare hp).1, List.append_assoc]
      rfl
  exact hfold use.params [] h

/-- The parameters of a type use have the names that it writes, and it takes the signature. -/
theorem paramNames_of_readAs {namesAllowed : Bool} {items : List Form} {t t' : TypeTable}
    {use : TypeUse} {n : Nat} (h : TypeUse.ReadAs namesAllowed items t use n t') :
    paramNames use.sig (afterType items) = use.params.map Param.name ∧
      items.drop n = (afterType items).drop ((Signature.paramForms (afterType items)).length +
        (Signature.resultForms (afterType items)).length) := by
  cases h with
  | @explicit _ span ps rs n hexplicit hread htype hagree hunwritten =>
    obtain ⟨f, ref, hfirst, -⟩ := TypeUse.exists_ref_of_explicit? hexplicit
    have hafter : afterType items = items.tail := by
      rw [afterType, hfirst]
      exact List.drop_one
    obtain ⟨-, hn⟩ := Signature.written_of_read hread
    rw [hafter, ← hn]
    refine ⟨?_, by rw [List.drop_tail]⟩
    rw [paramNames]
    by_cases hwritten : n = 0
    · rw [if_neg (by rw [Signature.isWritten_iff, ← hn]; exact not_not_intro hwritten),
        hunwritten hwritten, List.map_map]
      rfl
    · rw [if_pos (by rw [Signature.isWritten_iff, ← hn]; exact hwritten),
        Signature.names_of_read hread, (hagree hwritten).2]
  | @implicit ps rs n hexplicit hread =>
    have hafter : afterType items = items := by
      rw [afterType, TypeUse.filter_of_explicit?_none hexplicit]
      rfl
    obtain ⟨hsig, hn⟩ := Signature.written_of_read hread
    rw [hafter, ← hn]
    refine ⟨?_, rfl⟩
    rw [paramNames]
    split
    · exact Signature.names_of_read hread
    · next hwritten =>
      -- where nothing is written there are no parameters
      have hnil : Signature.paramForms items = [] := by
        rw [Signature.isWritten_iff, not_not, Nat.add_eq_zero_iff] at hwritten
        exact List.eq_nil_of_length_eq_zero hwritten.1
      have hnames := Signature.names_of_read hread
      rw [hnil, List.flatMap_nil] at hnames
      rw [List.map_eq_nil_iff.mp hnames.symm]
      rfl

/-! ## Locals that are declared -/

theorem names_of_addLocals {locals locals' : Names × List ValType} {f : Form}
    (h : addLocals locals f = .ok locals') : locals'.1 = locals.1 ++ f.listedNames := by
  unfold addLocals at h
  rw [listedNames]
  obtain hname | ⟨name, hname⟩ := Option.eq_none_or_eq_some (f.args.head?.bind id?)
  · rw [hname] at h ⊢
    obtain ⟨types, htypes, h⟩ := Success.of_bind h
    rw [← Success.of_pure h]
    have hlength := (Success.mapM_iff.mp htypes).length_eq
    rw [List.map_const', List.map_const', hlength]
  · rw [hname] at h ⊢
    obtain ⟨_, -, h⟩ := Success.of_bind h
    obtain ⟨_, -, h⟩ := Success.of_bind h
    obtain ⟨_, -, h⟩ := Success.of_bind h
    obtain ⟨names, hnames, h⟩ := Success.of_bind h
    rw [← Success.of_pure h, (Names.of_declare hnames).1]

theorem names_of_foldlM_addLocals {fs : List Form} {locals locals' : Names × List ValType}
    (h : fs.foldlM addLocals locals = .ok locals') :
    locals'.1 = locals.1 ++ fs.flatMap listedNames := by
  induction fs generalizing locals with
  | nil =>
    obtain rfl := Success.of_pure h
    rw [List.flatMap_nil, List.append_nil]
  | cons f fs ih =>
    rw [List.foldlM_cons] at h
    obtain ⟨locals₁, hf, h⟩ := Success.of_bind h
    rw [ih h, names_of_addLocals hf, List.flatMap_cons, List.append_assoc]

/-- The names in scope in a function's body are those of its locals. -/
theorem eq_localNames {d : Draft} {f : Form} {o : Opening} {es : List Export} {use : TypeUse}
    {n : Nat} {t : TypeTable} {params names : Names} {locals : List ValType}
    (hopen : Opens .func d f o es) (huse : TypeUse.ReadAs true o.rest d.types use n t)
    (hparams : parameters use = .ok params)
    (hlocals : ((o.rest.drop n).takeWhile (isHeadedBy .localKw)).foldlM addLocals (params, []) =
      .ok (names, locals)) : names = localNames use.sig f := by
  obtain ⟨hnames, hdrop⟩ := paramNames_of_readAs huse
  have hall := names_of_foldlM_addLocals hlocals
  rw [eq_names_of_parameters hparams, ← hnames, hdrop] at hall
  rw [localNames, ← hopen.rest_eq_afterOpening]
  exact hall

end Field

end WasmText
