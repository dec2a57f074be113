import WasmText.Proofs.Words

/-!
# What type uses come to

A type use that names a type leaves the types as they are; one that does not gets the least index
of its signature, which is added if it is new (`TypeUse.ReadAs`). So the types only ever grow at the
end.
-/

namespace WasmText

open Form

/-! ## Signatures -/

namespace Signature

/-- How the parameters of one `(param …)` come about: a named one, or any number without names. -/
inductive ParamsAs (f : Form) : List Param → Prop
  | named {first g : Form} {name : String} {type : ValType} (hargs : f.args = [first, g])
    (hname : first.id? = some name) (htype : g.valueType = .ok type) :
    ParamsAs f [⟨type, some name, f.span⟩]
  | unnamed {ps : List Param} (hfirst : f.args.head?.bind id? = none)
    (h : List.Forall₂ (fun g p => g.valueType = .ok p.type ∧ p.name = none ∧ p.span = g.span)
      f.args ps) : ParamsAs f ps

/-- What is read as parameters is one with a name, or some without. -/
theorem paramsAs_of_params {namesAllowed : Bool} {f : Form} {ps : List Param}
    (h : params namesAllowed f = .ok ps) : ParamsAs f ps := by
  unfold params at h
  split at h
  · next hnil =>
    obtain rfl := Except.ok.inj h
    exact .unnamed (by rw [hnil]; rfl) (by rw [hnil]; exact .nil)
  · next first rest hargs =>
    split at h
    · next name hname =>
      -- the name, its type and nothing else
      dsimp only at h
      split at h
      · cases h
      · obtain ⟨g, hneed, h⟩ := Success.of_bind h
        obtain ⟨type, htype, h⟩ := Success.of_bind h
        obtain ⟨_, hmore, h⟩ := Success.of_bind h
        obtain rfl := Success.of_pure h
        have hrest : rest = [g] := eq_singleton_of_noMore (eq_some_of_need hneed) hmore
        exact .named (hrest ▸ hargs) hname htype
    · next hname =>
      refine .unnamed (by rw [hargs]; exact hname) ((Success.mapM_iff.mp h).imp fun g p hp => ?_)
      obtain ⟨type, htype, hp⟩ := Success.of_bind hp
      obtain rfl := Success.of_pure hp
      exact ⟨htype, rfl, rfl⟩

/-- Parameters have no words. -/
theorem inert_of_params {namesAllowed : Bool} {f : Form} {ps : List Param}
    (hhead : f.isHeadedBy .paramKw = true) (h : params namesAllowed f = .ok ps) :
    f.Inert := by
  refine .list (isHeadedBy_iff.mp hhead) ?_
  cases paramsAs_of_params h with
  | named hargs hname htype =>
    rw [hargs, List.forall_mem_cons, List.forall_mem_singleton]
    exact ⟨leaf_of_isSome (by simp [hname]), leaf_of_valueType htype⟩
  | unnamed _ h =>
    exact ((List.forall₂_and_left _ _).mp (h.imp fun g p hp => ⟨leaf_of_valueType hp.1, hp⟩)).1

theorem inert_of_results {f : Form} {types : List ValType}
    (hhead : f.isHeadedBy .resultKw = true) (h : results f = .ok types) : f.Inert :=
  .list (isHeadedBy_iff.mp hhead) (leaf_of_mapM_valueType h)

/-- How a signature at the front of some forms is read: the parameters, and after them the results,
of which there is at most one. -/
structure ReadAs (namesAllowed : Bool) (items : List Form) (ps : List Param) (rs : List ValType)
    (n : Nat) : Prop where
  params : ∃ pss, (items.takeWhile (isHeadedBy .paramKw)).mapM (Signature.params namesAllowed) =
    .ok pss ∧ pss.flatten = ps
  results : ∃ rss, ((items.drop (items.takeWhile (isHeadedBy .paramKw)).length).takeWhile
    (isHeadedBy .resultKw)).mapM Signature.results = .ok rss ∧ rss.flatten = rs
  single : rs.length ≤ 1
  takes : n = (items.takeWhile (isHeadedBy .paramKw)).length +
    ((items.drop (items.takeWhile (isHeadedBy .paramKw)).length).takeWhile
      (isHeadedBy .resultKw)).length

theorem readAs_of_read {namesAllowed : Bool} {items : List Form} {ps : List Param}
    {rs : List ValType} {n : Nat} (h : read namesAllowed items = .ok (ps, rs, n)) :
    ReadAs namesAllowed items ps rs n := by
  unfold read at h
  obtain ⟨ps', hps, h⟩ := Success.of_bind h
  obtain ⟨rs', hrs, h⟩ := Success.of_bind h
  dsimp only at h
  split at h
  · cases h
  · next hone =>
    obtain ⟨rfl, hrest⟩ := Prod.mk.inj (Success.of_pure h)
    obtain ⟨rfl, rfl⟩ := Prod.mk.inj hrest
    exact ⟨Success.of_map hps, Success.of_map hrs, Nat.le_of_not_lt hone, rfl⟩

/-- A signature holds no instructions. -/
theorem inertTake_of_read {namesAllowed : Bool} {items : List Form} {ps : List Param}
    {rs : List ValType} {n : Nat} (h : read namesAllowed items = .ok (ps, rs, n)) :
    InertTake n items := by
  obtain ⟨⟨pss, hps, -⟩, ⟨rss, hrs, -⟩, -, rfl⟩ := readAs_of_read h
  refine .add (inertTake_takeWhile fun f hf => ?_) (inertTake_takeWhile fun f hf => ?_)
  · obtain ⟨ps, hf'⟩ := Success.of_mapM hps f hf
    exact inert_of_params (List.mem_takeWhile_imp hf) hf'
  · obtain ⟨types, hf'⟩ := Success.of_mapM hrs f hf
    exact inert_of_results (List.mem_takeWhile_imp hf) hf'

end Signature

/-! ## Type uses -/

namespace TypeTable

/-- The table `t'` is `t` with entries added at the end, as many names as types. -/
structure Grows (t t' : TypeTable) : Prop where
  names : t.names <+: t'.names
  types : t.types <+: t'.types
  balanced : t.names.length + t'.types.length = t'.names.length + t.types.length

theorem Grows.refl (t : TypeTable) : t.Grows t := ⟨List.prefix_rfl, List.prefix_rfl, rfl⟩

theorem Grows.trans {t t' t'' : TypeTable} (h : t.Grows t') (h' : t'.Grows t'') :
    t.Grows t'' := by
  have hfirst := h.balanced
  have hsecond := h'.balanced
  exact ⟨h.names.trans h'.names, h.types.trans h'.types, by omega⟩

/-- Looking for a type adds one at the end, or none. -/
theorem grows_findOrAdd (t : TypeTable) (sig : FuncType) : t.Grows (t.findOrAdd sig).2 := by
  unfold findOrAdd
  split
  · exact .refl t
  · refine ⟨List.prefix_append .., List.prefix_append .., ?_⟩
    simp only [List.length_append, List.length_singleton]
    omega

/-- Every type has its name or `none`. -/
def Aligned (t : TypeTable) : Prop := t.names.length = t.types.length

theorem Grows.aligned {t t' : TypeTable} (h : t.Grows t') (ht : t.Aligned) : t'.Aligned := by
  have hbalanced := h.balanced
  unfold Aligned at ht ⊢
  omega

end TypeTable

namespace TypeUse

/-- A type is named by a list with one reference in it. -/
theorem explicit?_eq_some_iff {table : TypeTable} {items : List Form} {index : Nat} {span : Span} :
    explicit? table items = .ok (some (index, span)) ↔
      ∃ f ref, items.head? = some f ∧ f.isHeadedBy .typeKw = true ∧ f.args = [ref] ∧
        f.span = span ∧ table.names.resolve .type f.span (some ref) = .ok index := by
  constructor
  · intro h
    unfold explicit? at h
    split at h
    · next f hf =>
      split at h
      · next hhead =>
        obtain ⟨i, hindex, h⟩ := Success.of_bind h
        obtain ⟨_, hmore, h⟩ := Success.of_bind h
        obtain ⟨rfl, hspan⟩ := Prod.mk.inj (Option.some.inj (Success.of_pure h))
        obtain ⟨ref, href, -⟩ := Names.leaf_of_resolve hindex
        exact ⟨f, ref, hf, hhead, eq_singleton_of_noMore href hmore, hspan, href ▸ hindex⟩
      · cases h
    · cases h
  · rintro ⟨f, ref, hf, hhead, hargs, rfl, hindex⟩
    unfold explicit?
    rw [hf]
    dsimp only
    rw [if_pos hhead, hargs, List.head?_cons, Success.bind_of hindex]
    rfl

/-- No type is named when the first item is no `type`. -/
theorem explicit?_eq_none_iff {table : TypeTable} {items : List Form} :
    explicit? table items = .ok none ↔ ∀ f ∈ items.head?, f.isHeadedBy .typeKw = false := by
  unfold explicit?
  split
  · next f hf =>
    rw [hf]
    split
    · next hhead =>
      refine ⟨fun h => ?_, fun h => absurd (h f rfl) (by simp [hhead])⟩
      obtain ⟨_, -, h⟩ := Success.of_bind h
      obtain ⟨_, -, h⟩ := Success.of_bind h
      cases Success.of_pure h
    · next hhead =>
      refine ⟨?_, fun _ => rfl⟩
      rintro - f ⟨⟩
      exact Bool.eq_false_iff.mpr hhead
  · next hnone =>
    rw [hnone]
    exact ⟨nofun, fun _ => rfl⟩

theorem inert_of_explicit? {table : TypeTable} {items : List Form} {use : Nat × Span}
    (h : explicit? table items = .ok (some use)) : ∀ f ∈ items.head?, f.Inert := by
  obtain ⟨f, ref, hf, hhead, hargs, -, hindex⟩ := explicit?_eq_some_iff.mp h
  obtain ⟨_, ⟨⟩, hleaf⟩ := Names.leaf_of_resolve hindex
  rintro g hg
  obtain rfl := Option.some.inj (hf.symm.trans hg)
  refine .list (isHeadedBy_iff.mp hhead) ?_
  rw [hargs, List.forall_mem_singleton]
  exact hleaf

/-- How a type use at the front of some forms comes about, from the types `t` on. -/
inductive ReadAs (namesAllowed : Bool) (items : List Form) (t : TypeTable) :
    TypeUse → Nat → TypeTable → Prop
  | explicit {use : TypeUse} {span : Span} {ps : List Param} {rs : List ValType} {n : Nat}
    (hexplicit : explicit? t items = .ok (some (use.index, span)))
    (hread : Signature.read namesAllowed items.tail = .ok (ps, rs, n))
    (htype : t.types[use.index]? = some use.sig)
    (hagree : n ≠ 0 → use.sig = ⟨ps.map Param.type, rs⟩ ∧ use.params = ps)
    (hunwritten : n = 0 → use.params = use.sig.params.map (⟨·, none, span⟩)) :
    ReadAs namesAllowed items t use (n + 1) t
  | implicit {ps : List Param} {rs : List ValType} {n : Nat}
    (hexplicit : explicit? t items = .ok none)
    (hread : Signature.read namesAllowed items = .ok (ps, rs, n)) :
    ReadAs namesAllowed items t
      ⟨(t.findOrAdd ⟨ps.map Param.type, rs⟩).1, ⟨ps.map Param.type, rs⟩, ps⟩ n
      (t.findOrAdd ⟨ps.map Param.type, rs⟩).2

/-- What is read as a type use has a type that is named, or a signature that is looked for. -/
theorem readAs_of_read {namesAllowed : Bool} {items : List Form} {t t' : TypeTable}
    {use : TypeUse} {n : Nat} (h : (read namesAllowed items).run t = .ok ((use, n), t')) :
    ReadAs namesAllowed items t use n t' := by
  unfold read at h
  obtain ⟨table, s, hget, h⟩ := Success.of_run_bind h
  obtain ⟨rfl, rfl⟩ : t = table ∧ t = s := Prod.mk.inj (Except.ok.inj hget)
  obtain ⟨explicit, hexplicit, h⟩ := Success.of_run_lift h
  rcases explicit with - | ⟨index, span⟩
  · obtain ⟨⟨ps, rs, m⟩, hread, h⟩ := Success.of_run_lift h
    obtain ⟨huse, rfl⟩ := Prod.mk.inj (Except.ok.inj h)
    obtain ⟨rfl, rfl⟩ := Prod.mk.inj huse
    exact .implicit hexplicit hread
  · obtain ⟨⟨ps, rs, m⟩, hread, h⟩ := Success.of_run_lift h
    dsimp only at h
    split at h
    · cases h
    · next declared htype =>
      split at h
      · next hm =>
        obtain ⟨huse, rfl⟩ := Success.of_run_pure h
        obtain ⟨rfl, rfl⟩ := Prod.mk.inj huse
        subst hm
        exact .explicit hexplicit hread htype (fun h => absurd rfl h) fun _ => rfl
      · next hm =>
        split at h
        · cases h
        · next hsig =>
          obtain ⟨huse, rfl⟩ := Success.of_run_pure h
          obtain ⟨rfl, rfl⟩ := Prod.mk.inj huse
          have hagree : declared = ⟨ps.map Param.type, rs⟩ := Decidable.not_not.mp hsig
          exact .explicit hexplicit hread htype (fun _ => ⟨hagree, rfl⟩) fun h => absurd h hm

/-- A type use holds no instructions, and adds at most a signature to the types. -/
theorem ReadAs.inertTake {namesAllowed : Bool} {items : List Form} {t t' : TypeTable}
    {use : TypeUse} {n : Nat} (h : ReadAs namesAllowed items t use n t') :
    InertTake n items := by
  cases h with
  | explicit hexplicit hread =>
    rw [Nat.add_comm]
    refine (inertTake_one (inert_of_explicit? hexplicit)).add ?_
    rw [List.drop_one]
    exact Signature.inertTake_of_read hread
  | implicit _ hread => exact Signature.inertTake_of_read hread

/-- A type use adds a type at the end, or none. -/
theorem ReadAs.grows {namesAllowed : Bool} {items : List Form} {t t' : TypeTable}
    {use : TypeUse} {n : Nat} (h : ReadAs namesAllowed items t use n t') : t.Grows t' := by
  cases h with
  | explicit => exact .refl t
  | implicit => exact TypeTable.grows_findOrAdd t _

end TypeUse

end WasmText
