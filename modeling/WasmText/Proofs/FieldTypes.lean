import WasmText.Proofs.TableGrowth

/-!
# What fields add to the type table

A field adds to the table only signatures that it writes where a type is used, without a reference
to one (`Part.ReadFrom.adds`), and is never refused for a type that is missing from the table
(`Field.findsTypes_add`).
-/

namespace WasmText

open Form

variable {Q : FuncType → Prop} {α : Type}

/-! ## Fields -/

section Fields

variable {spaces : Spaces} {d : Draft} {f : Form} {part : Part} {types t t' : TypeTable}

/-- A field writes a signature alone, where a type is used. -/
def Field.WritesAlone (f : Form) (sig : FuncType) : Prop :=
  ∃ u ∈ typeUses f, u.implicit? = some sig

open WasmText.Field

theorem Field.writeOnly_filterMap {ws : List Word}
    (h : ∀ u ∈ ws.filterMap Word.type?, ∀ sig, u.implicit? = some sig → Q sig) :
    WriteOnly Q ws := by
  intro w hw sig hsig
  obtain ⟨u, hu, hsig⟩ := Option.bind_eq_some_iff.mp hsig
  exact h u (List.mem_filterMap.mpr ⟨w, hw, hu⟩) sig hsig

/-- The words of a field with a body write only what the field writes. -/
theorem Field.writeOnly_words (hhead : f.headKeyword? = some .funcKw ∨
      f.headKeyword? = some .globalKw ∨ f.headKeyword? = some .elemKw ∨
        f.headKeyword? = some .dataKw) : WriteOnly (WritesAlone f) f.words := by
  refine writeOnly_filterMap fun u hu sig hsig => ⟨u, ?_, hsig⟩
  rcases hhead with hhead | hhead | hhead | hhead
  · rw [typeUses, hhead]
    exact List.mem_cons_of_mem _ hu
  all_goals rwa [typeUses, hhead]

/-- An import adds the signature that is written for a function, and nothing otherwise. -/
theorem Field.DescAs.adds {span : Span} {items : List Form} {desc : ImportDesc}
    (hQ : desc.kind = .func →
      ∀ sig, (WrittenType.ofTypeUse items).implicit? = some sig → Q sig)
    (h : DescAs span items t desc t') : t.Adds Q t' := by
  cases h with
  | func huse => exact huse.adds (hQ rfl)
  | _ => exact .refl

/-- A kind of entity has one keyword. -/
theorem Spaces.eq_of_kindOf? {word : Option Keyword} {kind : ExternKind}
    (h : kindOf? word = some kind) :
    word = some (match kind with
      | .func => .funcKw
      | .table => .tableKw
      | .memory => .memoryKw
      | .global => .globalKw) := by
  unfold kindOf? at h
  split at h
  case h_5 => cases h
  all_goals
    obtain rfl := Option.some.inj h
    rfl

/-- A body adds the signatures that are written in it. -/
theorem Body.adds_of_whole {sc : Scope} {items : List Form} {body : List Instr}
    (ht : t.Aligned) (hQ : WriteOnly Q (wordsAll items))
    (h : (whole sc items).run t = .ok (body, t')) : t.Adds Q t' :=
  (keeps_whole sc items hQ t ht).2 body t' h

/-- A field adds to the table what it writes alone. -/
theorem Part.ReadFrom.adds (ht : d.types.Aligned) (h : part.ReadFrom spaces d f types) :
    d.types.Adds (WritesAlone f) types := by
  -- types are added by the type use of a function and by the words of a body
  cases h with
  | @«import» item names desc t hhead hitem hnames hmore hkind hdesc horder =>
    refine hdesc.adds fun hfunc sig hsig => ⟨_, ?_, hsig⟩
    rw [hfunc] at hkind
    have hitemHead := isHeadedBy_iff.mpr (Spaces.eq_of_kindOf? hkind)
    rw [typeUses, hhead, hitem, Option.filter_some, if_pos hitemHead]
    exact List.mem_singleton_self _
  | @inlineImport o es names desc t hkind hopen himport hdesc horder =>
    refine hdesc.adds fun hfunc sig hsig => ⟨_, ?_, hsig⟩
    rw [hfunc] at hkind
    rw [typeUses, Spaces.eq_of_kindOf? hkind, hopen.rest_eq_afterOpening]
    exact List.mem_cons_self
  | @func o es use n params names decls rest locals body t t' hhead hopen himport huse hdecls hrest
      hparams hlocals hbody =>
    have huseAdds : d.types.Adds (WritesAlone f) t := by
      refine huse.adds fun sig hsig => ⟨_, ?_, hsig⟩
      rw [typeUses, hhead, hopen.rest_eq_afterOpening]
      exact List.mem_cons_self
    refine huseAdds.trans (Body.adds_of_whole (huse.grows.aligned ht) ?_ hbody)
    rw [hrest, wordsAll_of_placedAll (placedAll_of_func hhead hopen huse hdecls hlocals)]
    exact writeOnly_words (.inl hhead)
  | @global o es type init t hhead hopen himport htype hinit =>
    refine Body.adds_of_whole ht ?_ hinit
    rw [wordsAll_of_placedAll (placedAll_of_global hhead hopen htype)]
    exact writeOnly_words (.inr (.inl hhead))
  | @elem table n offset item init t hhead htarget hitem hlist hoffset hinit =>
    refine Body.adds_of_whole ht ?_ hoffset
    rw [wordsAll_of_placedAll (placedAll_of_segment hhead (inertTake_of_target htarget) hitem
      hlist (leaf_of_mapM_resolve hinit))]
    exact writeOnly_words (.inr (.inr (.inl hhead)))
  | @data memory n offset item init t hhead htarget hitem hlist hoffset hinit =>
    refine Body.adds_of_whole ht ?_ hoffset
    rw [wordsAll_of_placedAll (placedAll_of_segment hhead (inertTake_of_target htarget) hitem
      hlist (leaf_of_expectAllBytes hinit))]
    exact writeOnly_words (.inr (.inr (.inr hhead)))
  | _ => exact .refl

namespace Field

/-- A reader that finds all types finds them in a draft. -/
theorem findsTypes_withTypes {r : Elab α} (hr : FindsTypes (r.run d.types)) :
    FindsTypes (d.withTypes r) :=
  FindsTypes.bind_iff.mpr ⟨hr, fun _ _ => .pure _⟩

/-- A body finds all types, in a table with a name for each. -/
theorem findsTypes_whole (sc : Scope) (items : List Form) (ht : t.Aligned) :
    FindsTypes ((Body.whole sc items).run t) :=
  have hall : WriteOnly (fun _ => True) (wordsAll items) := fun _ _ _ _ => trivial
  (Body.keeps_whole sc items hall t ht).1

/-- An import finds its type. -/
theorem findsTypes_addImport (ht : d.types.Aligned) : FindsTypes (addImport d f) := by
  simp only [addImport, FindsTypes.bind_iff]
  refine ⟨by simp, fun names _ => ⟨by simp, fun item _ => ⟨by simp, fun _ _ => ?_⟩⟩⟩
  refine ⟨by simp, fun _ _ => ⟨?_, fun _ _ => by simp⟩⟩
  unfold importDesc
  dsimp only
  split
  · have huse := TypeUse.findsTypes_read true (item.args.drop (name item.args).2) ht
    refine FindsTypes.bind_iff.mpr ⟨findsTypes_withTypes huse, fun _ _ => ?_⟩
    simp
  all_goals simp [unexpected]

/-- A function finds its type and those in its body. -/
theorem findsTypes_addFunc (spaces : Spaces) (ht : d.types.Aligned) :
    FindsTypes (addFunc spaces d f) := by
  refine FindsTypes.bind_iff.mpr ⟨by simp, fun ⟨o, d₁⟩ hopen => ?_⟩
  obtain ⟨es, -, rfl⟩ := opens_of_opening hopen
  have huse := TypeUse.findsTypes_read true o.rest ht
  refine FindsTypes.bind_iff.mpr ⟨findsTypes_withTypes huse, fun ⟨⟨use, n⟩, d₂⟩ hrun => ?_⟩
  obtain ⟨t, hread, rfl⟩ := Draft.of_withTypes hrun
  have ht' := (TypeUse.readAs_of_read hread).grows.aligned ht
  dsimp only
  split
  · simp
  · refine FindsTypes.bind_iff.mpr ⟨by simp, fun params _ => ?_⟩
    refine FindsTypes.bind_iff.mpr ⟨by simp, fun locals _ => ?_⟩
    refine FindsTypes.bind_iff.mpr ⟨findsTypes_withTypes (findsTypes_whole _ _ ht'), ?_⟩
    exact fun _ _ => .pure _

theorem findsTypes_addTable (spaces : Spaces) : FindsTypes (addTable spaces d f) := by
  refine FindsTypes.bind_iff.mpr ⟨by simp, fun ⟨o, d₁⟩ _ => ?_⟩
  dsimp only
  split
  · simp
  · split
    · simp only [FindsTypes.bind_iff]
      refine ⟨by simp, fun type _ => ⟨by simp, fun list _ => ⟨by simp, fun _ _ => ?_⟩⟩⟩
      split <;> simp [unexpected]
    · simp

theorem findsTypes_addMemory : FindsTypes (addMemory d f) := by
  refine FindsTypes.bind_iff.mpr ⟨by simp, fun ⟨o, d₁⟩ _ => ?_⟩
  dsimp only
  split
  · simp
  · split <;> simp

theorem findsTypes_addGlobal (spaces : Spaces) (ht : d.types.Aligned) :
    FindsTypes (addGlobal spaces d f) := by
  refine FindsTypes.bind_iff.mpr ⟨by simp, fun ⟨o, d₁⟩ hopen => ?_⟩
  obtain ⟨es, -, rfl⟩ := opens_of_opening hopen
  refine FindsTypes.bind_iff.mpr ⟨by simp, fun type _ => ?_⟩
  dsimp only
  split
  · simp
  · have hinit := findsTypes_whole (constScope spaces) o.rest.tail ht
    exact FindsTypes.bind_iff.mpr ⟨findsTypes_withTypes hinit, fun _ _ => .pure _⟩

theorem findsTypes_addExport (spaces : Spaces) : FindsTypes (addExport spaces d f) := by
  simp only [addExport, FindsTypes.bind_iff]
  refine ⟨by simp, fun g _ => ⟨by simp, fun name _ => ⟨by simp, fun desc _ => ?_⟩⟩⟩
  refine ⟨by simp, fun _ _ => ⟨by simp, fun _ _ => ?_⟩⟩
  split <;> simp [unexpected]

theorem findsTypes_addStart (spaces : Spaces) : FindsTypes (addStart spaces d f) := by
  unfold addStart
  dsimp only
  split <;> simp

/-- An offset finds the types in it. -/
theorem findsTypes_offset (spaces : Spaces) (span : Span) (item : Option Form)
    (ht : d.types.Aligned) : FindsTypes (offset spaces d span item) := by
  simp only [offset, FindsTypes.bind_iff]
  refine ⟨by simp, fun g _ => ⟨by simp, fun _ _ => ?_⟩⟩
  exact findsTypes_withTypes (findsTypes_whole _ _ ht)

/-- No field is refused for a type that is missing. -/
theorem findsTypes_add (spaces : Spaces) (f : Form) (ht : d.types.Aligned) :
    FindsTypes (add spaces d f) := by
  refine FindsTypes.bind_iff.mpr ⟨by simp, fun _ _ => ?_⟩
  split
  · exact .pure _
  · exact findsTypes_addImport ht
  · exact findsTypes_addFunc spaces ht
  · exact findsTypes_addTable spaces
  · exact findsTypes_addMemory
  · exact findsTypes_addGlobal spaces ht
  · exact findsTypes_addExport spaces
  · exact findsTypes_addStart spaces
  · simp [addElem, findsTypes_offset, ht]
  · simp [addData, findsTypes_offset, ht]
  · simp [unexpected]

end Field

end Fields

end WasmText
