import WasmText.Proofs.References

/-!
# Modules are put together from fields

A module is the parts of its fields one after the other, and each part has what its field says: the
entity that the field declares, and an export, a start function, a segment or a member of one for
each that it mentions (`Part.BelongsTo`, `Module.assembled_of_run`).

That leaves one way to cut a module into parts (`Module.Assembled.unique`). So what is said of the
parts of some fields is said of the module, each field has one place in it, and nothing is left
over.
-/

namespace WasmText

open Form WasmText.Field

/-! ## Parts of fields -/

/-- A part has what its field says: the entity that the field declares, if it declares one, and an
export, a start function, a segment or a member of one for each that the field mentions, in the
order of the field. -/
structure Part.BelongsTo (part : Part) (f : Form) : Prop where
  fits : ∀ kind, part.Fits f kind
  uses : part.pointers.map Prod.fst = (mentions f).map Prod.fst

/-- A module is assembled from the parts of its fields, in the order of the fields. -/
structure Module.Assembled (fields : List Form) (parts : List Part) (m : Module) : Prop where
  join : m.IsJoin parts
  start : m.start.toList = parts.flatMap (·.start.toList)
  belongs : List.Forall₂ (fun f part => part.BelongsTo f) fields parts

section Reading

variable {spaces : Spaces} {fields before : List Form} {d : Draft} {f : Form} {part : Part}
  {parts : List Part} {types : TypeTable}

theorem Mention.Reaches.use_eq {use : Use × Mention} {pointer : Use × Nat}
    (h : Mention.Reaches fields before use pointer) : pointer.1 = use.1 := by
  cases h <;> rfl

theorem Part.ReadFrom.belongsTo (hspaces : Spaces.ofFields fields = .ok spaces)
    (hindex : ∀ kind, d.nextIndex kind = (declaring kind before).length)
    (h : part.ReadFrom spaces d f types) : part.BelongsTo f where
  fits := h.fits
  uses := by
    rw [eq_comm, ← List.forall₂_eq_eq_eq, List.forall₂_map_left_iff,
      List.forall₂_map_right_iff]
    exact (h.reaches hspaces hindex).imp fun _ _ hreaches => hreaches.use_eq.symm

theorem Part.ReadFrom.start_eq_none_or (h : part.ReadFrom spaces d f types) :
    part.start = none ∨ d.start = none := by
  cases h with
  | start _ hfirst => exact .inr hfirst
  | _ => exact .inl rfl

/-- No start function is hidden behind another, as a field that sets one again is not read. -/
theorem Draft.Run.start_eq (h : Run spaces (.ofTypes types) fields parts d) :
    d.start.toList = parts.flatMap (·.start.toList) := by
  induction h with
  | nil => rfl
  | snoc _ hread _ ih =>
    rw [List.flatMap_append, List.flatMap_singleton, ← ih, extend]
    rcases hread.start_eq_none_or with hnone | hnone <;> simp [hnone]

theorem Module.assembled_of_run (hspaces : Spaces.ofFields fields = .ok spaces)
    (h : Draft.Run spaces (.ofTypes types) fields parts d) (name : Option String) :
    (d.toModule name).Assembled fields parts where
  join := isJoin_of_run h name
  start := h.start_eq
  belongs := by
    refine List.forall₂_iff_get.mpr ⟨h.length_eq, fun i hi hi' => ?_⟩
    obtain ⟨d', types', hprefix, hread⟩ :=
      h.step (List.getElem?_eq_getElem hi) (List.getElem?_eq_getElem hi')
    exact hread.belongsTo hspaces hprefix.nextIndex_eq

end Reading

/-! ## The lists of a part -/

namespace Part

/-- The lists that a part is made of. -/
inductive Component
  | imports
  | funcs
  | tables
  | memories
  | globals
  | exports
  | start
  | elems
  | data
  deriving DecidableEq

/-- What a list of a part holds. -/
abbrev Component.Entry : Component → Type
  | imports => Import
  | funcs => Func
  | tables => TableType
  | memories => Limits
  | globals => Global
  | exports => Export
  | start => Nat
  | elems => Elem
  | data => Data

/-- A list of a part. That of the start function has one entry at most. -/
def get (p : Part) : (c : Component) → List c.Entry
  | .imports => p.imports
  | .funcs => p.funcs
  | .tables => p.tables
  | .memories => p.memories
  | .globals => p.globals
  | .exports => p.exports
  | .start => p.start.toList
  | .elems => p.elems
  | .data => p.data

theorem eq_of_get {p q : Part} (h : ∀ c, p.get c = q.get c) : p = q := by
  have hstart : p.start = q.start := by
    have hhead : p.start.toList.head? = q.start.toList.head? := congrArg List.head? (h .start)
    simpa using hhead
  cases p
  cases q
  congr
  exacts [h .imports, h .funcs, h .tables, h .memories, h .globals, h .exports, h .elems, h .data]

/-- Parts are the same if they join to the same and their lists are as long. -/
theorem eq_of_flatMap_get {ps qs : List Part}
    (hlength : List.Forall₂ (fun p q => ∀ c, (p.get c).length = (q.get c).length) ps qs)
    (h : ∀ c, ps.flatMap (·.get c) = qs.flatMap (·.get c)) : ps = qs := by
  induction hlength with
  | nil => rfl
  | cons hfirst _ ih =>
    have hsplit := fun c => List.append_inj (h c) (hfirst c)
    rw [eq_of_get fun c => (hsplit c).1, ih fun c => (hsplit c).2]

/-- Every import is of one of the four kinds. -/
theorem length_imports_eq (imports : List Import) :
    imports.length =
      imports.countP (·.desc.kind == .func) + imports.countP (·.desc.kind == .table) +
        imports.countP (·.desc.kind == .memory) + imports.countP (·.desc.kind == .global) := by
  induction imports with
  | nil => rfl
  | cons i imports ih =>
    simp only [List.length_cons, List.countP_cons, ih]
    cases i.desc.kind <;> simp <;> omega

end Part

/-- The list of a part that a use outside of bodies is in. Members of segments are in none. -/
def Use.component? : Use → Option Part.Component
  | exported _ => some .exports
  | start => some .start
  | table => some .elems
  | memory => some .data
  | member => none

/-- The lists that are not counted by kinds are counted by what a part points to. -/
theorem Part.length_get_eq_countP (p : Part) {c : Component}
    (hc : ∃ use : Use, use.component? = some c) :
    (p.get c).length = (p.pointers.map Prod.fst).countP (·.component? = some c) := by
  have huses : p.pointers.map Prod.fst = p.exports.map (fun e => .exported e.kind) ++
      p.start.toList.map (fun _ => .start) ++
      p.elems.flatMap (fun e => .table :: e.init.map fun _ => .member) ++
        p.data.map fun _ => .memory := by
    simp [pointers, List.map_flatMap, Function.comp_def]
  obtain ⟨use, huse⟩ := hc
  rw [huses]
  cases c with
  | exports | start | elems | data =>
    simp only [List.countP_append, List.countP_map, List.countP_flatMap, List.countP_cons,
      Function.comp_def, Use.component?]
    simp [get]
  | _ => cases use <;> cases huse

/-! ## Fields tell the lengths of lists -/

section Lengths

variable {p q : Part} {f : Form} {kind : ExternKind}

/-- Whether an entity is imported. -/
def Entity.isImported : Entity → Bool
  | imported _ => true
  | _ => false

theorem Field.Describes.isImported {e : Entity} (h : Describes f e) :
    e.isImported = (importForm? f).isSome := by
  cases h with
  | imported h | func h | table h | memory h | global h => rw [h]; rfl

theorem Part.isImported_definition {e : Entity}
    (h : e ∈ Entity.definitions p.funcs p.tables p.memories p.globals kind) :
    e.isImported = false := by
  cases kind with
  | func | table | memory | global =>
    obtain ⟨_, -, rfl⟩ := List.mem_map.mp h
    rfl

namespace Part

/-- What a field declares is among the imports of its part or among the definitions, as the field is
an import or is none. -/
theorem Fits.lengths (h : p.Fits f kind) :
    p.imports.countP (·.desc.kind == kind) =
        (if (importForm? f).isSome then (declaring kind [f]).length else 0) ∧
      (Entity.definitions p.funcs p.tables p.memories p.globals kind).length =
        if (importForm? f).isSome then 0 else (declaring kind [f]).length := by
  rw [Fits, space, Entity.space] at h
  rw [← Entity.length_imports]
  by_cases hkind : kind? f = some kind
  · rw [declaring_singleton hkind] at h ⊢
    obtain ⟨e, rest, hdescribes, hnil, hspace⟩ := List.forall₂_cons_left_iff.mp h
    obtain rfl := List.forall₂_nil_left_iff.mp hnil
    rw [← hdescribes.isImported]
    rcases List.append_eq_singleton_iff.mp hspace with ⟨himports, hdefinitions⟩ |
      ⟨himports, hdefinitions⟩
    · have hdefined : e.isImported = false :=
        isImported_definition (hdefinitions ▸ List.mem_singleton_self e)
      rw [himports, hdefinitions, hdefined]
      exact ⟨rfl, rfl⟩
    · obtain ⟨i, -, rfl⟩ := List.mem_map.mp (himports ▸ List.mem_singleton_self e)
      rw [himports, hdefinitions]
      exact ⟨rfl, rfl⟩
  · rw [declaring_singleton_of_ne hkind] at h ⊢
    obtain ⟨himports, hdefinitions⟩ :=
      List.append_eq_nil_iff.mp (List.forall₂_nil_left_iff.mp h)
    rw [himports, hdefinitions]
    simp

/-- The lists of a part are as long as its field says. -/
theorem BelongsTo.length_get (hp : p.BelongsTo f) (hq : q.BelongsTo f) (c : Component) :
    (p.get c).length = (q.get c).length := by
  have himports (kind : ExternKind) : p.imports.countP (·.desc.kind == kind) =
      q.imports.countP (·.desc.kind == kind) :=
    (hp.fits kind).lengths.1.trans (hq.fits kind).lengths.1.symm
  have hdefinitions (kind : ExternKind) :=
    (hp.fits kind).lengths.2.trans (hq.fits kind).lengths.2.symm
  have hpointers {c : Component} (hc : ∃ use : Use, use.component? = some c) :
      (p.get c).length = (q.get c).length := by
    rw [length_get_eq_countP p hc, length_get_eq_countP q hc, hp.uses, hq.uses]
  cases c with
  | imports =>
    have hlength : p.imports.length = q.imports.length := by
      rw [length_imports_eq, length_imports_eq q.imports, himports, himports, himports, himports]
    exact hlength
  | funcs => simpa [Entity.definitions, get] using hdefinitions .func
  | tables => simpa [Entity.definitions, get] using hdefinitions .table
  | memories => simpa [Entity.definitions, get] using hdefinitions .memory
  | globals => simpa [Entity.definitions, get] using hdefinitions .global
  | exports => exact hpointers ⟨.exported .func, rfl⟩
  | start => exact hpointers ⟨.start, rfl⟩
  | elems => exact hpointers ⟨.table, rfl⟩
  | data => exact hpointers ⟨.memory, rfl⟩

end Part

end Lengths

/-! ## One way to cut -/

/-- There is one way to cut a module into the parts of its fields. -/
theorem Module.Assembled.unique {fields : List Form} {ps qs : List Part} {m : Module}
    (hp : m.Assembled fields ps) (hq : m.Assembled fields qs) : ps = qs := by
  apply Part.eq_of_flatMap_get
  · have hlength : ps.length = qs.length :=
      hp.belongs.length_eq.symm.trans hq.belongs.length_eq
    refine List.forall₂_iff_get.mpr ⟨hlength, fun i hi hi' => ?_⟩
    have hfield : i < fields.length := hp.belongs.length_eq ▸ hi
    exact ((List.forall₂_iff_get.mp hp.belongs).2 i hfield hi).length_get
      ((List.forall₂_iff_get.mp hq.belongs).2 i hfield hi')
  · intro c
    cases c with
    | imports => exact hp.join.imports.symm.trans hq.join.imports
    | funcs => exact hp.join.funcs.symm.trans hq.join.funcs
    | tables => exact hp.join.tables.symm.trans hq.join.tables
    | memories => exact hp.join.memories.symm.trans hq.join.memories
    | globals => exact hp.join.globals.symm.trans hq.join.globals
    | exports => exact hp.join.exports.symm.trans hq.join.exports
    | start => exact hp.start.symm.trans hq.start
    | elems => exact hp.join.elems.symm.trans hq.join.elems
    | data => exact hp.join.data.symm.trans hq.join.data

end WasmText
