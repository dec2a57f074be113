import WasmText.Proofs.Entities
import WasmText.Proofs.FieldWords

/-!
# References have the indices of what they refer to

A field refers to entities in words of its bodies, and outside of them by what it mentions: the
entity that it declares itself, the first of a kind, or one that it writes a name or a number for.
All of these get the index that the entity has in the finished module, be it declared before the
field or after it (`Module.Indexed`).
-/

namespace WasmText

open Form WasmText.Field Instr

/-! ## What fields mention -/

/-- What a field needs an entity for outside of bodies: to export it, as the start function, as what
a segment is for, and as a function that a segment puts into a table. -/
inductive Use
  | exported (kind : ExternKind)
  | start
  | table
  | memory
  | member

/-- The kind of entity that a use refers to. -/
def Use.kind : Use → ExternKind
  | exported kind => kind
  | start | member => .func
  | table => .table
  | memory => .memory

/-- How a field mentions an entity. -/
inductive Mention
  | own
  | first
  | written (v : Form)

namespace Field

/-- The functions that a segment writes. -/
def members (items : List Form) : List (Use × Mention) := items.map fun v => (.member, .written v)

/-- The target at the front of a segment, and the forms after the offset. -/
def segmentParts (items : List Form) : Mention × List Form :=
  match items.head? with
  | some (.atom t) => (.written (.atom t), items.drop 2)
  | _ => (.first, items.drop 1)

/-- What the segment in a table or memory mentions, which stands after the inline exports. -/
def inlineSegment : ExternKind → List Form → List (Use × Mention)
  | .table, type :: g :: _ =>
    if type.valType?.isSome then (.table, .own) :: members g.args else []
  | .memory, g :: _ => if g.isHeadedBy .dataKw then [(.memory, .own)] else []
  | _, _ => []

/-- What an `(export …)` mentions. -/
def exported? (f : Form) : Option (Use × Mention) := do
  let desc ← f.args[1]?
  let kind ← Spaces.kindOf? desc.headKeyword?
  let v ← desc.args.head?
  return (.exported kind, .written v)

/-- What a field mentions outside of bodies: in exports, as the start function, and in segments. -/
def mentions (f : Form) : List (Use × Mention) :=
  match f.headKeyword? with
  | some .exportKw => (exported? f).toList
  | some .startKw => f.args.map fun v => (.start, .written v)
  | some .elemKw => (.table, (segmentParts f.args).1) :: members (segmentParts f.args).2
  | some .dataKw => [(.memory, (segmentParts f.args).1)]
  | word =>
    match Spaces.kindOf? word with
    | some kind =>
      (inlineExports f).map (fun _ => (.exported kind, .own)) ++
        inlineSegment kind (afterExports f)
    | none => []

end Field

/-- The entities that a part points to outside of bodies. -/
def Part.pointers (p : Part) : List (Use × Nat) :=
  p.exports.map (fun e => (.exported e.kind, e.index)) ++
    p.start.toList.map (fun i => (.start, i)) ++
    p.elems.flatMap (fun e => (.table, e.table) :: e.init.map fun i => (.member, i)) ++
      p.data.map fun x => (.memory, x.memory)

/-- What is mentioned in a field that comes after some others has an index. -/
inductive Mention.Reaches (fields before : List Form) : Use × Mention → Use × Nat → Prop
  | own {use : Use} : Reaches fields before (use, .own) (use, (declaring use.kind before).length)
  | first {use : Use} : Reaches fields before (use, .first) (use, 0)
  | written {use : Use} {v : Form} {i : Nat} (h : Refers fields use.kind v i) :
    Reaches fields before (use, .written v) (use, i)

section Mentions

variable {spaces : Spaces} {fields before : List Form} {d : Draft} {f : Form} {part : Part}
  {types : TypeTable} {kind : ExternKind}

/-- A definition is mentioned by its exports and by the segment inside of it. -/
theorem mentions_of_kindOf? (h : Spaces.kindOf? f.headKeyword? = some kind) :
    mentions f = (inlineExports f).map (fun _ => (.exported kind, .own)) ++
      inlineSegment kind (afterExports f) := by
  unfold mentions
  split
  · next hhead => rw [hhead] at h; cases h
  · next hhead => rw [hhead] at h; cases h
  · next hhead => rw [hhead] at h; cases h
  · next hhead => rw [hhead] at h; cases h
  · rw [h]

/-- The functions that a segment holds are reached by the references that are written. -/
theorem reaches_members (hspaces : Spaces.ofFields fields = .ok spaces) {span : Span}
    {items : List Form} {init : List Nat}
    (h : items.mapM (fun v => spaces.funcs.resolve .func span (some v)) = .ok init) :
    List.Forall₂ (Mention.Reaches fields before) (members items)
      (init.map fun i => (.member, i)) := by
  rw [members, List.forall₂_map_left_iff, List.forall₂_map_right_iff]
  refine (Success.mapM_iff.mp h).imp ?_
  intro v i hi
  exact .written (refers_of_resolve .func hspaces hi)

/-- The target of a segment is reached by what is written, or is the first entity. -/
theorem reaches_target (use : Use) (hspaces : Spaces.ofFields fields = .ok spaces) {space : Space}
    {items : List Form} {i n : Nat} (h : target space (spaces.ofKind use.kind) items = .ok (i, n)) :
    Mention.Reaches fields before (use, (segmentParts items).1) (use, i) ∧
      (segmentParts items).2 = items.drop (n + 1) := by
  unfold target at h
  split at h
  · next t ht =>
    obtain ⟨index, hindex, h⟩ := Success.of_bind h
    obtain ⟨rfl, rfl⟩ := Prod.mk.inj (Success.of_pure h)
    rw [segmentParts, ht]
    exact ⟨.written (refers_of_resolve _ hspaces hindex), rfl⟩
  · next hlist =>
    obtain ⟨rfl, rfl⟩ := Prod.mk.inj (Except.ok.inj h)
    unfold segmentParts
    split
    · next t ht => exact absurd ht (hlist t)
    · exact ⟨.first, rfl⟩

/-- The inline exports of a field are of its own entity. -/
theorem reaches_exports {o : Opening} {es : List Export} (hopen : Opens kind d f o es)
    (hindex : d.nextIndex kind = (declaring kind before).length) :
    List.Forall₂ (Mention.Reaches fields before)
      ((inlineExports f).map fun _ => (.exported kind, .own))
      (es.map fun e => (.exported e.kind, e.index)) := by
  rw [List.forall₂_map_left_iff, List.forall₂_map_right_iff]
  refine hopen.exports.imp ?_
  intro g e he
  rw [he.kind, he.index, hopen.index, hindex]
  exact .own

theorem inlineSegment_eq_nil {g : Form} {items : List Form} (hfirst : items.head? = some g)
    (htype : g.valType? = none) (hdata : g.isHeadedBy .dataKw = false) :
    inlineSegment kind items = [] := by
  cases items with
  | nil => cases hfirst
  | cons first rest =>
    obtain rfl := Option.some.inj hfirst
    cases kind with
    | table => cases rest <;> simp [inlineSegment, htype]
    | memory => simp [inlineSegment, hdata]
    | func | global => rfl

/-- A definition that is imported has no segment inside of it. -/
theorem inlineSegment_import {g : Form} {items : List Form}
    (h : items.head?.filter (isHeadedBy .importKw) = some g) : inlineSegment kind items = [] := by
  obtain ⟨hfirst, himport⟩ := Option.filter_eq_some_iff.mp h
  have hhead : g.headKeyword? = some .importKw := isHeadedBy_iff.mp himport
  apply inlineSegment_eq_nil hfirst
  · cases g with
    | atom => cases hhead
    | list => rfl
  · rw [isHeadedBy, hhead]
    rfl

/-- Limits start with a number, which no segment does. -/
theorem inlineSegment_limits {span : Span} {items : List Form} {l : Limits} {n : Nat}
    (h : limits span items = .ok (l, n)) : inlineSegment kind items = [] := by
  obtain ⟨g, hneed, h⟩ := Success.of_bind h
  split at h
  · cases h
  · next t ht =>
    apply inlineSegment_eq_nil (eq_some_of_need hneed)
    · obtain ⟨⟨tokenKind, text, place⟩⟩ | ⟨place, inside⟩ := g
      · cases tokenKind with
        | valType _ => cases ht
        | _ => rfl
      · cases ht
    · cases g with
      | atom => rfl
      | list => cases ht

theorem isSome_of_elemType {span : Span} {g : Form} {type : ValType}
    (h : elemType span (some g) = .ok type) : g.valType?.isSome = true := by
  rw [elemType] at h
  split at h
  · next htype => rw [htype]; rfl
  · cases h

/-- A field that declares an entity points to it from its inline exports and its segment. -/
theorem reaches_of_opens {o : Opening} {es : List Export}
    (hindex : d.nextIndex kind = (declaring kind before).length)
    (hkind : Spaces.kindOf? f.headKeyword? = some kind) (hopen : Opens kind d f o es)
    (hexports : part.exports = es) (hstart : part.start = none)
    (hsegment : List.Forall₂ (Mention.Reaches fields before)
      (inlineSegment kind (afterExports f))
      (part.elems.flatMap (fun e => (.table, e.table) :: e.init.map fun i => (.member, i)) ++
        part.data.map fun x => (.memory, x.memory))) :
    List.Forall₂ (Mention.Reaches fields before) (mentions f) part.pointers := by
  rw [mentions_of_kindOf? hkind, Part.pointers, hexports, hstart, Option.toList_none, List.map_nil,
    List.append_nil, List.append_assoc]
  exact List.rel_append (reaches_exports hopen hindex) hsegment

/-- Every index in a part is reached by the mention it is read from. -/
theorem Part.ReadFrom.reaches (hspaces : Spaces.ofFields fields = .ok spaces)
    (hindex : ∀ kind, d.nextIndex kind = (declaring kind before).length)
    (h : part.ReadFrom spaces d f types) :
    List.Forall₂ (Mention.Reaches fields before) (mentions f) part.pointers := by
  cases h with
  | type hhead | «import» hhead =>
    rw [mentions, hhead]
    exact .nil
  | inlineImport hkind hopen himport =>
    apply reaches_of_opens (hindex _) hkind hopen rfl rfl
    obtain ⟨m, hinline, -⟩ := hopen.imported
    rw [himport] at hinline
    cases importedAs_of_inlineImport hinline with
    | written hg =>
      rw [inlineSegment_import hg]
      exact .nil
  | func hhead hopen =>
    apply reaches_of_opens (hindex _) (by rw [hhead]; rfl) hopen rfl rfl
    exact .nil
  | global hhead hopen =>
    apply reaches_of_opens (hindex _) (by rw [hhead]; rfl) hopen rfl rfl
    exact .nil
  | table hhead hopen himport htype =>
    apply reaches_of_opens (hindex _) (by rw [hhead]; rfl) hopen rfl rfl
    obtain ⟨⟨l, k⟩, hlimits, -⟩ := Success.of_bind htype
    rw [hopen.rest_eq himport] at hlimits
    rw [inlineSegment_limits hlimits]
    exact .nil
  | @tableOfElems o es type list elemType init hhead hopen himport hrest htype hlist hinit =>
    apply reaches_of_opens (hindex _) (by rw [hhead]; rfl) hopen rfl rfl
    have hsegment : inlineSegment .table (afterExports f) =
        (.table, .own) :: members list.args := by
      rw [← hopen.rest_eq himport, hrest, inlineSegment, if_pos (isSome_of_elemType htype)]
    rw [hsegment, hopen.index, hindex .table]
    dsimp only
    rw [List.flatMap_singleton, List.map_nil, List.append_nil]
    exact .cons .own (reaches_members hspaces hinit)
  | memory hhead hopen himport htype =>
    apply reaches_of_opens (hindex _) (by rw [hhead]; rfl) hopen rfl rfl
    rw [hopen.rest_eq himport] at htype
    rw [inlineSegment_limits htype]
    exact .nil
  | @memoryOfData o es list init pages hhead hopen himport hrest hlist hinit hpages =>
    apply reaches_of_opens (hindex _) (by rw [hhead]; rfl) hopen rfl rfl
    have hsegment : inlineSegment .memory (afterExports f) = [(.memory, .own)] := by
      have hdata : list.isHeadedBy .dataKw = true := isHeadedBy_iff.mpr hlist
      rw [← hopen.rest_eq himport, hrest, inlineSegment, if_pos hdata]
    rw [hsegment, hopen.index, hindex .memory]
    exact .cons .own .nil
  | @«export» name desc ref e hhead hargs hname hkind hdesc href =>
    have hmentions : mentions f = [(.exported e.kind, .written ref)] := by
      rw [mentions, hhead]
      simp [exported?, hargs, hkind, hdesc]
    rw [hmentions]
    exact .cons (.written (refers_of_resolve _ hspaces href)) .nil
  | start hhead hfirst hargs href =>
    rw [mentions, hhead, hargs]
    exact .cons (.written (refers_of_resolve Use.start.kind hspaces href)) .nil
  | @elem table n offset item init t hhead htarget hitem hlist hoffset hinit =>
    obtain ⟨hreaches, hrest⟩ : Mention.Reaches fields before _ _ ∧ _ :=
      reaches_target .table hspaces htarget
    rw [mentions, hhead, hrest]
    have hpointers : Part.pointers { elems := [⟨table, offset, init⟩] } =
        (.table, table) :: init.map fun i => (.member, i) := by
      simp [Part.pointers]
    rw [hpointers]
    exact .cons hreaches (reaches_members hspaces hinit)
  | data hhead htarget hitem hlist hoffset hinit =>
    rw [mentions, hhead]
    exact .cons (reaches_target .memory hspaces htarget).1 .nil

end Mentions

/-! ## References in bodies -/

/-- The kind of entity that an instruction refers to, if it refers to one by name or number. -/
def Opcode.refersTo? : Opcode → Option ExternKind
  | .call => some .func
  | .getGlobal | .setGlobal => some .global
  | _ => none

/-- An opcode of which something holds that holds of none that refer to an entity is no such. -/
theorem Opcode.refersTo?_eq_none {α : Type} {op : Opcode} {a : α} {g : Opcode → α} (h : g op = a)
    (hcall : g .call ≠ a) (hget : g .getGlobal ≠ a) (hset : g .setGlobal ≠ a) :
    op.refersTo? = none := by
  unfold refersTo?
  split
  · exact absurd h hcall
  · exact absurd h hget
  · exact absurd h hset
  · rfl

/-- The entity that an instruction points to. -/
def Instr.pointer? : Instr → Option (ExternKind × Nat)
  | .plain (.call i) _ => some (.func, i)
  | .plain (.getGlobal i) _ | .plain (.setGlobal i) _ => some (.global, i)
  | _ => none

/-- The instruction of a site is that of a word, and points to what the word refers to. -/
structure Word.Resolves (fields : List Form) (w : Word) (s : Site) : Prop where
  opcode : s.instr.opcode = w.op
  span : s.instr.span = w.span
  pointer : ∀ kind, w.op.refersTo? = some kind →
    ∃ v i, w.args.head? = some v ∧ s.instr.pointer? = some (kind, i) ∧ Refers fields kind v i

/-- The references of a body are those written in a field, and point to what they refer to. -/
def Instr.Resolved (fields : List Form) (f : Form) (body : List Instr) : Prop :=
  List.Forall₂ (Word.Resolves fields) (f.words.filter (·.op.refersTo?.isSome))
    ((sitesAll [] body).filter (·.instr.opcode.refersTo?.isSome))

section Bodies

variable {spaces : Spaces} {fields : List Form} {f : Form}

/-- What is resolved is written. -/
theorem exists_head_of_resolve {names : Names} {space : Space} {span : Span} {f? : Option Form}
    {i : Nat} (h : names.resolve space span f? = .ok i) :
    ∃ v, f? = some v ∧ names.resolve space span (some v) = .ok i := by
  obtain ⟨v, rfl, -⟩ := Names.leaf_of_resolve h
  exact ⟨v, rfl, h⟩

/-- The index of an instruction refers to what its word writes. -/
theorem Plain.ReadAs.pointer {sc : Scope} {span place : Span} {items : List Form}
    {t t' : TypeTable} {op : Opcode} {p : Plain} {n : Nat} {kind : ExternKind}
    (hspaces : Spaces.ofFields fields = .ok sc.spaces) (h : p.ReadAs sc span items t op n t')
    (hkind : op.refersTo? = some kind) :
    ∃ v i, items.head? = some v ∧ (Instr.plain p place).pointer? = some (kind, i) ∧
      Refers fields kind v i := by
  cases h with
  | call h =>
    obtain rfl := Option.some.inj hkind
    obtain ⟨v, hv, hi⟩ := exists_head_of_resolve h
    exact ⟨v, _, hv, rfl, refers_of_resolve .func hspaces hi⟩
  | getGlobal h | setGlobal h =>
    obtain rfl := Option.some.inj hkind
    obtain ⟨v, hv, hi⟩ := exists_head_of_resolve h
    exact ⟨v, _, hv, rfl, refers_of_resolve .global hspaces hi⟩
  -- no other opcode refers to an entity
  | bare h hop =>
    simp only [Plain.bare, List.mem_cons, List.not_mem_nil, or_false] at h
    subst hop
    rcases h with rfl | rfl | rfl | rfl | rfl | rfl | rfl <;> cases hkind
  | numeric h =>
    have hsome : (Plain.numeric? op).isSome = true := by
      rw [h]
      rfl
    rw [Opcode.refersTo?_eq_none (g := fun op => (Plain.numeric? op).isSome) hsome (by decide)
      (by decide) (by decide)] at hkind
    cases hkind
  | const hop | load hop | store hop =>
    rw [Opcode.refersTo?_eq_none hop (by decide) (by decide) (by decide)] at hkind
    cases hkind
  | _ => cases hkind

/-- A word resolves to the instruction it is read as. -/
theorem resolves_of_readsAs {sc : Scope} {t t' : TypeTable} {w : Word} {s : Site}
    (hspaces : Spaces.ofFields fields = .ok sc.spaces) (h : Body.ReadsAs sc t t' w s) :
    w.Resolves fields s := by
  cases h with
  | plain hinner hkind hstart hread hstop =>
    refine ⟨hread.opcode, rfl, ?_⟩
    intro kind hrefers
    exact hread.pointer (hinner.spaces ▸ hspaces) hrefers
  | @block enclosing kind name sig body elseBody n hkind hheader =>
    refine ⟨BlockKind.opcode_toInstr hkind, BlockKind.span_toInstr .., ?_⟩
    intro kind' hrefers
    rw [Opcode.refersTo?_eq_none hkind (by simp [BlockKind.ofOpcode?])
      (by simp [BlockKind.ofOpcode?]) (by simp [BlockKind.ofOpcode?])] at hrefers
    cases hrefers

/-- The instructions of a body resolve as the words of its field are written. -/
theorem resolved_of_covers {sc : Scope} {t t' : TypeTable} {body : List Instr}
    (hspaces : Spaces.ofFields fields = .ok sc.spaces)
    (h : Body.Covers sc [] t t' f.placed body) : Instr.Resolved fields f body := by
  have hresolves := h.sites.imp fun w s => resolves_of_readsAs (w := w) (s := s) hspaces
  refine List.rel_filter ?_ hresolves
  intro w s hws
  show w.op.refersTo?.isSome = true ↔ s.instr.opcode.refersTo?.isSome = true
  rw [hws.opcode]

theorem Part.OffsetCovers.resolved {t t' : TypeTable} {offset : List Instr}
    (hspaces : Spaces.ofFields fields = .ok spaces) (h : OffsetCovers spaces t t' f offset) :
    Instr.Resolved fields f offset := by
  cases h with
  | written h => exact resolved_of_covers hspaces h
  | zero h =>
    rw [Instr.Resolved, words_eq_nil_of_placed h]
    exact .nil

end Bodies

/-! ## Accepted modules -/

/-- What a part that is read after some fields points to is what its own field refers to, and the
entity that it adds, if any, is the one that its field declares. -/
structure Part.Resolved (fields before : List Form) (f : Form) (part : Part) : Prop where
  fits : ∀ kind, part.Fits f kind
  mentions : List.Forall₂ (Mention.Reaches fields before) (Field.mentions f) part.pointers
  funcs : ∀ x ∈ part.funcs, Instr.Resolved fields f x.body
  globals : ∀ g ∈ part.globals, Instr.Resolved fields f g.init
  elems : ∀ e ∈ part.elems, Instr.Resolved fields f e.offset
  data : ∀ x ∈ part.data, Instr.Resolved fields f x.offset

/-- Every instruction of a part resolves as it is written. -/
theorem Part.ReadFrom.resolved {spaces : Spaces} {fields before : List Form} {d : Draft} {f : Form}
    {part : Part} {types : TypeTable} (hspaces : Spaces.ofFields fields = .ok spaces)
    (hindex : ∀ kind, d.nextIndex kind = (declaring kind before).length)
    (h : part.ReadFrom spaces d f types) : part.Resolved fields before f where
  fits := h.fits
  mentions := h.reaches hspaces hindex
  funcs x hx := by
    obtain ⟨names, result, hcovers⟩ := h.covers_func x hx
    exact resolved_of_covers hspaces hcovers
  globals g hg := resolved_of_covers hspaces (h.covers_global g hg)
  elems e he := (h.covers_elem e he).resolved hspaces
  data x hx := (h.covers_data x hx).resolved hspaces

namespace Module

/-- The indices of a module are the places of fields: the entities of a kind are those that fields
declare, in order and with names that differ, and each part of the module points to the entities
that its field refers to. -/
structure Indexed (fields : List Form) (m : Module) : Prop where
  declares : ∃ spaces, Spaces.ofFields fields = .ok spaces ∧
    ∀ kind, List.Forall₂ (Declares spaces kind) (declaring kind fields) (m.space kind)
  distinct : ∀ kind, (declaredNames kind fields).Distinct
  resolved : ∃ parts, m.IsJoin parts ∧ (∀ kind, m.space kind = parts.flatMap (·.space kind)) ∧
    parts.length = fields.length ∧ ∀ (i : Nat) f part, fields[i]? = some f →
      parts[i]? = some part → part.Resolved fields (fields.take i) f

/-- The entities of an accepted module are its declaring fields in order, their names are different,
and every index in it is that of the field which the reference names or numbers. -/
theorem indexed_of_accepted {fields : List Form} {m : Module} (h : Accepted fields m) :
    m.Indexed fields := by
  obtain ⟨name, spaces, types, d, parts, hspaces, -, hrun, rfl⟩ := h.run
  constructor
  · exact ⟨spaces, hspaces, hrun.declares⟩
  · intro kind
    exact (Spaces.ofFields_ofKind hspaces kind).2
  · refine ⟨parts, isJoin_of_run hrun name, hrun.space_eq, hrun.length_eq.symm, ?_⟩
    intro i f part hf hpart
    obtain ⟨d', types', hprefix, hread⟩ := hrun.step hf hpart
    exact hread.resolved hspaces hprefix.nextIndex_eq

/-- Functions are referred to before they are declared, and one of them is imported. -/
theorem indexed_of_accepted_forward :
    let src : Source := ⟨"t", "(start $f) (func $g (import \"m\" \"g\")) (func $f (call $g))"⟩
    let fields := fieldsOf (Reader.ofSource src).readCommand.1
    ∃ m, (parse src).outcome = .accepted m ∧ m.Indexed fields := by
  intro src fields
  obtain ⟨m, hm⟩ : ∃ m, (parse src).outcome = .accepted m :=
    Outcome.exists_accepted (by decide +kernel)
  exact ⟨m, hm, indexed_of_accepted (.alone hm)⟩

end Module

end WasmText
