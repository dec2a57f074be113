import Mathlib.Data.List.Perm.Basic
import WasmText.Proofs.Adding
import WasmText.Proofs.UnspannedFields

/-!
# The order of fields

Types, exports and the start of a module may be written anywhere among its fields, as long as the
types keep their order and so do all other fields. Such a field looks at nothing that the fields
before it have added, but for the names of exports, which have to be different in any order. So
reading fields one after the other comes to the same as reading those that hold their place, and
then adding the exports and the start (`Draft.Apart`).
-/

namespace WasmText

open Form

/-! ## Fields that hold their place -/

/-- A field whose place among the others counts: any but a type, an export or a start. -/
def Form.holdsPlace (f : Form) : Bool :=
  !(f.isHeadedBy .typeKw || f.isHeadedBy .exportKw || f.isHeadedBy .startKw)

/-- Some fields in another order, in which the types come in the same order and so do the fields
that hold their place. -/
structure Form.Reordered (fields fields' : List Form) : Prop where
  perm : fields.Perm fields'
  types : fields.filter (isHeadedBy .typeKw) = fields'.filter (isHeadedBy .typeKw)
  placed : fields.filter holdsPlace = fields'.filter holdsPlace

theorem Form.Reordered.symm {fields fields' : List Form} (h : Reordered fields fields') :
    Reordered fields' fields :=
  ⟨h.perm.symm, h.types.symm, h.placed.symm⟩

/-- The four sorts of fields, with what sorts them. -/
theorem Form.sort_cases (f : Form) :
    f.headKeyword? = some .typeKw ∨ f.headKeyword? = some .exportKw ∨
      f.headKeyword? = some .startKw ∨ f.holdsPlace = true := by
  unfold holdsPlace
  simp only [isHeadedBy, Bool.not_or, Bool.and_eq_true, Bool.not_eq_true', beq_eq_false_iff_ne]
  tauto

namespace Draft

/-- The draft with other exports and another start. -/
def exposing (d : Draft) (exports : List Export) (start : Option Nat) : Draft :=
  { d with exports, start }

/-- The draft without exports and without a start. -/
def bare (d : Draft) : Draft := d.exposing [] none

end Draft

/-! ## What a field reads of a draft -/

variable {spaces : Spaces} {d : Draft} {f : Form} {part : Part} {types : TypeTable}

/-- A definition is opened the same whatever exports there are. -/
theorem Field.Opens.exposing {kind : ExternKind} {o : Opening} {es : List Export}
    (h : Opens kind d f o es) (exports : List Export) (start : Option Nat) :
    Opens kind (d.exposing exports start) f o es :=
  ⟨h.name, h.index, h.exports, h.imported⟩

namespace Part

theorem ne_start_of_holdsPlace (h : f.holdsPlace = true) : f.headKeyword? ≠ some .startKw := by
  intro hhead
  rw [holdsPlace, isHeadedBy_iff.mpr hhead] at h
  simp at h

/-- A field that holds its place sets no start. -/
theorem ReadFrom.start_eq_none (h : part.ReadFrom spaces d f types) (hplace : f.holdsPlace = true) :
    part.start = none := by
  cases h with
  | start hhead => exact absurd hhead (ne_start_of_holdsPlace hplace)
  | _ => rfl

/-- A field that holds its place is read without a look at the exports or the start. -/
theorem ReadFrom.exposing (h : part.ReadFrom spaces d f types) (hplace : f.holdsPlace = true)
    (exports : List Export) (start : Option Nat) :
    part.ReadFrom spaces (d.exposing exports start) f types := by
  cases h with
  | type hhead => exact .type hhead
  | «import» hhead hitem hnames hmore hkind hdesc horder =>
    exact .import hhead hitem hnames hmore hkind hdesc horder
  | inlineImport hkind hopen himport hdesc horder =>
    exact .inlineImport hkind (hopen.exposing _ _) himport hdesc horder
  | func hhead hopen himport huse hdecls hrest hparams hlocals hbody =>
    exact .func hhead (hopen.exposing _ _) himport huse hdecls hrest hparams hlocals hbody
  | table hhead hopen himport htype hrest =>
    exact .table hhead (hopen.exposing _ _) himport htype hrest
  | tableOfElems hhead hopen himport hrest htype hlist hinit =>
    exact .tableOfElems hhead (hopen.exposing _ _) himport hrest htype hlist hinit
  | memory hhead hopen himport htype hrest =>
    exact .memory hhead (hopen.exposing _ _) himport htype hrest
  | memoryOfData hhead hopen himport hrest hlist hinit hpages =>
    exact .memoryOfData hhead (hopen.exposing _ _) himport hrest hlist hinit hpages
  | global hhead hopen himport htype hinit =>
    exact .global hhead (hopen.exposing _ _) himport htype hinit
  | «export» hhead hargs hname hkind hdesc href =>
    exact .export hhead hargs hname hkind hdesc href
  | start hhead => exact absurd hhead (ne_start_of_holdsPlace hplace)
  | elem hhead htarget hitem hlist hoffset hinit =>
    exact .elem hhead htarget hitem hlist hoffset hinit
  | data hhead htarget hitem hlist hoffset hinit =>
    exact .data hhead htarget hitem hlist hoffset hinit

end Part

/-! ## Exports and starts -/

/-- A type definition adds nothing when it is reached, as all were read before. -/
theorem Part.of_type (h : part.ReadFrom spaces d f types) (hhead : f.headKeyword? = some .typeKw) :
    part = {} ∧ types = d.types := by
  cases h with
  | type => exact ⟨rfl, rfl⟩
  | inlineImport hkind =>
    rw [hhead] at hkind
    cases hkind
  | «import» h | func h | table h | tableOfElems h | memory h | memoryOfData h | global h
  | «export» h | start h | elem h | data h => cases hhead.symm.trans h

namespace Field

/-- A field exports an entity, whatever draft it is read into. -/
def Exports (spaces : Spaces) (f : Form) (e : Export) : Prop :=
  ∀ d : Draft, Part.ReadFrom spaces d f { exports := [e] } d.types

/-- A field names the start, in a draft that has none. -/
def Starts (spaces : Spaces) (f : Form) (index : Nat) : Prop :=
  ∀ d : Draft, d.start = none → Part.ReadFrom spaces d f { start := some index } d.types

/-- An export field adds its export only. -/
theorem exports_of_readFrom (h : part.ReadFrom spaces d f types)
    (hhead : f.headKeyword? = some .exportKw) :
    ∃ e, Exports spaces f e ∧ part = { exports := [e] } ∧ types = d.types := by
  cases h with
  | @«export» name desc ref e hhead hargs hname hkind hdesc href =>
    exact ⟨e, fun d => .export hhead hargs hname hkind hdesc href, rfl, rfl⟩
  | inlineImport hkind =>
    rw [hhead] at hkind
    cases hkind
  | type h | «import» h | func h | table h | tableOfElems h | memory h | memoryOfData h | global h
  | start h | elem h | data h => cases hhead.symm.trans h

/-- A start field adds its start only, and is the first. -/
theorem starts_of_readFrom (h : part.ReadFrom spaces d f types)
    (hhead : f.headKeyword? = some .startKw) :
    ∃ index, Starts spaces f index ∧ d.start = none ∧ part = { start := some index } ∧
      types = d.types := by
  cases h with
  | @start ref index hhead hfirst hargs href =>
    exact ⟨index, fun d hd => .start hhead hd hargs href, hfirst, rfl, rfl⟩
  | inlineImport hkind =>
    rw [hhead] at hkind
    cases hkind
  | type h | «import» h | func h | table h | tableOfElems h | memory h | memoryOfData h | global h
  | «export» h | elem h | data h => cases hhead.symm.trans h

end Field

/-! ## Reading fields apart -/

namespace Draft

/-- Fields that hold their place are read one after the other, each into a draft without exports and
start. `new` are the exports that they add. -/
inductive Core (spaces : Spaces) : List Form → Draft → Draft → List Export → Prop
  | nil (d : Draft) : Core spaces [] d d []
  | cons {f : Form} {fields : List Form} {d core : Draft} {part : Part} {types : TypeTable}
    {new : List Export} (hread : part.ReadFrom spaces d f types)
    (hrest : Core spaces fields (d.extend part types).bare core new) :
    Core spaces (f :: fields) d core (part.exports ++ new)

/-- Fields that hold their place, exports and starts are read apart from each other. -/
structure Apart (spaces : Spaces) (placed exporting starting : List Form) (d core : Draft)
    (new es : List Export) (starts : List Nat) : Prop where
  placed : Core spaces placed d.bare core new
  exporting : List.Forall₂ (Field.Exports spaces) exporting es
  starting : List.Forall₂ (Field.Starts spaces) starting starts
  once : (d.start.toList ++ starts).length ≤ 1

theorem Distinct.perm {es es' : List Export} (h : Distinct es) (hperm : es.Perm es') :
    Distinct es' :=
  (hperm.map Export.name).nodup_iff.mp h

variable {spaces : Spaces} {fields : List Form} {d d' core : Draft} {new es : List Export}
  {starts : List Nat} {f : Form}

theorem extend_exports (d : Draft) (es : List Export) :
    d.extend { exports := es } d.types = d.exposing (d.exports ++ es) d.start := by
  simp [extend, exposing]

theorem extend_start (h : d.start = none) (index : Nat) :
    d.extend { start := some index } d.types = d.exposing d.exports (some index) := by
  simp [extend, exposing, h]

theorem extend_none (d : Draft) : d.extend {} d.types = d := by
  simp [extend]

section Filters

variable (fields)

theorem filter_cons_of_type (h : f.headKeyword? = some .typeKw) :
    (f :: fields).filter holdsPlace = fields.filter holdsPlace ∧
      (f :: fields).filter (isHeadedBy .exportKw) = fields.filter (isHeadedBy .exportKw) ∧
      (f :: fields).filter (isHeadedBy .startKw) = fields.filter (isHeadedBy .startKw) := by
  simp [holdsPlace, isHeadedBy, h]

theorem filter_cons_of_export (h : f.headKeyword? = some .exportKw) :
    (f :: fields).filter holdsPlace = fields.filter holdsPlace ∧
      (f :: fields).filter (isHeadedBy .exportKw) = f :: fields.filter (isHeadedBy .exportKw) ∧
      (f :: fields).filter (isHeadedBy .startKw) = fields.filter (isHeadedBy .startKw) := by
  simp [holdsPlace, isHeadedBy, h]

theorem filter_cons_of_start (h : f.headKeyword? = some .startKw) :
    (f :: fields).filter holdsPlace = fields.filter holdsPlace ∧
      (f :: fields).filter (isHeadedBy .exportKw) = fields.filter (isHeadedBy .exportKw) ∧
      (f :: fields).filter (isHeadedBy .startKw) = f :: fields.filter (isHeadedBy .startKw) := by
  simp [holdsPlace, isHeadedBy, h]

theorem filter_cons_of_holdsPlace (h : f.holdsPlace = true) :
    (f :: fields).filter holdsPlace = f :: fields.filter holdsPlace ∧
      (f :: fields).filter (isHeadedBy .exportKw) = fields.filter (isHeadedBy .exportKw) ∧
      (f :: fields).filter (isHeadedBy .startKw) = fields.filter (isHeadedBy .startKw) := by
  refine ⟨List.filter_cons_of_pos h, ?_⟩
  unfold holdsPlace at h
  simp only [Bool.not_eq_true', Bool.or_eq_false_iff] at h
  simp [h.1.2, h.2]

end Filters

/-- Fields that are added can be read apart, and it comes to the same but for the order of the
exports. -/
theorem exists_apart_of_foldlM (hd : Distinct d.exports)
    (h : fields.foldlM (Field.add spaces) d = .ok d') :
    ∃ core new es starts all, Apart spaces (fields.filter holdsPlace)
        (fields.filter (isHeadedBy .exportKw)) (fields.filter (isHeadedBy .startKw)) d core new es
        starts ∧
      all.Perm (d.exports ++ (new ++ es)) ∧ Distinct all ∧
        d' = core.exposing all (d.start.or starts.head?) := by
  induction fields generalizing d with
  | nil =>
    obtain rfl := Success.of_pure h
    refine ⟨d.bare, [], [], [], d.exports, ⟨.nil _, .nil, .nil, ?_⟩, ?_, hd, ?_⟩
    · cases d.start <;> simp
    · simp
    · cases d; simp [bare, exposing]
  | cons f fields ih =>
    rw [List.foldlM_cons] at h
    obtain ⟨d₁, hf, h⟩ := Success.of_bind h
    have hd₁ := Field.yieldsDistinct_add spaces hd f d₁ hf
    obtain ⟨part, types, hread, rfl⟩ := Part.readFrom_of_add hf
    obtain ⟨core, new, es, starts, all, hapart, hperm, hall, rfl⟩ := ih hd₁ h
    obtain hhead | hhead | hhead | hplace := f.sort_cases
    · -- a definition of a type adds nothing
      obtain ⟨hplaced, hexported, hstarted⟩ := filter_cons_of_type fields hhead
      obtain ⟨rfl, rfl⟩ := Part.of_type hread hhead
      rw [extend_none] at hapart hperm ⊢
      rw [hplaced, hexported, hstarted]
      exact ⟨core, new, es, starts, all, hapart, hperm, hall, rfl⟩
    · -- an export goes to the exports
      obtain ⟨hplaced, hexported, hstarted⟩ := filter_cons_of_export fields hhead
      obtain ⟨e, he, rfl, rfl⟩ := Field.exports_of_readFrom hread hhead
      rw [extend_exports] at hapart hperm ⊢
      rw [hplaced, hexported, hstarted]
      refine ⟨core, new, e :: es, starts, all, ?_, ?_, hall, rfl⟩
      · exact ⟨hapart.placed, .cons he hapart.exporting, hapart.starting, hapart.once⟩
      · refine hperm.trans ?_
        show ((d.exports ++ [e]) ++ (new ++ es)).Perm (d.exports ++ (new ++ e :: es))
        rw [List.append_assoc, List.singleton_append]
        exact .append_left d.exports List.perm_middle.symm
    · -- the start, of which there is one
      obtain ⟨hplaced, hexported, hstarted⟩ := filter_cons_of_start fields hhead
      obtain ⟨index, hindex, hnone, rfl, rfl⟩ := Field.starts_of_readFrom hread hhead
      rw [extend_start hnone] at hapart hperm ⊢
      rw [hplaced, hexported, hstarted, hnone]
      have hnil : starts = [] := by simpa [exposing] using hapart.once
      refine ⟨core, new, es, index :: starts, all, ?_, hperm, hall, rfl⟩
      refine ⟨hapart.placed, hapart.exporting, .cons hindex hapart.starting, ?_⟩
      rw [hnone, hnil]
      simp
    · -- a field that holds its place
      obtain ⟨hplaced, hexported, hstarted⟩ := filter_cons_of_holdsPlace fields hplace
      have hnone := hread.start_eq_none hplace
      rw [hplaced, hexported, hstarted]
      have hsame : (d.extend part types).start = d.start := by
        rw [extend, hnone]
        exact Option.or_none
      refine ⟨core, part.exports ++ new, es, starts, all, ?_, ?_, hall, by rw [hsame]⟩
      · refine ⟨.cons (hread.exposing hplace [] none) hapart.placed, hapart.exporting,
          hapart.starting, ?_⟩
        have honce := hapart.once
        rwa [hsame] at honce
      · rw [List.append_assoc, ← List.append_assoc d.exports]
        exact hperm

/-- Fields that are read apart can be added one after the other, if the names of all exports are
different. -/
theorem exists_foldlM_of_apart
    (h : Apart spaces (fields.filter holdsPlace) (fields.filter (isHeadedBy .exportKw))
      (fields.filter (isHeadedBy .startKw)) d core new es starts)
    (hnew : Distinct (d.exports ++ (new ++ es))) :
    ∃ all, all.Perm (d.exports ++ (new ++ es)) ∧
      fields.foldlM (Field.add spaces) d = .ok (core.exposing all (d.start.or starts.head?)) := by
  induction fields generalizing d new es starts with
  | nil =>
    obtain ⟨hplaced, hexporting, hstarting, -⟩ := h
    cases hplaced
    cases hexporting
    cases hstarting
    refine ⟨d.exports, by simp, ?_⟩
    cases d
    simp [bare, exposing]
    rfl
  | cons f fields ih =>
    rw [List.foldlM_cons]
    obtain hhead | hhead | hhead | hplace := f.sort_cases
    · -- a definition of a type adds nothing
      obtain ⟨hplaced, hexported, hstarted⟩ := filter_cons_of_type fields hhead
      rw [hplaced, hexported, hstarted] at h
      have hadd : Field.add spaces d f = .ok (d.extend {} d.types) :=
        Field.add_of_readFrom (.type hhead) (by simpa using hnew.of_append_left)
      rw [Success.bind_of hadd, extend_none]
      exact ih h hnew
    · -- an export goes to the exports
      obtain ⟨hplaced, hexported, hstarted⟩ := filter_cons_of_export fields hhead
      rw [hplaced, hexported, hstarted] at h
      obtain ⟨hplaced, hexporting, hstarting, honce⟩ := h
      cases hexporting with
      | @cons _ e _ es he hes =>
        have hperm : (d.exports ++ (new ++ e :: es)).Perm ((d.exports ++ [e]) ++ (new ++ es)) := by
          rw [List.append_assoc, List.singleton_append]
          exact .append_left d.exports List.perm_middle
        have hnew' := hnew.perm hperm
        have hadd : Field.add spaces d f = .ok (d.extend { exports := [e] } d.types) :=
          Field.add_of_readFrom (he d) hnew'.of_append_left
        rw [Success.bind_of hadd, extend_exports]
        obtain ⟨all, hall, hfold⟩ := ih (d := d.exposing (d.exports ++ [e]) d.start)
          ⟨hplaced, hes, hstarting, honce⟩ hnew'
        exact ⟨all, hall.trans hperm.symm, hfold⟩
    · -- the start, of which there is one
      obtain ⟨hplaced, hexported, hstarted⟩ := filter_cons_of_start fields hhead
      rw [hplaced, hexported, hstarted] at h
      obtain ⟨hplaced, hexporting, hstarting, honce⟩ := h
      cases hstarting with
      | @cons _ index _ starts hindex hstarts =>
        -- there is room for one start only
        rw [List.length_append, List.length_cons] at honce
        have hnone : d.start = none := by
          cases hstart : d.start with
          | none => rfl
          | some => rw [hstart, Option.toList_some, List.length_singleton] at honce; omega
        have hnil : starts = [] := List.eq_nil_of_length_eq_zero (by omega)
        subst hnil
        have hadd : Field.add spaces d f = .ok (d.extend { start := some index } d.types) :=
          Field.add_of_readFrom (hindex d hnone) (by simpa using hnew.of_append_left)
        rw [Success.bind_of hadd, extend_start hnone, hnone]
        exact ih (d := d.exposing d.exports (some index))
          ⟨hplaced, hexporting, hstarts, by simp [exposing]⟩ hnew
    · -- a field that holds its place
      obtain ⟨hplaced, hexported, hstarted⟩ := filter_cons_of_holdsPlace fields hplace
      rw [hplaced, hexported, hstarted] at h
      obtain ⟨hplaced, hexporting, hstarting, honce⟩ := h
      cases hplaced with
      | @cons _ _ _ _ part types new hread hrest =>
        have hread : part.ReadFrom spaces d f types := hread.exposing hplace d.exports d.start
        have hsame : (d.extend part types).start = d.start := by
          rw [extend, hread.start_eq_none hplace]
          exact Option.or_none
        have hassoc : d.exports ++ ((part.exports ++ new) ++ es) =
            (d.exports ++ part.exports) ++ (new ++ es) := by simp
        rw [hassoc] at hnew ⊢
        rw [Success.bind_of (Field.add_of_readFrom hread hnew.of_append_left), ← hsame]
        exact ih (d := d.extend part types) ⟨hrest, hexporting, hstarting, by rwa [hsame]⟩ hnew

end Draft

/-! ## The names of reordered fields -/

namespace Names

variable {names : Names} {name : Option String}

theorem Distinct.of_append_left {names' : Names} (h : (names ++ names').Distinct) :
    names.Distinct := by
  intro i j n hi hj
  refine h i j n ?_ ?_
  · rw [List.getElem?_append_left (List.getElem?_eq_some_iff.mp hi).1, hi]
  · rw [List.getElem?_append_left (List.getElem?_eq_some_iff.mp hj).1, hj]

/-- A name that differs from all before it is declared. -/
theorem declare_of_distinct (h : (names ++ [name]).Distinct) (space : Space) (span : Span) :
    names.declare space name span = .ok (names ++ [name]) := by
  unfold declare
  split
  · next n =>
    refine if_neg fun hmem => ?_
    obtain ⟨i, hi, hin⟩ := List.getElem_of_mem (List.contains_iff_mem.mp hmem)
    -- the name would stand at two places
    have hfirst : (names ++ [some n])[i]? = some (some n) := by
      rw [List.getElem?_append_left hi, List.getElem?_eq_getElem hi, hin]
    have hlast : (names ++ [some n])[names.length]? = some (some n) := List.getElem?_concat_length
    exact absurd (h i names.length n hfirst hlast) (Nat.ne_of_lt hi)
  · rfl

end Names

namespace Spaces

open WasmText.Field

variable {s s' : Spaces} {f : Form} {fields fields' : List Form}

/-- Type definitions declare their name. -/
theorem isType_of_declared? {name : Option String} {span : Span}
    (h : declared? f = some (none, name, span)) :
    f.headKeyword? = some .typeKw ∧ name = f.args.head?.bind Form.id? := by
  unfold declared? at h
  split at h
  · next hhead =>
    obtain ⟨-, h⟩ := Prod.mk.inj (Option.some.inj h)
    exact ⟨hhead, (Prod.mk.inj h).1.symm⟩
  · obtain ⟨_, -, h⟩ := Option.bind_eq_some_iff.mp h
    obtain ⟨_, -, h⟩ := Option.bind_eq_some_iff.mp h
    cases h
  · obtain ⟨_, -, h⟩ := Option.bind_eq_some_iff.mp h
    cases h

/-- A field is declared if its name differs from those of its space. -/
theorem exists_declare_of_distinct
    (hkinds : ∀ kind, (s.ofKind kind ++ declaredNames kind [f]).Distinct)
    (htypes : (s.types ++ typeNames [f]).Distinct) : ∃ s', s.declare f = .ok s' := by
  unfold declare
  match hdeclared : declared? f with
  | none => exact ⟨s, rfl⟩
  | some (none, name, span) =>
    obtain ⟨hhead, rfl⟩ := isType_of_declared? hdeclared
    rw [typeNames, definingTypes,
      List.filter_cons_of_pos (Form.isHeadedBy_iff.mpr hhead)] at htypes
    dsimp only
    rw [Names.declare_of_distinct htypes]
    exact ⟨_, rfl⟩
  | some (some kind, name, span) =>
    have hkind : kind? f = some kind := by
      by_contra hne
      exact declared?_of_kind?_ne hne hdeclared rfl
    obtain ⟨span', hdeclared'⟩ := declared?_of_kind? hkind
    obtain ⟨-, heq⟩ := Prod.mk.inj (Option.some.inj (hdeclared.symm.trans hdeclared'))
    obtain ⟨rfl, rfl⟩ := Prod.mk.inj heq
    have hnames := hkinds kind
    rw [declaredNames, declaring_singleton hkind] at hnames
    dsimp only
    unfold declareKind
    rw [Success.bind_of (Names.declare_of_distinct hnames _ _)]
    cases kind <;> exact ⟨_, rfl⟩

/-- The names that fields declare are collected if they differ in each space. -/
theorem exists_ofFields_of_distinct (hkinds : ∀ kind, (declaredNames kind fields).Distinct)
    (htypes : (typeNames fields).Distinct) : ∃ s, ofFields fields = .ok s := by
  induction fields using List.reverseRecOn with
  | nil => exact ⟨.empty, rfl⟩
  | append_singleton fields f ih =>
    have happend (kind : ExternKind) : declaredNames kind (fields ++ [f]) =
        declaredNames kind fields ++ declaredNames kind [f] := by
      rw [declaredNames, declaring_append, List.map_append]
      rfl
    have htypesAppend : typeNames (fields ++ [f]) = typeNames fields ++ typeNames [f] := by
      rw [typeNames, definingTypes_append, List.map_append]
      rfl
    rw [htypesAppend] at htypes
    have hkinds (kind : ExternKind) := happend kind ▸ hkinds kind
    obtain ⟨s, hs⟩ := ih (fun kind => (hkinds kind).of_append_left) htypes.of_append_left
    have hnext : ∃ s', s.declare f = .ok s' := by
      refine exists_declare_of_distinct (fun kind => ?_) ?_
      · rw [(ofFields_ofKind hs kind).1]
        exact hkinds kind
      · rw [(ofFields_types hs).1]
        exact htypes
    obtain ⟨s', hs'⟩ := hnext
    refine ⟨s', ?_⟩
    unfold ofFields at hs ⊢
    rw [List.foldlM_append, Success.bind_of hs, List.foldlM_cons, Success.bind_of hs']
    rfl

/-- A field that declares an entity holds its place. -/
theorem holdsPlace_of_kind? {kind : ExternKind} (h : kind? f = some kind) :
    f.holdsPlace = true := by
  have hno {word : Keyword} (hhead : f.headKeyword? = some word)
      (hword : word ≠ .importKw ∧ kindOf? (some word) = none) : False := by
    rw [kind?_of_ne_import (by rw [hhead]; simpa using hword.1), hhead, hword.2] at h
    cases h
  obtain hhead | hhead | hhead | hplace := f.sort_cases
  · exact (hno hhead ⟨by decide, rfl⟩).elim
  · exact (hno hhead ⟨by decide, rfl⟩).elim
  · exact (hno hhead ⟨by decide, rfl⟩).elim
  · exact hplace

/-- Only fields with a place declare entities. -/
theorem declaring_eq_filter (kind : ExternKind) (fields : List Form) :
    declaring kind fields = declaring kind (fields.filter holdsPlace) := by
  rw [declaring, declaring, List.filter_filter]
  refine List.filter_congr fun f _ => ?_
  by_cases hkind : kind? f = some kind
  · simp [hkind, holdsPlace_of_kind? hkind]
  · simp [hkind]

/-- Fields in another order declare the same names. -/
theorem ofFields_reordered (h : Form.Reordered fields fields') (hs : ofFields fields = .ok s) :
    ofFields fields' = .ok s := by
  have hkinds (kind : ExternKind) : declaredNames kind fields' = declaredNames kind fields := by
    rw [declaredNames, declaredNames, declaring_eq_filter, ← h.placed, ← declaring_eq_filter]
  have htypes : typeNames fields' = typeNames fields := by
    rw [typeNames, typeNames, definingTypes, definingTypes, h.types]
  obtain ⟨s', hs'⟩ : ∃ s', ofFields fields' = .ok s' := by
    refine exists_ofFields_of_distinct (fun kind => ?_) ?_
    · rw [hkinds kind]
      exact (ofFields_ofKind hs kind).2
    · rw [htypes]
      exact (ofFields_types hs).2
  have hofKind (kind : ExternKind) : s'.ofKind kind = s.ofKind kind := by
    rw [(ofFields_ofKind hs' kind).1, (ofFields_ofKind hs kind).1, hkinds kind]
  have htypes' : s'.types = s.types := by
    rw [(ofFields_types hs').1, (ofFields_types hs).1, htypes]
  have heq : s' = s := by
    obtain ⟨types, funcs, tables, memories, globals⟩ := s
    obtain rfl := htypes'
    obtain rfl := hofKind .func
    obtain rfl := hofKind .table
    obtain rfl := hofKind .memory
    obtain rfl := hofKind .global
    rfl
  rw [hs', heq]

end Spaces

/-! ## Modules from reordered fields -/

namespace Draft

variable {spaces : Spaces} {d core : Draft} {new es : List Export} {starts : List Nat}
  {placed exporting exporting' starting starting' : List Form}

/-- What is read apart does not depend on the order of the exports, and there is one start only. -/
theorem Apart.perm (h : Apart spaces placed exporting starting d core new es starts)
    (hexporting : exporting'.Perm exporting) (hstarting : starting'.Perm starting) :
    ∃ es', es'.Perm es ∧ Apart spaces placed exporting' starting' d core new es' starts := by
  obtain ⟨es', hes', hperm⟩ := List.perm_comp_forall₂ hexporting h.exporting
  refine ⟨es', hperm, h.placed, hes', ?_, h.once⟩
  have hlength : starting.length ≤ 1 := by
    have honce := h.once
    rw [List.length_append] at honce
    rw [h.starting.length_eq]
    omega
  have hsame : starting' = starting := by
    match starting, hlength, hstarting with
    | [], _, hperm => exact List.perm_nil.mp hperm
    | [f], _, hperm => exact List.perm_singleton.mp hperm
  rw [hsame]
  exact h.starting

end Draft

namespace Module

/-- The three passes over the fields of a module make it. -/
theorem ofFields_of_passes {name : Option String} {fields : List Form} {spaces : Spaces}
    {types : List FuncType} {d : Draft} (hspaces : Spaces.ofFields fields = .ok spaces)
    (htypes : typesOfFields fields = .ok types)
    (hd : fields.foldlM (Field.add spaces) (.ofTypes ⟨spaces.types, types⟩) = .ok d) :
    ofFields name fields = .ok (d.toModule name) := by
  unfold ofFields
  rw [hspaces]
  show (typesOfFields fields >>= fun types => _) = _
  rw [htypes]
  show ((liftM (fields.foldlM (Field.add spaces) (.ofTypes ⟨spaces.types, types⟩)) :
    Except Failure Draft) >>= fun d => pure (d.toModule name)) = _
  rw [hd]
  rfl

/-- Fields in another order make the same module, but for the order of the exports. -/
theorem ofFields_reordered {fields fields' : List Form} {name : Option String} {m : Module}
    (h : Form.Reordered fields fields') (hm : ofFields name fields = .ok m) :
    ∃ exports, exports.Perm m.exports ∧ ofFields name fields' = .ok { m with exports } := by
  obtain ⟨spaces, types, d, hspaces, htypes, hd, rfl⟩ := passes_of_ofFields hm
  obtain ⟨core, new, es, starts, all, hapart, hall, hdistinct, rfl⟩ :=
    Draft.exists_apart_of_foldlM (by exact List.nodup_nil) hd
  obtain ⟨es', hes', hapart'⟩ := hapart.perm (h.perm.symm.filter _) (h.perm.symm.filter _)
  rw [h.placed] at hapart'
  have hnew : (new ++ es').Perm (new ++ es) := hes'.append_left new
  obtain ⟨all', hall', hd'⟩ := Draft.exists_foldlM_of_apart hapart'
    ((hdistinct.perm hall).perm (hnew.symm.append_left _))
  refine ⟨all', (hall'.trans (hnew.append_left _)).trans hall.symm, ?_⟩
  have hspaces' := Spaces.ofFields_reordered h hspaces
  have htypes' : typesOfFields fields' = .ok types := by
    rw [← htypes, typesOfFields, typesOfFields, h.types]
  exact ofFields_of_passes hspaces' htypes' hd'

/-- The order of types, exports and the start among the fields does not matter. Fields in another
order, and with other spans, make a module if the fields do, and it is the same but for the spans
and the order of the exports. -/
theorem field_order_irrelevant {fields fields' : List Form} (name : Option String)
    (h : Form.Reordered (fields.map Form.unspanned) (fields'.map Form.unspanned)) :
    ((∃ m, ofFields name fields = .ok m) ↔ ∃ m', ofFields name fields' = .ok m') ∧
      ∀ m m', ofFields name fields = .ok m → ofFields name fields' = .ok m' →
        m'.exports.Perm m.exports ∧ m'.unspanned = { m.unspanned with exports := m'.exports } := by
  -- without spans, one list of fields is the other in another order
  have hmake {fields fields' : List Form} {m : Module}
      (h : Form.Reordered (fields.map Form.unspanned) (fields'.map Form.unspanned))
      (hm : ofFields name fields = .ok m) :
      ∃ m', ofFields name fields' = .ok m' ∧ m'.exports.Perm m.exports ∧
        m'.unspanned = { m.unspanned with exports := m'.exports } := by
    have hbare : ofFields name (fields.map Form.unspanned) = .ok m.unspanned := by
      rw [ofFields_unspanned, hm]
      rfl
    obtain ⟨exports, hexports, hbare'⟩ := ofFields_reordered h hbare
    rw [ofFields_unspanned] at hbare'
    obtain ⟨m', hm', hsame⟩ := Failure.of_unspan hbare'
    have hexports' : m'.exports = exports := congrArg Module.exports hsame
    rw [← hexports'] at hexports hsame
    exact ⟨m', hm', hexports, hsame⟩
  refine ⟨⟨fun ⟨m, hm⟩ => ?_, fun ⟨m', hm'⟩ => ?_⟩, fun m m' hm hm' => ?_⟩
  · obtain ⟨m', hm', -⟩ := hmake h hm
    exact ⟨m', hm'⟩
  · obtain ⟨m, hm, -⟩ := hmake h.symm hm'
    exact ⟨m, hm⟩
  · obtain ⟨m₁, hm₁, hsame⟩ := hmake h hm
    rw [hm'] at hm₁
    rwa [Except.ok.inj hm₁]

end Module

namespace Form

/-- A word on the first line, from a byte on. -/
def wordAt (n : Nat) (kind : TokenKind) (text : String) : Form :=
  .atom ⟨kind, ⟨text, n⟩, ⟨n, n + text.length, 1, n + 1⟩⟩

/-- `(func $f)`. -/
def funcAt (n : Nat) : Form :=
  .list ⟨n, n + 9, 1, n + 1⟩
    [wordAt (n + 1) (.keyword .funcKw) "func", wordAt (n + 6) (.id "f") "$f"]

/-- `(start $f)`. -/
def startAt (n : Nat) : Form :=
  .list ⟨n, n + 10, 1, n + 1⟩
    [wordAt (n + 1) (.keyword .startKw) "start", wordAt (n + 7) (.id "f") "$f"]

/-- `(export "…" (func $f))` with a name of one letter. -/
def exportAt (n : Nat) (letter : Char) : Form :=
  .list ⟨n, n + 22, 1, n + 1⟩
    [wordAt (n + 1) (.keyword .exportKw) "export",
      wordAt (n + 8) (.string [letter.toNat.toUInt8]) (String.ofList ['"', letter, '"']),
      funcAt (n + 12)]

end Form

/-- `(func $f) (export "a" (func $f)) (export "b" (func $f)) (start $f)` makes the same module as
`(start $f) (export "b" (func $f)) (func $f) (export "a" (func $f))`, with its exports the other way
round. -/
theorem Module.field_order_irrelevant_exports :
    ∃ m m', ofFields none [funcAt 0, exportAt 10 'a', exportAt 33 'b', startAt 56] = .ok m ∧
      ofFields none [startAt 0, exportAt 11 'b', funcAt 34, exportAt 44 'a'] = .ok m' ∧
      m.exports.map Export.name = ["a", "b"] ∧ m'.exports.map Export.name = ["b", "a"] ∧
      m'.exports.Perm m.exports ∧ m'.unspanned = { m.unspanned with exports := m'.exports } := by
  have hperm (w x y z : Form) : [w, x, y, z].Perm [z, y, w, x] := by
    show ([w, x] ++ [y, z]).Perm _
    exact List.perm_append_comm.trans (.swap z y [w, x])
  have hreordered : Form.Reordered
      ([funcAt 0, exportAt 10 'a', exportAt 33 'b', startAt 56].map Form.unspanned)
      ([startAt 0, exportAt 11 'b', funcAt 34, exportAt 44 'a'].map Form.unspanned) :=
    ⟨hperm _ _ _ _, rfl, rfl⟩
  have hnames : (ofFields none
      [funcAt 0, exportAt 10 'a', exportAt 33 'b', startAt 56]).toOption.map
        (·.exports.map Export.name) = some ["a", "b"] := by
    decide +kernel
  have hnames' : (ofFields none
      [startAt 0, exportAt 11 'b', funcAt 34, exportAt 44 'a']).toOption.map
        (·.exports.map Export.name) = some ["b", "a"] := by
    decide +kernel
  obtain ⟨m, hm, hnames⟩ := Success.of_map_toOption hnames
  obtain ⟨m', hm', hnames'⟩ := Success.of_map_toOption hnames'
  have hsame := (field_order_irrelevant none hreordered).2 m m' hm hm'
  exact ⟨m, m', hm, hm', hnames, hnames', hsame⟩

end WasmText
