import Mathlib.Data.List.Induction
import WasmText.Proofs.Words

/-!
# The entities that fields declare

The names of a module are collected before its fields are read, from what each field looks like. The
names of a space are those of the fields that declare an entity of its kind, in their order, and no
two are the same (`ofFields_ofKind`). So a name refers to the place of the one field that declares
it, wherever the reference stands (`refers_of_resolve`).
-/

namespace WasmText

/-! ## Declarations -/

namespace Field

/-- The form that tells what a field declares: the description in an `(import …)`, or the field. -/
def declaration? (f : Form) : Option Form :=
  if f.isHeadedBy .importKw then f.args[2]? else some f

/-- The kind of the entity that a field declares, if it declares one. -/
def kind? (f : Form) : Option ExternKind :=
  (declaration? f).bind fun g => Spaces.kindOf? g.headKeyword?

/-- The name of the entity that a field declares, if it has one. -/
def declaredName (f : Form) : Option String :=
  (declaration? f).bind fun g => g.args.head?.bind Form.id?

/-- The fields that declare an entity of a kind. -/
def declaring (kind : ExternKind) (fields : List Form) : List Form :=
  fields.filter (kind? · == some kind)

/-- The names of the entities of a kind that fields declare. -/
def declaredNames (kind : ExternKind) (fields : List Form) : Names :=
  (declaring kind fields).map declaredName

section Declaring

variable {kind : ExternKind} {f : Form}

/-- The fields that declare are those among the first ones and then those among the others. -/
theorem declaring_append (kind : ExternKind) (fields fields' : List Form) :
    declaring kind (fields ++ fields') = declaring kind fields ++ declaring kind fields' :=
  List.filter_append ..

theorem declaring_singleton (h : kind? f = some kind) : declaring kind [f] = [f] :=
  List.filter_cons_of_pos (beq_iff_eq.mpr h)

theorem declaring_singleton_of_ne (h : kind? f ≠ some kind) : declaring kind [f] = [] :=
  List.filter_cons_of_neg fun heq => h (beq_iff_eq.mp heq)

/-- An import declares by its description. -/
theorem declaration?_import (h : f.headKeyword? = some .importKw) :
    declaration? f = f.args[2]? := if_pos (Form.isHeadedBy_iff.mpr h)

/-- Other fields declare by themselves. -/
theorem declaration?_of_ne_import (h : f.headKeyword? ≠ some .importKw) :
    declaration? f = some f := if_neg fun heq => h (Form.isHeadedBy_iff.mp heq)

theorem kind?_import (h : f.headKeyword? = some .importKw) :
    kind? f = f.args[2]?.bind fun g => Spaces.kindOf? g.headKeyword? := by
  rw [kind?, declaration?_import h]

theorem kind?_of_ne_import (h : f.headKeyword? ≠ some .importKw) :
    kind? f = Spaces.kindOf? f.headKeyword? := by
  rw [kind?, declaration?_of_ne_import h, Option.bind_some]

end Declaring

end Field

open WasmText.Field

/-! ## Names that differ -/

namespace Names

/-- No two entities have the same name. -/
def Distinct (names : Names) : Prop :=
  ∀ (i j : Nat) (name : String),
    names[i]? = some (some name) → names[j]? = some (some name) → i = j

variable {names names' : Names} {space : Space} {name : Option String} {span : Span} {i j : Nat}

theorem distinct_nil : Distinct [] := by
  intro i j name hi
  cases hi

theorem Distinct.concat (h : names.Distinct) (hnew : ∀ n, name = some n → some n ∉ names) :
    (names ++ [name]).Distinct := by
  intro i j n hi hj
  -- a place of the longer list is one of the shorter, or the last
  have hplace : ∀ {k}, (names ++ [name])[k]? = some (some n) →
      names[k]? = some (some n) ∨ name = some n ∧ k = names.length := by
    intro k hk
    rcases Nat.lt_trichotomy k names.length with hlt | heq | hgt
    · rw [List.getElem?_append_left hlt] at hk
      exact .inl hk
    · rw [heq, List.getElem?_concat_length] at hk
      exact .inr ⟨Option.some.inj hk, heq⟩
    · rw [List.getElem?_eq_none (by simp; omega)] at hk
      cases hk
  rcases hplace hi with hi | ⟨hname, hi⟩
  · rcases hplace hj with hj | ⟨hname, -⟩
    · exact h i j n hi hj
    · exact absurd (List.mem_of_getElem? hi) (hnew n hname)
  · rcases hplace hj with hj | ⟨-, hj⟩
    · exact absurd (List.mem_of_getElem? hj) (hnew n hname)
    · rw [hi, hj]

theorem of_declare (h : names.declare space name span = .ok names') :
    names' = names ++ [name] ∧ ∀ n, name = some n → some n ∉ names := by
  unfold declare at h
  split at h
  · next n =>
    split at h
    · cases h
    · next hnew =>
      refine ⟨(Except.ok.inj h).symm, ?_⟩
      intro n' hn'
      obtain rfl := Option.some.inj hn'
      rwa [List.contains_iff_mem] at hnew
  · exact ⟨(Except.ok.inj h).symm, by simp⟩

/-- A name of an entity is found there and nowhere else. -/
theorem getElem?_iff_of_indexOf? {n : String} (hdistinct : names.Distinct)
    (h : names.indexOf? n = some i) : names[j]? = some (some n) ↔ j = i := by
  obtain ⟨hlt, hname, -⟩ := List.findIdx?_eq_some_iff_getElem.mp h
  have hi : names[i]? = some (some n) := by
    rw [List.getElem?_eq_getElem hlt, beq_iff_eq.mp hname]
  constructor
  · intro hj
    exact hdistinct j i n hj hi
  · rintro rfl
    exact hi

end Names

/-! ## The names of all fields -/

namespace Spaces

variable {s s' : Spaces} {f : Form} {kind : ExternKind} {name : Option String} {span : Span}

theorem declared?_of_kind? (h : kind? f = some kind) :
    ∃ span, declared? f = some (some kind, declaredName f, span) := by
  by_cases himport : f.headKeyword? = some .importKw
  · rw [kind?_import himport] at h
    obtain ⟨g, hg, hkind⟩ := Option.bind_eq_some_iff.mp h
    refine ⟨g.span, ?_⟩
    have hname : declaredName f = g.args.head?.bind Form.id? := by
      rw [declaredName, declaration?_import himport, hg, Option.bind_some]
    rw [declared?, himport, hname, hg]
    simp [hkind]
  · rw [kind?_of_ne_import himport] at h
    refine ⟨f.span, ?_⟩
    have hname : declaredName f = f.args.head?.bind Form.id? := by
      rw [declaredName, declaration?_of_ne_import himport, Option.bind_some]
    rw [declared?, hname]
    split
    · next htype =>
      rw [htype] at h
      cases h
    · next hhead => exact absurd hhead himport
    · simp [h]

/-- A field declares one entity only. -/
theorem declared?_of_kind?_ne {kind' : ExternKind} (h : kind? f ≠ some kind)
    (hdeclared : declared? f = some (some kind', name, span)) : kind' ≠ kind := by
  rintro rfl
  apply h
  unfold declared? at hdeclared
  split at hdeclared
  · cases hdeclared
  · next hhead =>
    obtain ⟨g, hg, hdeclared⟩ := Option.bind_eq_some_iff.mp hdeclared
    obtain ⟨kind, hkind, hdeclared⟩ := Option.bind_eq_some_iff.mp hdeclared
    obtain ⟨hkind', -⟩ := Prod.mk.inj (Option.some.inj hdeclared)
    rw [kind?_import hhead, hg, Option.bind_some, hkind, hkind']
  · next himport =>
    obtain ⟨kind, hkind, hdeclared⟩ := Option.bind_eq_some_iff.mp hdeclared
    obtain ⟨hkind', -⟩ := Prod.mk.inj (Option.some.inj hdeclared)
    rw [kind?_of_ne_import himport, hkind, hkind']

/-- Declaring an entity leaves the other kinds alone. -/
theorem of_declareKind (h : s.declareKind kind name span = .ok s') :
    (s.ofKind kind).declare (.ofExtern kind) name span = .ok (s'.ofKind kind) ∧
      ∀ kind', kind' ≠ kind → s'.ofKind kind' = s.ofKind kind' := by
  obtain ⟨names, hnames, h⟩ := Success.of_bind h
  cases kind
  all_goals
    obtain rfl := Success.of_pure h
    refine ⟨hnames, ?_⟩
    intro kind' hne
    cases kind' <;> first | rfl | exact absurd rfl hne

/-- A field adds the name that it declares to the names of its kind. -/
theorem ofKind_of_declare (h : s.declare f = .ok s') (kind : ExternKind) :
    s'.ofKind kind = s.ofKind kind ++ declaredNames kind [f] ∧
      ((s.ofKind kind).Distinct → (s'.ofKind kind).Distinct) := by
  unfold declare at h
  by_cases hkind : kind? f = some kind
  · obtain ⟨span, hdeclared⟩ := declared?_of_kind? hkind
    rw [hdeclared] at h
    obtain ⟨hnames, hnew⟩ := Names.of_declare (of_declareKind h).1
    rw [declaredNames, declaring_singleton hkind, hnames]
    exact ⟨rfl, fun hdistinct => hdistinct.concat hnew⟩
  · -- a type, an entity of another kind and nothing at all leave the names as they are
    have hsame : s'.ofKind kind = s.ofKind kind := by
      split at h
      · rw [Except.ok.inj h]
      · obtain ⟨names, -, h⟩ := Success.of_bind h
        rw [← Success.of_pure h]
        cases kind <;> rfl
      · next kind' name span hdeclared =>
        exact (of_declareKind h).2 kind (declared?_of_kind?_ne hkind hdeclared).symm
    rw [declaredNames, declaring_singleton_of_ne hkind, hsame]
    exact ⟨(List.append_nil _).symm, id⟩

/-- The names of a space are those that fields of its kind declare, and they differ. -/
theorem ofFields_ofKind {fields : List Form} (h : ofFields fields = .ok s) (kind : ExternKind) :
    s.ofKind kind = declaredNames kind fields ∧ (declaredNames kind fields).Distinct := by
  unfold ofFields at h
  induction fields using List.reverseRecOn generalizing s with
  | nil =>
    obtain rfl := Success.of_pure h
    cases kind <;> exact ⟨rfl, Names.distinct_nil⟩
  | append_singleton fields f ih =>
    rw [List.foldlM_append] at h
    obtain ⟨s₁, hfields, h⟩ := Success.of_bind h
    rw [List.foldlM_cons] at h
    obtain ⟨s₂, hf, h⟩ := Success.of_bind h
    obtain rfl := Success.of_pure h
    obtain ⟨hnames, hdistinct⟩ := ih hfields
    obtain ⟨hnames', hdistinct'⟩ := ofKind_of_declare hf kind
    have hall : s₂.ofKind kind = declaredNames kind (fields ++ [f]) := by
      rw [hnames', hnames, declaredNames, declaredNames, declaredNames, declaring_append,
        List.map_append]
    refine ⟨hall, ?_⟩
    rw [← hall]
    exact hdistinct' (hnames ▸ hdistinct)

/-- A field declares one entity at most, so fields bound the indices of every kind. -/
theorem length_ofKind_le {fields : List Form} (h : ofFields fields = .ok s) (kind : ExternKind) :
    (s.ofKind kind).length ≤ fields.length := by
  rw [(ofFields_ofKind h kind).1, declaredNames, List.length_map]
  exact List.length_filter_le ..

end Spaces

/-! ## The names of types -/

namespace Field

/-- The fields that define a type. -/
def definingTypes (fields : List Form) : List Form := fields.filter (Form.isHeadedBy .typeKw)

/-- The names of the types that fields define. -/
def typeNames (fields : List Form) : Names :=
  (definingTypes fields).map fun f => f.args.head?.bind Form.id?

theorem definingTypes_append (fields fields' : List Form) :
    definingTypes (fields ++ fields') = definingTypes fields ++ definingTypes fields' :=
  List.filter_append ..

end Field

namespace Spaces

variable {s s' : Spaces} {f : Form} {fields : List Form}

/-- Declaring an entity leaves the types alone. -/
theorem types_of_declareKind {kind : ExternKind} {name : Option String} {span : Span}
    (h : s.declareKind kind name span = .ok s') : s'.types = s.types := by
  obtain ⟨names, -, h⟩ := Success.of_bind h
  cases kind
  all_goals
    rw [← Success.of_pure h]

/-- A field adds the name of the type that it defines to those of the types. -/
theorem types_of_declare (h : s.declare f = .ok s') :
    s'.types = s.types ++ typeNames [f] ∧ (s.types.Distinct → s'.types.Distinct) := by
  unfold declare at h
  by_cases htype : f.headKeyword? = some .typeKw
  · have hdeclared : declared? f = some (none, f.args.head?.bind Form.id?, f.span) := by
      rw [declared?, htype]
    rw [hdeclared] at h
    obtain ⟨names, hnames, h⟩ := Success.of_bind h
    obtain ⟨rfl, hnew⟩ := Names.of_declare hnames
    rw [← Success.of_pure h, typeNames, definingTypes,
      List.filter_cons_of_pos (Form.isHeadedBy_iff.mpr htype)]
    exact ⟨rfl, fun hdistinct => hdistinct.concat hnew⟩
  · have hnone : typeNames [f] = [] := by
      rw [typeNames, definingTypes,
        List.filter_cons_of_neg fun heq => htype (Form.isHeadedBy_iff.mp heq)]
      rfl
    -- what declares a type is headed as one, and all else leaves the names as they are
    have hsame : s'.types = s.types := by
      split at h
      · rw [Except.ok.inj h]
      · next name span hdeclared =>
        unfold declared? at hdeclared
        split at hdeclared
        · next hhead => exact absurd hhead htype
        · obtain ⟨_, -, hdeclared⟩ := Option.bind_eq_some_iff.mp hdeclared
          obtain ⟨_, -, hdeclared⟩ := Option.bind_eq_some_iff.mp hdeclared
          cases hdeclared
        · obtain ⟨_, -, hdeclared⟩ := Option.bind_eq_some_iff.mp hdeclared
          cases hdeclared
      · exact types_of_declareKind h
    rw [hnone, hsame]
    exact ⟨(List.append_nil _).symm, id⟩

/-- The names of the types are those that fields define, and they differ. -/
theorem ofFields_types (h : ofFields fields = .ok s) :
    s.types = typeNames fields ∧ (typeNames fields).Distinct := by
  unfold ofFields at h
  induction fields using List.reverseRecOn generalizing s with
  | nil =>
    obtain rfl := Success.of_pure h
    exact ⟨rfl, Names.distinct_nil⟩
  | append_singleton fields f ih =>
    rw [List.foldlM_append] at h
    obtain ⟨s₁, hfields, h⟩ := Success.of_bind h
    rw [List.foldlM_cons] at h
    obtain ⟨s₂, hf, h⟩ := Success.of_bind h
    obtain rfl := Success.of_pure h
    obtain ⟨hnames, hdistinct⟩ := ih hfields
    obtain ⟨hnames', hdistinct'⟩ := types_of_declare hf
    have hall : s₂.types = typeNames (fields ++ [f]) := by
      rw [hnames', hnames, typeNames, typeNames, typeNames, definingTypes_append, List.map_append]
    refine ⟨hall, ?_⟩
    rw [← hall]
    exact hdistinct' (hnames ▸ hdistinct)

end Spaces

/-! ## References -/

namespace Field

/-- A reference that is written as `v` has the index `i` among the entities of a kind: a name that
of the one field that declares it, and a number itself. -/
structure Refers (fields : List Form) (kind : ExternKind) (v : Form) (i : Nat) : Prop where
  lt : i < (declaring kind fields).length
  names : ∀ name, v.id? = some name →
    ∀ n, (declaredNames kind fields)[n]? = some (some name) ↔ n = i
  counts : ∀ t, v.number? = some t → Form.natural t.text t.span = .ok i

/-- What resolves refers to the field that declares the entity. -/
theorem refers_of_resolve {fields : List Form} {spaces : Spaces} (kind : ExternKind)
    {space : Space} {span : Span} {v : Form} {i : Nat}
    (hspaces : Spaces.ofFields fields = .ok spaces)
    (h : (spaces.ofKind kind).resolve space span (some v) = .ok i) : Refers fields kind v i := by
  obtain ⟨hnames, hdistinct⟩ := Spaces.ofFields_ofKind hspaces kind
  rw [hnames] at h
  have hlength : (declaredNames kind fields).length = (declaring kind fields).length := by
    rw [declaredNames, List.length_map]
  obtain ⟨v, ⟨⟩, hresolved⟩ := Names.resolvedAs_of_resolve h
  have hlt := Names.lt_of_resolve h
  rw [hlength] at hlt
  cases hresolved with
  | @name name hid hindex =>
    refine ⟨hlt, ?_, by simp [Form.number?_of_id? hid]⟩
    intro name' hid' n
    obtain rfl : name = name' := Option.some.inj (hid.symm.trans hid')
    exact Names.getElem?_iff_of_indexOf? hdistinct hindex
  | @number t hid hnumber hindex =>
    refine ⟨hlt, by simp [hid], ?_⟩
    intro t' ht'
    obtain rfl : t = t' := Option.some.inj (hnumber.symm.trans ht')
    exact hindex

end Field

end WasmText
