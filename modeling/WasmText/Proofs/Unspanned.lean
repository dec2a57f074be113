import WasmText.Module.TypeUse

/-!
# Readers and spans

A reader copies the spans of what it reads into what it makes, and never looks at one. With no span
told from another (`Form.unspanned`) it reads the same, and what it makes, or the problem it meets,
is the same but for the spans (`Except.unspan`). There is one equation for each reader; this module
has those of forms, names and type uses.
-/

namespace WasmText

/-! ## Forms without spans -/

/-- The token with its place not told from another. -/
def Token.unspanned (t : Token) : Token := ⟨t.kind, ⟨t.text, 0⟩, .origin⟩

/-- The problem with no span told from another. -/
def Problem.unspanned (p : Problem) : Problem := ⟨p.cause, .origin⟩

/-- The parameter with no span told from another. -/
def Param.unspanned (p : Param) : Param := ⟨p.type, p.name, .origin⟩

/-- The types of parameters do not depend on where they stand. -/
theorem Param.map_type_unspanned (params : List Param) :
    (params.map unspanned).map Param.type = params.map Param.type := by
  rw [List.map_map]
  rfl

/-- The type use with no span told from another. -/
def TypeUse.unspanned (use : TypeUse) : TypeUse :=
  ⟨use.index, use.sig, use.params.map Param.unspanned⟩

namespace Form

mutual

/-- The form with no span told from another. -/
def unspanned : Form → Form
  | atom t => atom t.unspanned
  | list _ items => list .origin (unspannedAll items)

def unspannedAll : List Form → List Form
  | [] => []
  | f :: fs => unspanned f :: unspannedAll fs

end

/-- The items of a list without spans are those of the list, each without spans. -/
theorem unspannedAll_eq_map (items : List Form) : unspannedAll items = items.map unspanned := by
  induction items with
  | nil => rfl
  | cons f fs ih => rw [unspannedAll, ih, List.map_cons]

@[simp] theorem unspanned_atom (t : Token) : (atom t).unspanned = atom t.unspanned := by
  rw [unspanned]

@[simp] theorem unspanned_list (span : Span) (items : List Form) :
    (list span items).unspanned = list .origin (items.map unspanned) := by
  rw [unspanned, unspannedAll_eq_map]

variable (f : Form)

@[simp] theorem span_unspanned : f.unspanned.span = .origin := by
  cases f <;> rfl

/-- Where an item is missing the span is that of the list, and both are the origin. -/
theorem getD_span_unspanned (f? : Option Form) :
    ((f?.map unspanned).map span).getD .origin = .origin := by
  cases f? with
  | none => rfl
  | some f => exact span_unspanned f

@[simp] theorem items?_unspanned : f.unspanned.items? = f.items?.map (List.map unspanned) := by
  cases f with
  | atom t => rfl
  | list span items => rw [unspanned_list]; rfl

@[simp] theorem keyword?_unspanned : f.unspanned.keyword? = f.keyword? := by
  obtain ⟨kind, _, _⟩ | _ := f
  · cases kind <;> rfl
  · rfl

@[simp] theorem opcode?_unspanned : f.unspanned.opcode? = f.opcode? := by
  obtain ⟨kind, _, _⟩ | _ := f
  · cases kind <;> rfl
  · rfl

@[simp] theorem valType?_unspanned : f.unspanned.valType? = f.valType? := by
  obtain ⟨kind, _, _⟩ | _ := f
  · cases kind <;> rfl
  · rfl

@[simp] theorem id?_unspanned : f.unspanned.id? = f.id? := by
  obtain ⟨kind, _, _⟩ | _ := f
  · cases kind <;> rfl
  · rfl

theorem bind_id?_unspanned (items : List Form) :
    (items.map unspanned).head?.bind id? = items.head?.bind id? := by
  cases items with
  | nil => rfl
  | cons f items => exact id?_unspanned f

@[simp] theorem bytes?_unspanned : f.unspanned.bytes? = f.bytes? := by
  obtain ⟨kind, _, _⟩ | _ := f
  · cases kind <;> rfl
  · rfl

/-- A number keeps its text. -/
@[simp] theorem number?_unspanned : f.unspanned.number? = f.number?.map Token.unspanned := by
  obtain ⟨kind, _, _⟩ | _ := f
  · cases kind <;> rfl
  · rfl

@[simp] theorem isReference_unspanned : f.unspanned.isReference = f.isReference := by
  obtain ⟨kind, _, _⟩ | _ := f
  · cases kind with
    | number kind => cases kind <;> rfl
    | _ => rfl
  · rfl

@[simp] theorem headKeyword?_unspanned : f.unspanned.headKeyword? = f.headKeyword? := by
  obtain _ | ⟨_, _ | ⟨head, items⟩⟩ := f
  · rfl
  · rfl
  · rw [unspanned_list]
    exact keyword?_unspanned head

@[simp] theorem headOpcode?_unspanned : f.unspanned.headOpcode? = f.headOpcode? := by
  obtain _ | ⟨_, _ | ⟨head, items⟩⟩ := f
  · rfl
  · rfl
  · rw [unspanned_list]
    exact opcode?_unspanned head

@[simp] theorem isHeadedBy_unspanned (word : Keyword) :
    f.unspanned.isHeadedBy word = f.isHeadedBy word := by
  rw [isHeadedBy, headKeyword?_unspanned, isHeadedBy]

@[simp] theorem args_unspanned : f.unspanned.args = f.args.map unspanned := by
  cases f with
  | atom t => rfl
  | list span items =>
    rw [unspanned_list]
    exact List.map_tail.symm

/-- What a form is called in a message does not depend on where it stands. -/
@[simp] theorem describe_unspanned : f.unspanned.describe = f.describe := by
  obtain ⟨kind, _, _⟩ | ⟨_, _ | ⟨⟨⟨kind, _, _⟩⟩ | _, items⟩⟩ := f
  · cases kind <;> rfl
  · rfl
  · rw [unspanned_list]
    rfl
  · rw [unspanned_list, List.map_cons, unspanned_list]
    rfl

/-- A form that is not as expected is so wherever it stands. -/
@[simp] theorem unexpected_unspanned (what : Expectation) :
    f.unspanned.unexpected what = (f.unexpected what).unspanned := by
  rw [unexpected, describe_unspanned, span_unspanned]
  rfl

end Form

/-! ## Results without spans -/

section

variable {α β γ : Type} {u : α → α} {v : β → β}

/-- A result with no span told from another, neither that of a problem nor, by `u`, those in the
value. -/
def unspan (u : α → α) : Except Problem α → Except Problem α
  | .ok a => .ok (u a)
  | .error p => .error p.unspanned

/-- Two readers one after the other agree without spans when the first ones do, and the second ones
do on equal values without spans. -/
theorem unspan_bind {x x' : Except Problem α} {g g' : α → Except Problem β} (hx : x' = unspan u x)
    (hg : ∀ a, g' (u a) = unspan v (g a)) : x' >>= g' = unspan v (x >>= g) := by
  rw [hx]
  cases x with
  | error p => rfl
  | ok a => exact hg a

theorem unspan_map {x x' : Except Problem α} {g g' : α → β} (hx : x' = unspan u x)
    (hg : ∀ a, g' (u a) = v (g a)) : g' <$> x' = unspan v (g <$> x) := by
  rw [hx]
  cases x with
  | error p => rfl
  | ok a => exact congrArg Except.ok (hg a)

theorem unspan_discard {x x' : Except Problem α} (hx : x' = unspan u x) :
    Functor.discard x' = unspan id (Functor.discard x) :=
  unspan_map hx fun _ => rfl

/-- A reader run over a list agrees without spans when it does on each item. -/
theorem unspan_mapM {w : γ → γ} {g g' : γ → Except Problem α}
    (hg : ∀ c, g' (w c) = unspan u (g c)) (cs : List γ) :
    (cs.map w).mapM g' = unspan (List.map u) (cs.mapM g) := by
  induction cs with
  | nil => rfl
  | cons c cs ih =>
    rw [List.map_cons, List.mapM_cons, List.mapM_cons]
    exact unspan_bind (hg c) fun a => unspan_bind ih fun as => rfl

/-- A reader that carries a state through a list agrees without spans when each step does. -/
theorem unspan_foldlM {w : γ → γ} {g g' : α → γ → Except Problem α}
    (hg : ∀ a c, g' (u a) (w c) = unspan u (g a c)) (cs : List γ) (a : α) :
    (cs.map w).foldlM g' (u a) = unspan u (cs.foldlM g a) := by
  induction cs generalizing a with
  | nil => rfl
  | cons c cs ih =>
    rw [List.map_cons, List.foldlM_cons, List.foldlM_cons]
    exact unspan_bind (hg a c) ih

theorem unspan_forM {w : γ → γ} {g g' : γ → Except Problem Unit}
    (hg : ∀ c, g' (w c) = unspan id (g c)) (cs : List γ) :
    (cs.map w).forM g' = unspan id (cs.forM g) := by
  induction cs with
  | nil => rfl
  | cons c cs ih => exact unspan_bind (hg c) fun _ => ih

end

/-! ## Forms that have to be something -/

namespace Form

variable (f : Form)

theorem takeWhile_isHeadedBy_unspanned (word : Keyword) (items : List Form) :
    (items.map unspanned).takeWhile (isHeadedBy word) =
      (items.takeWhile (isHeadedBy word)).map unspanned := by
  rw [List.takeWhile_map]
  congr 2
  exact funext fun f => isHeadedBy_unspanned f word

theorem filter_isHeadedBy_unspanned (word : Keyword) (items : List Form) :
    (items.map unspanned).filter (isHeadedBy word) =
      (items.filter (isHeadedBy word)).map unspanned := by
  rw [List.filter_map]
  congr 2
  exact funext fun f => isHeadedBy_unspanned f word

theorem head?_filter_isHeadedBy_unspanned (word : Keyword) (items : List Form) :
    (items.map unspanned).head?.filter (isHeadedBy word) =
      (items.head?.filter (isHeadedBy word)).map unspanned := by
  rw [List.head?_map, Option.filter_map]
  congr 2
  exact funext fun f => isHeadedBy_unspanned f word

/-- A form that is missing is missed at the origin. -/
theorem need_unspanned (what : Expectation) (span : Span) (f? : Option Form) :
    need what .origin (f?.map unspanned) = unspan unspanned (need what span f?) := by
  cases f? <;> rfl

theorem expectList_unspanned (what : Expectation) :
    f.unspanned.expectList what = unspan (List.map unspanned) (f.expectList what) := by
  unfold expectList
  rw [items?_unspanned, unexpected_unspanned]
  cases f.items? <;> rfl

theorem noMore_unspanned (items : List Form) :
    noMore (items.map unspanned) = unspan id (noMore items) := by
  cases items with
  | nil => rfl
  | cons f items => exact congrArg Except.error (unexpected_unspanned f .closing)

theorem valueType_unspanned : f.unspanned.valueType = unspan id f.valueType := by
  unfold valueType
  rw [valType?_unspanned, unexpected_unspanned, span_unspanned]
  cases f.valType? with
  | none => rfl
  | some type =>
    dsimp only
    split <;> rfl

theorem expectBytes_unspanned : f.unspanned.expectBytes = unspan id f.expectBytes := by
  unfold expectBytes
  rw [bytes?_unspanned, unexpected_unspanned]
  cases f.bytes? <;> rfl

theorem expectAllBytes_unspanned (items : List Form) :
    expectAllBytes (items.map unspanned) = unspan id (expectAllBytes items) := by
  unfold expectAllBytes
  refine unspan_map (unspan_mapM expectBytes_unspanned items) fun bytes => ?_
  rw [List.map_id]
  rfl

theorem expectName_unspanned : f.unspanned.expectName = unspan id f.expectName := by
  unfold expectName
  refine unspan_bind (expectBytes_unspanned f) fun bytes => ?_
  rw [span_unspanned, id]
  cases Utf8.decode? bytes <;> rfl

theorem natural_unspanned (text : String) (span : Span) :
    natural text .origin = unspan id (natural text span) := by
  unfold natural
  cases naturalOfText? text <;> rfl

end Form

open Form

/-! ## Names -/

namespace Names

variable (space : Space) (names : Names) (span : Span)

theorem declare_unspanned (name : Option String) :
    names.declare space name .origin = unspan id (names.declare space name span) := by
  unfold declare
  cases name with
  | none => rfl
  | some n =>
    dsimp only
    split <;> rfl

/-- What a reference resolves to does not depend on where it stands. -/
theorem resolve_unspanned (f? : Option Form) :
    resolve space names .origin (f?.map unspanned) = unspan id (resolve space names span f?) := by
  cases f? with
  | none => rfl
  | some f =>
    unfold resolve
    simp only [Option.map_some, id?_unspanned, number?_unspanned, span_unspanned,
      unexpected_unspanned]
    cases f.id? with
    | some name =>
      dsimp only
      cases names.indexOf? name <;> rfl
    | none =>
      cases f.number? with
      | none => rfl
      | some t =>
        refine unspan_bind (natural_unspanned t.text t.span) fun index => ?_
        show (if index < names.length then _ else _) =
          unspan id (if index < names.length then _ else _)
        split <;> rfl

end Names

namespace Spaces

theorem declareKind_unspanned (s : Spaces) (kind : ExternKind) (name : Option String)
    (span : Span) : s.declareKind kind name .origin = unspan id (s.declareKind kind name span) := by
  unfold declareKind
  refine unspan_bind (Names.declare_unspanned _ _ span name) fun names => ?_
  cases kind <;> rfl

theorem declared?_unspanned (f : Form) :
    declared? f.unspanned = (declared? f).map fun (kind, name, _) => (kind, name, .origin) := by
  unfold declared?
  rw [headKeyword?_unspanned, args_unspanned, span_unspanned, bind_id?_unspanned,
    List.getElem?_map]
  split
  · rfl
  · cases f.args[2]? with
    | none => rfl
    | some desc =>
      simp only [Option.map_some, Option.bind_eq_bind, Option.bind_some, headKeyword?_unspanned,
        args_unspanned, span_unspanned, bind_id?_unspanned]
      cases kindOf? desc.headKeyword? <;> rfl
  · cases kindOf? f.headKeyword? <;> rfl

theorem declare_unspanned (s : Spaces) (f : Form) :
    s.declare f.unspanned = unspan id (s.declare f) := by
  unfold declare
  rw [declared?_unspanned]
  match declared? f with
  | none => rfl
  | some (none, name, span) =>
    exact unspan_bind (Names.declare_unspanned _ _ span name) fun names => rfl
  | some (some kind, name, span) => exact declareKind_unspanned s kind name span

/-- The names of all fields are declared in the same way. -/
theorem ofFields_unspanned (fields : List Form) :
    ofFields (fields.map unspanned) = unspan id (ofFields fields) :=
  unspan_foldlM declare_unspanned fields empty

end Spaces

/-! ## Type uses -/

namespace Signature

/-- Parameters have the same types and names, at the origin. -/
theorem params_unspanned (namesAllowed : Bool) (f : Form) :
    params namesAllowed f.unspanned =
      unspan (List.map Param.unspanned) (params namesAllowed f) := by
  unfold params
  rw [args_unspanned]
  cases f.args with
  | nil => rfl
  | cons first rest =>
    simp only [List.map_cons, id?_unspanned, span_unspanned]
    cases first.id? with
    | none =>
      -- each type becomes a parameter without a name
      rw [← List.map_cons]
      refine unspan_mapM (w := unspanned) (fun g => ?_) _
      rw [span_unspanned]
      exact unspan_bind (valueType_unspanned g) fun type => rfl
    | some name =>
      dsimp only
      split
      · rfl
      · rw [List.head?_map, ← List.map_tail]
        refine unspan_bind (need_unspanned _ f.span _) fun g => ?_
        refine unspan_bind (valueType_unspanned g) fun type => ?_
        exact unspan_bind (noMore_unspanned _) fun _ => rfl

theorem results_unspanned (f : Form) : results f.unspanned = unspan id (results f) := by
  unfold results
  rw [args_unspanned]
  have h := unspan_mapM valueType_unspanned f.args
  rwa [List.map_id_fun] at h

theorem read_unspanned (namesAllowed : Bool) (items : List Form) :
    read namesAllowed (items.map unspanned) =
      unspan (Prod.map (List.map Param.unspanned) id) (read namesAllowed items) := by
  unfold read
  simp only [takeWhile_isHeadedBy_unspanned, List.length_map, ← List.map_drop]
  generalize items.takeWhile (isHeadedBy .paramKw) = ps
  generalize (items.drop ps.length).takeWhile (isHeadedBy .resultKw) = rs
  refine unspan_bind (unspan_map (unspan_mapM (params_unspanned namesAllowed) ps)
    fun params => List.map_flatten.symm) fun params => ?_
  have hresults := unspan_mapM results_unspanned rs
  rw [List.map_id_fun] at hresults
  refine unspan_bind (u := id) (unspan_map hresults fun types => rfl) fun types => ?_
  -- the span of the last result may be blamed
  show (if 1 < types.length then _ else _) = unspan _ (if 1 < types.length then _ else _)
  split
  · rw [List.getLast?_map, getD_span_unspanned]
    rfl
  · rfl

end Signature

/-- A type definition defines the same type. -/
theorem FuncType.ofDefinition?_unspanned (f : Form) :
    ofDefinition? f.unspanned = (ofDefinition? f).map (unspan id) := by
  unfold ofDefinition?
  simp only [args_unspanned, bind_id?_unspanned, ← List.map_drop, span_unspanned]
  generalize f.args.drop _ = items
  match items with
  | [] => rfl
  | .atom t :: items =>
    show some (Except.error (((Form.atom t).unspanned).unexpected .funcForm)) = _
    rw [unexpected_unspanned]
    rfl
  | .list span [] :: items =>
    simp only [List.map_cons, unspanned_list]
    rfl
  | .list span (head :: parts) :: items =>
    show some _ = some _
    rw [unspannedAll_eq_map, keyword?_unspanned, describe_unspanned]
    refine congrArg some ?_
    split
    · rfl
    · refine unspan_bind (noMore_unspanned items) fun _ => ?_
      refine unspan_bind (Signature.read_unspanned true parts) fun (params, results, n) => ?_
      show noMore ((parts.map unspanned).drop n) >>= _ = _
      rw [← List.map_drop]
      refine unspan_bind (noMore_unspanned (parts.drop n)) fun _ => ?_
      show Except.ok (⟨(params.map Param.unspanned).map Param.type, results⟩ : FuncType) = _
      rw [Param.map_type_unspanned]
      rfl

/-! ## Readers with a type table -/

section

variable {α β : Type} {u : α → α} {v : β → β}

/-- What a reader makes of any type table, with no span told from another. -/
def Elab.unspan (u : α → α) (x : Elab α) : Elab α := fun t => WasmText.unspan (Prod.map u id) (x t)

/-- Readers with a type table agree without spans when both steps do, on whatever table. -/
theorem Elab.unspan_bind {x x' : Elab α} {g g' : α → Elab β} (hx : x' = Elab.unspan u x)
    (hg : ∀ a, g' (u a) = Elab.unspan v (g a)) : x' >>= g' = Elab.unspan v (x >>= g) := by
  funext t
  rw [hx]
  exact WasmText.unspan_bind (x := x t) rfl fun (a, t) => congrFun (hg a) t

/-- A reader that leaves the table alone agrees when it does by itself. -/
theorem Elab.unspan_lift {x x' : Except Problem α} (hx : x' = WasmText.unspan u x) :
    (liftM x' : Elab α) = Elab.unspan u (liftM x) := by
  rw [hx]
  cases x <;> rfl

theorem Elab.unspan_lift_bind {x x' : Except Problem α} {g g' : α → Elab β}
    (hx : x' = WasmText.unspan u x) (hg : ∀ a, g' (u a) = Elab.unspan v (g a)) :
    (liftM x' : Elab α) >>= g' = Elab.unspan v ((liftM x : Elab α) >>= g) :=
  unspan_bind (unspan_lift hx) hg

end

namespace TypeUse

/-- A type use names the same type. -/
theorem explicit?_unspanned (table : TypeTable) (items : List Form) :
    explicit? table (items.map Form.unspanned) =
      WasmText.unspan (Option.map (Prod.map id fun _ => .origin)) (explicit? table items) := by
  unfold explicit?
  rw [List.head?_map]
  cases items.head? with
  | none => rfl
  | some f =>
    simp only [Option.map_some, isHeadedBy_unspanned, args_unspanned, span_unspanned,
      List.head?_map, ← List.map_tail]
    split
    · refine unspan_bind (Names.resolve_unspanned _ _ f.span _) fun index => ?_
      exact unspan_bind (noMore_unspanned _) fun _ => rfl
    · rfl

/-- A type use has the same index and the same signature, at the origin. -/
theorem read_unspanned (namesAllowed : Bool) (items : List Form) :
    read namesAllowed (items.map Form.unspanned) =
      Elab.unspan (Prod.map unspanned id) (read namesAllowed items) := by
  unfold read
  refine Elab.unspan_bind (u := id) rfl fun table => ?_
  refine Elab.unspan_lift_bind (explicit?_unspanned table items) fun named => ?_
  cases named with
  | none =>
    -- the types of the parameters are looked up and perhaps added, their spans are not
    refine Elab.unspan_lift_bind (Signature.read_unspanned namesAllowed items)
      fun (params, results, n) => ?_
    dsimp only [Prod.map, id]
    rw [Param.map_type_unspanned]
    exact Elab.unspan_bind (u := id) rfl fun _ => rfl
  | some named =>
    obtain ⟨index, span⟩ := named
    have hwritten := Signature.read_unspanned namesAllowed items.tail
    rw [List.map_tail] at hwritten
    refine Elab.unspan_lift_bind hwritten fun (params, results, n) => ?_
    dsimp only [Prod.map, id]
    rw [Param.map_type_unspanned]
    cases table.types[index]? with
    | none => rfl
    | some declared =>
      dsimp only
      split
      · show _ = (pure (unspanned ⟨index, declared, _⟩, 1) : Elab (TypeUse × Nat))
        rw [unspanned, List.map_map]
        rfl
      · split
        · rw [← List.map_tail, List.head?_map, getD_span_unspanned]
          rfl
        · rfl

end TypeUse

end WasmText
