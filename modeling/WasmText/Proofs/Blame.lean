import WasmText.Module.TypeUse
import WasmText.Proofs.TypeUses

/-!
# Where problems are placed

A reader blames nothing but the forms it is given: the span of each problem is the span of one of
them, or of a form inside one. What is known of those spans, such as how they stand to what was read
before, is kept open as `P`, and each reader has one lemma: if the spans of its forms have `P`, so
has the span of its problem.
-/

namespace WasmText

namespace Form

mutual

/-- The span of a form and the spans of all forms inside it have `P`. -/
def Placed (P : Span → Prop) : Form → Prop
  | .atom t => P t.span
  | .list span items => P span ∧ PlacedAll P items

def PlacedAll (P : Span → Prop) : List Form → Prop
  | [] => True
  | f :: fs => Placed P f ∧ PlacedAll P fs

end

variable {P : Span → Prop} {f : Form} {items : List Form}

/-- All items are placed when each of them is. -/
theorem placedAll_iff : PlacedAll P items ↔ ∀ f ∈ items, f.Placed P := by
  induction items with
  | nil => simp [PlacedAll]
  | cons f items ih => rw [PlacedAll, ih, List.forall_mem_cons]

/-- A list is placed when its own span and its items are. -/
theorem placed_list {span : Span} :
    (list span items).Placed P ↔ P span ∧ ∀ f ∈ items, f.Placed P := by
  rw [Placed, placedAll_iff]

/-- A form stays placed where more places are allowed. -/
theorem Placed.imp {P Q : Span → Prop} (hPQ : ∀ s, P s → Q s) :
    ∀ {f : Form}, f.Placed P → f.Placed Q
  | .atom t, h => hPQ t.span h
  | .list span items, h =>
    have ⟨hspan, hitems⟩ := placed_list.mp h
    placed_list.mpr ⟨hPQ span hspan, fun g hg => (hitems g hg).imp hPQ⟩

/-- A placed form has a placed span. -/
theorem Placed.span (h : f.Placed P) : P f.span := by
  cases f with
  | atom t => exact h
  | list span items => exact (placed_list.mp h).1

theorem Placed.args (h : f.Placed P) : ∀ g ∈ f.args, g.Placed P := by
  cases f with
  | atom t => simp [Form.args]
  | list span items => exact fun g hg => (placed_list.mp h).2 g (List.mem_of_mem_tail hg)

theorem placed_of_head? (h : ∀ g ∈ items, g.Placed P) (hf : items.head? = some f) :
    f.Placed P :=
  h f (List.mem_of_mem_head? hf)

/-- Items of a placed list are placed. -/
theorem placed_of_getElem? {n : Nat} (h : ∀ g ∈ items, g.Placed P) (hf : items[n]? = some f) :
    f.Placed P :=
  h f (List.mem_of_getElem? hf)

theorem placed_some (hf : f.Placed P) : ∀ g, some f = some g → g.Placed P := by
  rintro g ⟨⟩
  exact hf

theorem placed_drop (h : ∀ g ∈ items, g.Placed P) (n : Nat) :
    ∀ g ∈ items.drop n, g.Placed P :=
  fun g hg => h g (List.mem_of_mem_drop hg)

theorem placed_tail (h : ∀ g ∈ items, g.Placed P) : ∀ g ∈ items.tail, g.Placed P :=
  fun g hg => h g (List.mem_of_mem_tail hg)

theorem placed_takeWhile (h : ∀ g ∈ items, g.Placed P) (p : Form → Bool) :
    ∀ g ∈ items.takeWhile p, g.Placed P :=
  fun g hg => h g ((List.takeWhile_prefix p).subset hg)

end Form

/-! ## Readers that blame what they are given -/

variable {P : Span → Prop} {α β γ : Type}

/-- A refusal is placed at a span with `P`. -/
def Blames (P : Span → Prop) (x : Except Problem α) : Prop := ∀ p, x = .error p → P p.span

namespace Blames

theorem ok (a : α) : Blames P (.ok a : Except Problem α) := by
  intro p h
  cases h

theorem pure (a : α) : Blames P (Pure.pure a : Except Problem α) := ok a

theorem error {p : Problem} (h : P p.span) : Blames P (.error p : Except Problem α) := by
  intro q hq
  cases hq
  exact h

/-- Readers one after the other blame the same when each does, the second on what the first has
read. -/
theorem bind {x : Except Problem α} {f : α → Except Problem β} (hx : Blames P x)
    (hf : ∀ a, x = .ok a → Blames P (f a)) : Blames P (x >>= f) := by
  cases x with
  | error p => exact error (hx p rfl)
  | ok a => exact hf a rfl

theorem map {x : Except Problem α} {f : α → β} (hx : Blames P x) : Blames P (f <$> x) := by
  cases x with
  | error p => exact error (hx p rfl)
  | ok a => exact ok (f a)

/-- A reader run over a list blames the same when it does on each item. -/
theorem mapM {f : γ → Except Problem α} {xs : List γ} (h : ∀ x ∈ xs, Blames P (f x)) :
    Blames P (xs.mapM f) := by
  induction xs with
  | nil => exact pure []
  | cons x xs ih =>
    rw [List.forall_mem_cons] at h
    rw [List.mapM_cons]
    exact h.1.bind fun y _ => (ih h.2).bind fun ys _ => pure (y :: ys)

theorem forM {f : γ → Except Problem Unit} {xs : List γ} (h : ∀ x ∈ xs, Blames P (f x)) :
    Blames P (xs.forM f) := by
  induction xs with
  | nil => exact pure _
  | cons x xs ih =>
    rw [List.forall_mem_cons] at h
    exact h.1.bind fun _ _ => ih h.2

/-- A reader that carries a state through a list blames the same when it does on each item. -/
theorem foldlM {f : α → γ → Except Problem α} {xs : List γ} (h : ∀ a, ∀ x ∈ xs, Blames P (f a x))
    (a : α) : Blames P (xs.foldlM f a) := by
  induction xs generalizing a with
  | nil => exact pure a
  | cons x xs ih =>
    rw [List.foldlM_cons]
    refine (h a x List.mem_cons_self).bind fun a' _ => ih (fun a y hy => ?_) a'
    exact h a y (List.mem_cons_of_mem _ hy)

end Blames

open Form

/-! ## Forms that have to be something -/

namespace Form

variable {f : Form} {items : List Form}

theorem blames_unexpected (what : Expectation) (hf : f.Placed P) :
    Blames P (.error (f.unexpected what) : Except Problem α) :=
  .error hf.span

theorem blames_expectList (what : Expectation) (hf : f.Placed P) :
    Blames P (f.expectList what) := by
  unfold expectList
  split
  · exact .ok _
  · exact blames_unexpected what hf

theorem blames_need (what : Expectation) {span : Span} (hspan : P span) (f? : Option Form) :
    Blames P (need what span f?) := by
  cases f? with
  | none => exact .error hspan
  | some f => exact .ok f

/-- Items that are left over are blamed on the first of them. -/
theorem blames_noMore (hitems : ∀ f ∈ items, f.Placed P) : Blames P (noMore items) := by
  cases items with
  | nil => exact .ok _
  | cons f items => exact blames_unexpected _ (hitems f List.mem_cons_self)

theorem blames_valueType (hf : f.Placed P) : Blames P f.valueType := by
  unfold valueType
  split
  · split
    · exact .ok _
    · exact .error hf.span
  · exact blames_unexpected _ hf

theorem blames_expectBytes (hf : f.Placed P) : Blames P f.expectBytes := by
  unfold expectBytes
  split
  · exact .ok _
  · exact blames_unexpected _ hf

theorem blames_expectAllBytes (hitems : ∀ f ∈ items, f.Placed P) :
    Blames P (expectAllBytes items) :=
  .map (.mapM fun f hf => blames_expectBytes (hitems f hf))

theorem blames_expectName (hf : f.Placed P) : Blames P f.expectName := by
  refine (blames_expectBytes hf).bind fun bytes _ => ?_
  split
  · exact .pure _
  · exact .error hf.span

/-- A number that is no index is blamed where it is written. -/
theorem blames_natural (text : String) {span : Span} (hspan : P span) :
    Blames P (natural text span) := by
  unfold natural
  split
  · exact .ok _
  · exact .error hspan

/-- A number is placed where its form is. -/
theorem placed_of_number? {t : Token} (hf : f.Placed P) (h : f.number? = some t) : P t.span := by
  obtain ⟨⟨kind, text, span⟩⟩ | ⟨span, items⟩ := f
  · cases kind with
    | number _ =>
      obtain rfl := Option.some.inj h
      exact hf
    | _ => cases h
  · cases h

/-- What is needed is the form that is there. -/
theorem placed_of_need {what : Expectation} {span : Span} {f? : Option Form}
    (h : need what span f? = .ok f) (hplaced : ∀ g, f? = some g → g.Placed P) : f.Placed P :=
  hplaced f (eq_some_of_need h)

theorem blames_expectList_bind {what : Expectation} {k : Except Problem α} (hf : f.Placed P)
    (hk : Blames P k) : Blames P (do discard <| f.expectList what; k) :=
  (blames_expectList what hf).map.bind fun _ _ => hk

/-- A form that is needed and then read blames where it is missing or what it is read as. -/
theorem blames_need_bind {what : Expectation} {span : Span} {f? : Option Form}
    {k : Form → Except Problem α} (hspan : P span) (hf : ∀ f, f? = some f → f.Placed P)
    (hk : ∀ f, f.Placed P → Blames P (k f)) : Blames P (need what span f? >>= k) :=
  (blames_need what hspan f?).bind fun f h => hk f (placed_of_need h hf)

end Form

/-! ## Names -/

namespace Names

theorem blames_declare (space : Space) (names : Names) (name : Option String) {span : Span}
    (hspan : P span) : Blames P (declare space names name span) := by
  unfold declare
  split
  · split
    · exact .error hspan
    · exact .ok _
  · exact .ok _

/-- A reference is blamed where it is written, and where it is missing on what it is missing
from. -/
theorem blames_resolve (space : Space) (names : Names) {span : Span} {f? : Option Form}
    (hspan : P span) (hf : ∀ f, f? = some f → f.Placed P) :
    Blames P (names.resolve space span f?) := by
  cases f? with
  | none => exact .error hspan
  | some f =>
    have hf := hf f rfl
    unfold resolve
    dsimp only
    split
    · split
      · exact .ok _
      · exact .error hf.span
    · split
      · next t ht =>
        have ht := placed_of_number? hf ht
        refine (blames_natural _ ht).bind fun index _ => ?_
        split
        · exact .ok _
        · exact .error ht
      · exact blames_unexpected _ hf

end Names

namespace Spaces

theorem blames_declareKind (s : Spaces) (kind : ExternKind) (name : Option String) {span : Span}
    (hspan : P span) : Blames P (s.declareKind kind name span) := by
  refine (Names.blames_declare _ _ _ hspan).bind fun names _ => ?_
  split <;> exact .pure _

/-- A declaration is blamed on its field, or on the descriptor in it. -/
theorem placed_of_declared? {f : Form} {kind : Option ExternKind} {name : Option String}
    {span : Span} (hf : f.Placed P) (h : declared? f = some (kind, name, span)) : P span := by
  unfold declared? at h
  split at h
  · obtain rfl := (Prod.mk.inj (Prod.mk.inj (Option.some.inj h)).2).2
    exact hf.span
  · obtain ⟨desc, hdesc, h⟩ := Option.bind_eq_some_iff.mp h
    obtain ⟨_, -, h⟩ := Option.bind_eq_some_iff.mp h
    obtain rfl := (Prod.mk.inj (Prod.mk.inj (Option.some.inj h)).2).2
    exact (placed_of_getElem? hf.args hdesc).span
  · obtain ⟨_, -, h⟩ := Option.bind_eq_some_iff.mp h
    obtain rfl := (Prod.mk.inj (Prod.mk.inj (Option.some.inj h)).2).2
    exact hf.span

theorem blames_declare (s : Spaces) {f : Form} (hf : f.Placed P) : Blames P (s.declare f) := by
  unfold declare
  split
  · exact .ok _
  · next name span hdeclared =>
    exact (Names.blames_declare _ _ _ (placed_of_declared? hf hdeclared)).bind fun _ _ => .pure _
  · next kind name span hdeclared =>
    exact blames_declareKind s kind name (placed_of_declared? hf hdeclared)

/-- Declaring the names of all fields blames one of them. -/
theorem blames_ofFields {fields : List Form} (h : ∀ f ∈ fields, f.Placed P) :
    Blames P (ofFields fields) :=
  .foldlM (fun s f hf => blames_declare s (h f hf)) _

end Spaces

/-! ## Signatures and type uses -/

/-- What is made of each of several forms is made of one of them. -/
theorem exists_of_mem_mapM {f : γ → Except Problem α} {xs : List γ} {ys : List α} {y : α}
    (h : xs.mapM f = .ok ys) (hy : y ∈ ys) : ∃ x ∈ xs, f x = .ok y := by
  induction Success.mapM_iff.mp h with
  | nil => cases hy
  | cons hxy hrest ih =>
    rcases List.mem_cons.mp hy with rfl | hy
    · exact ⟨_, List.mem_cons_self, hxy⟩
    · obtain ⟨x, hx, hread⟩ := ih (Success.mapM_iff.mpr hrest) hy
      exact ⟨x, List.mem_cons_of_mem _ hx, hread⟩

namespace Signature

variable {f : Form} {items : List Form}

/-- Parameters blame their types, their names or their list. -/
theorem blames_params (namesAllowed : Bool) (hf : f.Placed P) :
    Blames P (params namesAllowed f) := by
  have hargs := hf.args
  unfold params
  split
  · exact .ok _
  · next first rest heq =>
    rw [heq, List.forall_mem_cons] at hargs
    split
    · dsimp only
      split
      · exact .error hargs.1.span
      · refine blames_need_bind hf.span (fun g => placed_of_head? hargs.2) fun g hg => ?_
        refine (blames_valueType hg).bind fun type _ => ?_
        exact (blames_noMore (placed_tail hargs.2)).bind fun _ _ => .pure _
    · rw [heq]
      refine .mapM fun g hg => ?_
      have hg : g.Placed P := List.forall_mem_cons.mpr hargs g hg
      exact (blames_valueType hg).bind fun _ _ => .pure _

theorem blames_results (hf : f.Placed P) : Blames P (results f) :=
  .mapM fun g hg => blames_valueType (hf.args g hg)

theorem blames_read (namesAllowed : Bool) (hitems : ∀ f ∈ items, f.Placed P) :
    Blames P (read namesAllowed items) := by
  unfold read
  dsimp only
  generalize hps : items.takeWhile (isHeadedBy .paramKw) = ps
  generalize hrs : (items.drop ps.length).takeWhile (isHeadedBy .resultKw) = rs
  have hps : ∀ f ∈ ps, f.Placed P := hps ▸ placed_takeWhile hitems _
  have hrs : ∀ f ∈ rs, f.Placed P := hrs ▸ placed_takeWhile (placed_drop hitems _) _
  refine Blames.bind (.map (.mapM fun f hf => blames_params namesAllowed (hps f hf)))
    fun params _ => ?_
  refine Blames.bind (.map (.mapM fun f hf => blames_results (hrs f hf))) fun types htypes => ?_
  split
  · next hseveral =>
    refine .error ?_
    cases hlast : rs.getLast? with
    | some last => exact (hrs last (List.mem_of_getLast? hlast)).span
    | none =>
      -- without a form for results there is none
      obtain rfl := List.getLast?_eq_none_iff.mp hlast
      obtain ⟨_, hnone, rfl⟩ := Success.of_map htypes
      obtain rfl := Success.of_pure hnone
      cases hseveral
  · exact .pure _

/-- A parameter is blamed on the form that declares it. -/
theorem placed_of_params {namesAllowed : Bool} {ps : List Param} (hf : f.Placed P)
    (h : params namesAllowed f = .ok ps) : ∀ p ∈ ps, P p.span := by
  cases paramsAs_of_params h with
  | named => exact List.forall_mem_singleton.mpr hf.span
  | unnamed _ hps =>
    have hargs := hf.args
    clear h
    generalize f.args = fs at hps hargs
    induction hps with
    | nil => simp
    | cons hp _ ih =>
      rw [List.forall_mem_cons] at hargs ⊢
      exact ⟨hp.2.2 ▸ hargs.1.span, ih hargs.2⟩

/-- The parameters of a signature stand where its items do. -/
theorem placed_of_read {namesAllowed : Bool} {ps : List Param} {rs : List ValType} {n : Nat}
    (hitems : ∀ f ∈ items, f.Placed P) (h : read namesAllowed items = .ok (ps, rs, n)) :
    ∀ p ∈ ps, P p.span := by
  obtain ⟨⟨pss, hpss, rfl⟩, -, -, -⟩ := readAs_of_read h
  intro p hp
  obtain ⟨qs, hqs, hp⟩ := List.mem_flatten.mp hp
  obtain ⟨f, hf, hread⟩ := exists_of_mem_mapM hpss hqs
  exact placed_of_params (placed_takeWhile hitems _ f hf) hread p hp

end Signature

/-- The type of a definition is read from the definition. -/
theorem FuncType.blames_ofDefinition? {f : Form} {r : Except Problem FuncType} (hf : f.Placed P)
    (h : ofDefinition? f = some r) : Blames P r := by
  have hitems := placed_drop hf.args (if (f.args.head?.bind Form.id?).isSome then 1 else 0)
  unfold ofDefinition? at h
  dsimp only at h
  generalize f.args.drop (if (f.args.head?.bind Form.id?).isSome then 1 else 0) = items at hitems h
  split at h
  · obtain rfl := Option.some.inj h
    exact .error hf.span
  · next hhead =>
    obtain rfl := Option.some.inj h
    exact blames_unexpected _ (placed_of_head? hitems hhead)
  · cases h
  · next span head parts hhead =>
    obtain rfl := Option.some.inj h
    obtain ⟨hspan, hparts⟩ := placed_list.mp (placed_of_head? hitems hhead)
    rw [List.forall_mem_cons] at hparts
    split
    · exact .error hspan
    · refine (blames_noMore (placed_tail hitems)).bind fun _ _ => ?_
      refine (Signature.blames_read true hparts.2).bind fun _ _ => ?_
      exact (blames_noMore (placed_drop hparts.2 _)).bind fun _ _ => .pure _

/-- A reader with types at hand refuses at spans with `P` whatever the types. -/
def BlamesRun (P : Span → Prop) (x : Elab α) : Prop := ∀ t, Blames P (x.run t)

namespace BlamesRun

theorem pure (a : α) : BlamesRun P (Pure.pure a : Elab α) := fun t => Blames.ok (a, t)

theorem throw {p : Problem} (h : P p.span) : BlamesRun P (MonadExcept.throw p : Elab α) :=
  fun _ => Blames.error h

theorem bind {x : Elab α} {f : α → Elab β} (hx : BlamesRun P x)
    (hf : ∀ a t t', x.run t = .ok (a, t') → BlamesRun P (f a)) : BlamesRun P (x >>= f) :=
  fun t => (hx t).bind fun a ha => hf a.1 t a.2 ha a.2

theorem lift {x : Except Problem α} {f : α → Elab β} (hx : Blames P x)
    (hf : ∀ a, x = .ok a → BlamesRun P (f a)) :
    BlamesRun P ((liftM x : Elab α) >>= f) := by
  intro t
  cases x with
  | error p => exact .error (hx p rfl)
  | ok a => exact hf a rfl t

end BlamesRun

namespace TypeUse

variable {items : List Form}

theorem blames_explicit? (table : TypeTable) (hitems : ∀ f ∈ items, f.Placed P) :
    Blames P (explicit? table items) := by
  unfold explicit?
  split
  · next f hhead =>
    have hf := placed_of_head? hitems hhead
    split
    · refine Blames.bind (Names.blames_resolve _ _ hf.span fun g => placed_of_head? hf.args)
        fun index _ => ?_
      exact (blames_noMore (placed_tail hf.args)).bind fun _ _ => .pure _
    · exact .pure _
  · exact .pure _

/-- A type that is named is blamed on the form that names it. -/
theorem placed_of_explicit? {table : TypeTable} {index : Nat} {span : Span}
    (hitems : ∀ f ∈ items, f.Placed P) (h : explicit? table items = .ok (some (index, span))) :
    P span := by
  obtain ⟨f, ref, hf, -, -, rfl, -⟩ := explicit?_eq_some_iff.mp h
  exact (placed_of_head? hitems hf).span

theorem blames_read (namesAllowed : Bool) (hitems : ∀ f ∈ items, f.Placed P) :
    BlamesRun P (read namesAllowed items) := by
  refine .bind (fun t => .ok (t, t)) fun table _ _ _ => ?_
  refine .lift (blames_explicit? table hitems) fun explicit hexplicit => ?_
  split
  · next index span =>
    have hspan := placed_of_explicit? hitems hexplicit
    refine .lift (Signature.blames_read namesAllowed (placed_tail hitems)) fun sig _ => ?_
    dsimp only
    split
    · exact .throw hspan
    · split
      · exact .pure _
      · split
        · refine .throw ?_
          cases hhead : items.tail.head? with
          | none => exact hspan
          | some f => exact (placed_of_head? (placed_tail hitems) hhead).span
        · exact .pure _
  · refine .lift (Signature.blames_read namesAllowed hitems) fun sig _ => ?_
    exact .bind (fun t => .ok _) fun _ _ _ _ => .pure _

/-- The parameters of a type use are blamed on its forms. -/
theorem ReadAs.placed {namesAllowed : Bool} {t t' : TypeTable} {use : TypeUse} {n : Nat}
    (h : ReadAs namesAllowed items t use n t') (hitems : ∀ f ∈ items, f.Placed P) :
    ∀ p ∈ use.params, P p.span := by
  cases h with
  | @explicit _ span ps rs n hexplicit hread _ hagree hunwritten =>
    by_cases hn : n = 0
    · -- no signature is written, and its parameters are those of the type that is named
      rw [hunwritten hn]
      intro p hp
      obtain ⟨_, -, rfl⟩ := List.mem_map.mp hp
      exact placed_of_explicit? hitems hexplicit
    · rw [(hagree hn).2]
      exact Signature.placed_of_read (placed_tail hitems) hread
  | implicit _ hread => exact Signature.placed_of_read hitems hread

end TypeUse

end WasmText
