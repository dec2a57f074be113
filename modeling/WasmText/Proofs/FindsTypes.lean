import WasmText.Module.OfForms
import WasmText.Proofs.Success

/-!
# Refusals that are not about a missing type

A type use refuses the index of a type that is not in the table, although it is in range of the
names. No other reader refuses for that cause. Here is the simp set that tells so of the readers
without a table (`FindsTypes`): a reader finds its types if the readers that it is made of do.
-/

namespace WasmText

open Form

variable {α β γ : Type}

/-- A refusal is not about a type that is missing from the table. -/
def FindsTypes (x : Except Problem α) : Prop :=
  ∀ p, x = .error p → ∀ i, p.cause ≠ .typeOutOfRange i

namespace FindsTypes

@[simp] theorem ok (a : α) : FindsTypes (.ok a : Except Problem α) := by
  intro p h
  cases h

@[simp] theorem pure (a : α) : FindsTypes (Pure.pure a : Except Problem α) := ok a

@[simp] theorem error_iff {p : Problem} :
    FindsTypes (.error p : Except Problem α) ↔ ∀ i, p.cause ≠ .typeOutOfRange i := by
  constructor
  · intro h
    exact h p rfl
  · rintro h q ⟨⟩
    exact h

@[simp] theorem throw_iff {p : Problem} :
    FindsTypes (throw p : Except Problem α) ↔ ∀ i, p.cause ≠ .typeOutOfRange i := error_iff

@[simp] theorem bind_iff {x : Except Problem α} {f : α → Except Problem β} :
    FindsTypes (x >>= f) ↔ FindsTypes x ∧ ∀ a, x = .ok a → FindsTypes (f a) := by
  cases x with
  | error p =>
    have hbind : (.error p : Except Problem α) >>= f = .error p := rfl
    simp [hbind]
  | ok a =>
    have hbind : (.ok a : Except Problem α) >>= f = f a := rfl
    simp [hbind]

@[simp] theorem map_iff {x : Except Problem α} {f : α → β} :
    FindsTypes (f <$> x) ↔ FindsTypes x := by
  cases x with
  | error p =>
    have hmap : f <$> (.error p : Except Problem α) = .error p := rfl
    simp [hmap]
  | ok a =>
    have hmap : f <$> (.ok a : Except Problem α) = .ok (f a) := rfl
    simp [hmap]

@[simp] theorem discard_iff {x : Except Problem α} : FindsTypes (discard x) ↔ FindsTypes x :=
  map_iff

@[simp] theorem mapM {f : γ → Except Problem α} {xs : List γ} (h : ∀ x ∈ xs, FindsTypes (f x)) :
    FindsTypes (xs.mapM f) := by
  induction xs with
  | nil => exact pure []
  | cons x xs ih =>
    rw [List.forall_mem_cons] at h
    rw [List.mapM_cons, bind_iff]
    exact ⟨h.1, fun y _ => bind_iff.mpr ⟨ih h.2, fun ys _ => pure (y :: ys)⟩⟩

@[simp] theorem forM {f : γ → Except Problem Unit} {xs : List γ}
    (h : ∀ x ∈ xs, FindsTypes (f x)) : FindsTypes (ForM.forM xs f) := by
  induction xs with
  | nil => exact pure ()
  | cons x xs ih =>
    rw [List.forall_mem_cons] at h
    exact bind_iff.mpr ⟨h.1, fun _ _ => ih h.2⟩

@[simp] theorem foldlM {f : α → γ → Except Problem α} {xs : List γ} {a : α}
    (h : ∀ a, ∀ x ∈ xs, FindsTypes (f a x)) : FindsTypes (xs.foldlM f a) := by
  induction xs generalizing a with
  | nil => exact pure a
  | cons x xs ih =>
    rw [List.foldlM_cons, bind_iff]
    refine ⟨h a x List.mem_cons_self, fun a' _ => ih fun a y hy => ?_⟩
    exact h a y (List.mem_cons_of_mem _ hy)

end FindsTypes

/-! ## Forms and names -/

section Forms

variable (what : Expectation) (span : Span) (f : Form) (f? : Option Form) (items : List Form)

namespace Form

@[simp] theorem findsTypes_expectList : FindsTypes (f.expectList what) := by
  unfold expectList
  split <;> simp [unexpected]

@[simp] theorem findsTypes_need : FindsTypes (need what span f?) := by
  unfold need
  split <;> simp

@[simp] theorem findsTypes_noMore : FindsTypes (noMore items) := by
  unfold noMore
  split <;> simp [unexpected]

@[simp] theorem findsTypes_valueType : FindsTypes f.valueType := by
  unfold valueType
  split
  · split <;> simp
  · simp [unexpected]

@[simp] theorem findsTypes_expectBytes : FindsTypes f.expectBytes := by
  unfold expectBytes
  split <;> simp [unexpected]

@[simp] theorem findsTypes_expectAllBytes : FindsTypes (expectAllBytes items) := by
  simp [expectAllBytes]

@[simp] theorem findsTypes_expectName : FindsTypes f.expectName := by
  rw [expectName, FindsTypes.bind_iff]
  refine ⟨findsTypes_expectBytes f, fun bytes _ => ?_⟩
  split <;> simp

@[simp] theorem findsTypes_natural (text : String) : FindsTypes (natural text span) := by
  unfold natural
  split <;> simp

end Form

namespace Names

@[simp] theorem findsTypes_declare (space : Space) (names : Names) (name : Option String) :
    FindsTypes (names.declare space name span) := by
  unfold declare
  split
  · split <;> simp
  · simp

@[simp] theorem findsTypes_resolve (space : Space) (names : Names) :
    FindsTypes (names.resolve space span f?) := by
  unfold resolve
  split
  · simp
  · split
    · split <;> simp
    · split
      · rw [FindsTypes.bind_iff]
        refine ⟨findsTypes_natural _ _, fun index _ => ?_⟩
        split <;> simp
      · simp [unexpected]

end Names

namespace Spaces

@[simp] theorem findsTypes_declare (s : Spaces) : FindsTypes (s.declare f) := by
  unfold declare
  split
  · simp
  · simp
  · rw [declareKind, FindsTypes.bind_iff]
    refine ⟨by simp, fun names _ => ?_⟩
    split <;> simp

@[simp] theorem findsTypes_ofFields : FindsTypes (ofFields items) := by simp [ofFields]

end Spaces

/-! ## Signatures -/

namespace Signature

@[simp] theorem findsTypes_params (namesAllowed : Bool) : FindsTypes (params namesAllowed f) := by
  unfold params
  split
  · simp
  · split
    · dsimp only
      split <;> simp
    · simp

@[simp] theorem findsTypes_results : FindsTypes (results f) := by simp [results]

@[simp] theorem findsTypes_read (namesAllowed : Bool) : FindsTypes (read namesAllowed items) := by
  simp only [read, FindsTypes.bind_iff]
  refine ⟨by simp, fun params _ => ⟨by simp, fun types _ => ?_⟩⟩
  split <;> simp

end Signature

theorem FuncType.findsTypes_ofDefinition? {f : Form} {r : Except Problem FuncType}
    (h : ofDefinition? f = some r) : FindsTypes r := by
  unfold ofDefinition? at h
  dsimp only at h
  split at h
  · obtain rfl := Option.some.inj h
    simp
  · obtain rfl := Option.some.inj h
    simp [unexpected]
  · cases h
  · obtain rfl := Option.some.inj h
    split <;> simp

@[simp] theorem TypeUse.findsTypes_explicit? (t : TypeTable) : FindsTypes (explicit? t items) := by
  unfold explicit?
  split
  · split <;> simp
  · simp

/-! ## Immediates and bodies -/

namespace Labels

@[simp] theorem findsTypes_depthOf (labels : Labels) (name : String) :
    FindsTypes (labels.depthOf name span) := by
  unfold depthOf
  split <;> simp

@[simp] theorem findsTypes_atDepth (labels : Labels) (depth : Nat) :
    FindsTypes (labels.atDepth depth span) := by
  unfold atDepth
  split <;> simp

@[simp] theorem findsTypes_enterElse (labels : Labels) : FindsTypes (labels.enterElse span) := by
  unfold enterElse
  split <;> simp

end Labels

namespace Immediate

@[simp] theorem findsTypes_label (labels : Labels) : FindsTypes (label labels span f?) := by
  unfold label
  split
  · simp
  · split
    · simp
    · split <;> simp [unexpected]

@[simp] theorem findsTypes_labelTable (labels : Labels) :
    FindsTypes (labelTable labels span items) := by
  simp [labelTable]

@[simp] theorem findsTypes_const (op : Opcode) : FindsTypes (const op span f?) := by
  unfold const
  split
  · simp
  · split
    · simp [unexpected]
    · split
      · simp
      · split <;> simp

@[simp] theorem findsTypes_memArg (op : Opcode) : FindsTypes (memArg op items) := by
  rw [memArg, FindsTypes.bind_iff]
  constructor
  · unfold offset
    split <;> simp
  · intro offset _
    rw [FindsTypes.bind_iff, align]
    refine ⟨?_, fun _ _ => .pure _⟩
    split
    · simp
    · rw [FindsTypes.bind_iff]
      refine ⟨by simp, fun requested _ => ?_⟩
      dsimp only
      split
      · simp
      · split <;> simp

end Immediate

namespace Scope

@[simp] theorem findsTypes_descend (sc : Scope) : FindsTypes (sc.descend span) := by
  unfold descend
  split <;> simp

@[simp] theorem findsTypes_enterElse (sc : Scope) : FindsTypes (sc.enterElse span) := by
  simp [enterElse]

end Scope

namespace Block

@[simp] theorem findsTypes_header : FindsTypes (header items) := by
  rw [header, FindsTypes.bind_iff, sig]
  refine ⟨?_, fun _ _ => .pure _⟩
  split
  · simp
  · split
    · simp
    · split
      · split <;> simp
      · simp
      · simp

@[simp] theorem findsTypes_repeatedLabel (name : Option String) :
    FindsTypes (repeatedLabel name items) := by
  unfold repeatedLabel
  split
  · simp
  · split
    · simp
    · split <;> simp
    · simp

@[simp] theorem findsTypes_flatEnd (name : Option String) :
    FindsTypes (flatEnd name span items) := by
  unfold flatEnd
  split
  · simp
  · split <;> simp [unexpected]

end Block

namespace Operand

@[simp] theorem findsTypes_checkValue (op : Opcode) (group : List Instr) :
    FindsTypes (checkValue op group) := by
  unfold checkValue
  split
  · split <;> simp
  · simp

@[simp] theorem findsTypes_check (op : Opcode) (p : Plain) (groups : List (List Instr)) :
    FindsTypes (check op p groups span) := by
  rw [check, FindsTypes.bind_iff]
  refine ⟨by simp, fun _ _ => ?_⟩
  split
  · split <;> simp
  · simp

end Operand

@[simp] theorem Body.findsTypes_finish : FindsTypes (finish items) := by
  unfold finish
  split <;> simp

end Forms

/-! ## Parts of fields -/

namespace Draft

@[simp] theorem findsTypes_addImport (d : Draft) (i : Import) (span : Span) :
    FindsTypes (d.addImport i span) := by
  unfold addImport
  split <;> simp

@[simp] theorem findsTypes_addExport (d : Draft) (e : Export) (span : Span) :
    FindsTypes (d.addExport e span) := by
  unfold addExport
  split <;> simp

end Draft

namespace Field

variable (span : Span) (f : Form) (f? : Option Form) (items : List Form)

@[simp] theorem findsTypes_importNames : FindsTypes (importNames f) := by simp [importNames]

@[simp] theorem findsTypes_inlineExport (kind : ExternKind) (index : Nat) (d : Draft) :
    FindsTypes (inlineExport kind index d f) := by
  simp [inlineExport]

@[simp] theorem findsTypes_opening (kind : ExternKind) (d : Draft) :
    FindsTypes (opening kind d f) := by
  refine FindsTypes.bind_iff.mpr ⟨.foldlM fun d' g _ => findsTypes_inlineExport g kind _ d', ?_⟩
  refine fun d' _ => FindsTypes.bind_iff.mpr ⟨?_, fun _ _ => .pure _⟩
  unfold inlineImport
  split <;> simp

@[simp] theorem findsTypes_limits : FindsTypes (limits span items) := by
  rw [limits, FindsTypes.bind_iff]
  refine ⟨by simp, fun first _ => ?_⟩
  split
  · simp [unexpected]
  · rw [FindsTypes.bind_iff]
    refine ⟨by simp, fun min _ => ?_⟩
    split <;> simp

@[simp] theorem findsTypes_elemType : FindsTypes (elemType span f?) := by
  unfold elemType
  split
  · simp
  · split <;> simp [unexpected]

@[simp] theorem findsTypes_tableType : FindsTypes (tableType span items) := by simp [tableType]

@[simp] theorem findsTypes_globalType : FindsTypes (globalType span f?) := by
  rw [globalType, FindsTypes.bind_iff]
  refine ⟨by simp, fun f _ => ?_⟩
  split
  · simp
  · split <;> simp [unexpected]

@[simp] theorem findsTypes_addLocals (locals : Names × List ValType) :
    FindsTypes (addLocals locals f) := by
  unfold addLocals
  split <;> simp

@[simp] theorem findsTypes_parameters (use : TypeUse) : FindsTypes (parameters use) := by
  simp [parameters]

@[simp] theorem findsTypes_target (space : Space) (names : Names) :
    FindsTypes (target space names items) := by
  unfold target
  split <;> simp

end Field

end WasmText
