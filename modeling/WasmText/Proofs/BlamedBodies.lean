import WasmText.Proofs.Blame
import WasmText.Proofs.Sites

/-!
# Where problems of bodies are placed

The readers of immediates and of bodies blame the word they read for or one of the forms they are
given. An operand without a value is blamed on the instruction that should leave it, which stands
where the operand does.
-/

namespace WasmText

open Form

variable {P : Span → Prop} {items : List Form} {span : Span}

/-! ## Immediates -/

namespace Labels

theorem blames_depthOf (labels : Labels) (name : String) (hspan : P span) :
    Blames P (labels.depthOf name span) := by
  unfold depthOf
  split
  · exact .ok _
  · exact .error hspan

theorem blames_atDepth (labels : Labels) (depth : Nat) (hspan : P span) :
    Blames P (labels.atDepth depth span) := by
  unfold atDepth
  split
  · exact .ok _
  · exact .error hspan

theorem blames_enterElse (labels : Labels) (hspan : P span) :
    Blames P (labels.enterElse span) := by
  unfold enterElse
  split
  · exact .ok _
  · exact .error hspan

end Labels

namespace Immediate

/-- A label is blamed where it is written, and where it is missing on its instruction. -/
theorem blames_label (labels : Labels) {f? : Option Form} (hspan : P span)
    (hf : ∀ f, f? = some f → f.Placed P) : Blames P (label labels span f?) := by
  cases f? with
  | none => exact .error hspan
  | some f =>
    have hf := hf f rfl
    unfold label
    dsimp only
    split
    · exact Labels.blames_depthOf _ _ hf.span
    · split
      · next t ht =>
        have ht := placed_of_number? hf ht
        refine (blames_natural _ ht).bind fun depth _ => ?_
        exact (Labels.blames_atDepth _ _ ht).map.bind fun _ _ => .pure _
      · exact blames_unexpected _ hf

theorem blames_labelTable (labels : Labels) (hspan : P span) (hitems : ∀ f ∈ items, f.Placed P) :
    Blames P (labelTable labels span items) := by
  refine (blames_label labels hspan fun f => placed_of_head? hitems).bind fun first _ => ?_
  have hothers := placed_takeWhile (placed_tail hitems) isReference
  refine Blames.bind (.mapM fun f hf => ?_) fun _ _ => .pure _
  exact blames_label labels hspan (placed_some (hothers f hf))

/-- The type of an indirect call is blamed on the items it is read from. -/
theorem blames_indirectType (hspan : P span) (hitems : ∀ f ∈ items, f.Placed P) :
    BlamesRun P (indirectType span items) := by
  unfold indirectType
  split
  · next f hf =>
    have hf := placed_of_head? hitems (Option.filter_eq_some_iff.mp hf).1
    refine .bind (fun t => .ok (t, t)) fun table _ _ _ => ?_
    exact .lift (Names.blames_resolve _ _ hspan (placed_some hf)) fun _ _ => .pure _
  · refine .bind (TypeUse.blames_read false hitems) fun ⟨use, n⟩ _ _ _ => ?_
    dsimp only
    split
    · exact .throw hspan
    · exact .pure _

/-- A constant is blamed where it is written, and where it is missing on its instruction. -/
theorem blames_const (op : Opcode) {f? : Option Form} (hspan : P span)
    (hf : ∀ f, f? = some f → f.Placed P) : Blames P (const op span f?) := by
  cases f? with
  | none => exact .error hspan
  | some f =>
    have hf := hf f rfl
    unfold const
    dsimp only
    split
    · exact blames_unexpected _ hf
    · next t ht =>
      have ht := placed_of_number? hf ht
      split
      · exact .error ht
      · split
        · exact .error ht
        · exact .ok _

theorem placed_of_keyed? {kind : TokenKind} {t : Token} (hitems : ∀ f ∈ items, f.Placed P)
    (h : keyed? kind items.head? = some t) : P t.span :=
  (placed_of_head? hitems (keyed?_eq_some_iff.mp h).1).span

theorem blames_offset (hitems : ∀ f ∈ items, f.Placed P) : Blames P (offset items) := by
  unfold offset
  split
  · next t ht => exact (blames_natural _ (placed_of_keyed? hitems ht)).bind fun _ _ => .pure _
  · exact .ok _

/-- An alignment is blamed where it is written. -/
theorem blames_align (op : Opcode) (hitems : ∀ f ∈ items, f.Placed P) :
    Blames P (align op items) := by
  unfold align
  split
  · exact .ok _
  · next t ht =>
    have ht := placed_of_keyed? hitems ht
    refine (blames_natural _ ht).bind fun requested _ => ?_
    dsimp only
    split
    · exact .error ht
    · split
      · exact .error ht
      · exact .pure _

theorem blames_memArg (op : Opcode) (hitems : ∀ f ∈ items, f.Placed P) :
    Blames P (memArg op items) := by
  refine (blames_offset hitems).bind fun offset _ => ?_
  exact (blames_align op (placed_drop hitems _)).bind fun _ _ => .pure _

end Immediate

namespace Plain

open Immediate

/-- An instruction is blamed on its word or its immediates. -/
theorem blames_read (sc : Scope) (op : Opcode) (hspan : P span)
    (hitems : ∀ f ∈ items, f.Placed P) : BlamesRun P (read sc op span items) := by
  have hhead : ∀ f, items.head? = some f → f.Placed P := fun f => placed_of_head? hitems
  have hlabel := blames_label sc.labels hspan hhead
  have hname (space : Space) (names : Names) : Blames P (names.resolve space span items.head?) :=
    Names.blames_resolve space names hspan hhead
  unfold read
  dsimp only
  split
  case h_1 | h_2 | h_3 | h_4 | h_5 | h_6 | h_7 => exact .pure _
  case h_8 | h_9 => exact .lift hlabel fun _ _ => .pure _
  case h_10 => exact .lift (blames_labelTable _ hspan hitems) fun _ _ => .pure _
  case h_11 | h_13 | h_14 | h_15 | h_16 | h_17 => exact .lift (hname _ _) fun _ _ => .pure _
  case h_12 => exact .bind (blames_indirectType hspan hitems) fun _ _ _ _ => .pure _
  case h_18 =>
    -- constants, memory accesses and numeric instructions, by what the opcode is
    split
    · exact .lift (blames_const op hspan hhead) fun _ _ => .pure _
    · split
      · exact .lift (blames_memArg op hitems) fun _ _ => .pure _
      · split
        · exact .lift (blames_memArg op hitems) fun _ _ => .pure _
        · split
          · exact .pure _
          · exact .throw hspan

end Plain

/-! ## Blocks and operands -/

namespace Scope

theorem blames_descend (sc : Scope) (hspan : P span) : Blames P (sc.descend span) := by
  unfold descend
  split
  · exact .error hspan
  · exact .ok _

theorem blames_enterElse (sc : Scope) (hspan : P span) : Blames P (sc.enterElse span) :=
  (Labels.blames_enterElse sc.labels hspan).bind fun _ _ => .pure _

end Scope

namespace Block

theorem blames_sig (hitems : ∀ f ∈ items, f.Placed P) : Blames P (sig items) := by
  unfold sig
  split
  · exact .ok _
  · next f hhead =>
    have hf := placed_of_head? hitems hhead
    split
    · exact (blames_valueType hf).bind fun _ _ => .pure _
    · split
      · split
        · exact .ok _
        · next type hargs =>
          have htype : type.Placed P := hf.args type (hargs ▸ List.mem_singleton_self type)
          exact (blames_valueType htype).bind fun _ _ => .pure _
        · exact .error hf.span
      · exact .error hf.span
      · exact .ok _

/-- The label and the type of a block are blamed on the items they are read from. -/
theorem blames_header (hitems : ∀ f ∈ items, f.Placed P) : Blames P (header items) :=
  (blames_sig (placed_drop hitems _)).bind fun _ _ => .pure _

theorem blames_repeatedLabel (name : Option String) (hitems : ∀ f ∈ items, f.Placed P) :
    Blames P (repeatedLabel name items) := by
  unfold repeatedLabel
  split
  · exact .ok _
  · next f hhead =>
    have hf := placed_of_head? hitems hhead
    split
    · exact .ok _
    · split
      · exact .ok _
      · exact .error hf.span
    · exact .error hf.span

/-- A flat block without an end is blamed on its first word. -/
theorem blames_flatEnd (name : Option String) (hspan : P span)
    (hitems : ∀ f ∈ items, f.Placed P) : Blames P (flatEnd name span items) := by
  cases items with
  | nil => exact .error hspan
  | cons f items =>
    rw [List.forall_mem_cons] at hitems
    unfold flatEnd
    dsimp only
    split
    · exact (blames_repeatedLabel name hitems.2).bind fun _ _ => .pure _
    · exact blames_unexpected _ hitems.1

end Block

namespace Operand

/-- Some instructions end in one that stands at a span. -/
def EndsAt (span : Span) (is : List Instr) : Prop := ∃ front i, is = front ++ [i] ∧ i.span = span

/-- An operand that leaves no value is blamed where its last instruction stands. -/
theorem blames_checkValue (op : Opcode) {group : List Instr} (hgroup : EndsAt span group)
    (hspan : P span) : Blames P (checkValue op group) := by
  obtain ⟨front, i, rfl, rfl⟩ := hgroup
  unfold checkValue
  rw [List.getLast?_concat]
  dsimp only
  split
  · exact .error hspan
  · exact .ok _

/-- Operands that are too few or too many are blamed on the instruction that takes them. -/
theorem blames_check (op : Opcode) (p : Plain) {groups : List (List Instr)} (hspan : P span)
    (hgroups : ∀ group ∈ groups, ∃ place, EndsAt place group ∧ P place) :
    Blames P (check op p groups span) := by
  refine Blames.bind (.forM fun group hgroup => ?_) fun _ _ => ?_
  · obtain ⟨place, hends, hplace⟩ := hgroups group hgroup
    exact blames_checkValue op hends hplace
  · split
    · split
      · exact .error hspan
      · exact .pure _
    · exact .pure _

end Operand

/-! ## Bodies -/

namespace Body

open Operand

/-- A folded conditional comes last of what it and its condition make. -/
theorem exists_cond_of_conditional {sc : Scope} {name : Option String} {sig : ValType}
    {t t' : TypeTable} {is : List Instr}
    (h : (conditional sc name sig span items).run t = .ok (is, t')) :
    ∃ front thenBody elseBody, is = front ++ [.cond name sig thenBody elseBody span] := by
  induction items generalizing t is with
  | nil => cases conditionalAs_of_run h
  | cons f rest ih =>
    cases conditionalAs_of_run h with
    | one | two => exact ⟨[], _, _, rfl⟩
    | @condition _ _ group _ _ _ _ _ _ hothers =>
      obtain ⟨front, thenBody, elseBody, rfl⟩ := ih hothers
      exact ⟨group ++ front, thenBody, elseBody, (List.append_assoc ..).symm⟩

/-- A folded instruction comes last of what it and its operands make. -/
theorem endsAt_of_folded {sc : Scope} {f : Form} {t t' : TypeTable} {is : List Instr}
    (h : (folded sc f).run t = .ok (is, t')) : EndsAt f.span is := by
  cases foldedAs_of_run h with
  | @plain _ _ _ _ _ _ _ _ _ groups => exact ⟨groups.flatten, _, rfl, rfl⟩
  | cond _ _ _ _ harms =>
    obtain ⟨front, thenBody, elseBody, rfl⟩ := exists_cond_of_conditional harms
    exact ⟨front, _, rfl, rfl⟩
  | block => exact ⟨[], _, rfl, BlockKind.span_toInstr _ _ _ _ _ _⟩

/-- Each operand is a folded instruction. -/
theorem forall₂_of_operands {sc : Scope} {t t' : TypeTable} {groups : List (List Instr)}
    (h : (operands sc items).run t = .ok (groups, t')) :
    List.Forall₂ (fun f group => ∃ s s', (folded sc f).run s = .ok (group, s')) items groups := by
  induction items generalizing t groups with
  | nil =>
    cases operandsAs_of_run h
    exact .nil
  | cons f rest ih =>
    cases operandsAs_of_run h with
    | cons hgroup hgroups => exact .cons ⟨_, _, hgroup⟩ (ih hgroups)

/-- The operands of an instruction end where their forms stand. -/
theorem endsAt_of_operands {sc : Scope} {t t' : TypeTable} {groups : List (List Instr)}
    (hitems : ∀ f ∈ items, f.Placed P) (h : (operands sc items).run t = .ok (groups, t')) :
    ∀ group ∈ groups, ∃ place, EndsAt place group ∧ P place := by
  have hforms := forall₂_of_operands h
  intro group hgroup
  obtain ⟨f, hf, _, _, hread⟩ := Success.exists_left hforms hgroup
  exact ⟨_, endsAt_of_folded hread, (hitems f hf).span⟩

theorem blames_finish (hitems : ∀ f ∈ items, f.Placed P) : Blames P (finish items) := by
  cases items with
  | nil => exact .ok _
  | cons f items => exact .error (hitems f List.mem_cons_self).span

mutual

/-- A sequence of instructions blames its items. The cases are those of the readers, here and
below. -/
theorem blames_sequence (sc : Scope) (items : List Form) (hitems : ∀ f ∈ items, f.Placed P) :
    BlamesRun P (sequence sc items) := by
  match items with
  | [] =>
    rw [sequence]
    exact .pure _
  | .list place inside :: rest =>
    rw [List.forall_mem_cons] at hitems
    rw [sequence]
    refine .bind (blames_folded sc (.list place inside) hitems.1) fun front _ _ _ => ?_
    exact .bind (blames_sequence sc rest hitems.2) fun _ _ _ _ => .pure _
  | .atom a :: rest =>
    rw [List.forall_mem_cons] at hitems
    obtain ⟨ha, hrest⟩ := hitems
    rw [sequence]
    split
    · exact .pure _
    · exact .pure _
    · split
      · next kind _ =>
        refine .bind (blames_flat sc kind rest ha.span hrest) fun ⟨i, n⟩ _ _ _ => ?_
        exact .bind (blames_sequence sc (rest.drop n) (placed_drop hrest n)) fun _ _ _ _ => .pure _
      · refine .bind (Plain.blames_read sc _ ha.span hrest) fun ⟨p, n⟩ _ _ _ => ?_
        exact .bind (blames_sequence sc (rest.drop n) (placed_drop hrest n)) fun _ _ _ _ => .pure _
    · exact .throw ha.span
termination_by 2 * sizeOf items
decreasing_by
  · exact two_mul_sizeOf_head_lt _ rest
  · exact Nat.lt_of_succ_lt (two_mul_sizeOf_drop_lt _ 0 rest)
  · exact two_mul_sizeOf_drop_lt _ 0 rest
  · exact Nat.lt_of_succ_lt (two_mul_sizeOf_drop_lt _ _ rest)
  · exact Nat.lt_of_succ_lt (two_mul_sizeOf_drop_lt _ _ rest)

/-- A flat block blames its first word or its items. -/
theorem blames_flat (sc : Scope) (kind : BlockKind) {span : Span} (items : List Form)
    (hspan : P span) (hitems : ∀ f ∈ items, f.Placed P) :
    BlamesRun P (flat sc kind span items) := by
  rw [flat]
  refine .lift (Block.blames_header hitems) fun ⟨name, sig, n⟩ _ => ?_
  refine .lift (Scope.blames_descend sc hspan) fun deeper _ => ?_
  refine .bind (blames_sequence _ (items.drop n) (placed_drop hitems n)) fun ⟨body, m⟩ _ _ _ => ?_
  refine .bind (blames_otherArm _ kind name (items.drop (n + m)) (placed_drop hitems _))
    fun ⟨elseBody, k⟩ _ _ _ => ?_
  exact .lift (Block.blames_flatEnd name hspan (placed_drop hitems _)) fun _ _ => .pure _
termination_by 2 * sizeOf items + 1
decreasing_by
  all_goals exact Nat.lt_succ_of_le (Nat.mul_le_mul_left 2 (sizeOf_drop_le _ items))

theorem blames_otherArm (sc : Scope) (kind : BlockKind) (name : Option String)
    (items : List Form) (hitems : ∀ f ∈ items, f.Placed P) :
    BlamesRun P (otherArm sc kind name items) := by
  match items with
  | [] =>
    rw [otherArm]
    exact .pure _
  | f :: rest =>
    rw [List.forall_mem_cons] at hitems
    obtain ⟨hf, hrest⟩ := hitems
    rw [otherArm]
    split
    · dsimp only
      split
      · exact .throw hf.span
      · refine .lift (Block.blames_repeatedLabel name hrest) fun n _ => ?_
        refine .lift (Scope.blames_enterElse sc hf.span) fun other _ => ?_
        exact .bind (blames_sequence other (rest.drop n) (placed_drop hrest n))
          fun _ _ _ _ => .pure _
    · exact .pure _
termination_by 2 * sizeOf items
decreasing_by exact Nat.lt_of_succ_lt (two_mul_sizeOf_drop_lt _ _ _)

/-- A folded instruction blames itself or its items. -/
theorem blames_folded (sc : Scope) (f : Form) (hf : f.Placed P) : BlamesRun P (folded sc f) := by
  match f with
  | .atom a =>
    rw [folded.eq_def]
    exact .lift (Scope.blames_descend sc hf.span) fun _ _ => .throw hf.span
  | .list place items =>
    have hspan : P place := hf.span
    have hitems := (placed_list.mp hf).2
    rw [folded.eq_def]
    refine .lift (Scope.blames_descend sc hspan) fun deeper _ => ?_
    dsimp only
    split
    · exact .throw hspan
    · exact .throw hspan
    · exact .throw hspan
    · split
      · refine .bind (Plain.blames_read deeper _ hspan (placed_drop hitems 1))
          fun ⟨p, n⟩ _ _ _ => ?_
        refine .bind (blames_operands deeper (items.drop (n + 1)) (placed_drop hitems _))
          fun groups t t' hgroups => ?_
        -- an operand without a value is blamed where its own form stands
        have hends := endsAt_of_operands (placed_drop hitems _) hgroups
        exact .lift (blames_check _ p hspan hends) fun _ _ => .pure _
      · refine .lift (Block.blames_header (placed_drop hitems 1)) fun ⟨name, sig, n⟩ _ => ?_
        exact blames_conditional deeper name sig (items.drop (n + 1)) hspan (placed_drop hitems _)
      · refine .lift (Block.blames_header (placed_drop hitems 1)) fun ⟨name, sig, n⟩ _ => ?_
        exact .bind (blames_whole _ (items.drop (n + 1)) (placed_drop hitems _))
          fun _ _ _ _ => .pure _
termination_by 2 * sizeOf f
decreasing_by
  all_goals
    have hle := sizeOf_drop_le (n + 1) items
    grind [Form.list.sizeOf_spec]

/-- Operands blame themselves. -/
theorem blames_operands (sc : Scope) (items : List Form) (hitems : ∀ f ∈ items, f.Placed P) :
    BlamesRun P (operands sc items) := by
  match items with
  | [] =>
    rw [operands]
    exact .pure _
  | .atom a :: rest =>
    rw [operands]
    exact .throw (hitems _ List.mem_cons_self).span
  | .list place inside :: rest =>
    rw [List.forall_mem_cons] at hitems
    rw [operands]
    refine .bind (blames_folded sc (.list place inside) hitems.1) fun group _ _ _ => ?_
    exact .bind (blames_operands sc rest hitems.2) fun _ _ _ _ => .pure _
termination_by 2 * sizeOf items

/-- A folded conditional blames itself or its items. -/
theorem blames_conditional (sc : Scope) (name : Option String) (sig : ValType) {span : Span}
    (items : List Form) (hspan : P span) (hitems : ∀ f ∈ items, f.Placed P) :
    BlamesRun P (conditional sc name sig span items) := by
  match items with
  | [] =>
    rw [conditional]
    exact .throw hspan
  | f :: rest =>
    rw [List.forall_mem_cons] at hitems
    obtain ⟨hf, hrest⟩ := hitems
    rw [conditional.eq_def]
    dsimp only
    split
    · -- the `then` form, after which only an `else` form may stand
      refine .bind (blames_arm _ f hf) fun body _ _ _ => ?_
      match hmatch : rest with
      | [] => exact .pure _
      | g :: rest =>
        rw [List.forall_mem_cons] at hrest
        obtain ⟨hg, hrest⟩ := hrest
        dsimp only
        split
        · refine .lift (Scope.blames_enterElse _ hg.span) fun other _ => ?_
          refine .bind (blames_arm other g hg) fun elseBody _ _ _ => ?_
          exact .lift (blames_noMore hrest) fun _ _ => .pure _
        · exact .throw hg.span
    · -- part of the condition, which has to leave a value
      refine .bind (blames_folded sc f hf) fun group t t' hgroup => ?_
      refine .lift (blames_checkValue _ (endsAt_of_folded hgroup) hf.span) fun _ _ => ?_
      exact .bind (blames_conditional sc name sig rest hspan hrest) fun _ _ _ _ => .pure _
termination_by 2 * sizeOf items
decreasing_by
  all_goals
    simp only [*, List.cons.sizeOf_spec]
    omega

theorem blames_arm (sc : Scope) (f : Form) (hf : f.Placed P) : BlamesRun P (arm sc f) := by
  match f with
  | .atom a =>
    rw [arm]
    exact .pure _
  | .list place items =>
    rw [arm]
    exact blames_whole sc (items.drop 1) (placed_drop (placed_list.mp hf).2 1)
termination_by 2 * sizeOf f
decreasing_by
  have hle := sizeOf_drop_le 1 items
  rw [Form.list.sizeOf_spec]
  omega

/-- A body blames its items. -/
theorem blames_whole (sc : Scope) (items : List Form) (hitems : ∀ f ∈ items, f.Placed P) :
    BlamesRun P (whole sc items) := by
  rw [whole]
  refine .bind (blames_sequence sc items hitems) fun ⟨body, n⟩ _ _ _ => ?_
  exact .lift (blames_finish (placed_drop hitems n)) fun _ _ => .pure _
termination_by 2 * sizeOf items + 1

end

end Body

end WasmText
