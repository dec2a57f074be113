import WasmText.Proofs.Sites
import WasmText.Proofs.Unfolding
import WasmText.Proofs.Unspanned

/-!
# Bodies and spans

The readers of bodies do not look at spans either: the instructions of a body whose forms have lost
their spans are those of the body, without their spans.
-/

namespace WasmText

open Form

variable (span : Span) (items : List Form)

/-! ## Labels -/

namespace Labels

variable (labels : Labels)

/-- A label that is too deep is so wherever it is written. -/
theorem atDepth_unspanned (depth : Nat) :
    labels.atDepth depth .origin = unspan id (labels.atDepth depth span) := by
  unfold atDepth
  cases labels[depth]? <;> rfl

theorem depthOf_unspanned (name : String) :
    labels.depthOf name .origin = unspan id (labels.depthOf name span) := by
  unfold depthOf
  cases labels.findIdx? (·.name == some name) <;> rfl

theorem enterElse_unspanned : labels.enterElse .origin = unspan id (labels.enterElse span) := by
  unfold enterElse
  split <;> rfl

end Labels

/-! ## Immediates -/

namespace Immediate

/-- A label has the same depth. -/
theorem label_unspanned (labels : Labels) (f? : Option Form) :
    label labels .origin (f?.map unspanned) = unspan id (label labels span f?) := by
  cases f? with
  | none => rfl
  | some f =>
    unfold label
    simp only [Option.map_some, id?_unspanned, number?_unspanned, span_unspanned,
      unexpected_unspanned]
    cases f.id? with
    | some name => exact Labels.depthOf_unspanned f.span labels name
    | none =>
      cases f.number? with
      | none => rfl
      | some t =>
        refine unspan_bind (natural_unspanned t.text t.span) fun depth => ?_
        have hlabel := Labels.atDepth_unspanned t.span labels depth
        exact unspan_bind (unspan_discard hlabel) fun _ => rfl

/-- The labels of a table have the same depths, and there are as many. -/
theorem labelTable_unspanned (labels : Labels) :
    labelTable labels .origin (items.map unspanned) = unspan id (labelTable labels span items) := by
  unfold labelTable
  have hreference : isReference ∘ unspanned = isReference := funext isReference_unspanned
  rw [List.head?_map, ← List.map_tail, List.takeWhile_map, hreference]
  refine unspan_bind (label_unspanned span labels items.head?) fun first => ?_
  refine unspan_bind (u := id) ?_ fun others => rfl
  rw [← List.map_id_fun]
  exact unspan_mapM (fun f => label_unspanned span labels (some f)) _

/-- An indirect call has the same type. -/
theorem indirectType_unspanned :
    indirectType .origin (items.map unspanned) = Elab.unspan id (indirectType span items) := by
  unfold indirectType
  have hreference : isReference ∘ unspanned = isReference := funext isReference_unspanned
  have hdescribe : describe ∘ unspanned = describe := funext describe_unspanned
  rw [List.head?_map, Option.filter_map, hreference, Option.map_map, hdescribe]
  cases items.head?.filter isReference with
  | some f =>
    refine Elab.unspan_bind (u := id) rfl fun table => ?_
    refine Elab.unspan_lift_bind ?_ fun index => rfl
    exact Names.resolve_unspanned .type table.names span (some f)
  | none =>
    refine Elab.unspan_bind (TypeUse.read_unspanned false items) fun (use, n) => ?_
    dsimp only [Prod.map, id]
    split <;> rfl

/-- A constant has the same value, which is that of its text. -/
theorem const_unspanned (op : Opcode) (f? : Option Form) :
    Immediate.const op .origin (f?.map unspanned) = unspan id (Immediate.const op span f?) := by
  cases f? with
  | none => rfl
  | some f =>
    unfold Immediate.const
    simp only [Option.map_some, number?_unspanned, unexpected_unspanned]
    cases f.number? with
    | none => rfl
    | some t =>
      rw [Option.map_some]
      dsimp only
      rw [show t.unspanned.text = t.text from rfl]
      cases Numeral.ofText t.text with
      | error e => rfl
      | ok n =>
        dsimp only
        split <;> rfl

/-- A keyed immediate keeps its text. -/
theorem keyed?_unspanned (kind : TokenKind) (f? : Option Form) :
    keyed? kind (f?.map unspanned) = (keyed? kind f?).map Token.unspanned := by
  match f? with
  | none => rfl
  | some (.list _ _) => rfl
  | some (.atom t) =>
    show (if t.kind = kind then _ else _) = Option.map _ (if t.kind = kind then _ else _)
    split <;> rfl

theorem offset_unspanned : offset (items.map unspanned) = unspan id (offset items) := by
  unfold offset
  rw [List.head?_map, keyed?_unspanned]
  cases keyed? .offsetEq items.head? with
  | none => rfl
  | some t => exact unspan_bind (natural_unspanned _ t.span) fun n => rfl

theorem align_unspanned (op : Opcode) :
    align op (items.map unspanned) = unspan id (align op items) := by
  unfold align
  rw [List.head?_map, keyed?_unspanned]
  cases keyed? .alignEq items.head? with
  | none => rfl
  | some t =>
    refine unspan_bind (natural_unspanned _ t.span) fun requested => ?_
    dsimp only [id]
    split
    · rfl
    · split <;> rfl

/-- An access to memory has the same offset and alignment. -/
theorem memArg_unspanned (op : Opcode) :
    memArg op (items.map unspanned) = unspan id (memArg op items) := by
  unfold memArg
  refine unspan_bind (offset_unspanned items) fun (offset, n) => ?_
  show align op ((items.map unspanned).drop n) >>= _ = _
  rw [← List.map_drop]
  exact unspan_bind (align_unspanned (items.drop n) op) fun (align, m) => rfl

end Immediate

namespace Plain

open Immediate

/-- An instruction has the same immediates. -/
theorem read_unspanned (sc : Scope) (op : Opcode) :
    Plain.read sc op .origin (items.map unspanned) =
      Elab.unspan id (Plain.read sc op span items) := by
  have hlabel := label_unspanned span sc.labels items.head?
  have hname (space : Space) (names : Names) :=
    Names.resolve_unspanned space names span items.head?
  unfold Plain.read
  dsimp only
  rw [List.head?_map]
  split
  case h_1 | h_2 | h_3 | h_4 | h_5 | h_6 | h_7 => rfl
  case h_8 | h_9 => exact Elab.unspan_lift_bind hlabel fun _ => rfl
  case h_10 => exact Elab.unspan_lift_bind (labelTable_unspanned span items sc.labels) fun _ => rfl
  case h_11 | h_13 | h_14 | h_15 | h_16 | h_17 =>
    exact Elab.unspan_lift_bind (hname _ _) fun _ => rfl
  case h_12 => exact Elab.unspan_bind (indirectType_unspanned span items) fun _ => rfl
  case h_18 =>
    -- constants, memory accesses and numeric instructions, by what the opcode is
    split
    · exact Elab.unspan_lift_bind (const_unspanned span op items.head?) fun _ => rfl
    · split
      · exact Elab.unspan_lift_bind (memArg_unspanned items op) fun _ => rfl
      · split
        · exact Elab.unspan_lift_bind (memArg_unspanned items op) fun _ => rfl
        · cases numeric? op <;> rfl

end Plain

/-! ## Blocks and operands -/

namespace Scope

variable (sc : Scope)

theorem descend_unspanned : sc.descend .origin = unspan id (sc.descend span) := by
  unfold descend
  split <;> rfl

theorem enterElse_unspanned : sc.enterElse .origin = unspan id (sc.enterElse span) :=
  unspan_bind (Labels.enterElse_unspanned span sc.labels) fun _ => rfl

end Scope

namespace Block

theorem sig_unspanned : sig (items.map unspanned) = unspan id (sig items) := by
  unfold sig
  rw [List.head?_map]
  cases items.head? with
  | none => rfl
  | some f =>
    simp only [Option.map_some, valType?_unspanned, headKeyword?_unspanned, args_unspanned,
      span_unspanned]
    cases f.valType? with
    | some type => exact unspan_bind (valueType_unspanned f) fun _ => rfl
    | none =>
      dsimp only
      split
      · match f.args with
        | [] => rfl
        | [type] => exact unspan_bind (valueType_unspanned type) fun _ => rfl
        | _ :: _ :: _ => rfl
      · rfl
      · rfl

/-- A block has the same label and type. -/
theorem header_unspanned : header (items.map unspanned) = unspan id (header items) := by
  unfold header
  rw [bind_id?_unspanned]
  dsimp only
  rw [← List.map_drop]
  exact unspan_bind (sig_unspanned _) fun _ => rfl

/-- A label at the end of a block is the same one. -/
theorem repeatedLabel_unspanned (name : Option String) :
    repeatedLabel name (items.map unspanned) = unspan id (repeatedLabel name items) := by
  unfold repeatedLabel
  rw [List.head?_map]
  cases items.head? with
  | none => rfl
  | some f =>
    simp only [Option.map_some, id?_unspanned, span_unspanned]
    match f.id?, name with
    | none, _ => rfl
    | some found, none => rfl
    | some found, some expected =>
      dsimp only
      split <;> rfl

theorem flatEnd_unspanned (name : Option String) :
    flatEnd name .origin (items.map unspanned) = unspan id (flatEnd name span items) := by
  cases items with
  | nil => rfl
  | cons f items =>
    rw [List.map_cons]
    unfold flatEnd
    dsimp only
    rw [opcode?_unspanned, unexpected_unspanned]
    split
    · exact unspan_bind (repeatedLabel_unspanned items name) fun _ => rfl
    · rfl

end Block

namespace Operand

open Instr

theorem checkValue_unspanned (op : Opcode) (group : List Instr) :
    checkValue op (group.map unspanned) = unspan id (checkValue op group) := by
  unfold checkValue
  rw [List.getLast?_map]
  cases group.getLast? with
  | none => rfl
  | some last =>
    have hyields : last.unspanned.yields? = last.yields? := by cases last <;> rfl
    have hopcode : last.unspanned.opcode = last.opcode := by cases last <;> rfl
    have hspan : last.unspanned.span = .origin := by cases last <;> rfl
    simp only [Option.map_some, hyields, hopcode, hspan]
    split <;> rfl

/-- Operands are checked by their number and by what they leave, and not by where they stand. -/
theorem check_unspanned (op : Opcode) (p : Plain) (groups : List (List Instr)) :
    check op p (groups.map (List.map unspanned)) .origin = unspan id (check op p groups span) := by
  unfold check
  refine unspan_bind (unspan_forM (checkValue_unspanned op) groups) fun _ => ?_
  rw [List.isEmpty_map, List.length_map]
  cases p.operands? with
  | none => rfl
  | some arity =>
    dsimp only
    split <;> rfl

end Operand

/-! ## Sequences

The lemmas follow the readers step by step, and the induction is that of the readers, on the size of
the forms. -/

namespace Body

theorem finish_unspanned : finish (items.map unspanned) = unspan id (finish items) := by
  cases items with
  | nil => rfl
  | cons f items =>
    rw [List.map_cons]
    unfold finish
    dsimp only
    rw [describe_unspanned, span_unspanned]
    rfl

mutual

/-- A sequence of instructions is read in the same way. The cases are those of the readers, here and
below. -/
theorem sequence_unspanned (sc : Scope) (items : List Form) :
    sequence sc (items.map unspanned) =
      Elab.unspan (Prod.map (List.map Instr.unspanned) id) (sequence sc items) := by
  match items with
  | [] =>
    rw [List.map_nil, sequence]
    rfl
  | .list span inside :: rest =>
    rw [List.map_cons, unspanned_list, sequence, ← unspanned_list span, sequence]
    refine Elab.unspan_bind (folded_unspanned sc (.list span inside)) fun front => ?_
    refine Elab.unspan_bind (sequence_unspanned sc rest) fun (others, n) => ?_
    dsimp only [Prod.map]
    rw [← List.map_append]
    rfl
  | .atom ⟨kind, source, place⟩ :: rest =>
    rw [List.map_cons, unspanned_atom, sequence, sequence]
    dsimp only [Token.unspanned]
    split
    · rfl
    · rfl
    · split
      · next form _ =>
        refine Elab.unspan_bind (flat_unspanned sc form place rest) fun (i, n) => ?_
        dsimp only [Prod.map, id]
        rw [← List.map_drop]
        exact Elab.unspan_bind (sequence_unspanned sc (rest.drop n)) fun (others, m) => rfl
      · refine Elab.unspan_bind (Plain.read_unspanned place rest sc _) fun (p, n) => ?_
        dsimp only [id]
        rw [← List.map_drop]
        exact Elab.unspan_bind (sequence_unspanned sc (rest.drop n)) fun (others, m) => rfl
    · show throw ((Form.atom ⟨kind, source, place⟩).unspanned.unexpected .instruction) = _
      rw [unexpected_unspanned]
      rfl
termination_by 2 * sizeOf items
decreasing_by
  · exact two_mul_sizeOf_head_lt _ rest
  · exact Nat.lt_of_succ_lt (two_mul_sizeOf_drop_lt _ 0 rest)
  · exact two_mul_sizeOf_drop_lt _ 0 rest
  · exact Nat.lt_of_succ_lt (two_mul_sizeOf_drop_lt _ _ rest)
  · exact Nat.lt_of_succ_lt (two_mul_sizeOf_drop_lt _ _ rest)

/-- A flat block is read in the same way. -/
theorem flat_unspanned (sc : Scope) (kind : BlockKind) (span : Span) (items : List Form) :
    flat sc kind .origin (items.map unspanned) =
      Elab.unspan (Prod.map Instr.unspanned id) (flat sc kind span items) := by
  rw [flat, flat]
  refine Elab.unspan_lift_bind (Block.header_unspanned items) fun (name, sig, n) => ?_
  refine Elab.unspan_lift_bind (Scope.descend_unspanned span sc) fun deeper => ?_
  dsimp only [id]
  rw [← List.map_drop]
  refine Elab.unspan_bind (sequence_unspanned _ (items.drop n)) fun (body, m) => ?_
  dsimp only [Prod.map, id]
  rw [← List.map_drop]
  refine Elab.unspan_bind (otherArm_unspanned _ kind name (items.drop (n + m)))
    fun (elseBody, k) => ?_
  dsimp only [Prod.map, id]
  rw [← List.map_drop]
  refine Elab.unspan_lift_bind (Block.flatEnd_unspanned span _ name) fun last => ?_
  dsimp only [id]
  rw [← Instr.unspannedAll_eq_map, ← Instr.unspannedAll_eq_map, ← BlockKind.unspanned_toInstr]
  rfl
termination_by 2 * sizeOf items + 1
decreasing_by
  all_goals exact Nat.lt_succ_of_le (Nat.mul_le_mul_left 2 (sizeOf_drop_le _ items))

/-- The second arm of a flat block is read in the same way. -/
theorem otherArm_unspanned (sc : Scope) (kind : BlockKind) (name : Option String)
    (items : List Form) :
    otherArm sc kind name (items.map unspanned) =
      Elab.unspan (Prod.map (List.map Instr.unspanned) id) (otherArm sc kind name items) := by
  match items with
  | [] =>
    rw [List.map_nil, otherArm]
    rfl
  | f :: rest =>
    rw [List.map_cons, otherArm, otherArm, opcode?_unspanned, span_unspanned]
    split
    · dsimp only
      split
      · rfl
      · refine Elab.unspan_lift_bind (Block.repeatedLabel_unspanned rest name) fun n => ?_
        refine Elab.unspan_lift_bind (Scope.enterElse_unspanned f.span sc) fun other => ?_
        dsimp only [id]
        rw [← List.map_drop]
        exact Elab.unspan_bind (sequence_unspanned other (rest.drop n)) fun (body, m) => rfl
    · rfl
termination_by 2 * sizeOf items
decreasing_by exact Nat.lt_of_succ_lt (two_mul_sizeOf_drop_lt _ _ _)

/-- A folded instruction is read in the same way. -/
theorem folded_unspanned (sc : Scope) (f : Form) :
    folded sc f.unspanned = Elab.unspan (List.map Instr.unspanned) (folded sc f) := by
  match f with
  | .atom t =>
    rw [folded.eq_def, folded.eq_def, span_unspanned]
    refine Elab.unspan_lift_bind (Scope.descend_unspanned t.span sc) fun deeper => ?_
    show throw ((Form.atom t).unspanned.unexpected .instruction) = _
    rw [unexpected_unspanned]
    rfl
  | .list place items =>
    have hhead : (items.map unspanned).head?.bind Form.opcode? = items.head?.bind Form.opcode? := by
      rw [List.head?_map, Option.bind_map, show Form.opcode? ∘ unspanned = _ from
        funext opcode?_unspanned]
    rw [unspanned_list, folded.eq_def, folded.eq_def]
    refine Elab.unspan_lift_bind (Scope.descend_unspanned place sc) fun deeper => ?_
    dsimp only [id]
    rw [hhead]
    split
    · rw [← unspanned_list place, unexpected_unspanned]
      rfl
    · rfl
    · rfl
    · rw [← List.map_drop]
      split
      · refine Elab.unspan_bind (Plain.read_unspanned place (items.drop 1) deeper _)
          fun (p, n) => ?_
        dsimp only [id]
        rw [← List.map_drop]
        refine Elab.unspan_bind (operands_unspanned deeper (items.drop (n + 1))) fun groups => ?_
        refine Elab.unspan_lift_bind (Operand.check_unspanned place _ p groups) fun _ => ?_
        rw [← List.map_flatten]
        show _ = (pure (List.map Instr.unspanned (_ ++ _)) : Elab (List Instr))
        rw [List.map_append]
        rfl
      · refine Elab.unspan_lift_bind (Block.header_unspanned (items.drop 1))
          fun (name, sig, n) => ?_
        dsimp only [id]
        rw [← List.map_drop]
        exact conditional_unspanned deeper name sig place (items.drop (n + 1))
      · refine Elab.unspan_lift_bind (Block.header_unspanned (items.drop 1))
          fun (name, sig, n) => ?_
        dsimp only [id]
        rw [← List.map_drop]
        refine Elab.unspan_bind (whole_unspanned _ (items.drop (n + 1))) fun body => ?_
        rw [← Instr.unspannedAll_eq_map]
        exact congrArg (fun i => (pure [i] : Elab (List Instr)))
          (BlockKind.unspanned_toInstr _ name sig body [] place).symm
termination_by 2 * sizeOf f
decreasing_by
  all_goals
    have hle := sizeOf_drop_le (n + 1) items
    grind [Form.list.sizeOf_spec]

/-- Operands are read in the same way. -/
theorem operands_unspanned (sc : Scope) (items : List Form) :
    operands sc (items.map unspanned) =
      Elab.unspan (List.map (List.map Instr.unspanned)) (operands sc items) := by
  match items with
  | [] =>
    rw [List.map_nil, operands]
    rfl
  | .atom t :: rest =>
    rw [List.map_cons, unspanned_atom, operands, ← unspanned_atom, unexpected_unspanned, operands]
    rfl
  | .list place inside :: rest =>
    rw [List.map_cons, unspanned_list, operands, ← unspanned_list place, operands]
    refine Elab.unspan_bind (folded_unspanned sc (.list place inside)) fun group => ?_
    exact Elab.unspan_bind (operands_unspanned sc rest) fun groups => rfl
termination_by 2 * sizeOf items

/-- What follows the header of a folded conditional is read in the same way. -/
theorem conditional_unspanned (sc : Scope) (name : Option String) (sig : ValType) (span : Span)
    (items : List Form) :
    conditional sc name sig .origin (items.map unspanned) =
      Elab.unspan (List.map Instr.unspanned) (conditional sc name sig span items) := by
  match items with
  | [] =>
    rw [List.map_nil, conditional, conditional]
    rfl
  | f :: rest =>
    rw [List.map_cons, conditional.eq_def, conditional.eq_def]
    dsimp only
    rw [isHeadedBy_unspanned]
    split
    · refine Elab.unspan_bind (arm_unspanned _ f) fun body => ?_
      rw [← Instr.unspannedAll_eq_map]
      match hmatch : rest with
      | [] => rfl
      | g :: rest =>
        rw [List.map_cons]
        dsimp only
        rw [headOpcode?_unspanned, span_unspanned, unexpected_unspanned]
        split
        · refine Elab.unspan_lift_bind (Scope.enterElse_unspanned g.span _) fun other => ?_
          refine Elab.unspan_bind (arm_unspanned other g) fun elseBody => ?_
          refine Elab.unspan_lift_bind (noMore_unspanned rest) fun _ => ?_
          rw [← Instr.unspannedAll_eq_map]
          rfl
        · rfl
    · refine Elab.unspan_bind (folded_unspanned sc f) fun group => ?_
      refine Elab.unspan_lift_bind (Operand.checkValue_unspanned _ group) fun _ => ?_
      refine Elab.unspan_bind (conditional_unspanned sc name sig span rest) fun others => ?_
      rw [← List.map_append]
      rfl
termination_by 2 * sizeOf items
decreasing_by
  all_goals
    simp only [*, List.cons.sizeOf_spec]
    omega

/-- An arm of a folded conditional is read in the same way. -/
theorem arm_unspanned (sc : Scope) (f : Form) :
    arm sc f.unspanned = Elab.unspan (List.map Instr.unspanned) (arm sc f) := by
  match f with
  | .atom t =>
    rw [unspanned_atom, arm, arm]
    rfl
  | .list place items =>
    rw [unspanned_list, arm, arm, ← List.map_drop]
    exact whole_unspanned sc (items.drop 1)
termination_by 2 * sizeOf f
decreasing_by
  have hle := sizeOf_drop_le 1 items
  rw [Form.list.sizeOf_spec]
  omega

/-- A body is read in the same way, up to where it ends. -/
theorem whole_unspanned (sc : Scope) (items : List Form) :
    whole sc (items.map unspanned) = Elab.unspan (List.map Instr.unspanned) (whole sc items) := by
  rw [whole, whole]
  refine Elab.unspan_bind (sequence_unspanned sc items) fun (body, n) => ?_
  dsimp only [Prod.map, id]
  rw [← List.map_drop]
  exact Elab.unspan_lift_bind (finish_unspanned (items.drop n)) fun _ => rfl
termination_by 2 * sizeOf items + 1

end

end Body

end WasmText
