import WasmText.Proofs.Invariants
import WasmText.Proofs.Notations
import WasmText.Proofs.NumberedReading

/-!
# Bodies with names written as numbers

A body is read the same if names in it are written as the numbers that they stand for. The scope of
names is told from the words of the text, so it has to be kept in step with the scope of the
readers: a flat block is entered at its word and left behind its `end`, a folded one ends with its
list, and the label of a conditional is the same in both arms.
-/

namespace WasmText

open Form

/-! ## Scopes in step -/

namespace Scope.Fits

variable {sc deeper other : Scope} {s : NameScope} {span : Span}

/-- A scope a level deeper has the same names. -/
theorem descend (h : sc.Fits s) (hdeeper : sc.descend span = .ok deeper) : deeper.Fits s := by
  obtain ⟨-, rfl⟩ := descend_eq_ok_iff.mp hdeeper
  exact ⟨h.spaces, h.locals, h.labels⟩

/-- Entering a block puts its name in scope. -/
theorem enter (h : sc.Fits s) (kind : LabelKind) (name : Option String) (sig : ValType) :
    (sc.enter kind name sig).Fits (s.push name) :=
  ⟨h.spaces, h.locals, congrArg (name :: ·) h.labels⟩

/-- The other arm of a conditional has the label of the first. -/
theorem enterElse (h : sc.Fits s) (hother : sc.enterElse span = .ok other) : other.Fits s := by
  obtain ⟨name, sig, outer, hlabels, rfl⟩ := enterElse_eq_ok_iff.mp hother
  refine ⟨h.spaces, h.locals, ?_⟩
  rw [← h.labels, hlabels]
  rfl

end Scope.Fits

/-- The label of a block is in scope after its word. -/
theorem NameScope.after_of_block {s : NameScope} {op : Opcode} {kind : BlockKind}
    (h : BlockKind.ofOpcode? op = some kind) (rest : List Form) :
    s.after op rest = s.push (rest.head?.bind id?) ∧ s.names op = [] := by
  obtain ⟨rfl, -⟩ | ⟨rfl, -⟩ | ⟨rfl, -⟩ := BlockKind.ofOpcode?_eq_some_iff.mp h <;>
    exact ⟨rfl, rfl⟩

namespace Form

variable {s : NameScope} {names : Names} {span : Span} {head : Form} {args : List Form} {f' : Form}

theorem Numbered.exists_list (h : Numbered s names (.list span args) f') :
    ∃ args', f' = .list span args' := by
  cases h <;> exact ⟨_, rfl⟩

/-- A folded instruction keeps its head, and its items are in its scope. -/
theorem Numbered.exists_folded {op : Opcode} (h : Numbered s names (.list span (head :: args)) f')
    (hhead : head.opcode? = some op) (hop : op ≠ .ifOp) :
    ∃ args', f' = .list span (head :: args') ∧
      NumberedAll (s.after op args) (s.names op) args args' := by
  cases h with
  | same => exact ⟨args, rfl, .refl ..⟩
  | keyword hword =>
    have hnone := headOpcode?_of_headKeyword? (f := .list span (head :: args)) hword
    rw [show head.opcode? = none from hnone] at hhead
    cases hhead
  | folded hhead' _ h =>
    obtain rfl := Option.some.inj (hhead.symm.trans hhead')
    exact ⟨_, rfl, h⟩
  | conditional hhead' => exact absurd (Option.some.inj (hhead.symm.trans hhead')) hop

/-- A folded conditional keeps its head, and its label is in scope of its arms only. -/
theorem Numbered.exists_conditional (h : Numbered s names (.list span (head :: args)) f')
    (hhead : head.opcode? = some .ifOp) :
    ∃ args', f' = .list span (head :: args') ∧
      NumberedArms s (s.after .ifOp args) args args' := by
  cases h with
  | same => exact ⟨args, rfl, .refl ..⟩
  | keyword hword =>
    have hnone := headOpcode?_of_headKeyword? (f := .list span (head :: args)) hword
    rw [show head.opcode? = none from hnone] at hhead
    cases hhead
  | folded hhead' hop => exact absurd (Option.some.inj (hhead'.symm.trans hhead)) hop
  | conditional _ h => exact ⟨_, rfl, h⟩

end Form

/-! ## One lemma for each reader -/

namespace Body

/-- Reading a body adds types at the end. -/
theorem invariant_grows : Invariant fun _ t t' _ => t.Grows t' where
  nil _ t := .refl t
  append h h' := h.trans h'
  plain _ h h' := h.grows.trans h'
  block _ _ _ h _ h' := h.trans h'
  descend _ h := h

mutual

/-- A sequence is read as the instructions that it was, from as many items. The cases are those of
the readers, here and below. -/
theorem sequence_numbered {sc : Scope} {s : NameScope} {names : Names} {t t' : TypeTable} {n : Nat}
    {is : List Instr} (items : List Form) {items' : List Form} (hsc : sc.Fits s)
    (ht : s.spaces.types <+: t.names) (hitems : NumberedAll s names items items')
    (h : (sequence sc items).run t = .ok ((is, n), t')) :
    (sequence sc items').run t = .ok ((is, n), t') ∧
      ∃ names', NumberedAll s names' (items.drop n) (items'.drop n) := by
  cases sequenceAs_of_run h with
  | nil =>
    obtain rfl := hitems.eq_nil
    exact ⟨run_of_sequenceAs .nil, names, hitems⟩
  | @delimiter a rest hword =>
    obtain ⟨op, hop⟩ : ∃ op, a.kind = .opcode op := hword.elim (⟨_, ·⟩) (⟨_, ·⟩)
    obtain ⟨rest', rfl, -⟩ := hitems.exists_word (opcode?_of_kind hop)
    exact ⟨run_of_sequenceAs (.delimiter hword), names, hitems⟩
  | @folded place inside rest _ _ _ _ _ hfront hothers =>
    obtain ⟨f', rest', rfl, hf, hrest⟩ := hitems.exists_item rfl
    obtain ⟨inside', rfl⟩ := hf.exists_list
    -- types that are added stand behind those with names
    have hu := ht.trans (holds_of_folded invariant_grows _ hfront).names
    have hfront' := folded_numbered (.list place inside) hsc ht hf hfront
    obtain ⟨hothers', names', hdrop⟩ := sequence_numbered rest hsc hu hrest hothers
    exact ⟨run_of_sequenceAs (.folded hfront' hothers'), names', hdrop⟩
  | @block _ rest _ _ _ _ k _ _ _ hop hkind hflat hothers =>
    obtain ⟨rest', rfl, hrest⟩ := hitems.exists_word (opcode?_of_kind hop)
    obtain ⟨hafter, hnames⟩ := NameScope.after_of_block hkind rest
    rw [hafter, hnames] at hrest
    have hu := ht.trans (holds_of_flat invariant_grows _ hflat).names
    obtain ⟨hflat', hdrop⟩ := flat_numbered rest hsc ht hrest hflat
    obtain ⟨hothers', names', hdrop⟩ := sequence_numbered (rest.drop k) hsc hu hdrop hothers
    rw [List.drop_drop, List.drop_drop] at hdrop
    exact ⟨run_of_sequenceAs (.block hop hkind hflat' hothers'), names', hdrop⟩
  | @plain _ rest _ _ _ k _ _ _ hop hend helse hkind hread hothers =>
    obtain ⟨rest', rfl, hrest⟩ := hitems.exists_word (opcode?_of_kind hop)
    have hread := Plain.readAs_of_read hread
    rw [NameScope.after_of_plain hkind hend] at hrest
    obtain ⟨hread', hdrop⟩ := hread.numbered hsc ht hrest
    have hread' := Plain.read_of_readAs hread'
    have hu := ht.trans hread.grows.names
    obtain ⟨hothers', names', hdrop⟩ := sequence_numbered (rest.drop k) hsc hu hdrop hothers
    rw [List.drop_drop, List.drop_drop] at hdrop
    exact ⟨run_of_sequenceAs (.plain hop hend helse hkind hread' hothers'), names', hdrop⟩
termination_by 2 * sizeOf items
decreasing_by
  all_goals subst_vars
  · exact two_mul_sizeOf_head_lt _ rest
  · exact Nat.lt_of_succ_lt (two_mul_sizeOf_drop_lt _ 0 rest)
  · exact two_mul_sizeOf_drop_lt _ 0 rest
  · exact Nat.lt_of_succ_lt (two_mul_sizeOf_drop_lt _ _ rest)
  · exact Nat.lt_of_succ_lt (two_mul_sizeOf_drop_lt _ _ rest)

/-- The block's label is in scope from its word to its `end`. -/
theorem flat_numbered {sc : Scope} {s : NameScope} {t t' : TypeTable} {kind : BlockKind}
    {place : Span} {i : Instr} {n : Nat} (items : List Form) {items' : List Form} (hsc : sc.Fits s)
    (ht : s.spaces.types <+: t.names)
    (hitems : NumberedAll (s.push (items.head?.bind id?)) [] items items')
    (h : (flat sc kind place items).run t = .ok ((i, n), t')) :
    (flat sc kind place items').run t = .ok ((i, n), t') ∧
      NumberedAll s [] (items.drop n) (items'.drop n) := by
  obtain @⟨_, name, sig, _, _, k, m, _, _, _, _, hheader, hdeeper, hbody, helse, hlast⟩ :=
    flatBlockAs_of_run h
  obtain ⟨-, hname, -⟩ := Block.takes_of_header hheader
  rw [← hname] at hitems
  have hinner := (hsc.descend hdeeper).enter kind.label name sig
  obtain ⟨hheader', hitems⟩ := Block.header_numbered hitems hheader
  obtain ⟨hbody', _, hitems⟩ := sequence_numbered (items.drop k) hinner ht hitems hbody
  rw [List.drop_drop, List.drop_drop] at hitems
  have hu := ht.trans (holds_of_sequence invariant_grows _ hbody).names
  obtain ⟨helse', _, hitems⟩ := otherArm_numbered (items.drop (k + m)) hinner hu hitems helse
  rw [List.drop_drop, List.drop_drop] at hitems
  obtain ⟨hlast', hitems⟩ := Block.flatEnd_numbered hitems hlast
  rw [List.drop_drop, List.drop_drop] at hitems
  exact ⟨run_of_flatBlockAs (.block hheader' hdeeper hbody' helse' hlast'), hitems⟩
termination_by 2 * sizeOf items + 1
decreasing_by
  all_goals exact Nat.lt_succ_of_le (Nat.mul_le_mul_left 2 (sizeOf_drop_le _ items))

/-- A second arm is read as the instructions that it was. -/
theorem otherArm_numbered {sc : Scope} {s : NameScope} {names : Names} {t t' : TypeTable}
    {kind : BlockKind} {name : Option String} {is : List Instr} {n : Nat} (items : List Form)
    {items' : List Form} (hsc : sc.Fits s) (ht : s.spaces.types <+: t.names)
    (hitems : NumberedAll s names items items')
    (h : (otherArm sc kind name items).run t = .ok ((is, n), t')) :
    (otherArm sc kind name items').run t = .ok ((is, n), t') ∧
      ∃ names', NumberedAll s names' (items.drop n) (items'.drop n) := by
  cases otherArmAs_of_run h with
  | none hno => exact ⟨run_of_otherArmAs (.none (hitems.head?_opcode?_eq ▸ hno)), names, hitems⟩
  | @arm f rest _ _ k _ _ hcond hword hlabel hother hbody =>
    obtain ⟨rest', rfl, hrest⟩ := hitems.exists_word hword
    obtain ⟨hlabel', hdrop⟩ := Block.repeatedLabel_numbered hrest hlabel
    obtain ⟨hbody', names', hdrop⟩ :=
      sequence_numbered (rest.drop k) (hsc.enterElse hother) ht hdrop hbody
    rw [List.drop_drop, List.drop_drop] at hdrop
    refine ⟨run_of_otherArmAs (.arm hcond hword hlabel' hother hbody'), names', ?_⟩
    rwa [Nat.add_assoc, Nat.add_comm 1, List.drop_succ_cons, List.drop_succ_cons]
termination_by 2 * sizeOf items
decreasing_by
  subst_vars
  exact Nat.lt_of_succ_lt (two_mul_sizeOf_drop_lt _ _ rest)

/-- A folded instruction is read as what it was. -/
theorem folded_numbered {sc : Scope} {s : NameScope} {names : Names} {t t' : TypeTable}
    {is : List Instr} (f : Form) {f' : Form} (hsc : sc.Fits s)
    (ht : s.spaces.types <+: t.names) (hf : Numbered s names f f')
    (h : (folded sc f).run t = .ok (is, t')) : (folded sc f').run t = .ok (is, t') := by
  match f with
  | .atom _ | .list _ [] | .list _ (.list _ _ :: _) => cases foldedAs_of_run h
  | .list place (.atom a :: rest) =>
    apply run_of_foldedAs
    cases foldedAs_of_run h with
    | @plain deeper _ _ _ op p n u t' groups hdeeper hop hend helse hplain hread hgroups hcheck =>
      have hif : op ≠ .ifOp := by rintro rfl; cases hplain
      obtain ⟨rest', rfl, hrest⟩ := hf.exists_folded (opcode?_of_kind hop) hif
      have hfits := hsc.descend hdeeper
      have hread := Plain.readAs_of_read hread
      rw [NameScope.after_of_plain hplain hend] at hrest
      obtain ⟨hread', hrest⟩ := hread.numbered hfits ht hrest
      have hgroups' :=
        operands_numbered (rest.drop n) hfits (ht.trans hread.grows.names) hrest hgroups
      exact .plain hdeeper hop hend helse hplain (Plain.read_of_readAs hread') hgroups' hcheck
    | @cond deeper _ _ _ op name sig n is t' hdeeper hop hcond hheader harms =>
      obtain rfl := BlockKind.eq_ifOp_of_cond hcond
      obtain ⟨rest', rfl, hrest⟩ := hf.exists_conditional (opcode?_of_kind hop)
      obtain ⟨-, hname, -⟩ := Block.takes_of_header hheader
      have hrest : NumberedArms s (s.push name) rest rest' := hname ▸ hrest
      have harms' :=
        conditional_numbered (rest.drop n) (hsc.descend hdeeper) ht (hrest.drop n) harms
      exact .cond hdeeper hop hcond (hrest.header_numbered hheader) harms'
    | @block deeper _ _ _ op kind name sig n body t' hdeeper hop hkind hcond hheader hbody =>
      have hif : op ≠ .ifOp := by rintro rfl; exact hcond (Option.some.inj hkind.symm)
      obtain ⟨rest', rfl, hrest⟩ := hf.exists_folded (opcode?_of_kind hop) hif
      obtain ⟨hafter, hnames⟩ := NameScope.after_of_block hkind rest
      obtain ⟨-, hname, -⟩ := Block.takes_of_header hheader
      rw [hafter, hnames, ← hname] at hrest
      obtain ⟨hheader', hrest⟩ := Block.header_numbered hrest hheader
      have hfits := (hsc.descend hdeeper).enter kind.label name sig
      have hbody' := whole_numbered (rest.drop n) hfits ht hrest hbody
      exact .block hdeeper hop hkind hcond hheader' hbody'
termination_by 2 * sizeOf f
decreasing_by
  · exact Nat.lt_of_succ_lt (two_mul_sizeOf_drop_lt_list _ _ _ _)
  · exact Nat.lt_of_succ_lt (two_mul_sizeOf_drop_lt_list _ _ _ _)
  · exact two_mul_sizeOf_drop_lt_list _ _ _ _

/-- Operands are read as what they were. -/
theorem operands_numbered {sc : Scope} {s : NameScope} {names : Names} {t t' : TypeTable}
    {groups : List (List Instr)} (items : List Form) {items' : List Form} (hsc : sc.Fits s)
    (ht : s.spaces.types <+: t.names) (hitems : NumberedAll s names items items')
    (h : (operands sc items).run t = .ok (groups, t')) :
    (operands sc items').run t = .ok (groups, t') := by
  apply run_of_operandsAs
  cases operandsAs_of_run h with
  | nil =>
    obtain rfl := hitems.eq_nil
    exact .nil
  | @cons place inside rest _ _ _ _ hgroup hgroups =>
    obtain ⟨f', rest', rfl, hf, hrest⟩ := hitems.exists_item rfl
    obtain ⟨inside', rfl⟩ := hf.exists_list
    have hu := ht.trans (holds_of_folded invariant_grows _ hgroup).names
    exact .cons (folded_numbered (.list place inside) hsc ht hf hgroup)
      (operands_numbered rest hsc hu hrest hgroups)
termination_by 2 * sizeOf items
decreasing_by
  all_goals subst_vars
  · exact two_mul_sizeOf_head_lt _ rest
  · exact Nat.lt_of_succ_lt (two_mul_sizeOf_drop_lt _ 0 rest)

/-- The label of a conditional is in scope in its arms, and not in its condition. -/
theorem conditional_numbered {sc : Scope} {s : NameScope} {t t' : TypeTable}
    {name : Option String} {sig : ValType} {place : Span} {is : List Instr} (items : List Form)
    {items' : List Form} (hsc : sc.Fits s) (ht : s.spaces.types <+: t.names)
    (hitems : NumberedArms s (s.push name) items items')
    (h : (conditional sc name sig place items).run t = .ok (is, t')) :
    (conditional sc name sig place items').run t = .ok (is, t') := by
  have hinner := hsc.enter .ifArm name sig
  apply run_of_conditionalAs
  cases conditionalAs_of_run h with
  | one hthen hbody =>
    obtain ⟨place, head, args, args', rest', rfl, rfl, hargs, hrest⟩ :=
      hitems.exists_arm (.inl (isHeadedBy_iff.mp hthen))
    obtain rfl := hrest.eq_nil
    exact .one hthen (arm_numbered args hinner ht hargs hbody)
  | two hthen hbody hword hother helse =>
    obtain ⟨place, head, args, args', rest', rfl, rfl, hargs, hrest⟩ :=
      hitems.exists_arm (.inl (isHeadedBy_iff.mp hthen))
    obtain ⟨place', head', elseArgs, elseArgs', rest', rfl, rfl, helseArgs, hrest⟩ :=
      hrest.exists_arm (.inr hword)
    obtain rfl := hrest.eq_nil
    have hu := ht.trans (holds_of_arm invariant_grows _ hbody).names
    exact .two hthen (arm_numbered args hinner ht hargs hbody) hword hother
      (arm_numbered elseArgs (hinner.enterElse hother) hu helseArgs helse)
  | @condition f rest _ _ _ _ hthen hgroup hcheck hothers =>
    obtain ⟨-, helse, -⟩ := nested_of_folded hgroup
    have hhead : f.headKeyword? ≠ some .thenKw := fun heq => by
      rw [isHeadedBy_iff.mpr heq] at hthen
      cases hthen
    obtain ⟨f', rest', rfl, hf, hrest⟩ := hitems.exists_operand hhead helse
    have hu := ht.trans (holds_of_folded invariant_grows _ hgroup).names
    have hthen' : f'.isHeadedBy .thenKw = false := by rw [hf.isHeadedBy_eq, hthen]
    exact .condition hthen' (folded_numbered f hsc ht hf hgroup) hcheck
      (conditional_numbered rest hsc hu hrest hothers)
termination_by 2 * sizeOf items
decreasing_by
  all_goals
    subst_vars
    simp only [List.cons.sizeOf_spec, list.sizeOf_spec]
    omega

theorem arm_numbered {sc : Scope} {s : NameScope} {names : Names} {t t' : TypeTable} {place : Span}
    {head : Form} {is : List Instr} (args : List Form) {args' : List Form} (hsc : sc.Fits s)
    (ht : s.spaces.types <+: t.names) (hargs : NumberedAll s names args args')
    (h : (arm sc (.list place (head :: args))).run t = .ok (is, t')) :
    (arm sc (.list place (head :: args'))).run t = .ok (is, t') := by
  rw [arm_eq_whole] at h ⊢
  exact whole_numbered args hsc ht hargs h
termination_by 2 * sizeOf args + 2

/-- A body is read as what it was. -/
theorem whole_numbered {sc : Scope} {s : NameScope} {names : Names} {t t' : TypeTable}
    {is : List Instr} (items : List Form) {items' : List Form} (hsc : sc.Fits s)
    (ht : s.spaces.types <+: t.names) (hitems : NumberedAll s names items items')
    (h : (whole sc items).run t = .ok (is, t')) : (whole sc items').run t = .ok (is, t') := by
  obtain ⟨n, hbody, hnil⟩ := sequence_of_whole h
  obtain ⟨hbody', names', hdrop⟩ := sequence_numbered items hsc ht hitems hbody
  rw [hnil] at hdrop
  exact whole_of_sequence hbody' hdrop.eq_nil
termination_by 2 * sizeOf items + 1

end

end Body

end WasmText
