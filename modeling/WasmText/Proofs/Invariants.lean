import WasmText.Proofs.Sites

/-!
# What every step of reading a body keeps

A body is read from steps of few kinds: nothing is left, instructions follow others, a plain
instruction comes after its operands, a block holds what is read inside it, and what is folded is
read one level deeper. A relation that each of these steps keeps (`Body.Invariant`) holds of all
that the readers of a body answer, whatever mix of flat and folded instructions they are given.
-/

namespace WasmText

/-- The scope in an arm of a block: inside the label of the block, one level deeper. -/
inductive Scope.Arm (sc : Scope) (kind : BlockKind) (name : Option String) (sig : ValType) :
    Scope → Prop
  | first {span : Span} {deeper : Scope} (h : sc.descend span = .ok deeper) :
    Arm sc kind name sig (deeper.enter kind.label name sig)
  | other {span place : Span} {deeper inner : Scope} (h : sc.descend span = .ok deeper)
    (helse : (deeper.enter kind.label name sig).enterElse place = .ok inner) :
    Arm sc kind name sig inner

namespace Body

/-- A relation of instructions to the scope they are read in and to the types before and after them,
which every step of reading a body keeps. -/
structure Invariant (P : Scope → TypeTable → TypeTable → List Instr → Prop) : Prop where
  nil : ∀ sc t, P sc t t []
  append : ∀ {sc t t' t'' is is'}, P sc t t' is → P sc t' t'' is' → P sc t t'' (is ++ is')
  /-- A plain instruction is read before its operands and stands after them. -/
  plain : ∀ {sc op span items t t' t'' p n is}, BlockKind.ofOpcode? op = none →
    Plain.ReadAs sc span items t op p n t' → P sc t' t'' is → P sc t t'' (is ++ [.plain p span])
  block : ∀ {sc : Scope} {name sig n inner other span t t' t'' body elseBody}
    {items : List Form} (kind : BlockKind), Block.header items = .ok (name, sig, n) →
    sc.Arm kind name sig inner → P inner t t' body →
    sc.Arm kind name sig other → P other t' t'' elseBody →
    P sc t t'' [kind.toInstr name sig body elseBody span]
  descend : ∀ {sc deeper : Scope} {span t t' is}, sc.descend span = .ok deeper →
    P deeper t t' is → P sc t t' is

section Invariant

variable {P : Scope → TypeTable → TypeTable → List Instr → Prop}

/-! ## One lemma for each reader -/

mutual

theorem holds_of_sequence {sc : Scope} {t t' : TypeTable} {is : List Instr} {n : Nat}
    (hP : Invariant P) (items : List Form)
    (h : (sequence sc items).run t = .ok ((is, n), t')) : P sc t t' is := by
  cases sequenceAs_of_run h with
  | nil | delimiter => exact hP.nil sc t
  | @folded place inside rest _ _ _ _ _ hfront hothers =>
    have hfront := holds_of_folded hP (.list place inside) hfront
    exact hP.append hfront (holds_of_sequence hP rest hothers)
  | @block _ rest _ _ _ _ k _ _ _ _ _ hflat hothers =>
    exact hP.append (holds_of_flat hP rest hflat) (holds_of_sequence hP (rest.drop k) hothers)
  | @plain _ rest _ _ _ k _ s _ _ _ _ hkind hread hothers =>
    -- a flat instruction has no operands of its own
    have hplain := hP.plain hkind (Plain.readAs_of_read hread) (hP.nil sc s)
    exact hP.append hplain (holds_of_sequence hP (rest.drop k) hothers)
termination_by 2 * sizeOf items
decreasing_by
  all_goals subst_vars
  · exact two_mul_sizeOf_head_lt _ rest
  · exact Nat.lt_of_succ_lt (two_mul_sizeOf_drop_lt _ 0 rest)
  · exact two_mul_sizeOf_drop_lt _ 0 rest
  · exact Nat.lt_of_succ_lt (two_mul_sizeOf_drop_lt _ _ rest)
  · exact Nat.lt_of_succ_lt (two_mul_sizeOf_drop_lt _ _ rest)

theorem holds_of_flat {sc : Scope} {t t' : TypeTable} {kind : BlockKind} {place : Span}
    {i : Instr} {n : Nat} (hP : Invariant P) (items : List Form)
    (h : (flat sc kind place items).run t = .ok ((i, n), t')) :
    P sc t t' [i] := by
  obtain @⟨_, _, _, _, _, k, m, _, _, _, _, hheader, hdeeper, hbody, helse, -⟩ :=
    flatBlockAs_of_run h
  have hbody := holds_of_sequence hP (items.drop k) hbody
  obtain ⟨other, harm, helse⟩ := holds_of_otherArm hP hdeeper (items.drop (k + m)) helse
  exact hP.block _ hheader (.first hdeeper) hbody harm helse
termination_by 2 * sizeOf items + 1
decreasing_by
  all_goals exact Nat.lt_succ_of_le (Nat.mul_le_mul_left 2 (sizeOf_drop_le _ items))

/-- The other arm of a flat block; it is empty if no `else` comes. -/
theorem holds_of_otherArm {sc deeper : Scope} {t t' : TypeTable} {kind : BlockKind}
    {name : Option String} {sig : ValType} {span : Span} {is : List Instr} {n : Nat}
    (hP : Invariant P) (hdeeper : sc.descend span = .ok deeper) (items : List Form)
    (h : (otherArm (deeper.enter kind.label name sig) kind name items).run t = .ok ((is, n), t')) :
    ∃ other, sc.Arm kind name sig other ∧ P other t t' is := by
  cases otherArmAs_of_run h with
  | none => exact ⟨_, .first hdeeper, hP.nil _ t⟩
  | @arm _ rest other _ k _ _ _ _ _ hother hbody =>
    exact ⟨other, .other hdeeper hother, holds_of_sequence hP (rest.drop k) hbody⟩
termination_by 2 * sizeOf items
decreasing_by
  subst_vars
  exact Nat.lt_of_succ_lt (two_mul_sizeOf_drop_lt _ _ rest)

theorem holds_of_folded {sc : Scope} {t t' : TypeTable} {is : List Instr} (hP : Invariant P)
    (f : Form) (h : (folded sc f).run t = .ok (is, t')) : P sc t t' is := by
  match f with
  | .atom _ | .list _ [] | .list _ (.list _ _ :: _) => cases foldedAs_of_run h
  | .list place (.atom a :: rest) =>
    cases foldedAs_of_run h with
    | @plain deeper _ _ _ op p n s t' groups hdeeper hop hend helse hplain hread hgroups =>
      have hoperands := holds_of_operands hP (rest.drop n) hgroups
      exact hP.descend hdeeper (hP.plain hplain (Plain.readAs_of_read hread) hoperands)
    | @cond deeper _ _ _ op name sig n is t' hdeeper hop hcond hheader harms =>
      exact holds_of_conditional hP hheader hdeeper (rest.drop n) harms
    | @block deeper _ _ _ op kind name sig n body t' hdeeper hop hkind hcond hheader hbody =>
      have hbody := holds_of_whole hP (rest.drop n) hbody
      exact hP.block _ hheader (.first hdeeper) hbody (.first hdeeper) (hP.nil _ t')
termination_by 2 * sizeOf f
decreasing_by
  · exact Nat.lt_of_succ_lt (two_mul_sizeOf_drop_lt_list _ _ _ _)
  · exact Nat.lt_of_succ_lt (two_mul_sizeOf_drop_lt_list _ _ _ _)
  · exact two_mul_sizeOf_drop_lt_list _ _ _ _

theorem holds_of_operands {sc : Scope} {t t' : TypeTable} {groups : List (List Instr)}
    (hP : Invariant P) (items : List Form)
    (h : (operands sc items).run t = .ok (groups, t')) : P sc t t' groups.flatten := by
  cases operandsAs_of_run h with
  | nil => exact hP.nil sc t
  | @cons place inside rest _ _ _ _ hgroup hgroups =>
    rw [List.flatten_cons]
    have hgroup := holds_of_folded hP (.list place inside) hgroup
    exact hP.append hgroup (holds_of_operands hP rest hgroups)
termination_by 2 * sizeOf items
decreasing_by
  all_goals subst_vars
  · exact two_mul_sizeOf_head_lt _ rest
  · exact Nat.lt_of_succ_lt (two_mul_sizeOf_drop_lt _ 0 rest)

/-- The condition of a folded conditional is read as deep as its arms, outside of its label. -/
theorem holds_of_conditional {sc deeper : Scope} {t t' : TypeTable} {name : Option String}
    {sig : ValType} {span place : Span} {front : List Form} {is : List Instr} {n : Nat}
    (hP : Invariant P) (hheader : Block.header front = .ok (name, sig, n))
    (hdeeper : sc.descend place = .ok deeper) (items : List Form)
    (h : (conditional deeper name sig span items).run t = .ok (is, t')) :
    P sc t t' is := by
  cases conditionalAs_of_run h with
  | @one f _ _ _ hbody =>
    have hbody := holds_of_arm hP f hbody
    exact hP.block .cond hheader (.first hdeeper) hbody (.first hdeeper) (hP.nil _ t')
  | @two f g _ _ _ _ _ _ hbody _ hother helse =>
    have hbody := holds_of_arm hP f hbody
    have helse := holds_of_arm hP g helse
    exact hP.block .cond hheader (.first hdeeper) hbody (.other hdeeper hother) helse
  | @condition f rest _ _ _ _ _ hgroup _ hothers =>
    have hgroup := hP.descend hdeeper (holds_of_folded hP f hgroup)
    exact hP.append hgroup (holds_of_conditional hP hheader hdeeper rest hothers)
termination_by 2 * sizeOf items
decreasing_by
  all_goals subst_vars
  · exact two_mul_sizeOf_head_lt _ _
  · exact two_mul_sizeOf_head_lt _ _
  · exact two_mul_sizeOf_second_lt _ _ _
  · exact two_mul_sizeOf_head_lt _ rest
  · exact Nat.lt_of_succ_lt (two_mul_sizeOf_drop_lt _ 0 rest)

theorem holds_of_arm {sc : Scope} {t t' : TypeTable} {is : List Instr} (hP : Invariant P)
    (f : Form) (h : (arm sc f).run t = .ok (is, t')) : P sc t t' is := by
  rw [arm_eq_whole] at h
  exact holds_of_whole hP f.args h
termination_by 2 * sizeOf f
decreasing_by exact two_mul_sizeOf_args_lt f

/-- An invariant holds of every body that is read. -/
theorem holds_of_whole {sc : Scope} {t t' : TypeTable} {is : List Instr} (hP : Invariant P)
    (items : List Form) (h : (whole sc items).run t = .ok (is, t')) : P sc t t' is := by
  obtain ⟨n, hbody, -⟩ := sequence_of_whole h
  exact holds_of_sequence hP items hbody
termination_by 2 * sizeOf items + 1

end

end Invariant

end Body

end WasmText
