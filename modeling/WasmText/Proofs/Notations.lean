import WasmText.Proofs.FlatRows
import WasmText.Proofs.Sites

/-!
# Folded and flat notation agree

`Body.whole_unfold` says that a body is accepted without its folded instructions wherever it is with
them, and comes to the same instructions but for their spans. There is a lemma for each reader of
bodies: what it takes comes to the same once it is unfolded. A folded instruction resolves its
immediates before its operands and a flat one after them, which is the same as long as no type is
added in between.
-/

namespace WasmText

open Form

/-! ## Types that are named -/

/-- An indirect call that names its type adds none. -/
theorem Immediate.IndirectType.keeps {span : Span} {items : List Form} {t t' : TypeTable}
    {type n : Nat} (h : IndirectType span items t type n t') (hnamed : namesType items = true) :
    t' = t := by
  obtain ⟨f, hhead, hf⟩ := (Option.any_eq_true _ _).mp hnamed
  cases h with
  | reference => rfl
  | use hnone h =>
    cases h with
    | explicit => rfl
    | implicit hexplicit =>
      -- a reference would have been taken, and a `(type …)` names the type
      rcases Bool.or_eq_true_iff.mp hf with href | htype
      · rw [hhead, Option.filter_some_pos href] at hnone
        cases hnone
      · rw [TypeUse.explicit?_eq_none_iff.mp hexplicit f hhead] at htype
        cases htype

theorem Plain.ReadAs.keeps {sc : Scope} {span : Span} {items : List Form} {t t' : TypeTable}
    {op : Opcode} {p : Plain} {n : Nat} (h : ReadAs sc span items t op p n t')
    (hnamed : op = .callIndirect → namesType items = true) : t' = t := by
  cases h with
  | callIndirect h => exact h.keeps (hnamed rfl)
  | _ => rfl

namespace Body

/-! ## One lemma for each reader -/

/-- A folded instruction is headed by a word that is not `else`. -/
theorem nested_of_folded {sc : Scope} {t t' : TypeTable} {f : Form} {is : List Instr}
    (h : (folded sc f).run t = .ok (is, t')) :
    f.isHeadedBy .thenKw = false ∧ f.headOpcode? ≠ some .elseOp ∧ f.isNested = true := by
  obtain ⟨op, hhead, helse⟩ := exists_headOpcode?_of_folded h
  refine ⟨isHeadedBy_of_headOpcode? hhead .thenKw, ?_, ?_⟩
  · rwa [hhead, ne_eq, Option.some.injEq]
  · rw [isNested, hhead]
    rfl

mutual

/-- What a sequence takes comes to the same if it is unfolded. -/
theorem flatAs_of_sequence {sc : Scope} {t t' : TypeTable} (items : List Form) {is : List Instr}
    {n : Nat} (hnamed : typesNamedAll items = true)
    (h : (sequence sc items).run t = .ok ((is, n), t')) :
    t' = t ∧ n ≤ items.length ∧ FlatAs sc t (unfoldAll (items.take n)) is := by
  cases sequenceAs_of_run h with
  | nil | delimiter => exact ⟨rfl, Nat.zero_le _, .nil sc t⟩
  | @folded place inside rest _ _ _ _ _ hfront hothers =>
    obtain ⟨-, hinside, hrest⟩ := typesNamedAll_cons.mp hnamed
    obtain ⟨rfl, hfolded⟩ := flatAs_of_folded (.list place inside) hinside hfront
    obtain ⟨rfl, hm, hflat⟩ := flatAs_of_sequence rest hrest hothers
    refine ⟨rfl, Nat.succ_le_succ hm, ?_⟩
    rw [List.take_succ_cons, unfoldAll]
    exact hfolded.append hflat
  | @block _ rest _ _ _ _ k _ _ _ hop hkind hblock hothers =>
    obtain ⟨-, -, hrest⟩ := typesNamedAll_cons.mp hnamed
    obtain ⟨rfl, hk, hblock⟩ := flatAs_of_flat rest hrest hop hkind hblock
    obtain ⟨rfl, hm, hflat⟩ :=
      flatAs_of_sequence (rest.drop k) (typesNamedAll_drop hrest k) hothers
    rw [List.length_drop] at hm
    refine ⟨rfl, Nat.succ_le_succ (by omega), ?_⟩
    rw [List.take_succ_cons, List.take_add, unfoldAll, unfoldAll_append]
    exact hblock.append hflat
  | @plain _ rest _ _ _ k _ _ _ hop hend helse hkind hread hothers =>
    obtain ⟨hcall, -, hrest⟩ := typesNamedAll_cons.mp hnamed
    rw [opcode?_of_kind hop] at hcall
    have hread := Plain.readAs_of_read hread
    obtain rfl := hread.keeps fun hop => hcall (congrArg some hop)
    obtain ⟨rfl, hm, hflat⟩ :=
      flatAs_of_sequence (rest.drop k) (typesNamedAll_drop hrest k) hothers
    have hk := hread.unnestedTake.le_length
    rw [List.length_drop] at hm
    refine ⟨rfl, Nat.succ_le_succ (by omega), ?_⟩
    rw [List.take_succ_cons, List.take_add, unfoldAll, unfoldAll_append,
      hread.unnestedTake.unfoldAll_take]
    exact (FlatAs.plain hop hend helse hkind hread).append hflat
termination_by 2 * sizeOf items
decreasing_by
  all_goals subst_vars
  · exact two_mul_sizeOf_head_lt _ rest
  · exact Nat.lt_of_succ_lt (two_mul_sizeOf_drop_lt _ 0 rest)
  · exact two_mul_sizeOf_drop_lt _ 0 rest
  · exact Nat.lt_of_succ_lt (two_mul_sizeOf_drop_lt _ _ rest)
  · exact Nat.lt_of_succ_lt (two_mul_sizeOf_drop_lt _ _ rest)

theorem flatAs_of_flat {sc : Scope} {t t' : TypeTable} {a : Token} {op : Opcode}
    {kind : BlockKind} {place : Span} (items : List Form) {i : Instr} {n : Nat}
    (hnamed : typesNamedAll items = true) (hop : a.kind = .opcode op)
    (hkind : BlockKind.ofOpcode? op = some kind)
    (h : (flat sc kind place items).run t = .ok ((i, n), t')) :
    t' = t ∧ n ≤ items.length ∧ FlatAs sc t (.atom a :: unfoldAll (items.take n)) [i] := by
  obtain @⟨_, _, _, _, _, k, m, j, last, _, _, hheader, hdeeper, hbody, helse, hlast⟩ :=
    flatBlockAs_of_run h
  obtain ⟨rfl, hm, hbody⟩ :=
    flatAs_of_sequence (items.drop k) (typesNamedAll_drop hnamed k) hbody
  obtain ⟨rfl, hj, hother⟩ :=
    otherAs_of_otherArm (items.drop (k + m)) (typesNamedAll_drop hnamed _) helse
  have htakeHeader := Block.unnestedTake_of_header hheader
  have htakeLast := Block.unnestedTake_of_flatEnd hlast
  have hk := htakeHeader.le_length
  have hend := htakeLast.le_length
  rw [List.length_drop] at hm hj hend
  refine ⟨rfl, by omega, ?_⟩
  -- header, body, other arm and end take the forms one after the other
  have hall : unfoldAll (items.take (k + m + j + last)) =
      items.take k ++ (unfoldAll ((items.drop k).take m) ++
        (unfoldAll ((items.drop (k + m)).take j) ++ (items.drop (k + m + j)).take last)) := by
    simp only [List.take_add, unfoldAll_append, List.append_assoc, htakeHeader.unfoldAll_take,
      htakeLast.unfoldAll_take]
  rw [hall]
  exact .block hop hkind (header_take hheader) hdeeper hbody hother (endFirst_take hlast)
    (flatEnd_take hlast a.span)
termination_by 2 * sizeOf items + 1
decreasing_by
  all_goals exact Nat.lt_succ_of_le (Nat.mul_le_mul_left 2 (sizeOf_drop_le _ items))

theorem otherAs_of_otherArm {sc : Scope} {t t' : TypeTable} {kind : BlockKind}
    {name : Option String} (items : List Form) {is : List Instr} {n : Nat}
    (hnamed : typesNamedAll items = true)
    (h : (otherArm sc kind name items).run t = .ok ((is, n), t')) :
    t' = t ∧ n ≤ items.length ∧ OtherAs sc kind name t (unfoldAll (items.take n)) is := by
  cases otherArmAs_of_run h with
  | none => exact ⟨rfl, Nat.zero_le _, .none sc kind name t⟩
  | @arm f rest _ _ k m _ hcond hword hlabel hother hbody =>
    obtain rfl := hcond
    obtain ⟨-, -, hrest⟩ := typesNamedAll_cons.mp hnamed
    obtain ⟨rfl, hm, hbody⟩ :=
      flatAs_of_sequence (rest.drop k) (typesNamedAll_drop hrest k) hbody
    have htake := Block.unnestedTake_of_repeatedLabel hlabel
    have hk := htake.le_length
    have hunfold : f.unfold = [f] := unfold_of_not_nested (not_nested_of_isSome (by simp [hword]))
    have hall : unfoldAll ((f :: rest).take (1 + k + m)) =
        f :: (rest.take k ++ unfoldAll ((rest.drop k).take m)) := by
      rw [Nat.add_assoc, Nat.add_comm, List.take_succ_cons, List.take_add, unfoldAll,
        unfoldAll_append, hunfold, htake.unfoldAll_take]
      rfl
    rw [List.length_drop] at hm
    rw [List.length_cons, hall]
    exact ⟨rfl, by omega, .elseArm hword (repeatedLabel_take hlabel) hother hbody⟩
termination_by 2 * sizeOf items
decreasing_by
  subst_vars
  exact Nat.lt_of_succ_lt (two_mul_sizeOf_drop_lt _ _ rest)

theorem flatAs_of_folded {sc : Scope} {t t' : TypeTable} (f : Form) {is : List Instr}
    (hnamed : f.typesNamed = true) (h : (folded sc f).run t = .ok (is, t')) :
    t' = t ∧ FlatAs sc t f.unfold is := by
  match f with
  | .atom _ | .list _ [] | .list _ (.list _ _ :: _) => cases foldedAs_of_run h
  | .list place (.atom a :: rest) =>
    obtain ⟨hcall, -, hrest⟩ := typesNamedAll_cons.mp hnamed
    cases foldedAs_of_run h with
    | @plain deeper _ _ _ op p n s t' groups hdeeper hop hend helse hplain hread hgroups =>
      rw [opcode?_of_kind hop] at hcall
      have hread := Plain.readAs_of_read hread
      obtain rfl := hread.keeps fun hop => hcall (congrArg some hop)
      obtain ⟨rfl, hnested, hoperands⟩ :=
        flatAs_of_operands (rest.drop n) (typesNamedAll_drop hrest n) hgroups
      have htake := hread.unnestedTake
      have hword := FlatAs.plain hop hend helse hplain hread
      -- no operand is among the immediates, so what follows them has all of the operands
      rw [htake.unfoldOperands_drop] at hoperands
      rw [unfold_list hop place rest, hplain, htake.immediates_eq hnested]
      exact ⟨rfl, (hoperands.append hword).mono (Scope.shallower_of_descend hdeeper)⟩
    | @cond deeper _ _ _ op name sig n is t' hdeeper hop hcond hheader harms =>
      obtain ⟨rfl, hnested, hflat⟩ := flatAs_of_conditional (rest.drop n) place
        (typesNamedAll_drop hrest n) hop hcond (header_take hheader) hdeeper harms
      have htake := Block.unnestedTake_of_header hheader
      rw [htake.unfoldOperands_drop, htake.unfoldArms_drop] at hflat
      rw [unfold_list hop place rest, hcond, htake.immediates_eq hnested, List.append_assoc]
      exact ⟨rfl, hflat⟩
    | @block deeper _ _ _ op kind name sig n body t' hdeeper hop hkind hcond hheader hbody =>
      obtain ⟨rfl, hbody⟩ := flatAs_of_whole (rest.drop n) (typesNamedAll_drop hrest n) hbody
      have htake := Block.unnestedTake_of_header hheader
      have hall : unfoldAll rest = rest.take n ++ unfoldAll (rest.drop n) := by
        rw [← htake.unfoldAll_take, ← unfoldAll_append, List.take_append_drop]
      have hblock : FlatAs sc _
          (.atom a :: (rest.take n ++ (unfoldAll (rest.drop n) ++ ([] ++ [endWord place]))))
          [kind.toInstr name sig body [] place] :=
        .block hop hkind (header_take hheader) hdeeper hbody (.none _ kind name _)
          (endFirst_endWord place) (flatEnd_endWord name a.span place)
      rw [unfold_list hop place rest, hkind]
      split
      · contradiction
      · next heq => exact absurd (Option.some.inj heq) hcond
      · rw [hall, List.append_assoc]
        exact ⟨rfl, hblock⟩
termination_by 2 * sizeOf f
decreasing_by
  · exact Nat.lt_of_succ_lt (two_mul_sizeOf_drop_lt_list _ _ _ _)
  · exact Nat.lt_of_succ_lt (two_mul_sizeOf_drop_lt_list _ _ _ _)
  · exact two_mul_sizeOf_drop_lt_list _ _ _ _

/-- Operands are lists that instructions stand in. -/
theorem flatAs_of_operands {sc : Scope} {t t' : TypeTable} (items : List Form)
    {groups : List (List Instr)} (hnamed : typesNamedAll items = true)
    (h : (operands sc items).run t = .ok (groups, t')) :
    t' = t ∧ (∀ f ∈ items.head?, f.isNested = true) ∧
      FlatAs sc t (unfoldOperands items) groups.flatten := by
  cases operandsAs_of_run h with
  | nil => exact ⟨rfl, by simp, .nil sc t⟩
  | @cons place inside rest _ _ _ _ hgroup hgroups =>
    obtain ⟨-, hinside, hrest⟩ := typesNamedAll_cons.mp hnamed
    obtain ⟨hthen, -, hnested⟩ := nested_of_folded hgroup
    obtain ⟨rfl, hfolded⟩ := flatAs_of_folded (.list place inside) hinside hgroup
    obtain ⟨rfl, -, hothers⟩ := flatAs_of_operands rest hrest hgroups
    refine ⟨rfl, fun f hf => Option.some.inj hf ▸ hnested, ?_⟩
    rw [unfoldOperands, hthen, hnested, List.flatten_cons]
    exact hfolded.append hothers
termination_by 2 * sizeOf items
decreasing_by
  all_goals subst_vars
  · exact two_mul_sizeOf_head_lt _ rest
  · exact Nat.lt_of_succ_lt (two_mul_sizeOf_drop_lt _ 0 rest)

/-- A conditional comes out behind its condition, where its word goes. -/
theorem flatAs_of_conditional {sc deeper : Scope} {t t' : TypeTable} {a : Token} {op : Opcode}
    {name : Option String} {sig : ValType} {place : Span} {header : List Form} (items : List Form)
    (span : Span) {is : List Instr} (hnamed : typesNamedAll items = true)
    (hop : a.kind = .opcode op) (hkind : BlockKind.ofOpcode? op = some .cond)
    (hheader : ∀ tail, WordFirst tail →
      Block.header (header ++ tail) = .ok (name, sig, header.length))
    (hdeeper : sc.descend place = .ok deeper)
    (h : (conditional deeper name sig place items).run t = .ok (is, t')) :
    t' = t ∧ (∀ f ∈ items.head?, f.isNested = true) ∧
      FlatAs sc t
        (unfoldOperands items ++ .atom a :: (header ++ (unfoldArms items ++ [endWord span])))
        is := by
  -- from the `then` form on, the arms are those of a block
  have hblock {f : Form} {s : TypeTable} {body elseBody : List Instr} {other : List Form}
      (hbody : FlatAs (deeper.enter .ifArm name sig) s (unfoldAll f.args) body)
      (hother : OtherAs (deeper.enter .ifArm name sig) .cond name s other elseBody) :
      FlatAs sc s (.atom a :: (header ++ (unfoldAll f.args ++ (other ++ [endWord span]))))
        [.cond name sig body elseBody place] :=
    .block hop hkind hheader hdeeper hbody hother (endFirst_endWord span)
      (flatEnd_endWord name a.span span)
  have hnested {f : Form} (hthen : f.isHeadedBy .thenKw = true) : f.isNested = true := by
    rw [isNested, hthen, Bool.or_true]
  cases conditionalAs_of_run h with
  | @one f _ _ hthen hbody =>
    obtain ⟨-, hf, -⟩ := typesNamedAll_cons.mp hnamed
    obtain ⟨rfl, hbody⟩ := flatAs_of_arm f hf hbody
    refine ⟨rfl, fun g hg => Option.some.inj hg ▸ hnested hthen, ?_⟩
    rw [unfoldOperands, if_pos hthen, unfoldArms_then hthen, List.nil_append, List.append_assoc]
    exact hblock hbody (.none _ .cond name _)
  | @two f g _ _ _ _ _ hthen hbody hword hother helse =>
    obtain ⟨-, hf, hrest⟩ := typesNamedAll_cons.mp hnamed
    obtain ⟨-, hg, -⟩ := typesNamedAll_cons.mp hrest
    obtain ⟨rfl, hbody⟩ := flatAs_of_arm f hf hbody
    obtain ⟨rfl, helse⟩ := flatAs_of_arm g hg helse
    obtain ⟨head, hhead, hwords⟩ := unfoldArms_else hword
    have hlabel : ∀ tail, WordFirst tail →
        Block.repeatedLabel name ([] ++ tail) = .ok (List.length ([] : List Form)) :=
      fun tail htail => repeatedLabel_of_wordFirst name htail
    refine ⟨rfl, fun g hg => Option.some.inj hg ▸ hnested hthen, ?_⟩
    rw [unfoldOperands, if_pos hthen, unfoldArms_then hthen, List.nil_append, List.append_assoc,
      hwords, unfoldArms, List.append_nil]
    exact hblock hbody (.elseArm hhead hlabel hother helse)
  | @condition f rest _ _ _ _ hthen hgroup _ hothers =>
    -- part of the condition, which is outside the label of the conditional
    obtain ⟨-, hf, hrest⟩ := typesNamedAll_cons.mp hnamed
    obtain ⟨hnone, helse, hnested⟩ := nested_of_folded hgroup
    obtain ⟨rfl, hfolded⟩ := flatAs_of_folded f hf hgroup
    obtain ⟨rfl, -, hrest⟩ :=
      flatAs_of_conditional rest span hrest hop hkind hheader hdeeper hothers
    refine ⟨rfl, fun g hg => Option.some.inj hg ▸ hnested, ?_⟩
    rw [unfoldOperands, if_neg (Bool.eq_false_iff.mp hthen), if_pos hnested,
      unfoldArms_cons hnone helse, List.append_assoc]
    exact (hfolded.mono (Scope.shallower_of_descend hdeeper)).append hrest
termination_by 2 * sizeOf items
decreasing_by
  all_goals subst_vars
  · exact two_mul_sizeOf_head_lt _ _
  · exact two_mul_sizeOf_head_lt _ _
  · exact two_mul_sizeOf_second_lt _ _ _
  · exact two_mul_sizeOf_head_lt _ rest
  · exact Nat.lt_of_succ_lt (two_mul_sizeOf_drop_lt _ 0 rest)

theorem flatAs_of_arm {sc : Scope} {t t' : TypeTable} (f : Form) {is : List Instr}
    (hnamed : f.typesNamed = true) (h : (arm sc f).run t = .ok (is, t')) :
    t' = t ∧ FlatAs sc t (unfoldAll f.args) is := by
  rw [arm_eq_whole] at h
  exact flatAs_of_whole f.args (typesNamedAll_args hnamed) h
termination_by 2 * sizeOf f
decreasing_by exact two_mul_sizeOf_args_lt f

/-- A whole body comes to the same if it is unfolded. -/
theorem flatAs_of_whole {sc : Scope} {t t' : TypeTable} (items : List Form) {is : List Instr}
    (hnamed : typesNamedAll items = true) (h : (whole sc items).run t = .ok (is, t')) :
    t' = t ∧ FlatAs sc t (unfoldAll items) is := by
  obtain ⟨n, hbody, hnil⟩ := sequence_of_whole h
  obtain ⟨rfl, -, hflat⟩ := flatAs_of_sequence items hnamed hbody
  rw [List.take_of_length_le (List.drop_eq_nil_iff.mp hnil)] at hflat
  exact ⟨rfl, hflat⟩
termination_by 2 * sizeOf items + 1

end

/-! ## Whole bodies -/

theorem Flat.run_whole {sc : Scope} {t : TypeTable} {items : List Form} {is : List Instr}
    (h : Flat sc t items is) : (whole sc items).run t = .ok (is, t) := by
  have hstop : (sequence sc []).run t = .ok (([], 0), t) := by
    rw [sequence]
    rfl
  have hrun := h.run wordFirst_nil hstop
  rw [List.append_nil, List.append_nil, Nat.add_zero] at hrun
  rw [whole, Success.run_bind hrun]
  dsimp only
  rw [List.drop_length]
  rfl

/-- A body whose indirect calls name their types is accepted if it is unfolded, where it leaves no
folded instruction, and comes to the same instructions but for their spans. -/
theorem whole_unfold {sc : Scope} {t t' : TypeTable} {items : List Form} {body : List Instr}
    (hnamed : typesNamedAll items = true) (h : (whole sc items).run t = .ok (body, t')) :
    Unfolded (unfoldAll items) ∧
      ∃ flat, (whole sc (unfoldAll items)).run t = .ok (flat, t') ∧
        Instr.unspannedAll flat = Instr.unspannedAll body := by
  obtain ⟨rfl, hflat⟩ := flatAs_of_whole items hnamed h
  obtain ⟨flat, hrun, hsame⟩ := hflat sc (.refl sc)
  exact ⟨unfolded_unfoldAll items, flat, hrun.run_whole, hsame⟩

/-- A body in both notations: a folded conditional in a flat block, with a branch to the label of
each, and a call that names its type. -/
theorem whole_unfold_mixed :
    let src : Source := ⟨"t", "(func block $a (result i32)
      (if $b (get_local 0) (then i32.const 1 br $a) (else (br $b)))
      (call_indirect (type $t) (i32.const 3)) end $a drop)"⟩
    let items := (Reader.ofSource src).readCommand.1.flatMap Form.args
    let sc : Scope := ⟨⟨[some "t"], [], [], [], []⟩, [none], Labels.ofFunction .void, 0⟩
    let t : TypeTable := ⟨[some "t"], [⟨[.i32], [.i32]⟩]⟩
    typesNamedAll items = true ∧ ∃ body t', (whole sc items).run t = .ok (body, t') ∧
      Unfolded (unfoldAll items) ∧ ∃ flat, (whole sc (unfoldAll items)).run t = .ok (flat, t') ∧
        Instr.unspannedAll flat = Instr.unspannedAll body := by
  intro src items sc t
  have haccepted : typesNamedAll items = true ∧ ((whole sc items).run t).isOk = true := by
    decide +kernel
  obtain ⟨hnamed, hok⟩ := haccepted
  match hrun : (whole sc items).run t with
  | .ok (body, t') => exact ⟨hnamed, body, t', rfl, whole_unfold hnamed hrun⟩
  | .error _ =>
    rw [hrun] at hok
    cases hok

end Body

end WasmText
