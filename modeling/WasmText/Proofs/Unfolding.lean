import WasmText.Form.Reader
import WasmText.Proofs.Locality

/-!
# Bodies without folded instructions

`Form.unfoldAll` writes a body without folded instructions: an operand goes before the word of its
instruction, a condition before its `if`, and a block or conditional ends at an `end` of its own.
What it comes to is compared by `Instr.unspanned`, for which no span is told from another.

Types have to be named where calls are indirect (`Form.typesNamedAll`): a call that writes out the
signature alone adds it to the types, and it does so before its operands if it is folded, and after
them if it is not.
-/

namespace WasmText

/-! ## Instructions without spans -/

namespace Instr

mutual

/-- The instruction with no span told from another. -/
def unspanned : Instr → Instr
  | plain op _ => plain op .origin
  | block label sig body _ => block label sig (unspannedAll body) .origin
  | loop label sig body _ => loop label sig (unspannedAll body) .origin
  | cond label sig thenBody elseBody _ =>
    cond label sig (unspannedAll thenBody) (unspannedAll elseBody) .origin

def unspannedAll : List Instr → List Instr
  | [] => []
  | i :: is => unspanned i :: unspannedAll is

end

/-- The instructions of a block without spans are those of the block, each without spans. -/
theorem unspannedAll_eq_map (is : List Instr) : unspannedAll is = is.map unspanned := by
  induction is with
  | nil => rfl
  | cons i is ih => rw [unspannedAll, ih, List.map_cons]

theorem unspannedAll_append (is js : List Instr) :
    unspannedAll (is ++ js) = unspannedAll is ++ unspannedAll js := by
  simp only [unspannedAll_eq_map, List.map_append]

end Instr

/-- A block without spans has a body without spans. -/
theorem BlockKind.unspanned_toInstr (kind : BlockKind) (name : Option String) (sig : ValType)
    (body elseBody : List Instr) (span : Span) :
    (kind.toInstr name sig body elseBody span).unspanned =
      kind.toInstr name sig (Instr.unspannedAll body) (Instr.unspannedAll elseBody) .origin := by
  cases kind <;> rfl

/-! ## Unfolding -/

namespace Form

/-- The word that ends a flat block. -/
def endWord (span : Span) : Form := .atom ⟨.opcode .endOp, ⟨"end", span.start⟩, span⟩

/-- The immediates of a folded instruction, or the header of a folded conditional. -/
def immediates (args : List Form) : List Form := args.takeWhile (!·.isNested)

mutual

/-- A form of a body without folded instructions. -/
def unfold : Form → List Form
  | .list span (.atom ⟨.opcode op, text, place⟩ :: args) =>
    match BlockKind.ofOpcode? op with
    | none => unfoldOperands args ++ .atom ⟨.opcode op, text, place⟩ :: immediates args
    | some .cond =>
      unfoldOperands args ++ .atom ⟨.opcode op, text, place⟩ ::
        (immediates args ++ unfoldArms args ++ [endWord span])
    | some _ => .atom ⟨.opcode op, text, place⟩ :: (unfoldAll args ++ [endWord span])
  | f => [f]

/-- Some forms of a body without folded instructions. -/
def unfoldAll : List Form → List Form
  | [] => []
  | f :: fs => unfold f ++ unfoldAll fs

/-- The operands of an instruction, or the condition in front of the arms of a conditional. -/
def unfoldOperands : List Form → List Form
  | [] => []
  | f :: fs =>
    if f.isHeadedBy .thenKw then []
    else if f.isNested then unfold f ++ unfoldOperands fs
    else unfoldOperands fs

/-- The arms of a conditional, the other one after its `else`. -/
def unfoldArms : List Form → List Form
  | [] => []
  | .list _ (head :: body) :: fs =>
    if head.keyword? = some .thenKw then unfoldAll body ++ unfoldArms fs
    else if head.opcode? = some .elseOp then head :: (unfoldAll body ++ unfoldArms fs)
    else unfoldArms fs
  | _ :: fs => unfoldArms fs

end

example :
    let src : Source := ⟨"t", "(if $l (nop) (then (drop)) (else))"⟩
    textAll (unfoldAll (Reader.ofSource src).readCommand.1) = "nop if $l drop else end" := by
  decide +kernel

/-- Whether a reference or a `(type …)` comes first. -/
def namesType (args : List Form) : Bool :=
  args.head?.any fun f => f.isReference || f.isHeadedBy .typeKw

mutual

/-- Whether all indirect calls in a form name their types. -/
def typesNamed : Form → Bool
  | .atom _ => true
  | .list _ items => typesNamedAll items

/-- Whether all indirect calls among some forms name their types. -/
def typesNamedAll : List Form → Bool
  | [] => true
  | f :: fs =>
    (f.opcode? != some .callIndirect || namesType fs) && f.typesNamed && typesNamedAll fs

end

end Form

open Form

namespace Form

variable {f : Form} {fs gs items : List Form} {n : Nat}

/-- Forms one after the other are unfolded one after the other. -/
theorem unfoldAll_append (fs gs : List Form) :
    unfoldAll (fs ++ gs) = unfoldAll fs ++ unfoldAll gs := by
  induction fs with
  | nil => rfl
  | cons f fs ih => rw [List.cons_append, unfoldAll, unfoldAll, ih, List.append_assoc]

/-- The word of a folded instruction goes behind its operands. -/
theorem unfold_list {a : Token} {op : Opcode} (hop : a.kind = .opcode op) (span : Span)
    (args : List Form) :
    unfold (.list span (.atom a :: args)) =
      match BlockKind.ofOpcode? op with
      | none => unfoldOperands args ++ .atom a :: immediates args
      | some .cond =>
        unfoldOperands args ++ .atom a :: (immediates args ++ unfoldArms args ++ [endWord span])
      | some _ => .atom a :: (unfoldAll args ++ [endWord span]) := by
  obtain ⟨kind, text, place⟩ := a
  obtain rfl : kind = .opcode op := hop
  rw [unfold]

/-- What holds no instructions stays as it is. -/
theorem unfold_of_not_nested (h : f.isNested = false) : f.unfold = [f] := by
  rw [unfold.eq_def]
  split
  · cases h
  · rfl

/-- What holds no instructions is unfolded to itself. -/
theorem unfoldAll_of_not_nested (h : ∀ f ∈ fs, f.isNested = false) : unfoldAll fs = fs := by
  induction fs with
  | nil => rfl
  | cons f fs ih =>
    rw [unfoldAll, unfold_of_not_nested (h f List.mem_cons_self),
      ih fun g hg => h g (List.mem_cons_of_mem _ hg)]
    rfl

theorem UnnestedTake.unfoldAll_take (h : UnnestedTake n items) :
    unfoldAll (items.take n) = items.take n :=
  unfoldAll_of_not_nested h.not_nested

/-- The immediates are what is taken, if something that holds instructions comes next. -/
theorem UnnestedTake.immediates_eq (h : UnnestedTake n items)
    (hrest : ∀ f ∈ (items.drop n).head?, f.isNested = true) :
    immediates items = items.take n := by
  have htake : ∀ f ∈ items.take n, (!f.isNested) = true := by
    intro f hf
    rw [h.not_nested f hf]
    rfl
  have hdrop : (items.drop n).takeWhile (!·.isNested) = [] := by
    cases hd : items.drop n with
    | nil => rfl
    | cons f rest =>
      rw [hd] at hrest
      rw [List.takeWhile_cons, hrest f rfl]
      rfl
  calc immediates items
      = (items.take n ++ items.drop n).takeWhile (!·.isNested) := by
        rw [List.take_append_drop, immediates]
    _ = items.take n ++ (items.drop n).takeWhile (!·.isNested) :=
        List.takeWhile_append_of_pos htake
    _ = items.take n := by rw [hdrop, List.append_nil]

theorem not_isHeadedBy_of_not_nested (h : f.isNested = false) : f.isHeadedBy .thenKw = false := by
  rw [isNested, Bool.or_eq_false_iff] at h
  exact h.2

/-- What holds no instructions is no operand. -/
theorem unfoldOperands_cons (h : f.isNested = false) (fs : List Form) :
    unfoldOperands (f :: fs) = unfoldOperands fs := by
  rw [unfoldOperands, not_isHeadedBy_of_not_nested h, h]
  rfl

/-- What is no arm does not count among the arms. -/
theorem unfoldArms_cons (hthen : f.isHeadedBy .thenKw = false)
    (helse : f.headOpcode? ≠ some .elseOp) (fs : List Form) :
    unfoldArms (f :: fs) = unfoldArms fs := by
  match f with
  | .atom _ => rw [unfoldArms]; simp
  | .list _ [] => rw [unfoldArms]; simp
  | .list _ (head :: body) =>
    have hhead : head.keyword? ≠ some .thenKw := by
      intro hhead
      simp [isHeadedBy, headKeyword?, hhead] at hthen
    have hother : head.opcode? ≠ some .elseOp := helse
    rw [unfoldArms, if_neg hhead, if_neg hother]

/-- A `then` is unfolded to its items. -/
theorem unfoldArms_then (h : f.isHeadedBy .thenKw = true) (fs : List Form) :
    unfoldArms (f :: fs) = unfoldAll f.args ++ unfoldArms fs := by
  match f with
  | .atom _ => cases h
  | .list _ [] => cases h
  | .list _ (head :: body) =>
    have hhead : head.keyword? = some .thenKw := isHeadedBy_iff.mp h
    rw [unfoldArms, if_pos hhead]
    rfl

/-- The word of an `else` form stays in front of what it holds. -/
theorem unfoldArms_else (h : f.headOpcode? = some .elseOp) :
    ∃ head, head.opcode? = some .elseOp ∧
      ∀ fs, unfoldArms (f :: fs) = head :: (unfoldAll f.args ++ unfoldArms fs) := by
  match f with
  | .atom _ => cases h
  | .list _ [] => cases h
  | .list _ (.list _ _ :: _) => cases h
  | .list _ (.atom ⟨kind, text, span⟩ :: body) =>
    obtain rfl : kind = .opcode .elseOp := by
      cases kind with
      | opcode op => rw [Option.some.inj h]
      | _ => cases h
    refine ⟨.atom ⟨.opcode .elseOp, text, span⟩, rfl, fun fs => ?_⟩
    rw [unfoldArms]
    rfl

/-- The operands are found behind the immediates. -/
theorem UnnestedTake.unfoldOperands_drop (h : UnnestedTake n items) :
    unfoldOperands (items.drop n) = unfoldOperands items := by
  obtain ⟨-, h⟩ := h
  induction n generalizing items with
  | zero => rfl
  | succ n ih =>
    cases items with
    | nil => rfl
    | cons f items =>
      rw [List.take_succ_cons, List.forall_mem_cons] at h
      rw [List.drop_succ_cons, ih h.2, unfoldOperands_cons h.1]

/-- The arms are found behind the header. -/
theorem UnnestedTake.unfoldArms_drop (h : UnnestedTake n items) :
    unfoldArms (items.drop n) = unfoldArms items := by
  obtain ⟨-, h⟩ := h
  induction n generalizing items with
  | zero => rfl
  | succ n ih =>
    cases items with
    | nil => rfl
    | cons f items =>
      rw [List.take_succ_cons, List.forall_mem_cons] at h
      have helse : f.headOpcode? ≠ some .elseOp := by
        intro hhead
        have hnested := h.1
        rw [isNested, hhead] at hnested
        cases hnested
      rw [List.drop_succ_cons, ih h.2, unfoldArms_cons (not_isHeadedBy_of_not_nested h.1) helse]

/-- None of some forms is a folded instruction. -/
def Unfolded (fs : List Form) : Prop := ∀ f ∈ fs, f.headOpcode? = none

theorem unfolded_nil : Unfolded [] := by simp [Unfolded]

theorem Unfolded.cons_atom (h : Unfolded fs) (t : Token) : Unfolded (.atom t :: fs) :=
  List.forall_mem_cons.mpr ⟨rfl, h⟩

theorem Unfolded.append (h : Unfolded fs) (h' : Unfolded gs) : Unfolded (fs ++ gs) :=
  List.forall_mem_append.mpr ⟨h, h'⟩

/-- Immediates hold no instructions, so there is nothing to unfold. -/
theorem unfolded_immediates (args : List Form) : Unfolded (immediates args) := by
  intro f hf
  have hnested := List.mem_takeWhile_imp hf
  simp only [isNested, Bool.not_or, Bool.and_eq_true, Bool.not_eq_true', Option.isSome_eq_false_iff,
    Option.isNone_iff_eq_none] at hnested
  exact hnested.1

theorem unfolded_endWord (span : Span) : Unfolded [endWord span] := unfolded_nil.cons_atom _

/-- No folded instruction is left by unfolding. -/
theorem unfolded_unfoldAll (fs : List Form) : Unfolded (unfoldAll fs) := by
  refine (unfold.mutual_induct (fun f => Unfolded f.unfold) (fun fs => Unfolded (unfoldAll fs))
    (fun fs => Unfolded (unfoldArms fs)) (fun fs => Unfolded (unfoldOperands fs))
    ?plain ?cond ?block ?other ?nil ?cons ?nilArms ?thenArm ?elseArm ?noArm ?atomArm ?nilOperands
    ?arms ?operand ?immediate).2.1 fs
  case plain =>
    intro span op text place args hop hoperands
    rw [unfold, hop]
    exact hoperands.append ((unfolded_immediates args).cons_atom _)
  case cond =>
    intro span op text place args hop hoperands harms
    rw [unfold, hop]
    have hinside := ((unfolded_immediates args).append harms).append (unfolded_endWord span)
    exact hoperands.append (hinside.cons_atom _)
  case block =>
    intro span op text place args kind hcond hop hargs
    rw [unfold, hop]
    split
    · contradiction
    · next heq => exact absurd (Option.some.inj heq) hcond
    · exact (hargs.append (unfolded_endWord span)).cons_atom _
  case other =>
    intro f hother
    -- a list headed by an instruction is none of the others
    have hhead : f.headOpcode? = none := by
      match f with
      | .atom _ => rfl
      | .list _ [] => rfl
      | .list _ (.list _ _ :: _) => rfl
      | .list span (.atom ⟨kind, text, place⟩ :: args) =>
        cases kind with
        | opcode op => exact (hother span op text place args rfl).elim
        | _ => rfl
    rw [unfold.eq_def]
    split
    · next span op text place args => exact (hother span op text place args rfl).elim
    · exact List.forall_mem_singleton.mpr hhead
  case nil | nilArms | nilOperands => exact unfolded_nil
  case cons =>
    intro f fs hf hfs
    rw [unfoldAll]
    exact hf.append hfs
  case thenArm =>
    intro span head body fs hthen hbody hfs
    rw [unfoldArms, if_pos hthen]
    exact hbody.append hfs
  case elseArm =>
    intro span head body fs hthen helse hbody hfs
    obtain ⟨t⟩ | ⟨place, inside⟩ := head
    · rw [unfoldArms, if_neg hthen, if_pos helse]
      exact (hbody.append hfs).cons_atom t
    · cases helse
  case noArm =>
    intro span head body fs hthen helse hfs
    rw [unfoldArms, if_neg hthen, if_neg helse]
    exact hfs
  case atomArm =>
    intro f fs hother hfs
    rw [unfoldArms.eq_def]
    split
    · exact unfolded_nil
    · next heq =>
      injection heq with hf
      exact (hother _ _ _ hf).elim
    · next heq =>
      injection heq with _ hfs'
      exact hfs' ▸ hfs
  case arms =>
    intro f fs hthen
    rw [unfoldOperands, if_pos hthen]
    exact unfolded_nil
  case operand =>
    intro f fs hthen hnested hf hfs
    rw [unfoldOperands, if_neg hthen, if_pos hnested]
    exact hf.append hfs
  case immediate =>
    intro f fs hthen hnested hfs
    rw [unfoldOperands, if_neg hthen, if_neg hnested]
    exact hfs

/-! ## Indirect calls that name their types -/

/-- Types are named in a row when they are in its first form and in the rest. -/
theorem typesNamedAll_cons :
    typesNamedAll (f :: fs) = true ↔
      (f.opcode? = some .callIndirect → namesType fs = true) ∧ f.typesNamed = true ∧
        typesNamedAll fs = true := by
  rw [typesNamedAll]
  simp only [Bool.and_eq_true, Bool.or_eq_true, bne_iff_ne, ne_eq, and_assoc]
  by_cases h : f.opcode? = some .callIndirect <;> simp [h]

theorem typesNamedAll_drop (h : typesNamedAll fs = true) (n : Nat) :
    typesNamedAll (fs.drop n) = true := by
  induction n generalizing fs with
  | zero => exact h
  | succ n ih =>
    cases fs with
    | nil => rfl
    | cons f fs => exact ih (typesNamedAll_cons.mp h).2.2

theorem typesNamedAll_args (h : f.typesNamed = true) : typesNamedAll f.args = true := by
  cases f with
  | atom => rfl
  | list span items =>
    rw [args, ← List.drop_one]
    exact typesNamedAll_drop h 1

end Form

end WasmText
