import WasmText.Proofs.Operands
import WasmText.Proofs.Printing

/-!
# Bodies hold their instructions in the order of evaluation

The preorder of a body is the words of its field in the order of evaluation: in the order of the
text, but that the word of a folded instruction stands behind its operands and that of a folded `if`
behind its condition (`Form.words`). That order leaves out no word of the text, `else` and `end`
apart, and has none twice (`Form.words_perm`).

That takes forms that are read. In others a folded `if` may have a word in front of its arms that is
in no list of its own, and that the order passes over.
-/

namespace WasmText

open Form

/-! ## Instruction words of the text -/

/-- The instruction that a token writes, if it does more than delimit one. -/
def Token.instruction? (t : Token) : Option Opcode :=
  match t.kind with
  | .opcode .endOp | .opcode .elseOp => none
  | .opcode op => some op
  | _ => none

namespace Token

variable {t : Token} {op : Opcode}

theorem of_instruction? (h : t.instruction? = some op) :
    t.kind = .opcode op ∧ op ≠ .endOp ∧ op ≠ .elseOp := by
  unfold instruction? at h
  split at h
  · cases h
  · cases h
  · next op' hend helse hop =>
    obtain rfl := Option.some.inj h
    exact ⟨hop, fun heq => hend (by rw [heq]), fun heq => helse (by rw [heq])⟩
  · cases h

/-- A token is no instruction when it is no opcode, or one that only delimits. -/
theorem instruction?_eq_none_iff :
    t.instruction? = none ↔ ∀ op, t.kind = .opcode op → op = .endOp ∨ op = .elseOp := by
  unfold instruction?
  split
  · next hend => simp [hend]
  · next helse => simp [helse]
  · next op hend helse hop =>
    simp only [hop, reduceCtorEq, TokenKind.opcode.injEq, forall_eq', false_iff, not_or]
    exact ⟨fun heq => hend (by rw [heq]), fun heq => helse (by rw [heq])⟩
  · next hother => exact ⟨fun _ op hop => (hother op hop).elim, fun _ => rfl⟩

end Token

namespace Form

/-- The instructions that some forms write, in the order of the text. -/
def opcodesAll (items : List Form) : List Opcode := (tokensAll items).filterMap Token.instruction?

/-- The instructions that a form writes, in the order of the text. -/
def opcodes (f : Form) : List Opcode := opcodesAll [f]

@[simp] theorem opcodesAll_nil : opcodesAll [] = [] := rfl

@[simp] theorem opcodesAll_atom (t : Token) (rest : List Form) :
    opcodesAll (.atom t :: rest) = t.instruction?.toList ++ opcodesAll rest := by
  rw [opcodesAll, tokensAll, tokens, List.singleton_append, List.filterMap_cons]
  cases t.instruction? <;> rfl

@[simp] theorem opcodesAll_list (span : Span) (items rest : List Form) :
    opcodesAll (.list span items :: rest) = opcodesAll items ++ opcodesAll rest := by
  rw [opcodesAll, tokensAll, tokens, List.filterMap_append]
  rfl

/-- The opcodes of a list are those of its items. -/
theorem opcodes_list (span : Span) (items : List Form) :
    (list span items).opcodes = opcodesAll items := by
  rw [opcodes, opcodesAll_list, opcodesAll_nil, List.append_nil]

end Form

/-! ## The order of evaluation is an order of the text -/

namespace Form

variable {span : Span}

/-- No instruction stands in front of the arms of a folded `if` but in a list of its own. -/
def Orderly (f : Form) : Prop :=
  ∀ g : Form, g.Occurs f → g.headOpcode? = some .ifOp →
    ∀ t : Token, .atom t ∈ g.args.takeWhile (!·.isHeadedBy .thenKw) → t.instruction? = none

/-- The items of an orderly list are orderly. -/
theorem Orderly.items {items : List Form} (h : (list span items).Orderly) :
    ∀ f ∈ items, f.Orderly :=
  fun _ hf g hg => h g (.item hf hg)

theorem wordsAll_cons_of_none {t : Token} (h : t.instruction? = none) (rest : List Form) :
    wordsAll (.atom t :: rest) = wordsAll rest := by
  rw [wordsAll]
  split
  · next op hop =>
    obtain rfl | rfl := Token.instruction?_eq_none_iff.mp h op hop <;> rfl
  · rfl

/-- A head that is no instruction gives no word. -/
theorem words_cons_of_none {t : Token} (h : t.instruction? = none) (rest : List Form) :
    (list span (.atom t :: rest)).words = wordsAll rest := by
  rw [words]
  split
  · next op hop =>
    obtain rfl | rfl := Token.instruction?_eq_none_iff.mp h op hop <;> rfl
  · rfl

mutual

/-- The words of an orderly list are its opcodes up to order. -/
theorem words_perm (f : Form) (hlist : f.items?.isSome = true) (h : f.Orderly) :
    (f.words.map Word.op).Perm f.opcodes := by
  match f with
  | .list span [] => exact .refl _
  | .list span (.list place inside :: rest) =>
    have hfirst := words_perm (.list place inside) rfl (h.items _ List.mem_cons_self)
    have hrest := wordsAll_perm rest fun g hg => h.items g (List.mem_cons_of_mem _ hg)
    rw [words, List.map_append, opcodes_list, opcodesAll_list]
    rw [opcodes_list] at hfirst
    exact hfirst.append hrest
  | .list span (.atom t :: rest) =>
    have hitems : ∀ g ∈ rest, g.Orderly := fun g hg => h.items g (List.mem_cons_of_mem _ hg)
    have hrest := wordsAll_perm rest hitems
    rw [opcodes_list, opcodesAll_atom]
    cases ht : t.instruction? with
    | none =>
      rw [words_cons_of_none ht]
      exact hrest
    | some op =>
      obtain ⟨hop, hend, helse⟩ := Token.of_instruction? ht
      cases hkind : BlockKind.ofOpcode? op with
      | none =>
        -- the word comes last in the order of evaluation and first in the text
        rw [Body.words_plain hop hend helse hkind, List.map_append]
        exact (List.perm_append_singleton op _).trans (hrest.cons op)
      | some kind =>
        by_cases hcond : kind = .cond
        · subst hcond
          obtain rfl := BlockKind.eq_ifOp_of_cond hkind
          rw [Body.words_cond hop hkind]
          exact wordsOfIf_perm ⟨.ifOp, span, rest⟩ rest hitems
            (h _ .here (headOpcode?_of_kind hop))
        · rw [Body.words_block hop hkind hcond]
          exact hrest.cons op

/-- The words of orderly items are their opcodes up to order. -/
theorem wordsAll_perm (items : List Form) (h : ∀ f ∈ items, f.Orderly) :
    ((wordsAll items).map Word.op).Perm (opcodesAll items) := by
  match items with
  | [] => exact .refl _
  | .list span inside :: rest =>
    rw [List.forall_mem_cons] at h
    have hfirst := words_perm (.list span inside) rfl h.1
    rw [opcodes_list] at hfirst
    rw [wordsAll, List.map_append, opcodesAll_list]
    exact hfirst.append (wordsAll_perm rest h.2)
  | .atom t :: rest =>
    rw [List.forall_mem_cons] at h
    have hrest := wordsAll_perm rest h.2
    rw [opcodesAll_atom]
    cases ht : t.instruction? with
    | none =>
      rw [wordsAll_cons_of_none ht]
      exact hrest
    | some op =>
      obtain ⟨hop, hend, helse⟩ := Token.of_instruction? ht
      rw [Body.wordsAll_atom hop hend helse]
      exact hrest.cons op

/-- The word of an `if` goes from the front of its list to the front of its arms. -/
theorem wordsOfIf_perm (w : Word) (items : List Form) (h : ∀ f ∈ items, f.Orderly)
    (hfront : ∀ t, .atom t ∈ items.takeWhile (!·.isHeadedBy .thenKw) → t.instruction? = none) :
    ((wordsOfIf w items).map Word.op).Perm (w.op :: opcodesAll items) := by
  match items with
  | [] => exact .refl _
  | .atom t :: rest =>
    have hnone := hfront t List.mem_cons_self
    rw [wordsOfIf, opcodesAll_atom, hnone]
    exact wordsOfIf_perm w rest (List.forall_mem_cons.mp h).2 fun t ht =>
      hfront t (List.mem_cons_of_mem _ ht)
  | .list span inside :: rest =>
    rw [List.forall_mem_cons] at h
    have hfirst := words_perm (.list span inside) rfl h.1
    rw [opcodes_list] at hfirst
    rw [wordsOfIf, opcodesAll_list]
    split
    · rw [List.map_cons, List.map_append]
      exact (hfirst.append (wordsAll_perm rest h.2)).cons w.op
    · next hthen =>
      rw [List.takeWhile_cons, Bool.eq_false_iff.mpr hthen] at hfront
      have hrest := wordsOfIf_perm w rest h.2 fun t ht =>
        hfront t (List.mem_cons_of_mem _ ht)
      rw [List.map_append]
      exact (hfirst.append hrest).trans List.perm_middle

end

end Form

/-! ## Forms that are read -/

namespace Form

variable {f : Form}

theorem Leaf.opcodes (h : f.Leaf) : f.opcodes = [] := by
  obtain ⟨h⟩ := h
  rw [opcodes, opcodesAll_atom,
    Token.instruction?_eq_none_iff.mpr fun op hop => .inr (h op hop)]
  rfl

/-- Items without opcodes have none together. -/
theorem opcodesAll_eq_nil {items : List Form} (h : ∀ f ∈ items, f.opcodes = []) :
    opcodesAll items = [] := by
  induction items with
  | nil => rfl
  | cons f items ih =>
    rw [List.forall_mem_cons] at h
    have hcons : opcodesAll (f :: items) = f.opcodes ++ opcodesAll items := by
      cases f with
      | atom => simp [opcodes]
      | list => simp [opcodes]
    rw [hcons, h.1, ih h.2, List.nil_append]

/-- A list with a keyword at its head has no opcodes when its arguments have none. -/
theorem opcodes_eq_nil_of_keyword {word : Keyword} (hhead : f.headKeyword? = some word)
    (hargs : ∀ g ∈ f.args, g.opcodes = []) : f.opcodes = [] := by
  obtain ⟨span, head, rest, rfl⟩ := exists_list_of_headKeyword? hhead
  have hword : head.Leaf := leaf_of_isSome (by simp [show head.keyword? = some word from hhead])
  rw [opcodes_list]
  exact opcodesAll_eq_nil (List.forall_mem_cons.mpr ⟨hword.opcodes, hargs⟩)

/-- Inert forms have no opcodes. -/
theorem Inert.opcodes (h : f.Inert) : f.opcodes = [] := by
  cases h with
  | leaf h => exact h.opcodes
  | list hhead hargs => exact opcodes_eq_nil_of_keyword hhead fun g hg => (hargs g hg).opcodes

/-- Without a body a field writes no instruction. -/
theorem Layered.opcodes {p : Form → Prop} {k : Nat} (h : f.Layered p k) (hp : ∀ g, ¬p g) :
    f.opcodes = [] := by
  induction h with
  | inert h => exact h.opcodes
  | body h => exact absurd h (hp _)
  | list hhead _ ih => exact opcodes_eq_nil_of_keyword hhead ih

/-- Only the header and the condition stand in front of the arms of an `if` that is read. -/
theorem ReadWithin.orderly (h : f.ReadWithin) : f.Orderly := by
  intro g hg hif t ht
  obtain ⟨sc, s, is, s', hread⟩ := h g hg .ifOp hif (by simp)
  cases Body.foldedAs_of_run hread with
  | plain _ hop _ _ hplain =>
    obtain rfl := Option.some.inj (hif.symm.trans (headOpcode?_of_kind hop))
    cases hplain
  | cond _ _ _ hheader harms =>
    obtain hinert | ⟨_, _, _, hfolded, -⟩ := Body.inert_or_condition hheader harms _ ht
    · cases hinert with
      | leaf hleaf =>
        obtain ⟨hleaf⟩ := hleaf
        exact Token.instruction?_eq_none_iff.mpr fun op hop => .inr (hleaf op hop)
      | list hhead => cases hhead
    · obtain ⟨_, hhead, -⟩ := Body.exists_headOpcode?_of_folded hfolded
      cases hhead
  | block _ hop hkind hcond =>
    obtain rfl := Option.some.inj (hif.symm.trans (headOpcode?_of_kind hop))
    exact absurd (Option.some.inj hkind).symm hcond

end Form

/-! ## Bodies and their fields -/

/-- A body holds the instructions that a form writes, in the order of evaluation, each where it is
written and none twice. -/
structure Form.Evaluates (f : Form) (body : List Instr) : Prop where
  order : (Instr.preorderAll body).map (fun i => (i.opcode, i.span)) =
    f.words.map (fun w => (w.op, w.span))
  perm : (f.words.map Word.op).Perm f.opcodes

/-- The body of a part holds the instructions of its field, which has one at most. Elements in a
table and data in a memory go without an offset, and a field without a body writes no
instruction. -/
structure Part.InOrder (f : Form) (part : Part) : Prop where
  one : part.funcs.length + part.globals.length + part.elems.length + part.data.length ≤ 1
  funcs : ∀ x ∈ part.funcs, f.Evaluates x.body
  globals : ∀ g ∈ part.globals, f.Evaluates g.init
  elems : ∀ e ∈ part.elems, if f.isHeadedBy .elemKw then f.Evaluates e.offset
    else ∃ span, e.offset = Field.zeroOffset span
  data : ∀ x ∈ part.data, if f.isHeadedBy .dataKw then f.Evaluates x.offset
    else ∃ span, x.offset = Field.zeroOffset span
  others : ¬part.HasBody f → f.opcodes = []

namespace Body

/-- A word has the opcode and the place of the instruction it is read as. -/
theorem ReadsAs.opcode_span {sc : Scope} {t t' : TypeTable} {w : Word} {s : Site}
    (h : ReadsAs sc t t' w s) : w.op = s.instr.opcode ∧ w.span = s.instr.span := by
  cases h with
  | plain _ _ _ h => exact ⟨h.opcode.symm, rfl⟩
  | block hkind => exact ⟨(BlockKind.opcode_toInstr hkind).symm, (BlockKind.span_toInstr ..).symm⟩

/-- What is read from words keeps their opcodes, spans and order. -/
theorem Covers.order {sc : Scope} {t t' : TypeTable} {f : Form} {is : List Instr}
    (h : Covers sc [] t t' f.placed is) :
    (Instr.preorderAll is).map (fun i => (i.opcode, i.span)) =
      f.words.map (fun w => (w.op, w.span)) := by
  have hsites : List.Forall₂ (fun (w : Word) (s : Site) =>
      (w.op, w.span) = (s.instr.opcode, s.instr.span)) f.words (Instr.sitesAll [] is) :=
    h.sites.imp fun w s hread => Prod.ext hread.opcode_span.1 hread.opcode_span.2
  rw [← Instr.map_instr_sitesAll [], List.map_map, eq_comm, ← List.forall₂_eq_eq_eq]
  exact List.forall₂_map_left_iff.mpr (List.forall₂_map_right_iff.mpr hsites)

end Body

namespace Part

open WasmText.Field

variable {spaces : Spaces} {d : Draft} {f : Form} {part : Part} {types : TypeTable}

/-- The body of what is read from a field holds the instructions that the field writes. -/
theorem ReadFrom.inOrder (h : part.ReadFrom spaces d f types) (horderly : f.Orderly)
    (hlayered : f.Layered (fun g => Body.IsRead g ∧ part.HasBody f) 2) : part.InOrder f := by
  have hperm := words_perm f (isSome_items?_of_isField h.isField) horderly
  have hevaluates {sc : Scope} {t t' : TypeTable} {is : List Instr}
      (hcovers : Body.Covers sc [] t t' f.placed is) : f.Evaluates is := ⟨hcovers.order, hperm⟩
  -- a field holds one body at most, and all of its words are that body's
  refine ⟨?one, ?funcs, ?globals, ?elems, ?data, ?others⟩
  case one => cases h <;> simp
  case funcs =>
    intro x hx
    obtain ⟨_, _, hcovers⟩ := h.covers_func x hx
    exact hevaluates hcovers
  case globals => exact fun g hg => hevaluates (h.covers_global g hg)
  case elems =>
    cases h with
    | tableOfElems hhead =>
      have hno : ¬f.isHeadedBy .elemKw = true := by simp [isHeadedBy, hhead]
      rw [List.forall_mem_singleton, if_neg hno]
      exact ⟨_, rfl⟩
    | elem hhead htarget hitem hlist hoffset hinit =>
      rw [List.forall_mem_singleton, if_pos (isHeadedBy_iff.mpr hhead)]
      exact hevaluates (covers_of_offset hhead (inertTake_of_target htarget) hitem hlist
        (leaf_of_mapM_resolve hinit) hoffset)
    | _ => simp
  case data =>
    cases h with
    | memoryOfData hhead =>
      have hno : ¬f.isHeadedBy .dataKw = true := by simp [isHeadedBy, hhead]
      rw [List.forall_mem_singleton, if_neg hno]
      exact ⟨_, rfl⟩
    | data hhead htarget hitem hlist hoffset hinit =>
      rw [List.forall_mem_singleton, if_pos (isHeadedBy_iff.mpr hhead)]
      exact hevaluates (covers_of_offset hhead (inertTake_of_target htarget) hitem hlist
        (leaf_of_expectAllBytes hinit) hoffset)
    | _ => simp
  case others => exact fun hnone => hlayered.opcodes fun g hg => hnone hg.2

end Part

namespace Module

/-- An accepted module is assembled from the parts of its fields. The body of each part holds the
instructions that its field writes, in the order of evaluation, and there are no others in the
module. -/
theorem bodies_in_order {fields : List Form} {m : Module} (h : Accepted fields m) :
    ∃ parts, m.Assembled fields parts ∧
      List.Forall₂ (fun f part => part.InOrder f) fields parts := by
  obtain ⟨name, spaces, types, d, parts, hspaces, htypes, hrun, rfl⟩ := h.run
  have horderly := (List.forall₂_and_left _ _).mpr ⟨readWithin_of_accepted h, hrun.reads⟩
  refine ⟨parts, assembled_of_run hspaces hrun name, horderly.mp ?_ (layered_of_run htypes hrun)⟩
  rintro f part ⟨hwithin, _, _, hfield⟩ hlayered
  exact hfield.inOrder hwithin.orderly hlayered

/-- A folded operator in a flat block, and a condition of a folded `if`. -/
theorem bodies_in_order_mixed :
    let src : Source := ⟨"t", "(func block (drop (i32.const 1)) end (if (i32.const 2) (then nop)))"⟩
    let fields := fieldsOf (Reader.ofSource src).readCommand.1
    ∃ m parts, (parse src).outcome = .accepted m ∧ m.Assembled fields parts ∧
      List.Forall₂ (fun f part => part.InOrder f) fields parts := by
  intro src fields
  obtain ⟨m, hm⟩ : ∃ m, (parse src).outcome = .accepted m :=
    Outcome.exists_accepted (by decide +kernel)
  obtain ⟨parts, hparts, horder⟩ := bodies_in_order (.alone hm)
  exact ⟨m, parts, hm, hparts, horder⟩

end Module

end WasmText
