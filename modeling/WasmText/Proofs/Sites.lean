import WasmText.Proofs.BodySteps

/-!
# Words and the instructions read from them

A site is an instruction of a body together with the labels of the blocks around it. The sites of a
body in preorder are read one by one from the words of its forms in the order of evaluation
(`Body.Covers`), whatever mix of flat and folded instructions the forms are: no word is lost or read
twice, the blocks around an instruction are those that its word is written in, and a plain
instruction is read where the labels in scope are those of the blocks around it, and around them
those of the body as a whole.

Each reader of a body has a lemma of its own, proved along with the others by the recursion of the
readers.
-/

namespace WasmText

open Form

/-! ## Sites -/

/-- An instruction of a body, and the labels of the blocks around it, innermost first. -/
structure Site where
  enclosing : List (Option String)
  instr : Instr

namespace Instr

mutual

/-- An instruction and all it holds, each with the labels around it. -/
def sites (enclosing : List (Option String)) : Instr → List Site
  | .plain p span => [⟨enclosing, .plain p span⟩]
  | .block label sig body span =>
    ⟨enclosing, .block label sig body span⟩ :: sitesAll (label :: enclosing) body
  | .loop label sig body span =>
    ⟨enclosing, .loop label sig body span⟩ :: sitesAll (label :: enclosing) body
  | .cond label sig thenBody elseBody span =>
    ⟨enclosing, .cond label sig thenBody elseBody span⟩ ::
      (sitesAll (label :: enclosing) thenBody ++ sitesAll (label :: enclosing) elseBody)

/-- The instructions of a body and all they hold, each with the labels around it. -/
def sitesAll (enclosing : List (Option String)) : List Instr → List Site
  | [] => []
  | i :: is => sites enclosing i ++ sitesAll enclosing is

end

theorem sitesAll_append (enclosing : List (Option String)) (is js : List Instr) :
    sitesAll enclosing (is ++ js) = sitesAll enclosing is ++ sitesAll enclosing js := by
  induction is with
  | nil => rfl
  | cons i is ih => rw [List.cons_append, sitesAll, sitesAll, ih, List.append_assoc]

theorem sitesAll_singleton (enclosing : List (Option String)) (i : Instr) :
    sitesAll enclosing [i] = sites enclosing i := by
  rw [sitesAll, sitesAll, List.append_nil]

mutual

/-- The sites of an instruction are its preorder. -/
theorem map_instr_sites (enclosing : List (Option String)) (i : Instr) :
    (sites enclosing i).map Site.instr = preorder i := by
  cases i with
  | plain => rfl
  | block label _ body _ | loop label _ body _ =>
    rw [sites, preorder, List.map_cons, map_instr_sitesAll _ body]
  | cond label _ thenBody elseBody _ =>
    rw [sites, preorder, List.map_cons, List.map_append, map_instr_sitesAll _ thenBody,
      map_instr_sitesAll _ elseBody]

/-- The instructions at the sites are all instructions, from the outside in. -/
theorem map_instr_sitesAll (enclosing : List (Option String)) (is : List Instr) :
    (sitesAll enclosing is).map Site.instr = preorderAll is := by
  cases is with
  | nil => rfl
  | cons i is =>
    rw [sitesAll, preorderAll, List.map_append, map_instr_sites _ i, map_instr_sitesAll _ is]

end

end Instr

open Instr

/-! ## Scopes inside a body -/

/-- The scope `inner` inside blocks with some labels, in a body of scope `sc`. -/
structure Scope.Within (sc : Scope) (enclosing : List (Option String)) (inner : Scope) : Prop where
  spaces : inner.spaces = sc.spaces
  locals : inner.locals = sc.locals
  labels : inner.labels.map Label.name = enclosing ++ sc.labels.map Label.name

namespace Scope

variable {sc inner : Scope} {enclosing : List (Option String)}

/-- A scope is within itself, with nothing around it. -/
theorem within_self (sc : Scope) : sc.Within [] sc := ⟨rfl, rfl, rfl⟩

/-- Entering a block puts its label around what follows. -/
theorem Within.enter (h : sc.Within enclosing inner) (kind : LabelKind) (name : Option String)
    (sig : ValType) : sc.Within (name :: enclosing) (inner.enter kind name sig) :=
  ⟨h.spaces, h.locals, congrArg (name :: ·) h.labels⟩

/-- Going down a level puts no label around. -/
theorem Within.descend {deeper : Scope} {span : Span} (h : sc.Within enclosing inner)
    (hdeeper : inner.descend span = .ok deeper) : sc.Within enclosing deeper := by
  obtain ⟨-, rfl⟩ := descend_eq_ok_iff.mp hdeeper
  exact ⟨h.spaces, h.locals, h.labels⟩

/-- The second arm of a conditional is inside the label of the first. -/
theorem Within.enterElse {other : Scope} {span : Span} (h : sc.Within enclosing inner)
    (hother : inner.enterElse span = .ok other) : sc.Within enclosing other := by
  obtain ⟨name, sig, outer, hlabels, rfl⟩ := enterElse_eq_ok_iff.mp hother
  refine ⟨h.spaces, h.locals, ?_⟩
  rw [← h.labels, hlabels]
  rfl

end Scope

/-! ## Block headers and ends -/

namespace BlockKind

theorem opcode_toInstr {op : Opcode} {kind : BlockKind} {name : Option String} {sig : ValType}
    {body elseBody : List Instr} {span : Span} (h : ofOpcode? op = some kind) :
    (kind.toInstr name sig body elseBody span).opcode = op := by
  obtain ⟨rfl, rfl⟩ | ⟨rfl, rfl⟩ | ⟨rfl, rfl⟩ := ofOpcode?_eq_some_iff.mp h <;> rfl

theorem span_toInstr (kind : BlockKind) (name : Option String) (sig : ValType)
    (body elseBody : List Instr) (span : Span) :
    (kind.toInstr name sig body elseBody span).span = span := by
  cases kind <;> rfl

end BlockKind

namespace Block

/-- A type in front of a block's body is no instruction and no `then` form. -/
theorem inert_of_sig {items : List Form} {type : ValType} {n : Nat}
    (h : sig items = .ok (type, n)) :
    ∀ f ∈ items.take n, f.Inert ∧ f.isHeadedBy .thenKw = false := by
  cases sigAs_of_sig h with
  | none => simp
  | @bare f _ hf hvalue =>
    rw [List.take_one, hf, Option.toList_some, List.forall_mem_singleton]
    obtain ⟨⟨kind, text, place⟩⟩ | ⟨span, items⟩ := f
    · exact ⟨.leaf (leaf_of_isSome (by simp [hvalue])), rfl⟩
    · cases hvalue
  | empty hf hresult hargs =>
    rw [List.take_one, hf, Option.toList_some, List.forall_mem_singleton]
    exact ⟨.list hresult (by simp [hargs]), by rw [isHeadedBy, hresult]; rfl⟩
  | result hf hresult hargs htype =>
    rw [List.take_one, hf, Option.toList_some, List.forall_mem_singleton]
    refine ⟨.list hresult ?_, by rw [isHeadedBy, hresult]; rfl⟩
    rw [hargs, List.forall_mem_singleton]
    exact leaf_of_valueType htype

/-- The label and the type of a block have no words, and are no arm. -/
theorem inert_of_header {items : List Form} {name : Option String} {type : ValType} {n : Nat}
    (h : header items = .ok (name, type, n)) :
    ∀ f ∈ items.take n, f.Inert ∧ f.isHeadedBy .thenKw = false := by
  obtain ⟨m, hname, rfl, hsig⟩ := takes_of_header h
  intro f hf
  rw [List.take_add, List.mem_append] at hf
  refine hf.elim (fun hf => ?_) (inert_of_sig hsig f)
  cases name with
  | none => simp at hf
  | some l =>
    obtain ⟨g, hg, hid⟩ := Option.bind_eq_some_iff.mp hname.symm
    rw [if_pos (by simp), List.take_one, hg] at hf
    obtain rfl := List.mem_singleton.mp hf
    refine ⟨.leaf (leaf_of_isSome (by simp [hid])), ?_⟩
    obtain ⟨⟨kind, text, place⟩⟩ | ⟨span, inner⟩ := f
    · rfl
    · cases hid

theorem inertTake_of_header {items : List Form} {name : Option String} {type : ValType}
    {n : Nat} (h : header items = .ok (name, type, n)) : InertTake n items :=
  fun f hf => (inert_of_header h f hf).1

/-- What stands between the word of a folded `if` and its condition takes no part in the order. -/
theorem placedOfIf_drop {w : Word} {items : List Form} {n : Nat}
    (h : ∀ f ∈ items.take n, f.Inert ∧ f.isHeadedBy .thenKw = false)
    (enclosing : List (Option String)) :
    placedOfIf enclosing w (items.drop n) = placedOfIf enclosing w items := by
  induction n generalizing items with
  | zero => rfl
  | succ n ih =>
    cases items with
    | nil => rfl
    | cons f items =>
      obtain ⟨hinert, hthen⟩ := h f List.mem_cons_self
      rw [List.drop_succ_cons, ih fun g hg => h g (List.mem_cons_of_mem _ hg)]
      obtain ⟨t⟩ | ⟨span, inner⟩ := f
      · rw [placedOfIf]
      · rw [placedOfIf, hthen, hinert.wordless.placedIn enclosing]
        rfl

theorem inertTake_of_repeatedLabel {name : Option String} {items : List Form} {n : Nat}
    (h : repeatedLabel name items = .ok n) : InertTake n items := by
  obtain rfl | ⟨rfl, f, hf, hid, -⟩ := takes_of_repeatedLabel h
  · exact inertTake_zero items
  · exact inertTake_leaf ⟨f, hf, leaf_of_isSome (by simp [hid])⟩

/-- What comes after the `end` of a flat block is in the blocks around it. -/
theorem placedAll_of_flatEnd {name label : Option String} {span : Span} {items : List Form}
    {n : Nat} (h : flatEnd name span items = .ok n) (enclosing : List (Option String)) :
    placedAll (label :: enclosing) items = placedAll enclosing (items.drop n) := by
  obtain ⟨f, rest, m, rfl, hend, rfl, hlabel⟩ := takes_of_flatEnd h
  rw [placedAll_end hend, List.tail_cons, Nat.add_comm, List.drop_succ_cons,
    (inertTake_of_repeatedLabel hlabel).placedAll_drop]

end Block

/-! ## What the readers of a body cover -/

namespace Body

/-- How the instruction of a site is read from its word: in a body of scope `sc`, at some time while
the types grow from `start` to `stop`. -/
inductive ReadsAs (sc : Scope) (start stop : TypeTable) : Word → Site → Prop
  | plain {w : Word} {enclosing : List (Option String)} {inner : Scope} {p : Plain} {n : Nat}
    {t t' : TypeTable} (hinner : sc.Within enclosing inner)
    (hkind : BlockKind.ofOpcode? w.op = none) (hstart : start.Grows t)
    (h : p.ReadAs inner w.span w.args t w.op n t') (hstop : t'.Grows stop) :
    ReadsAs sc start stop w ⟨enclosing, .plain p w.span⟩
  | block {w : Word} {enclosing : List (Option String)} {kind : BlockKind} {name : Option String}
    {sig : ValType} {body elseBody : List Instr} {n : Nat}
    (hkind : BlockKind.ofOpcode? w.op = some kind)
    (h : Block.header w.args = .ok (name, sig, n)) :
    ReadsAs sc start stop w ⟨enclosing, kind.toInstr name sig body elseBody w.span⟩

/-- The instruction of a site is read from a word, and the blocks around it are those that the word
is written in. -/
structure ReadsIn (sc : Scope) (start stop : TypeTable) (p : PlacedWord) (s : Site) : Prop where
  enclosing : s.enclosing = p.enclosing
  reads : ReadsAs sc start stop p.word s

/-- The sites of some instructions, inside blocks with some labels, are read from some words in
order while the types grow from `start` to `stop`. -/
structure Covers (sc : Scope) (enclosing : List (Option String)) (start stop : TypeTable)
    (ps : List PlacedWord) (is : List Instr) : Prop where
  grows : start.Grows stop
  placed : List.Forall₂ (ReadsIn sc start stop) ps (sitesAll enclosing is)

section Covers

variable {sc inner : Scope} {enclosing : List (Option String)} {t t' t'' : TypeTable}
  {ps ps' : List PlacedWord} {is is' : List Instr} {w : Word}

/-- A word is read as it is with more types before and after. -/
theorem ReadsAs.mono {start stop : TypeTable} {s : Site} (hstart : start.Grows t)
    (hstop : t'.Grows stop) (h : ReadsAs sc t t' w s) : ReadsAs sc start stop w s := by
  cases h with
  | plain hinner hkind hgrows h hgrows' =>
    exact .plain hinner hkind (hstart.trans hgrows) h (hgrows'.trans hstop)
  | block hkind h => exact .block hkind h

theorem ReadsIn.mono {start stop : TypeTable} {p : PlacedWord} {s : Site} (hstart : start.Grows t)
    (hstop : t'.Grows stop) (h : ReadsIn sc t t' p s) : ReadsIn sc start stop p s :=
  ⟨h.enclosing, h.reads.mono hstart hstop⟩

/-- The instructions of a body are read one by one from the words of its form. -/
theorem Covers.sites {f : Form} (h : Covers sc enclosing t t' f.placed is) :
    List.Forall₂ (ReadsAs sc t t') f.words (sitesAll enclosing is) := by
  rw [← map_word_placed, List.forall₂_map_left_iff]
  exact h.placed.imp fun _ _ => ReadsIn.reads

/-- No instructions are read from no words. -/
theorem Covers.nil (t : TypeTable) : Covers sc enclosing t t [] [] := ⟨.refl t, .nil⟩

theorem Covers.mono (hstart : t.Grows t') (h : Covers sc enclosing t' t'' ps is) :
    Covers sc enclosing t t'' ps is :=
  ⟨hstart.trans h.grows, h.placed.imp fun _ _ => .mono hstart (.refl t'')⟩

/-- Instructions that are read one after the other cover the words one after the other. -/
theorem Covers.append (h : Covers sc enclosing t t' ps is)
    (h' : Covers sc enclosing t' t'' ps' is') :
    Covers sc enclosing t t'' (ps ++ ps') (is ++ is') := by
  refine ⟨h.grows.trans h'.grows, ?_⟩
  rw [sitesAll_append]
  exact List.rel_append (h.placed.imp fun _ _ => .mono (.refl t) h'.grows)
    (h'.placed.imp fun _ _ => .mono h.grows (.refl t''))

/-- A plain instruction is read before its operands and stands after them. -/
theorem Covers.folded {p : Plain} {n : Nat} (hinner : sc.Within enclosing inner)
    (hkind : BlockKind.ofOpcode? w.op = none)
    (h : p.ReadAs inner w.span w.args t w.op n t') (hoperands : Covers sc enclosing t' t'' ps is) :
    Covers sc enclosing t t'' (ps ++ [⟨enclosing, w⟩]) (is ++ [.plain p w.span]) := by
  refine ⟨h.grows.trans hoperands.grows, ?_⟩
  rw [sitesAll_append, sitesAll_singleton, Instr.sites]
  exact List.rel_append (hoperands.placed.imp fun _ _ => .mono h.grows (.refl t''))
    (.cons ⟨rfl, .plain hinner hkind (.refl t) h hoperands.grows⟩ .nil)

/-- A plain instruction covers its own word. -/
theorem Covers.plain {p : Plain} {n : Nat} (hinner : sc.Within enclosing inner)
    (hkind : BlockKind.ofOpcode? w.op = none)
    (h : p.ReadAs inner w.span w.args t w.op n t') :
    Covers sc enclosing t t' [⟨enclosing, w⟩] [.plain p w.span] :=
  .folded hinner hkind h (.nil t')

/-- A block covers its word and those of its arms. -/
theorem Covers.block {kind : BlockKind} {name : Option String} {sig : ValType}
    {body elseBody : List Instr} {n : Nat} (hkind : BlockKind.ofOpcode? w.op = some kind)
    (hheader : Block.header w.args = .ok (name, sig, n))
    (h : Covers sc (name :: enclosing) t t' ps body)
    (h' : Covers sc (name :: enclosing) t' t'' ps' elseBody) (hone : kind ≠ .cond → elseBody = []) :
    Covers sc enclosing t t'' (⟨enclosing, w⟩ :: (ps ++ ps'))
      [kind.toInstr name sig body elseBody w.span] := by
  have harms := h.append h'
  refine ⟨harms.grows, ?_⟩
  have hsites : sitesAll enclosing [kind.toInstr name sig body elseBody w.span] =
      ⟨enclosing, kind.toInstr name sig body elseBody w.span⟩ ::
        sitesAll (name :: enclosing) (body ++ elseBody) := by
    rw [sitesAll_singleton, sitesAll_append]
    cases kind with
    | block | loop =>
      rw [hone (by simp), BlockKind.toInstr, Instr.sites, sitesAll, List.append_nil]
    | cond => rw [BlockKind.toInstr, Instr.sites]
  rw [hsites]
  exact .cons ⟨rfl, .block hkind hheader⟩ harms.placed

end Covers

/-- The words of some forms are some words and those of the forms left after the first `n`, in the
same blocks. -/
def Takes (enclosing : List (Option String)) (items : List Form) (n : Nat)
    (ps : List PlacedWord) : Prop :=
  placedAll enclosing items = ps ++ placedAll enclosing (items.drop n)

section Takes

variable {enclosing : List (Option String)} {items : List Form} {m n : Nat}
  {ps ps' : List PlacedWord}

/-- Inert items are taken without any words. -/
theorem takes_of_inert (h : InertTake n items) : Takes enclosing items n [] := by
  rw [Takes, List.nil_append, h.placedAll_drop]

/-- Items are taken one after the other with their words one after the other. -/
theorem Takes.append (h : Takes enclosing items m ps)
    (h' : Takes enclosing (items.drop m) n ps') : Takes enclosing items (m + n) (ps ++ ps') := by
  rw [Takes, h, h', List.drop_drop, List.append_assoc]

/-- Where nothing is left, the words of what is taken are all words. -/
theorem Takes.all (h : Takes enclosing items n ps) (hnil : items.drop n = []) :
    placedAll enclosing items = ps := by
  rw [h, hnil, placedAll, List.append_nil]

end Takes

/-- The word of a flat plain instruction comes before all that follows. -/
theorem placedAll_plain {a : Token} {op : Opcode} (hkind : a.kind = .opcode op)
    (hend : op ≠ .endOp) (helse : op ≠ .elseOp) (hplain : BlockKind.ofOpcode? op = none)
    (enclosing : List (Option String)) (rest : List Form) :
    placedAll enclosing (.atom a :: rest) =
      ⟨enclosing, ⟨op, a.span, rest⟩⟩ :: placedAll enclosing rest := by
  rw [placedAll, hkind]
  dsimp only
  split
  all_goals first | contradiction | rfl

/-- The word of a flat block comes before all that follows, which is inside the block. -/
theorem placedAll_block {a : Token} {op : Opcode} {kind : BlockKind} (hop : a.kind = .opcode op)
    (hkind : BlockKind.ofOpcode? op = some kind) (enclosing : List (Option String))
    (rest : List Form) :
    placedAll enclosing (.atom a :: rest) =
      ⟨enclosing, ⟨op, a.span, rest⟩⟩ ::
        placedAll (Word.label? ⟨op, a.span, rest⟩ :: enclosing) rest := by
  obtain ⟨rfl, -⟩ | ⟨rfl, -⟩ | ⟨rfl, -⟩ := BlockKind.ofOpcode?_eq_some_iff.mp hkind <;>
    rw [placedAll, hop]

/-- A word that is neither `end` nor `else` comes with the items after it. -/
theorem wordsAll_atom {a : Token} {op : Opcode} (hkind : a.kind = .opcode op) (hend : op ≠ .endOp)
    (helse : op ≠ .elseOp) (rest : List Form) :
    wordsAll (.atom a :: rest) = ⟨op, a.span, rest⟩ :: wordsAll rest := by
  rw [← map_word_placedAll []]
  cases hblock : BlockKind.ofOpcode? op with
  | none => rw [placedAll_plain hkind hend helse hblock, List.map_cons, map_word_placedAll]
  | some kind => rw [placedAll_block hkind hblock, List.map_cons, map_word_placedAll]

section Folded

variable {a : Token} {op : Opcode} {kind : BlockKind}

/-- The words of a folded plain instruction are those of its operands and its own. -/
theorem placedIn_plain (hkind : a.kind = .opcode op) (hend : op ≠ .endOp) (helse : op ≠ .elseOp)
    (hplain : BlockKind.ofOpcode? op = none) (place : Span) (rest : List Form)
    (enclosing : List (Option String)) :
    (Form.list place (.atom a :: rest)).placedIn enclosing =
      placedAll enclosing rest ++ [⟨enclosing, ⟨op, place, rest⟩⟩] := by
  rw [placedIn, hkind]
  dsimp only
  split
  all_goals first | contradiction | rfl

/-- A folded instruction has its own word and then those of its operands, which follow its
immediates. -/
theorem words_plain (hkind : a.kind = .opcode op) (hend : op ≠ .endOp) (helse : op ≠ .elseOp)
    (hplain : BlockKind.ofOpcode? op = none) (place : Span) (rest : List Form) :
    (Form.list place (.atom a :: rest)).words = wordsAll rest ++ [⟨op, place, rest⟩] := by
  rw [← map_word_placedIn [], placedIn_plain hkind hend helse hplain, List.map_append,
    map_word_placedAll, List.map_singleton]

/-- The word of a folded block stands before its body, which is inside the block. -/
theorem placedIn_block (hop : a.kind = .opcode op) (hkind : BlockKind.ofOpcode? op = some kind)
    (hcond : kind ≠ .cond) (place : Span) (rest : List Form) (enclosing : List (Option String)) :
    (Form.list place (.atom a :: rest)).placedIn enclosing =
      ⟨enclosing, ⟨op, place, rest⟩⟩ ::
        placedAll (Word.label? ⟨op, place, rest⟩ :: enclosing) rest := by
  obtain ⟨rfl, -⟩ | ⟨rfl, -⟩ | ⟨-, rfl⟩ := BlockKind.ofOpcode?_eq_some_iff.mp hkind
  · rw [placedIn, hop]
  · rw [placedIn, hop]
  · exact absurd rfl hcond

/-- A folded block has its own word and then those of its items. -/
theorem words_block (hop : a.kind = .opcode op) (hkind : BlockKind.ofOpcode? op = some kind)
    (hcond : kind ≠ .cond) (place : Span) (rest : List Form) :
    (Form.list place (.atom a :: rest)).words = ⟨op, place, rest⟩ :: wordsAll rest := by
  rw [← map_word_placedIn [], placedIn_block hop hkind hcond, List.map_cons, map_word_placedAll]

/-- A folded conditional has the words of its condition outside of its label. -/
theorem placedIn_cond (hop : a.kind = .opcode op) (hkind : BlockKind.ofOpcode? op = some .cond)
    (place : Span) (rest : List Form) (enclosing : List (Option String)) :
    (Form.list place (.atom a :: rest)).placedIn enclosing =
      placedOfIf enclosing ⟨op, place, rest⟩ rest := by
  obtain rfl := BlockKind.eq_ifOp_of_cond hkind
  rw [placedIn, hop]

theorem words_cond (hop : a.kind = .opcode op) (hkind : BlockKind.ofOpcode? op = some .cond)
    (place : Span) (rest : List Form) :
    (Form.list place (.atom a :: rest)).words = wordsOfIf ⟨op, place, rest⟩ rest := by
  rw [← map_word_placedIn [], placedIn_cond hop hkind, map_word_placedOfIf]

end Folded

/-- The words of an arm are those of what it holds. -/
theorem placedIn_arm {f : Form} (h : f.isHeadedBy .thenKw = true ∨ f.headOpcode? = some .elseOp)
    (enclosing : List (Option String)) : f.placedIn enclosing = placedAll enclosing f.args := by
  match f with
  | .atom _ => simp [isHeadedBy, headKeyword?, headOpcode?] at h
  | .list place [] => rfl
  | .list place (.list _ _ :: _) =>
    simp [isHeadedBy, headKeyword?, headOpcode?, Form.keyword?, Form.opcode?] at h
  | .list place (.atom ⟨kind, text, place'⟩ :: rest) =>
    rcases h with h | h
    · cases kind with
      | opcode op => cases h
      | _ => rfl
    · cases kind with
      | opcode op =>
        obtain rfl : op = .elseOp := Option.some.inj h
        rfl
      | _ => cases h

/-- An arm of a conditional has the words of its items. -/
theorem words_arm {f : Form}
    (h : f.isHeadedBy .thenKw = true ∨ f.headOpcode? = some .elseOp) :
    f.words = wordsAll f.args := by
  rw [← map_word_placedIn [], placedIn_arm h, map_word_placedAll]

/-- From the `then` form on, the word of the conditional stands before those of its arms, which are
inside the conditional. -/
theorem placedOfIf_then {w : Word} {f : Form} (h : f.isHeadedBy .thenKw = true) (rest : List Form)
    (enclosing : List (Option String)) :
    placedOfIf enclosing w (f :: rest) =
      ⟨enclosing, w⟩ :: (placedAll (w.label? :: enclosing) f.args ++
        placedAll (w.label? :: enclosing) rest) := by
  rw [← placedIn_arm (.inl h)]
  obtain ⟨a⟩ | ⟨place, inside⟩ := f
  · cases h
  · rw [placedOfIf, if_pos h]

/-- What stands before the arms is outside of the label. -/
theorem placedOfIf_condition {w : Word} {f : Form} (h : f.isHeadedBy .thenKw = false)
    (rest : List Form) (enclosing : List (Option String)) :
    placedOfIf enclosing w (f :: rest) =
      f.placedIn enclosing ++ placedOfIf enclosing w rest := by
  obtain ⟨a⟩ | ⟨place, inside⟩ := f
  · rw [placedOfIf]
    rfl
  · rw [placedOfIf, if_neg (Bool.eq_false_iff.mp h)]

theorem isSome_items?_of_headOpcode? {f : Form} {op : Opcode} (h : f.headOpcode? = some op) :
    f.items?.isSome = true := by
  cases f with
  | atom => cases h
  | list => rfl

theorem placedAll_list {f : Form} (h : f.items?.isSome = true) (rest : List Form)
    (enclosing : List (Option String)) :
    placedAll enclosing (f :: rest) = f.placedIn enclosing ++ placedAll enclosing rest := by
  cases f with
  | atom => cases h
  | list place inside => rw [placedAll]

theorem wordsAll_list {f : Form} (h : f.items?.isSome = true) (rest : List Form) :
    wordsAll (f :: rest) = f.words ++ wordsAll rest := by
  cases f with
  | atom => cases h
  | list place inside => rw [wordsAll]

/-- Going down a level takes the depth up by one, as long as it is not the deepest. -/
theorem depth_of_descend {sc deeper : Scope} {span : Span} (h : sc.descend span = .ok deeper) :
    sc.depth < Scope.maxNesting ∧ deeper.depth = sc.depth + 1 := by
  obtain ⟨hlt, rfl⟩ := Scope.descend_eq_ok_iff.mp h
  exact ⟨hlt, rfl⟩

/-! ## One lemma for each reader -/

mutual

/-- Instructions that are read in a sequence cover the words of the items taken. The cases are those
of the readers, here and below. -/
theorem covers_of_sequence {sc inner : Scope} {enclosing : List (Option String)}
    {t t' : TypeTable} (items : List Form) {is : List Instr} {n : Nat}
    (hinner : sc.Within enclosing inner)
    (h : (sequence inner items).run t = .ok ((is, n), t')) :
    ∃ ps, Takes enclosing items n ps ∧ Covers sc enclosing t t' ps is := by
  cases sequenceAs_of_run h with
  | nil | delimiter => exact ⟨[], rfl, .nil t⟩
  | @folded place inside rest _ _ _ _ _ hfront hothers =>
    obtain ⟨ps, htakes, hcovers⟩ := covers_of_sequence rest hinner hothers
    have hfolded := covers_of_folded (.list place inside) hinner hfront
    refine ⟨(Form.list place inside).placedIn enclosing ++ ps, ?_, hfolded.append hcovers⟩
    rw [Takes, placedAll, htakes, List.drop_succ_cons, List.append_assoc]
  | @block a rest op _ _ _ k _ _ _ hop hkind hflat hothers =>
    obtain ⟨ps, htakes, hcovers⟩ := covers_of_flat rest hkind hinner hflat
    obtain ⟨ps', htakes', hcovers'⟩ := covers_of_sequence (rest.drop k) hinner hothers
    refine ⟨⟨enclosing, ⟨op, a.span, rest⟩⟩ :: ps ++ ps', ?_, hcovers.append hcovers'⟩
    rw [Takes, placedAll_block hop hkind, htakes, htakes', List.drop_drop, List.drop_succ_cons,
      ← List.append_assoc, List.cons_append, List.cons_append]
  | @plain a rest op p _ k _ s _ hop hend helse hkind hread hothers =>
    -- the immediates come off the rest, and have no words in them
    have hread := Plain.readAs_of_read hread
    obtain ⟨ps, htakes, hcovers⟩ := covers_of_sequence (rest.drop k) hinner hothers
    have hplain : Covers sc enclosing t s [⟨enclosing, ⟨op, a.span, rest⟩⟩] [.plain p a.span] :=
      .plain hinner hkind hread
    refine ⟨⟨enclosing, ⟨op, a.span, rest⟩⟩ :: ps, ?_, hplain.append hcovers⟩
    rw [Takes, placedAll_plain hop hend helse hkind,
      (takes_of_inert hread.inertTake).append htakes]
    rfl
termination_by 2 * sizeOf items
decreasing_by
  all_goals subst_vars
  · exact Nat.lt_of_succ_lt (two_mul_sizeOf_drop_lt _ 0 rest)
  · exact two_mul_sizeOf_head_lt _ rest
  · exact two_mul_sizeOf_drop_lt _ 0 rest
  · exact Nat.lt_of_succ_lt (two_mul_sizeOf_drop_lt _ _ rest)
  · exact Nat.lt_of_succ_lt (two_mul_sizeOf_drop_lt _ _ rest)

/-- A flat block covers its own word, which stands before the forms, and what is up to its `end`. -/
theorem covers_of_flat {sc inner : Scope} {enclosing : List (Option String)} {t t' : TypeTable}
    {op : Opcode} {kind : BlockKind} {place : Span} (items : List Form) {i : Instr} {n : Nat}
    (hkind : BlockKind.ofOpcode? op = some kind) (hinner : sc.Within enclosing inner)
    (h : (flat inner kind place items).run t = .ok ((i, n), t')) :
    ∃ ps, placedAll (Word.label? ⟨op, place, items⟩ :: enclosing) items =
        ps ++ placedAll enclosing (items.drop n) ∧
      Covers sc enclosing t t' (⟨enclosing, ⟨op, place, items⟩⟩ :: ps) [i] := by
  obtain @⟨_, name, sig, _, _, k, m, _, _, _, _, hheader, hdeeper, hbody, helse, hlast⟩ :=
    flatBlockAs_of_run h
  obtain ⟨_, hname, -⟩ := Block.takes_of_header hheader
  have hwithin := (hinner.descend hdeeper).enter kind.label name sig
  obtain ⟨ps, htakes, hcovers⟩ := covers_of_sequence (items.drop k) hwithin hbody
  obtain ⟨ps', htakes', hcovers', hone⟩ := covers_of_otherArm (items.drop (k + m)) hwithin helse
  have hheaderTakes : Takes (name :: enclosing) items k [] :=
    takes_of_inert (Block.inertTake_of_header hheader)
  -- header, body and other arm take the forms one after the other, and the block ends at its `end`
  refine ⟨ps ++ ps', ?_, .block hkind hheader hcovers hcovers' hone⟩
  have hall := (hheaderTakes.append htakes).append htakes'
  rw [Takes, Block.placedAll_of_flatEnd hlast, List.drop_drop, List.nil_append] at hall
  rwa [Word.label?, ← hname]
termination_by 2 * sizeOf items + 1
decreasing_by
  all_goals exact Nat.lt_succ_of_le (Nat.mul_le_mul_left 2 (sizeOf_drop_le _ items))

/-- The other arm of a flat block, which is empty but for a conditional. -/
theorem covers_of_otherArm {sc inner : Scope} {enclosing : List (Option String)}
    {t t' : TypeTable} {kind : BlockKind} {name : Option String} (items : List Form)
    {is : List Instr} {n : Nat} (hinner : sc.Within enclosing inner)
    (h : (otherArm inner kind name items).run t = .ok ((is, n), t')) :
    ∃ ps, Takes enclosing items n ps ∧ Covers sc enclosing t t' ps is ∧
      (kind ≠ .cond → is = []) := by
  cases otherArmAs_of_run h with
  | none => exact ⟨[], rfl, .nil t, fun _ => rfl⟩
  | @arm f rest other _ k _ _ hcond hword hlabel hother hbody =>
    obtain ⟨ps, htakes, hcovers⟩ :=
      covers_of_sequence (rest.drop k) (hinner.enterElse hother) hbody
    have hhead : InertTake 1 (f :: rest) := inertTake_leaf ⟨f, rfl, leaf_of_else hword⟩
    have hlabelled : InertTake (1 + k) (f :: rest) :=
      hhead.add (Block.inertTake_of_repeatedLabel hlabel)
    have hdrop : (f :: rest).drop (1 + k) = rest.drop k := by
      rw [Nat.add_comm, List.drop_succ_cons]
    refine ⟨ps, ?_, hcovers, fun hne => absurd hcond hne⟩
    exact (takes_of_inert hlabelled).append (hdrop ▸ htakes)
termination_by 2 * sizeOf items
decreasing_by
  subst_vars
  exact Nat.lt_of_succ_lt (two_mul_sizeOf_drop_lt _ _ rest)

/-- A folded instruction covers the words of its list. -/
theorem covers_of_folded {sc inner : Scope} {enclosing : List (Option String)}
    {t t' : TypeTable} (f : Form) {is : List Instr} (hinner : sc.Within enclosing inner)
    (h : (folded inner f).run t = .ok (is, t')) :
    Covers sc enclosing t t' (f.placedIn enclosing) is := by
  match f with
  | .atom _ | .list _ [] | .list _ (.list _ _ :: _) => cases foldedAs_of_run h
  | .list place (.atom a :: rest) =>
    cases foldedAs_of_run h with
    | @plain deeper _ _ _ op p n s t' groups hdeeper hop hend helse hplain hread hgroups =>
      -- the immediates are read before the operands, and the instruction stands after them
      have hread := Plain.readAs_of_read hread
      have hwithin := hinner.descend hdeeper
      have hoperands := covers_of_operands (rest.drop n) hwithin hgroups
      rw [hread.inertTake.placedAll_drop] at hoperands
      rw [placedIn_plain hop hend helse hplain]
      exact .folded hwithin hplain hread hoperands
    | @cond deeper _ _ _ op name sig n is t' hdeeper hop hcond hheader harms =>
      have hconditional := covers_of_conditional (w := ⟨op, place, rest⟩) (rest.drop n) hcond
        hheader (hinner.descend hdeeper) harms
      rw [placedIn_cond hop hcond, ← Block.placedOfIf_drop (Block.inert_of_header hheader)]
      exact hconditional
    | @block deeper _ _ _ op kind name sig n body t' hdeeper hop hkind hcond hheader hbody =>
      obtain ⟨_, hname, -⟩ := Block.takes_of_header hheader
      have hwithin := (hinner.descend hdeeper).enter kind.label name sig
      have hwhole := covers_of_whole (rest.drop n) hwithin hbody
      rw [(Block.inertTake_of_header hheader).placedAll_drop] at hwhole
      have hblock := Covers.block (w := ⟨op, place, rest⟩) hkind hheader hwhole (.nil t')
        fun _ => rfl
      rw [placedIn_block hop hkind hcond, Word.label?, ← hname]
      rwa [List.append_nil] at hblock
termination_by 2 * sizeOf f
decreasing_by
  · exact Nat.lt_of_succ_lt (two_mul_sizeOf_drop_lt_list _ _ _ _)
  · exact Nat.lt_of_succ_lt (two_mul_sizeOf_drop_lt_list _ _ _ _)
  · exact two_mul_sizeOf_drop_lt_list _ _ _ _

/-- Operands cover their words, and each of them is a list. -/
theorem covers_of_operands {sc inner : Scope} {enclosing : List (Option String)}
    {t t' : TypeTable} (items : List Form) {groups : List (List Instr)}
    (hinner : sc.Within enclosing inner)
    (h : (operands inner items).run t = .ok (groups, t')) :
    Covers sc enclosing t t' (placedAll enclosing items) groups.flatten := by
  cases operandsAs_of_run h with
  | nil => exact .nil t
  | @cons place inside rest _ _ _ _ hgroup hgroups =>
    have hfolded := covers_of_folded (.list place inside) hinner hgroup
    rw [placedAll, List.flatten_cons]
    exact hfolded.append (covers_of_operands rest hinner hgroups)
termination_by 2 * sizeOf items
decreasing_by
  all_goals subst_vars
  · exact two_mul_sizeOf_head_lt _ rest
  · exact Nat.lt_of_succ_lt (two_mul_sizeOf_drop_lt _ 0 rest)

/-- A folded conditional covers its own word, which stands between its condition and its arms. -/
theorem covers_of_conditional {sc inner : Scope} {enclosing : List (Option String)}
    {t t' : TypeTable} {w : Word} {name : Option String} {sig : ValType} {n : Nat}
    (items : List Form) {is : List Instr} (hkind : BlockKind.ofOpcode? w.op = some .cond)
    (hheader : Block.header w.args = .ok (name, sig, n)) (hinner : sc.Within enclosing inner)
    (h : (conditional inner name sig w.span items).run t = .ok (is, t')) :
    Covers sc enclosing t t' (placedOfIf enclosing w items) is := by
  obtain ⟨_, hname, -⟩ := Block.takes_of_header hheader
  have hwithin := hinner.enter .ifArm name sig
  cases conditionalAs_of_run h with
  | @one f _ _ hthen hbody =>
    -- the condition ends at the `then` form, where the word of the conditional stands
    have hbody := covers_of_arm f hwithin hbody
    rw [placedOfIf_then hthen, Word.label?, ← hname]
    exact .block hkind hheader hbody (.nil t') fun _ => rfl
  | @two f g _ _ _ _ _ hthen hbody hword hother helse =>
    have hbody := covers_of_arm f hwithin hbody
    have helse := covers_of_arm g (hwithin.enterElse hother) helse
    rw [placedOfIf_then hthen, placedAll_list (isSome_items?_of_headOpcode? hword), placedAll,
      List.append_nil, placedIn_arm (.inr hword), Word.label?, ← hname]
    exact .block hkind hheader hbody helse fun h => absurd rfl h
  | @condition f rest _ _ _ _ hthen hgroup _ hothers =>
    -- part of the condition, which is outside the label of the conditional
    have hfolded := covers_of_folded f hinner hgroup
    have hrest := covers_of_conditional rest hkind hheader hinner hothers
    rw [placedOfIf_condition hthen]
    exact hfolded.append hrest
termination_by 2 * sizeOf items
decreasing_by
  all_goals subst_vars
  · exact two_mul_sizeOf_head_lt _ _
  · exact two_mul_sizeOf_head_lt _ _
  · exact two_mul_sizeOf_second_lt _ _ _
  · exact two_mul_sizeOf_head_lt _ rest
  · exact Nat.lt_of_succ_lt (two_mul_sizeOf_drop_lt _ 0 rest)

/-- An arm of a conditional covers its words. -/
theorem covers_of_arm {sc inner : Scope} {enclosing : List (Option String)} {t t' : TypeTable}
    (f : Form) {is : List Instr} (hinner : sc.Within enclosing inner)
    (h : (arm inner f).run t = .ok (is, t')) :
    Covers sc enclosing t t' (placedAll enclosing f.args) is := by
  rw [arm_eq_whole] at h
  exact covers_of_whole f.args hinner h
termination_by 2 * sizeOf f
decreasing_by exact two_mul_sizeOf_args_lt f

/-- A whole body covers all words of its forms. -/
theorem covers_of_whole {sc inner : Scope} {enclosing : List (Option String)} {t t' : TypeTable}
    (items : List Form) {is : List Instr} (hinner : sc.Within enclosing inner)
    (h : (whole inner items).run t = .ok (is, t')) :
    Covers sc enclosing t t' (placedAll enclosing items) is := by
  obtain ⟨n, hbody, hnil⟩ := sequence_of_whole h
  obtain ⟨ps, htakes, hcovers⟩ := covers_of_sequence items hinner hbody
  rwa [htakes.all hnil]
termination_by 2 * sizeOf items + 1

end

end Body

end WasmText
