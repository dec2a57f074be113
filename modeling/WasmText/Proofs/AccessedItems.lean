import WasmText.Proofs.Accesses

/-!
# Readers go on with what their accesses answer

Each access in `Access.Made` is made by a reader. Once the checks before it have succeeded, the
reader is what it is with the access written out: it takes the items that a list has from the place
on, the item at the place, or the counter less one. The readers below take them by dropping or
counting, which answers something out of bounds as well; `itemsFrom?` answers only in bounds, and
answers here as all of the accesses do (`Access.Made.inBounds`).
-/

namespace WasmText

open Form

/-- The items of a list from a place on, and nothing past the end of the list. -/
def itemsFrom? (items : List Form) (place : Nat) : Option (List Form) :=
  if place ≤ items.length then some (items.drop place) else none

namespace Form

/-- The items of a form, its head among them. -/
def items (f : Form) : List Form := f.items?.getD []

theorem items_drop_one_add (f : Form) (n : Nat) : f.items.drop (1 + n) = f.args.drop n := by
  rw [← List.drop_drop, List.drop_one]
  cases f <;> rfl

theorem items_getElem?_one_add (f : Form) (n : Nat) : f.items[1 + n]? = f.args[n]? := by
  rw [← List.head?_drop, ← List.head?_drop, items_drop_one_add]

end Form

theorem Access.Made.itemsFrom?_eq {items : List Form} {place : Nat}
    (h : Made (.rest items.length place)) : itemsFrom? items place = some (items.drop place) :=
  if_pos h.inBounds

theorem Access.Made.form_itemsFrom?_eq {f : Form} {place : Nat}
    (h : Made (.rest f.itemCount place)) :
    itemsFrom? f.items place = some (f.items.drop place) := h.itemsFrom?_eq

/-! ## Modules and fields -/

theorem Module.ofForm_items {f : Form} (hhead : f.headKeyword? = some .moduleKw) :
    ∃ fields, itemsFrom? f.items (1 + (Field.name f.args).2) = some fields ∧
      ofForm f = ofFields (Field.name f.args).1 fields := by
  refine ⟨_, (Access.Made.fields hhead).form_itemsFrom?_eq, ?_⟩
  rw [items_drop_one_add]
  rfl

namespace Field

variable {spaces : Spaces} {d d' d'' : Draft} {f : Form} {o : Opening}

/-- What follows the opening of a definition stands in the field after its exports. -/
theorem items_drop_placeAfterExports {kind : ExternKind} (hopen : opening kind d f = .ok (o, d'))
    (himport : o.imported = none) (n : Nat) :
    f.items.drop (placeAfterExports f + n) = o.rest.drop n := by
  obtain ⟨es, hopens, -⟩ := opens_of_opening hopen
  rw [hopens.rest_eq himport, afterExports_eq, List.drop_drop, placeAfterExports, Nat.add_assoc,
    Nat.add_assoc, items_drop_one_add, Nat.add_assoc]

theorem addFunc_items {use : TypeUse} {n : Nat} {params names : Names} {locals : List ValType}
    (hhead : f.headKeyword? = some .funcKw) (hopen : opening .func d f = .ok (o, d'))
    (himport : o.imported = none)
    (hread : d'.withTypes (TypeUse.read true o.rest) = .ok ((use, n), d''))
    (hparams : parameters use = .ok params)
    (hlocals : ((o.rest.drop n).takeWhile (isHeadedBy .localKw)).foldlM addLocals (params, []) =
      .ok (names, locals)) :
    ∃ rest, itemsFrom? f.items (placeAfterExports f + n +
        ((o.rest.drop n).takeWhile (isHeadedBy .localKw)).length) = some rest ∧
      addFunc spaces d f = do
        let scope : Scope := ⟨spaces, names, .ofFunction use.sig.result, 0⟩
        let (body, d) ← d''.withTypes (Body.whole scope rest)
        return { d with funcs := d.funcs ++ [⟨o.name, use.index, use.sig, locals, body⟩] } := by
  refine ⟨_, (Access.Made.funcBody hhead hopen himport hread).form_itemsFrom?_eq, ?_⟩
  rw [Nat.add_assoc, items_drop_placeAfterExports hopen himport, ← List.drop_drop]
  rw [addFunc, Success.bind_of hopen]
  dsimp only
  rw [Success.bind_of hread]
  dsimp only
  rw [himport]
  dsimp only
  rw [Success.bind_of hparams, Success.bind_of hlocals]

theorem addGlobal_items {type : GlobalType} (hhead : f.headKeyword? = some .globalKw)
    (hopen : opening .global d f = .ok (o, d')) (himport : o.imported = none)
    (htype : globalType f.span o.rest.head? = .ok type) :
    ∃ rest, itemsFrom? f.items (placeAfterExports f + 1) = some rest ∧
      addGlobal spaces d f = do
        let (init, d) ← d'.withTypes (Body.whole (constScope spaces) rest)
        return { d with globals := d.globals ++ [⟨o.name, type, init⟩] } := by
  refine ⟨_, (Access.Made.globalInit hhead hopen himport htype).form_itemsFrom?_eq, ?_⟩
  rw [items_drop_placeAfterExports hopen himport, List.drop_one, addGlobal, Success.bind_of hopen]
  dsimp only
  rw [Success.bind_of htype, himport]

/-- What has to be the least size is the item that the reader has come to. -/
theorem limits_item {items : List Form} {start : Nat} {span : Span} {first : Form}
    (hfirst : Form.need .natural span (items.drop start).head? = .ok first) :
    items[start]? = some first := by
  rw [← List.head?_drop]
  exact eq_some_of_need hfirst

/-- What has to be a list of elements is the item after the element type. -/
theorem addTable_item {list : Form}
    (hopen : opening .table d f = .ok (o, d')) (himport : o.imported = none)
    (hlist : Form.need .elemForm f.span o.rest.tail.head? = .ok list) :
    f.items[placeAfterExports f + 1]? = some list := by
  rw [← List.head?_drop, items_drop_placeAfterExports hopen himport, List.drop_one]
  exact eq_some_of_need hlist

theorem addElem_items {table n : Nat} {init : List Instr}
    (htarget : target .table spaces.tables f.args = .ok (table, n))
    (hoffset : offset spaces d f.span f.args[n]? = .ok (init, d')) :
    ∃ members, itemsFrom? f.items (1 + n + 1) = some members ∧
      addElem spaces d f = do
        let init' ← members.mapM fun v => spaces.funcs.resolve .func f.span (some v)
        return { d' with elems := d'.elems ++ [⟨table, init, init'⟩] } := by
  obtain ⟨item, hitem, -⟩ := Success.of_bind hoffset
  refine ⟨_, (Access.Made.segment htarget hitem).form_itemsFrom?_eq, ?_⟩
  rw [Nat.add_assoc, items_drop_one_add, addElem, Success.bind_of htarget]
  dsimp only
  rw [Success.bind_of hoffset]

theorem addData_items {memory n : Nat} {init : List Instr}
    (htarget : target .memory spaces.memories f.args = .ok (memory, n))
    (hoffset : offset spaces d f.span f.args[n]? = .ok (init, d')) :
    ∃ strings, itemsFrom? f.items (1 + n + 1) = some strings ∧
      addData spaces d f = do
        let bytes ← Form.expectAllBytes strings
        return { d' with data := d'.data ++ [⟨memory, init, bytes⟩] } := by
  obtain ⟨item, hitem, -⟩ := Success.of_bind hoffset
  refine ⟨_, (Access.Made.segment htarget hitem).form_itemsFrom?_eq, ?_⟩
  rw [Nat.add_assoc, items_drop_one_add, addData, Success.bind_of htarget]
  dsimp only
  rw [Success.bind_of hoffset]

end Field

/-! ## Types -/

/-- The head that a type definition has in place of `func` is told of. -/
theorem FuncType.ofDefinition?_head {f : Form} {span : Span} {items : List Form}
    (hread : ofDefinition? f ≠ none)
    (hitem : f.args[(Field.name f.args).2]? = some (.list span items)) :
    ∃ head, items[0]? = some head ∧ (head.keyword? ≠ some .funcKw →
      ofDefinition? f = some (.error ⟨.expected .funcForm head.describe, span⟩)) := by
  have hlist : 0 < items.length := (Access.Made.definitionHead hread hitem).inBounds
  obtain ⟨head, parts, rfl⟩ := List.exists_cons_of_length_pos hlist
  refine ⟨head, rfl, fun hword => ?_⟩
  rw [Field.name_snd, ← List.head?_drop] at hitem
  unfold ofDefinition?
  dsimp only
  rw [hitem]
  dsimp only
  rw [if_pos hword]
  rfl

namespace Signature

/-- A name that a parameter may not have is told of where it stands. -/
theorem params_item {f : Form} {name : String} (hid : f.args.head?.bind Form.id? = some name) :
    ∃ item, f.items[1]? = some item ∧ params false f = .error ⟨.parameterName, item.span⟩ := by
  obtain ⟨first, hfirst, hid⟩ := Option.bind_eq_some_iff.mp hid
  obtain ⟨rest, hargs⟩ := List.head?_eq_some_iff.mp hfirst
  refine ⟨first, ?_, ?_⟩
  · rw [f.items_getElem?_one_add 0, hargs]
    rfl
  · rw [params, hargs]
    dsimp only
    rw [hid]
    rfl

/-- Of too many results the last one is told of, at the last place of the signature. -/
theorem read_item {namesAllowed : Bool} {items : List Form} {ps : List (List Param)}
    {rs : List (List ValType)}
    (hparams : (items.takeWhile (isHeadedBy .paramKw)).mapM (params namesAllowed) = .ok ps)
    (hresults : ((items.drop (items.takeWhile (isHeadedBy .paramKw)).length).takeWhile
      (isHeadedBy .resultKw)).mapM results = .ok rs) (hmany : 1 < rs.flatten.length) :
    ∃ item, items[taken items - 1]? = some item ∧
      read namesAllowed items = .error ⟨.severalResults, item.span⟩ := by
  have hread : read namesAllowed items = .error ⟨.severalResults,
      ((((items.drop (items.takeWhile (isHeadedBy .paramKw)).length).takeWhile
        (isHeadedBy .resultKw)).getLast?.map Form.span).getD .origin)⟩ := by
    rw [read]
    dsimp only
    rw [hparams, hresults]
    exact if_pos hmany
  have hpos := taken_pos hread
  rw [hread]
  rw [taken] at hpos ⊢
  obtain ⟨others, hothers⟩ := List.takeWhile_prefix (isHeadedBy .resultKw)
    (l := items.drop (items.takeWhile (isHeadedBy .paramKw)).length)
  generalize (items.drop (items.takeWhile (isHeadedBy .paramKw)).length).takeWhile
    (isHeadedBy .resultKw) = written at *
  cases hlast : written.getLast? with
  | none =>
    obtain rfl := List.getLast?_eq_none_iff.mp hlast
    obtain rfl := Success.of_pure hresults
    cases hmany
  | some item =>
    have hlength : 0 < written.length := by
      refine List.length_pos_of_ne_nil fun hnil => ?_
      rw [hnil] at hlast
      cases hlast
    refine ⟨item, ?_, rfl⟩
    rw [List.getLast?_eq_getElem?] at hlast
    rw [Nat.add_sub_assoc hlength, ← List.getElem?_drop, ← hothers,
      List.getElem?_append_left (Nat.sub_one_lt_of_lt hlength)]
    exact hlast

end Signature

namespace TypeUse

/-- A signature that is not that of the type before it is told of where it begins. -/
theorem read_item {namesAllowed : Bool} {items : List Form} {t : TypeTable} {index : Nat}
    {span : Span} {params : List Param} {results : List ValType} {n : Nat} {declared : FuncType}
    (hexplicit : explicit? t items = .ok (some (index, span)))
    (hread : Signature.read namesAllowed (items.drop 1) = .ok (params, results, n))
    (hwritten : n ≠ 0) (htype : t.types[index]? = some declared)
    (hother : declared ≠ ⟨params.map Param.type, results⟩) :
    ∃ item, items[1]? = some item ∧ (read namesAllowed items).run t =
      .error ⟨.signatureMismatch ⟨params.map Param.type, results⟩ index declared, item.span⟩ := by
  have hplace : 1 < items.length :=
    (@Access.Made.writtenSignature _ items 0 _ _ _ _ _ hexplicit hread hwritten).inBounds
  refine ⟨items[1], List.getElem?_eq_getElem hplace, ?_⟩
  have hfirst : items.tail.head? = some items[1] := by
    rw [← List.drop_one, List.head?_drop, List.getElem?_eq_getElem hplace]
  have hget : (get : Elab TypeTable).run t = .ok (t, t) := rfl
  rw [List.drop_one] at hread
  rw [read, Success.run_bind hget, Success.run_lift hexplicit]
  dsimp only
  rw [Success.run_lift hread]
  dsimp only
  rw [htype]
  dsimp only
  rw [if_neg hwritten, if_pos hother, hfirst]
  rfl

end TypeUse

/-- A signature that is added gets the index of the last type. -/
theorem TypeTable.findOrAdd_index {t : TypeTable} {sig : FuncType} (h : (t.findOrAdd sig).2 ≠ t) :
    (t.findOrAdd sig).1 = (t.findOrAdd sig).2.names.length - 1 := by
  unfold findOrAdd at h ⊢
  split at h
  · exact absurd rfl h
  · simp

/-- The parameter that is declared next has the type at its place in the signature. -/
theorem Field.parameters_item {items : List Form} {t t' : TypeTable} {use : TypeUse} {n : Nat}
    {p : Param} {before after : List Param} {names : Names}
    (hread : (TypeUse.read true items).run t = .ok ((use, n), t'))
    (hparams : use.params = before ++ p :: after)
    (hnames : parameters { use with params := before } = .ok names) :
    use.sig.params[names.length]? = some p.type := by
  have hlength := length_of_foldlM_declare hnames
  rw [← (TypeUse.readAs_of_read hread).map_type_params, hparams, hlength]
  simp

/-! ## Bodies -/

namespace Body

variable {sc deeper : Scope} {span : Span} {items : List Form} {op : Opcode} {n : Nat}
  {t t' : TypeTable}

/-- The operands of a folded instruction are what follows its immediates. -/
theorem folded_operands_items {p : Plain} (hhead : items.head?.bind Form.opcode? = some op)
    (hend : op ≠ .endOp) (helse : op ≠ .elseOp) (hplain : BlockKind.ofOpcode? op = none)
    (hdeeper : sc.descend span = .ok deeper)
    (hread : (Plain.read deeper op span (items.drop 1)).run t = .ok ((p, n), t')) :
    ∃ rest, itemsFrom? items (1 + n) = some rest ∧
      (folded sc (.list span items)).run t = StateT.run (do
        let groups ← operands deeper rest
        Operand.check op p groups span
        return groups.flatten ++ [.plain p span]) t' := by
  refine ⟨_, (Access.Made.operands hhead hread).itemsFrom?_eq, ?_⟩
  cases items with
  | nil => cases hhead
  | cons head rest =>
    rw [folded_word hhead hend helse, Success.run_lift hdeeper, hplain]
    dsimp only
    rw [List.drop_one, List.tail_cons] at hread
    rw [Success.run_bind hread, Nat.add_comm, List.drop_succ_cons]

/-- The body of a folded block is what follows its header. -/
theorem folded_block_items {kind : BlockKind} {name : Option String} {sig : ValType}
    (hhead : items.head?.bind Form.opcode? = some op)
    (hkind : BlockKind.ofOpcode? op = some kind) (hcond : kind ≠ .cond)
    (hdeeper : sc.descend span = .ok deeper)
    (hheader : Block.header (items.drop 1) = .ok (name, sig, n)) :
    ∃ rest, itemsFrom? items (1 + n) = some rest ∧
      folded sc (.list span items) = do
        let body ← whole (deeper.enter kind.label name sig) rest
        return [kind.toInstr name sig body [] span] := by
  refine ⟨_, (Access.Made.blockBody hhead hheader).itemsFrom?_eq, ?_⟩
  obtain ⟨hend, helse⟩ := BlockKind.ne_of_ofOpcode? hkind
  cases items with
  | nil => cases hhead
  | cons head rest =>
    rw [List.drop_one, List.tail_cons] at hheader
    funext t
    show (folded sc (.list span (head :: rest))).run t = _
    rw [folded_word hhead hend helse, Success.run_lift hdeeper, hkind, Nat.add_comm,
      List.drop_succ_cons]
    cases kind with
    | cond => exact absurd rfl hcond
    | block | loop =>
      dsimp only
      rw [Success.run_lift hheader]
      rfl

end Body

/-- The label at a depth is the one at its place from the outermost on. -/
theorem Labels.atDepth_item {ls : Labels} {depth : Nat} {span : Span} {l : Label}
    (h : ls.atDepth depth span = .ok l) : ls.reverse[ls.length - (depth + 1)]? = some l := by
  have hplace : ls.length - (depth + 1) < ls.length := (Access.Made.label h).inBounds
  unfold atDepth at h
  split at h
  · next hl =>
    obtain ⟨hlt, hl⟩ := List.getElem?_eq_some_iff.mp hl
    rw [List.getElem?_reverse hplace, ← Except.ok.inj h, ← hl, ← List.getElem?_eq_getElem]
    congr 1
    omega
  · cases h

/-! ## Commands -/

/-- The results that an assertion expects are what follows its action. -/
theorem Command.kindOf_items {src : Source} {f : Form} {a : Action}
    (hhead : f.headKeyword? = some .assertReturnKw) (haction : action f = .ok a) :
    ∃ rest, itemsFrom? f.items 2 = some rest ∧ kindOf src f = do
      let expected : List Const ← (rest.mapM Const.ofForm : Except Problem _)
      return .assertReturn a expected := by
  refine ⟨_, (Access.Made.expected haction).form_itemsFrom?_eq, ?_⟩
  have hlist : ∃ items, f.expectList .command = .ok items := by
    obtain ⟨place, head, items, rfl⟩ := exists_list_of_headKeyword? hhead
    exact ⟨_, rfl⟩
  obtain ⟨items, hlist⟩ := hlist
  rw [f.items_drop_one_add 1, kindOf, hlist, hhead]
  dsimp only
  rw [haction]
  rfl

end WasmText
