import WasmText.Proofs.Numbering

/-!
# What numbered forms are read as

A name and the number that it stands for are read as the same, so whoever reads immediates, a type
use or the header of a block off some forms reads the same off numbered ones, takes as many of them,
and leaves numbered ones. Types may have been added since the names were collected, which changes
the number of no name.
-/

namespace WasmText

open Form

variable {s : NameScope} {names : Names} {items items' rest : List Form} {f f' : Form} {n : Nat}
  {span : Span}

/-! ## Rows -/

namespace Form

/-- A form that is read as something else is no instruction. -/
theorem opcode?_eq_none (h : f.id?.isSome ∨ f.number?.isSome ∨ f.valType?.isSome ∨
    f.headKeyword?.isSome ∨ f.isReference = true) : f.opcode? = none := by
  by_contra hop
  obtain ⟨hid, hnumber, htype, hhead, href⟩ :=
    eq_none_of_opcode? (Option.isSome_iff_ne_none.mpr hop)
  simp [hid, hnumber, htype, hhead, href] at h

theorem opcode?_of_isHeadedBy {word : Keyword} (h : f.isHeadedBy word = true) :
    f.opcode? = none :=
  opcode?_eq_none (by simp [isHeadedBy_iff.mp h])

theorem opcode?_of_isReference (h : f.isReference = true) : f.opcode? = none :=
  opcode?_eq_none (by simp [h])

theorem opcode?_eq_none_of_kind {t : Token} (h : ∀ op, t.kind ≠ .opcode op) :
    (atom t).opcode? = none := by
  obtain ⟨kind, source, place⟩ := t
  cases kind with
  | opcode op => exact absurd rfl (h op)
  | _ => rfl

/-- A list whose head refers to nothing is left as it is. -/
theorem Numbered.eq_of_headKeyword? {word : Keyword} (h : Numbered s names f f')
    (hhead : f.headKeyword? = some word) (hword : word.mayRefer = false) : f' = f := by
  rcases h.alike_or_name with h | ⟨_, _, _, rfl, -⟩
  · exact h.eq_of_headKeyword? hhead hword
  · cases hhead

/-- Instructions stay instructions. -/
theorem Numbered.opcode?_eq (h : Numbered s names f f') : f'.opcode? = f.opcode? := by
  rcases h.alike_or_name with h | ⟨⟨kind, source, span⟩, _, _, rfl, rfl, hid, -⟩
  · cases h <;> rfl
  · obtain rfl : kind = _ := hid
    rfl

namespace NumberedAll

theorem eq_nil (h : NumberedAll s names [] items') : items' = [] := by
  cases h
  rfl

/-- An item that is no instruction has an item in its place. -/
theorem exists_item (h : NumberedAll s names (f :: rest) items') (hop : f.opcode? = none) :
    ∃ f' rest', items' = f' :: rest' ∧ Numbered s names f f' ∧ NumberedAll s names rest rest' := by
  cases h with
  | word hop' =>
    rw [hop] at hop'
    cases hop'
  | item _ hf h => exact ⟨_, _, rfl, hf, h⟩

/-- An instruction is left as it is, and the items after it are in the scope that it opens. -/
theorem exists_word {op : Opcode} (h : NumberedAll s names (f :: rest) items')
    (hop : f.opcode? = some op) :
    ∃ rest', items' = f :: rest' ∧ NumberedAll (s.after op rest) (s.names op) rest rest' := by
  cases h with
  | word hop' h =>
    obtain rfl : op = _ := Option.some.inj (hop.symm.trans hop')
    exact ⟨_, rfl, h⟩
  | item hop' =>
    rw [hop] at hop'
    cases hop'

/-- No word is put in front, and none is taken away. -/
theorem head?_opcode?_eq (h : NumberedAll s names items items') :
    items'.head?.bind opcode? = items.head?.bind opcode? := by
  cases h with
  | nil | word => rfl
  | item _ hf => exact hf.opcode?_eq

/-- First items are in each other's place. -/
theorem head? (h : NumberedAll s names items items') :
    Option.Rel (Numbered s names) items.head? items'.head? := by
  cases h with
  | nil => exact .none
  | word => exact .some (.same ..)
  | item _ hf => exact .some hf

theorem head?_alike (h : NumberedAll s [] items items') :
    Option.Rel Alike items.head? items'.head? := by
  cases h with
  | nil => exact .none
  | word => exact .some (.same _)
  | item _ hf => exact .some hf.alike

/-- The items after one that is no instruction are in each other's place. -/
theorem tail (h : NumberedAll s names items items') (hop : ∀ f ∈ items.head?, f.opcode? = none) :
    NumberedAll s names items.tail items'.tail := by
  cases h with
  | nil => exact .nil s names
  | @word _ _ f _ _ _ hop' =>
    rw [hop f rfl] at hop'
    cases hop'
  | item _ _ h => exact h

theorem drop_one (h : NumberedAll s names items items')
    (hop : ∀ f ∈ items.head?, f.opcode? = none) :
    NumberedAll s names (items.drop 1) (items'.drop 1) := by
  rw [List.drop_one, List.drop_one]
  exact h.tail hop

/-- A row of forms of some sort, none of them a word, is as long as before. -/
theorem takeWhile {p : Form → Bool} (h : NumberedAll s names items items')
    (hop : ∀ f, p f = true → f.opcode? = none)
    (hp : ∀ f f', Numbered s names f f' → p f' = p f) :
    List.Forall₂ (Numbered s names) (items.takeWhile p) (items'.takeWhile p) ∧
      NumberedAll s names (items.drop (items.takeWhile p).length)
        (items'.drop (items.takeWhile p).length) := by
  induction items generalizing items' with
  | nil =>
    obtain rfl := h.eq_nil
    exact ⟨.nil, h⟩
  | cons f rest ih =>
    cases hf : p f with
    | false =>
      have hnil : items'.takeWhile p = [] := by
        cases h with
        | word => rw [List.takeWhile_cons_of_neg (by simp [hf])]
        | item _ hff' => rw [List.takeWhile_cons_of_neg (by simp [hp _ _ hff', hf])]
      rw [List.takeWhile_cons_of_neg (by simp [hf]), hnil]
      exact ⟨.nil, h⟩
    | true =>
      obtain ⟨f', rest', rfl, hff', hrest⟩ := h.exists_item (hop f hf)
      rw [List.takeWhile_cons_of_pos hf, List.takeWhile_cons_of_pos ((hp _ _ hff').trans hf)]
      obtain ⟨hrow, hdrop⟩ := ih hrest
      exact ⟨.cons hff' hrow, hdrop⟩

/-- Lists with a keyword that has no references behind it are the same. -/
theorem eq_of_isHeadedBy {word : Keyword} (h : List.Forall₂ (Numbered s names) items items')
    (hall : ∀ f ∈ items, f.isHeadedBy word = true) (hword : word.mayRefer = false) :
    items' = items := by
  induction h with
  | nil => rfl
  | cons hf _ ih =>
    obtain ⟨hhead, hall⟩ := List.forall_mem_cons.mp hall
    rw [hf.eq_of_headKeyword? (isHeadedBy_iff.mp hhead) hword, ih hall]

/-- Lists at the start whose head refers to nothing are left as they are. -/
theorem takeWhile_isHeadedBy (h : NumberedAll s names items items') (word : Keyword)
    (hword : word.mayRefer = false) :
    items'.takeWhile (isHeadedBy word) = items.takeWhile (isHeadedBy word) ∧
      NumberedAll s names (items.drop (items.takeWhile (isHeadedBy word)).length)
        (items'.drop (items.takeWhile (isHeadedBy word)).length) := by
  obtain ⟨hrow, hdrop⟩ := h.takeWhile (p := isHeadedBy word) (fun _ => opcode?_of_isHeadedBy)
    fun _ _ hf => hf.isHeadedBy_eq word
  exact ⟨eq_of_isHeadedBy hrow (fun f hf => List.mem_takeWhile_imp hf) hword, hdrop⟩

end NumberedAll

/-- The items of a list are numbered for what its keyword says. -/
theorem Numbered.exists_keyword {word : Keyword} {inside : Names} (h : Numbered s names f f')
    (hhead : f.headKeyword? = some word) (hinside : s.inside? word = some inside) :
    ∃ span head args args', f = .list span (head :: args) ∧ f' = .list span (head :: args') ∧
      NumberedAll s inside args args' := by
  have hnone := headOpcode?_of_headKeyword? hhead
  cases h with
  | same =>
    obtain ⟨span, head, args, rfl⟩ := exists_list_of_headKeyword? hhead
    exact ⟨span, head, args, args, rfl, rfl, .refl ..⟩
  | name => cases hhead
  | keyword hhead' hinside' h =>
    obtain rfl : word = _ := Option.some.inj (hhead.symm.trans hhead')
    obtain rfl := Option.some.inj (hinside.symm.trans hinside')
    exact ⟨_, _, _, _, rfl, rfl, h⟩
  | folded hop | conditional hop =>
    rw [headOpcode?, hop] at hnone
    cases hnone

end Form

/-- Readers that answer the same for related forms answer the same for rows of them. -/
theorem Success.mapM_of_forall₂ {α : Type} {R : Form → Form → Prop} {r : Form → Except Problem α}
    {as : List α} (hrow : List.Forall₂ R items items')
    (hr : ∀ f f' a, R f f' → r f = .ok a → r f' = .ok a) (h : items.mapM r = .ok as) :
    items'.mapM r = .ok as := by
  rw [Success.mapM_iff] at h ⊢
  induction hrow generalizing as with
  | nil => exact h
  | cons hf _ ih =>
    obtain ⟨a, as, ha, has, rfl⟩ := List.forall₂_cons_left_iff.mp h
    exact .cons (hr _ _ _ hf ha) (ih has)

/-! ## References -/

namespace Names

/-- What is resolved is no instruction. -/
theorem opcode?_of_resolve {space : Space} {f? : Option Form} {index : Nat}
    (h : names.resolve space span f? = .ok index) : ∀ f ∈ f?, f.opcode? = none := by
  obtain ⟨f, rfl, hresolved⟩ := resolvedAs_of_resolve h
  rintro g ⟨⟩
  cases hresolved with
  | name hid => exact opcode?_eq_none (by simp [hid])
  | number _ hnumber => exact opcode?_eq_none (by simp [hnumber])

/-- A name is resolved to its number, and the number to itself. -/
theorem resolve_numbered {space : Space} {more : Names} {f? f'? : Option Form} {index : Nat}
    (hmore : names <+: more) (hf : Option.Rel (Numbered s names) f? f'?)
    (h : more.resolve space span f? = .ok index) : more.resolve space span f'? = .ok index := by
  cases hf with
  | none => exact h
  | some hf =>
    rcases hf.alike_or_name with halike | ⟨⟨kind, source, place⟩, name, i, rfl, rfl, hid, hi, hlt⟩
    · cases halike with
      | same => exact h
      | list => cases h
    · obtain rfl : kind = .id name := hid
      have hi' : more.indexOf? name = some i := hmore.findIdx?_eq_some hi
      obtain ⟨hbound, -⟩ := List.findIdx?_eq_some_iff_getElem.mp hi'
      have hindex : i = index := by
        simp only [resolve, id?, hi'] at h
        exact Except.ok.inj h
      show (natural (toString i) place >>= fun index => _) = _
      rw [natural_toString hlt, ← hindex]
      exact if_pos hbound

/-- A reference has the index it had, and the items after it are in each other's place. -/
theorem resolve_head {space : Space} {more : Names} {index : Nat} (hmore : names <+: more)
    (hitems : NumberedAll s names items items')
    (h : more.resolve space span items.head? = .ok index) :
    more.resolve space span items'.head? = .ok index ∧
      NumberedAll s names (items.drop 1) (items'.drop 1) :=
  ⟨resolve_numbered hmore hitems.head? h, hitems.drop_one (opcode?_of_resolve h)⟩

end Names

namespace Immediate

theorem opcode?_of_label {labels : Labels} {f? : Option Form} {depth : Nat}
    (h : label labels span f? = .ok depth) : ∀ f ∈ f?, f.opcode? = none := by
  obtain ⟨f, rfl, hlabel⟩ := labelAs_of_label h
  rintro g ⟨⟩
  cases hlabel with
  | name hid => exact opcode?_eq_none (by simp [hid])
  | number _ hnumber => exact opcode?_eq_none (by simp [hnumber])

/-- A name among the labels has the depth of its first place. -/
theorem depthOf_eq {labels : Labels} {name : String} {depth : Nat}
    (h : Names.indexOf? (labels.map Label.name) name = some depth) (place : Span) :
    labels.depthOf name place = .ok depth ∧ depth < labels.length := by
  rw [Names.indexOf?, List.findIdx?_map] at h
  have hfind : labels.findIdx? (·.name == some name) = some depth := h
  exact ⟨by rw [Labels.depthOf, hfind], (List.findIdx?_eq_some_iff_getElem.mp hfind).1⟩

/-- A label is as deep as the number of the labels inside of it says. -/
theorem label_numbered {labels : Labels} {f? f'? : Option Form} {depth : Nat}
    (hlabels : labels.map Label.name = names) (hf : Option.Rel (Numbered s names) f? f'?)
    (h : label labels span f? = .ok depth) : label labels span f'? = .ok depth := by
  cases hf with
  | none => exact h
  | some hf =>
    rcases hf.alike_or_name with halike | ⟨⟨kind, source, place⟩, name, i, rfl, rfl, hid, hi, hlt⟩
    · cases halike with
      | same => exact h
      | list => cases h
    · obtain rfl : kind = .id name := hid
      obtain ⟨hdepth, hbound⟩ := depthOf_eq (hlabels ▸ hi) place
      have hi : i = depth := by
        rw [label] at h
        exact Except.ok.inj (hdepth.symm.trans h)
      show (natural (toString i) place >>= fun depth => _) = _
      rw [natural_toString hlt, ← hi]
      show (discard (labels.atDepth i place) >>= fun _ => _) = _
      rw [Labels.atDepth, List.getElem?_eq_getElem hbound]
      rfl

/-- A label has the depth it had. -/
theorem label_head {labels : Labels} {depth : Nat} (hlabels : labels.map Label.name = names)
    (hitems : NumberedAll s names items items')
    (h : label labels span items.head? = .ok depth) :
    label labels span items'.head? = .ok depth ∧
      NumberedAll s names (items.drop 1) (items'.drop 1) :=
  ⟨label_numbered hlabels hitems.head? h, hitems.drop_one (opcode?_of_label h)⟩

/-- The labels of a table have the depths they had, and there are as many. -/
theorem labelTable_numbered {labels : Labels} {targets : List Nat}
    (hlabels : labels.map Label.name = names) (hitems : NumberedAll s names items items')
    (h : labelTable labels span items = .ok (targets, n)) :
    labelTable labels span items' = .ok (targets, n) ∧
      NumberedAll s names (items.drop n) (items'.drop n) := by
  rw [labelTable_eq_ok_iff] at h ⊢
  obtain ⟨first, others, hfirst, hothers, rfl, rfl⟩ := h
  obtain ⟨hrow, hdrop⟩ := (hitems.tail (opcode?_of_label hfirst)).takeWhile
    (fun _ => opcode?_of_isReference) fun _ _ hf => hf.isReference_eq
  have hothers' := Success.mapM_of_forall₂ hrow
    (fun _ _ _ hf => label_numbered hlabels (.some hf)) (Success.mapM_iff.mpr hothers)
  rw [hothers.length_eq, List.drop_tail, List.drop_tail] at hdrop
  exact ⟨⟨first, others, label_numbered hlabels hitems.head? hfirst,
    Success.mapM_iff.mp hothers', rfl, rfl⟩, hdrop⟩

/-! ### Immediates that refer to nothing -/

/-- Constants are not numbered, so their values are the same. -/
theorem const_alike {op : Opcode} {f? f'? : Option Form} {c : Const}
    (hf : Option.Rel Alike f? f'?) (h : const op span f? = .ok c) : const op span f'? = .ok c := by
  cases hf with
  | none => exact h
  | some hf =>
    cases hf with
    | same => exact h
    | list => cases h

theorem opcode?_of_const {op : Opcode} {f? : Option Form} {c : Const}
    (h : const op span f? = .ok c) : ∀ f ∈ f?, f.opcode? = none := by
  obtain ⟨f, t, _, rfl, hnumber, -⟩ := exists_numeral_of_const h
  rintro g ⟨⟩
  exact opcode?_eq_none (by simp [hnumber])

/-- Keyed immediates are not numbered. -/
theorem keyed?_alike (kind : TokenKind) {f? f'? : Option Form} (hf : Option.Rel Alike f? f'?) :
    keyed? kind f'? = keyed? kind f? := by
  cases hf with
  | none => rfl
  | some hf => cases hf <;> rfl

theorem drop_width {kind : TokenKind} (hkind : ∀ op, kind ≠ .opcode op)
    (hitems : NumberedAll s [] items items') :
    NumberedAll s [] (items.drop (width kind items)) (items'.drop (width kind items)) := by
  cases h : keyed? kind items.head? with
  | none =>
    rw [width_of_eq_none h]
    exact hitems
  | some t =>
    obtain ⟨hhead, ht⟩ := keyed?_eq_some_iff.mp h
    rw [width_of_eq_some h]
    refine hitems.drop_one fun f hf => ?_
    obtain rfl := Option.some.inj (hhead.symm.trans hf)
    exact opcode?_eq_none_of_kind (ht ▸ hkind)

theorem offset_numbered {k : Nat} (hitems : NumberedAll s [] items items')
    (h : offset items = .ok (k, n)) :
    offset items' = .ok (k, n) ∧ NumberedAll s [] (items.drop n) (items'.drop n) := by
  refine ⟨by rwa [offset, keyed?_alike .offsetEq hitems.head?_alike], ?_⟩
  rw [takes_of_offset h]
  exact drop_width (by simp) hitems

theorem align_numbered {op : Opcode} {a : Nat} (hitems : NumberedAll s [] items items')
    (h : align op items = .ok (a, n)) :
    align op items' = .ok (a, n) ∧ NumberedAll s [] (items.drop n) (items'.drop n) := by
  refine ⟨by rwa [align, keyed?_alike .alignEq hitems.head?_alike], ?_⟩
  rw [takes_of_align h]
  exact drop_width (by simp) hitems

/-- An access to memory has the offset and the alignment it had. -/
theorem memArg_numbered {op : Opcode} {arg : MemArg} (hitems : NumberedAll s [] items items')
    (h : memArg op items = .ok (arg, n)) :
    memArg op items' = .ok (arg, n) ∧ NumberedAll s [] (items.drop n) (items'.drop n) := by
  obtain ⟨i, j, hoffset, halign, rfl⟩ := memArg_eq_ok_iff.mp h
  obtain ⟨hoffset', hitems⟩ := offset_numbered hitems hoffset
  obtain ⟨halign', hitems⟩ := align_numbered hitems halign
  rw [List.drop_drop, List.drop_drop] at hitems
  exact ⟨memArg_eq_ok_iff.mpr ⟨i, j, hoffset', halign', rfl⟩, hitems⟩

end Immediate

/-! ## Type uses -/

/-- No list of parameters or results holds a reference. -/
theorem Signature.read_numbered {namesAllowed : Bool} {ps : List Param} {rs : List ValType}
    (hitems : NumberedAll s names items items')
    (h : read namesAllowed items = .ok (ps, rs, n)) :
    read namesAllowed items' = .ok (ps, rs, n) ∧
      NumberedAll s names (items.drop n) (items'.drop n) := by
  obtain ⟨hps, hrest⟩ := hitems.takeWhile_isHeadedBy .paramKw rfl
  obtain ⟨hrs, hrest⟩ := hrest.takeWhile_isHeadedBy .resultKw rfl
  rw [List.drop_drop, List.drop_drop, ← (readAs_of_read h).takes] at hrest
  refine ⟨?_, hrest⟩
  unfold read at h ⊢
  dsimp only at h ⊢
  rw [hps, hrs]
  exact h

namespace TypeUse

variable {namesAllowed : Bool} {t t' : TypeTable} {use : TypeUse} {named : Option (Nat × Span)}

/-- A type use names the type it named, by its number. -/
theorem explicit?_numbered (ht : s.spaces.types <+: t.names)
    (hitems : NumberedAll s names items items') (h : explicit? t items = .ok named) :
    explicit? t items' = .ok named := by
  have hhead := hitems.head?
  cases named with
  | none =>
    rw [explicit?_eq_none_iff] at h ⊢
    generalize items.head? = f?, items'.head? = f'? at hhead h
    cases hhead with
    | none => exact h
    | some hf =>
      rintro f' ⟨⟩
      rw [hf.isHeadedBy_eq]
      exact h _ rfl
  | some named =>
    obtain ⟨f, ref, hfirst, htype, hargs, hspan, hindex⟩ := explicit?_eq_some_iff.mp h
    rw [hfirst] at hhead
    generalize hfirst' : items'.head? = f'? at hhead
    obtain ⟨hf⟩ := hhead
    obtain ⟨span, head, args, args', rfl, rfl, hnumbered⟩ :=
      hf.exists_keyword (isHeadedBy_iff.mp htype) rfl
    obtain rfl : args = [ref] := hargs
    have hindex' : t.names.resolve .type span args'.head? = .ok named.1 :=
      Names.resolve_numbered ht hnumbered.head? hindex
    have hrest := (hnumbered.tail (Names.opcode?_of_resolve hindex)).eq_nil
    obtain ⟨ref', href', -⟩ := Names.leaf_of_resolve hindex'
    have hargs' : args' = [ref'] := by rw [← List.cons_head?_tail href', hrest]
    exact explicit?_eq_some_iff.mpr
      ⟨_, ref', hfirst', htype, hargs', hspan, href' ▸ hindex'⟩

/-- A type use is the same if its reference is a number. -/
theorem ReadAs.numbered (ht : s.spaces.types <+: t.names)
    (hitems : NumberedAll s names items items') (h : ReadAs namesAllowed items t use n t') :
    ReadAs namesAllowed items' t use n t' ∧ NumberedAll s names (items.drop n) (items'.drop n) := by
  cases h with
  | explicit hexplicit hread htype hagree hunwritten =>
    obtain ⟨f, hf, hhead⟩ := isHeadedBy_of_explicit? hexplicit
    have htail := hitems.tail fun g hg => by
      obtain rfl : f = g := Option.some.inj (hf.symm.trans hg)
      exact opcode?_of_isHeadedBy hhead
    obtain ⟨hread', hrest⟩ := Signature.read_numbered htail hread
    rw [List.drop_tail, List.drop_tail] at hrest
    exact ⟨.explicit (explicit?_numbered ht hitems hexplicit) hread' htype hagree hunwritten, hrest⟩
  | implicit hexplicit hread =>
    obtain ⟨hread', hrest⟩ := Signature.read_numbered hitems hread
    exact ⟨.implicit (explicit?_numbered ht hitems hexplicit) hread', hrest⟩

end TypeUse

/-- An indirect call has the type it had. -/
theorem Immediate.IndirectType.numbered {t t' : TypeTable} {type : Nat}
    (ht : s.spaces.types <+: t.names) (hitems : NumberedAll s s.spaces.types items items')
    (h : IndirectType span items t type n t') :
    IndirectType span items' t type n t' ∧
      NumberedAll s s.spaces.types (items.drop n) (items'.drop n) := by
  have hheads := hitems.head?
  cases h with
  | @reference f index hhead href h =>
    rw [← hhead] at h
    obtain ⟨h, hrest⟩ := Names.resolve_head ht hitems h
    rw [hhead] at hheads
    generalize hhead' : items'.head? = f'? at hheads h
    cases hheads with
    | some hf => exact ⟨.reference hhead' (hf.isReference_eq.trans href) h, hrest⟩
  | use hhead h hpos =>
    obtain ⟨h, hrest⟩ := h.numbered ht hitems
    refine ⟨.use ?_ h hpos, hrest⟩
    generalize items.head? = f?, items'.head? = f'? at hheads hhead
    cases hheads with
    | none => rfl
    | some hf =>
      rw [Option.filter_some] at hhead ⊢
      rw [hf.isReference_eq]
      split at hhead
      · cases hhead
      · next href => rw [if_neg href]

/-! ## Plain instructions -/

/-- The names in a scope of a body are those of a name scope. -/
structure Scope.Fits (sc : Scope) (s : NameScope) : Prop where
  spaces : sc.spaces = s.spaces
  locals : sc.locals = s.locals
  labels : sc.labels.map Label.name = s.labels

namespace NameScope

variable {op : Opcode}

/-- An opcode whose immediates are no references has no names in its scope. -/
theorem names_of_isConst (h : op.isConst = true) : s.names op = [] := by
  unfold names
  split <;> first | rfl | cases h

theorem names_of_isLoad (h : op.isLoad = true) : s.names op = [] := by
  unfold names
  split <;> first | rfl | cases h

theorem names_of_isStore (h : op.isStore = true) : s.names op = [] := by
  unfold names
  split <;> first | rfl | cases h

/-- No block starts or ends at the word of a plain instruction. -/
theorem after_of_plain (hkind : BlockKind.ofOpcode? op = none) (hend : op ≠ .endOp)
    (rest : List Form) : s.after op rest = s := by
  unfold after
  split
  · cases hkind
  · cases hkind
  · cases hkind
  · exact absurd rfl hend
  · rfl

end NameScope

/-- An instruction is the same if its references are numbers. -/
theorem Plain.ReadAs.numbered {sc : Scope} {t t' : TypeTable} {op : Opcode} {p : Plain}
    (hsc : sc.Fits s) (ht : s.spaces.types <+: t.names)
    (hitems : NumberedAll s (s.names op) items items') (h : ReadAs sc span items t op p n t') :
    ReadAs sc span items' t op p n t' ∧
      NumberedAll s (s.names op) (items.drop n) (items'.drop n) := by
  obtain ⟨spaces, locals, labels, depth⟩ := sc
  obtain ⟨rfl, rfl, hlabels⟩ := hsc
  cases h with
  | bare h hop => exact ⟨.bare h hop, hitems⟩
  | numeric h => exact ⟨.numeric h, hitems⟩
  | br h =>
    obtain ⟨h, hrest⟩ := Immediate.label_head hlabels hitems h
    exact ⟨.br h, hrest⟩
  | brIf h =>
    obtain ⟨h, hrest⟩ := Immediate.label_head hlabels hitems h
    exact ⟨.brIf h, hrest⟩
  | brTable h =>
    obtain ⟨h, hrest⟩ := Immediate.labelTable_numbered hlabels hitems h
    exact ⟨.brTable h, hrest⟩
  | call h =>
    obtain ⟨h, hrest⟩ := Names.resolve_head List.prefix_rfl hitems h
    exact ⟨.call h, hrest⟩
  | callIndirect h =>
    obtain ⟨h, hrest⟩ := h.numbered ht hitems
    exact ⟨.callIndirect h, hrest⟩
  | getLocal h =>
    obtain ⟨h, hrest⟩ := Names.resolve_head List.prefix_rfl hitems h
    exact ⟨.getLocal h, hrest⟩
  | setLocal h =>
    obtain ⟨h, hrest⟩ := Names.resolve_head List.prefix_rfl hitems h
    exact ⟨.setLocal h, hrest⟩
  | teeLocal h =>
    obtain ⟨h, hrest⟩ := Names.resolve_head List.prefix_rfl hitems h
    exact ⟨.teeLocal h, hrest⟩
  | getGlobal h =>
    obtain ⟨h, hrest⟩ := Names.resolve_head List.prefix_rfl hitems h
    exact ⟨.getGlobal h, hrest⟩
  | setGlobal h =>
    obtain ⟨h, hrest⟩ := Names.resolve_head List.prefix_rfl hitems h
    exact ⟨.setGlobal h, hrest⟩
  | const hop h =>
    rw [NameScope.names_of_isConst hop] at hitems ⊢
    have htail := hitems.drop_one (Immediate.opcode?_of_const h)
    exact ⟨.const hop (Immediate.const_alike hitems.head?_alike h), htail⟩
  | load hop h =>
    rw [NameScope.names_of_isLoad hop] at hitems ⊢
    obtain ⟨h, hrest⟩ := Immediate.memArg_numbered hitems h
    exact ⟨.load hop h, hrest⟩
  | store hop h =>
    rw [NameScope.names_of_isStore hop] at hitems ⊢
    obtain ⟨h, hrest⟩ := Immediate.memArg_numbered hitems h
    exact ⟨.store hop h, hrest⟩

/-! ## Around the body of a block -/

namespace Block

variable {type : ValType} {name : Option String}

/-- A type that is written holds no reference, and what has references is no type. -/
theorem sig_alike (hhead : Option.Rel Alike items.head? items'.head?)
    (h : sig items = .ok (type, n)) : sig items' = .ok (type, n) := by
  unfold sig at h ⊢
  generalize items.head? = f?, items'.head? = f'? at hhead h
  cases hhead with
  | none => exact h
  | some hf =>
    cases hf with
    | same => exact h
    | @list place head args args' hlist =>
      simp only [valType?, headKeyword?] at h ⊢
      have hword : ∀ word, head.keyword? = some word → word.mayRefer = true := by
        intro word hword
        rcases hlist with hlist | ⟨word', hword', hrefer⟩
        · rw [show head.opcode? = none from
            headOpcode?_of_headKeyword? (f := list place (head :: args)) hword] at hlist
          cases hlist
        · obtain rfl : word = word' := Option.some.inj (hword.symm.trans hword')
          exact hrefer
      split at h
      · next hresult => cases hword _ hresult
      · next hparam => cases hword _ hparam
      · exact h

theorem opcode?_of_sig (h : sig items = .ok (type, n)) :
    n = 0 ∨ n = 1 ∧ ∀ f ∈ items.head?, f.opcode? = none := by
  have hone {f : Form} (hf : items.head? = some f) (hop : f.opcode? = none) :
      ∀ g ∈ items.head?, g.opcode? = none :=
    fun g hg => Option.some.inj (hf.symm.trans hg) ▸ hop
  cases sigAs_of_sig h with
  | none => exact .inl rfl
  | bare hf hvalue => exact .inr ⟨rfl, hone hf (opcode?_eq_none (by simp [hvalue]))⟩
  | empty hf hresult | result hf hresult =>
    exact .inr ⟨rfl, hone hf (opcode?_eq_none (by simp [hresult]))⟩

/-- The label of a block is declared, which is no reference. -/
theorem header_alike (hhead : Option.Rel Alike items.head? items'.head?)
    (htail : (items.head?.bind id?).isSome →
      Option.Rel Alike items.tail.head? items'.tail.head?)
    (h : header items = .ok (name, type, n)) : header items' = .ok (name, type, n) := by
  obtain ⟨m, hname, rfl, hsig⟩ := takes_of_header h
  have hname' : items'.head?.bind id? = name := by
    rw [hname]
    generalize items.head? = f?, items'.head? = f'? at hhead
    cases hhead with
    | none => rfl
    | some hf => exact hf.id?_eq
  have hsig' : sig (items'.drop (if name.isSome then 1 else 0)) = .ok (type, m) := by
    refine sig_alike ?_ hsig
    cases name with
    | none => exact hhead
    | some l =>
      rw [if_pos (by simp), List.drop_one, List.drop_one]
      exact htail (by simp [← hname])
  unfold header
  dsimp only
  rw [hname', Success.bind_of hsig']
  rfl

theorem header_numbered (hitems : NumberedAll s [] items items')
    (h : header items = .ok (name, type, n)) :
    header items' = .ok (name, type, n) ∧ NumberedAll s [] (items.drop n) (items'.drop n) := by
  have hlabel : (items.head?.bind id?).isSome → NumberedAll s [] items.tail items'.tail := by
    intro hsome
    apply hitems.tail
    intro f hf
    rw [Option.mem_def.mp hf] at hsome
    exact opcode?_eq_none (.inl hsome)
  refine ⟨header_alike hitems.head?_alike (fun hsome => (hlabel hsome).head?_alike) h, ?_⟩
  obtain ⟨m, hname, rfl, hsig⟩ := takes_of_header h
  rw [← List.drop_drop, ← List.drop_drop]
  have hrest : NumberedAll s [] (items.drop (if name.isSome then 1 else 0))
      (items'.drop (if name.isSome then 1 else 0)) := by
    cases name with
    | none => exact hitems
    | some l =>
      rw [if_pos (by simp), List.drop_one, List.drop_one]
      exact hlabel (by simp [← hname])
  obtain rfl | ⟨rfl, hop⟩ := opcode?_of_sig hsig
  · exact hrest
  · exact hrest.drop_one hop

/-- A label at the end of a block is not numbered either. -/
theorem repeatedLabel_numbered (hitems : NumberedAll s [] items items')
    (h : repeatedLabel name items = .ok n) :
    repeatedLabel name items' = .ok n ∧ NumberedAll s [] (items.drop n) (items'.drop n) := by
  have hhead := hitems.head?_alike
  have hsame : repeatedLabel name items' = repeatedLabel name items := by
    unfold repeatedLabel
    generalize items.head? = f?, items'.head? = f'? at hhead
    cases hhead with
    | none => rfl
    | some hf =>
      dsimp only
      rw [hf.id?_eq, hf.span_eq]
  refine ⟨hsame.trans h, ?_⟩
  obtain rfl | ⟨rfl, f, hf, hid, -⟩ := takes_of_repeatedLabel h
  · exact hitems
  · refine hitems.drop_one fun g hg => ?_
    obtain rfl : f = g := Option.some.inj (hf.symm.trans hg)
    exact opcode?_eq_none (by simp [hid])

/-- Behind an `end` the block has ended. -/
theorem flatEnd_numbered {label : Option String}
    (hitems : NumberedAll (s.push label) names items items')
    (h : flatEnd name span items = .ok n) :
    flatEnd name span items' = .ok n ∧ NumberedAll s [] (items.drop n) (items'.drop n) := by
  obtain ⟨f, rest, m, rfl, hend, rfl, hlabel⟩ := takes_of_flatEnd h
  obtain ⟨rest', rfl, hrest⟩ := hitems.exists_word hend
  obtain ⟨hlabel', hdrop⟩ := repeatedLabel_numbered hrest hlabel
  refine ⟨?_, ?_⟩
  · rw [flatEnd, if_pos hend, Success.bind_of hlabel']
    rfl
  · rw [Nat.add_comm, List.drop_succ_cons, List.drop_succ_cons]
    exact hdrop

end Block

/-! ## Behind the word of a folded conditional -/

namespace Form.NumberedArms

variable {inner : NameScope}

theorem head?_alike (h : NumberedArms s inner items items') :
    Option.Rel Alike items.head? items'.head? := by
  cases h with
  | nil => exact .none
  | arm hhead =>
    refine .some (.list ?_)
    rcases hhead with hthen | helse
    · exact .inr ⟨.thenKw, hthen, rfl⟩
    · exact .inl (by simp [helse])
  | operand _ _ hf => exact .some hf.alike

theorem drop (h : NumberedArms s inner items items') (n : Nat) :
    NumberedArms s inner (items.drop n) (items'.drop n) := by
  induction n generalizing items items' with
  | zero => exact h
  | succ n ih =>
    cases h with
    | nil => exact .nil s inner
    | arm _ _ h | operand _ _ _ h => exact ih h

/-- An arm of a conditional is a list with the same head. -/
theorem exists_arm (h : NumberedArms s inner (f :: rest) items')
    (harm : f.headKeyword? = some .thenKw ∨ f.headOpcode? = some .elseOp) :
    ∃ place head args args' rest', f = .list place (head :: args) ∧
      items' = .list place (head :: args') :: rest' ∧ NumberedAll inner [] args args' ∧
        NumberedArms s inner rest rest' := by
  cases h with
  | arm _ h hrest => exact ⟨_, _, _, _, _, rfl, rfl, h, hrest⟩
  | operand hthen helse => exact absurd harm (not_or.mpr ⟨hthen, helse⟩)

/-- What is no arm stands before the label of the conditional is in scope. -/
theorem exists_operand (h : NumberedArms s inner (f :: rest) items')
    (hthen : f.headKeyword? ≠ some .thenKw) (helse : f.headOpcode? ≠ some .elseOp) :
    ∃ f' rest', items' = f' :: rest' ∧ Numbered s [] f f' ∧ NumberedArms s inner rest rest' := by
  cases h with
  | arm hhead => exact absurd hhead (not_or.mpr ⟨hthen, helse⟩)
  | operand _ _ hf hrest => exact ⟨_, _, rfl, hf, hrest⟩

theorem eq_nil (h : NumberedArms s inner [] items') : items' = [] := by
  cases h
  rfl

theorem header_numbered {name : Option String} {type : ValType}
    (hitems : NumberedArms s inner items items')
    (h : Block.header items = .ok (name, type, n)) :
    Block.header items' = .ok (name, type, n) := by
  refine Block.header_alike hitems.head?_alike (fun _ => ?_) h
  rw [← List.drop_one, ← List.drop_one]
  exact (hitems.drop 1).head?_alike

end Form.NumberedArms

end WasmText
