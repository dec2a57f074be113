import WasmText.Proofs.BodySteps

/-!
# Where immediates end

The immediates of an instruction, the header of a block and the label behind an `end` are read off
the front of what follows. `Form.Cut n items items'` says that `items'` starts like `items` for at
least `n` forms, and where it ceases to, an instruction word comes next or nothing. Then what takes
`n` forms of `items` reads the same off `items'`: no word is mistaken for an immediate, and no span
but that of a missing form matters. No instructions stand in the forms that are taken.
-/

namespace WasmText

namespace Form

variable {n m : Nat} {items items' : List Form} {f : Form}

/-! ## Rows that start alike -/

/-- Whether a form is a list that instructions stand in: a folded instruction, or an arm of a folded
conditional. -/
def isNested (f : Form) : Bool := f.headOpcode?.isSome || f.isHeadedBy .thenKw

/-- Some forms are none at all, or an instruction word comes first. -/
def WordFirst (items : List Form) : Prop := ∀ f ∈ items.head?, f.opcode?.isSome = true

theorem wordFirst_nil : WordFirst [] := by
  intro f hf
  cases hf

theorem wordFirst_cons (h : f.opcode?.isSome = true) (items : List Form) :
    WordFirst (f :: items) := by
  intro g hg
  obtain rfl := Option.some.inj hg
  exact h

theorem WordFirst.append (h : WordFirst items) (h' : WordFirst items') :
    WordFirst (items ++ items') := by
  cases items with
  | nil => exact h'
  | cons f items => exact wordFirst_cons (h f rfl) _

/-- A word is nothing else. -/
theorem eq_none_of_opcode? (h : f.opcode?.isSome = true) :
    f.id? = none ∧ f.number? = none ∧ f.valType? = none ∧ f.headKeyword? = none ∧
      f.isReference = false := by
  obtain ⟨⟨kind, text, span⟩⟩ | ⟨span, items⟩ := f
  · cases kind with
    | opcode op => exact ⟨rfl, rfl, rfl, rfl, rfl⟩
    | _ => cases h
  · cases h

theorem not_isHeadedBy_of_opcode? (word : Keyword) (h : f.opcode?.isSome = true) :
    f.isHeadedBy word = false := by
  rw [isHeadedBy, (eq_none_of_opcode? h).2.2.2.1]
  rfl

/-- The two rows have at least `n` forms at the front in common, and the second goes on after the
forms that they share with an instruction word or not at all. -/
def Cut (n : Nat) (items items' : List Form) : Prop :=
  ∃ kept others tail, items = kept ++ others ∧ items' = kept ++ tail ∧ n ≤ kept.length ∧
    WordFirst tail

/-- Items that are taken and then go on with a word are cut there. -/
theorem cut_take (hn : n ≤ items.length) (h : WordFirst items') :
    Cut n items (items.take n ++ items') :=
  ⟨items.take n, items.drop n, items', (List.take_append_drop n items).symm, rfl,
    by rw [List.length_take_of_le hn], h⟩

namespace Cut

/-- Items that are cut at a place are cut at any place before it. -/
theorem mono (h : Cut n items items') (hm : m ≤ n) : Cut m items items' := by
  obtain ⟨kept, others, tail, hitems, hitems', hlength, htail⟩ := h
  exact ⟨kept, others, tail, hitems, hitems', hm.trans hlength, htail⟩

/-- What follows the first of the common items is cut after the rest of them. -/
theorem drop (h : Cut (m + n) items items') : Cut n (items.drop m) (items'.drop m) := by
  obtain ⟨kept, others, tail, rfl, rfl, hlength, htail⟩ := h
  have hm : m ≤ kept.length := Nat.le_of_add_right_le hlength
  refine ⟨kept.drop m, others, tail, List.drop_append_of_le_length hm,
    List.drop_append_of_le_length hm, ?_, htail⟩
  rw [List.length_drop]
  omega

/-- Items that have one in common start with it. -/
theorem head? (h : Cut (n + 1) items items') : items'.head? = items.head? := by
  obtain ⟨kept, others, tail, rfl, rfl, hlength, -⟩ := h
  cases kept with
  | nil => exact absurd hlength (by simp)
  | cons f kept => rfl

theorem tail (h : Cut (n + 1) items items') : Cut n items.tail items'.tail := by
  rw [← List.drop_one, ← List.drop_one]
  exact drop (Nat.add_comm n 1 ▸ h)

/-- Where nothing has to be in common, the first forms still are, or a word comes first. -/
theorem head?_or_wordFirst (h : Cut n items items') :
    items'.head? = items.head? ∨ WordFirst items' := by
  obtain ⟨kept, others, tail, rfl, rfl, -, htail⟩ := h
  cases kept with
  | nil => exact .inr htail
  | cons f kept => exact .inl rfl

/-- A row of forms that no word continues is found again. -/
theorem takeWhile {p : Form → Bool} (hp : ∀ f, f.opcode?.isSome = true → p f = false)
    (h : Cut (items.takeWhile p).length items items') :
    items'.takeWhile p = items.takeWhile p := by
  obtain ⟨kept, others, tail, rfl, rfl, hlength, htail⟩ := h
  induction kept with
  | nil =>
    have hnone : ∀ f ∈ tail.head?, p f = false := fun f hf => hp f (htail f hf)
    have hothers : others.takeWhile p = [] := by simpa using hlength
    rw [List.nil_append, List.nil_append, hothers]
    cases tail with
    | nil => rfl
    | cons f tail => rw [List.takeWhile_cons, hnone f rfl]; rfl
  | cons f kept ih =>
    rw [List.cons_append, List.cons_append, List.takeWhile_cons, List.takeWhile_cons]
    split
    · next hf =>
      rw [ih]
      simpa [List.takeWhile_cons, hf] using hlength
    · rfl

end Cut

/-! ## Forms that hold no instructions -/

/-- There are `n` forms, and no instructions stand in the first `n`. -/
structure UnnestedTake (n : Nat) (items : List Form) : Prop where
  le_length : n ≤ items.length
  not_nested : ∀ f ∈ items.take n, f.isNested = false

theorem unnestedTake_zero (items : List Form) : UnnestedTake 0 items :=
  ⟨Nat.zero_le _, by simp⟩

theorem unnestedTake_one (h : ∃ f, items.head? = some f ∧ f.isNested = false) :
    UnnestedTake 1 items := by
  obtain ⟨f, hhead, hf⟩ := h
  cases items with
  | nil => cases hhead
  | cons g items =>
    obtain rfl := Option.some.inj hhead
    exact ⟨by simp, by simpa using hf⟩

/-- Lists with a head that is no opcode hold no instructions. -/
theorem unnestedTake_takeWhile {p : Form → Bool} (h : ∀ f, p f = true → f.isNested = false)
    (items : List Form) : UnnestedTake (items.takeWhile p).length items := by
  refine ⟨(List.takeWhile_prefix p).length_le, fun f hf => ?_⟩
  rw [← List.prefix_iff_eq_take.mp (List.takeWhile_prefix p)] at hf
  exact h f (List.mem_takeWhile_imp hf)

/-- Items without instructions followed by items without instructions. -/
theorem UnnestedTake.add (hm : UnnestedTake m items) (hn : UnnestedTake n (items.drop m)) :
    UnnestedTake (m + n) items := by
  refine ⟨?_, fun f hf => ?_⟩
  · have hle := hm.le_length
    have hle' := hn.le_length
    rw [List.length_drop] at hle'
    omega
  · rw [List.take_add, List.mem_append] at hf
    exact hf.elim (hm.not_nested f) (hn.not_nested f)

/-- A list with a keyword at its head is no instruction, unless it is a `then`. -/
theorem not_nested_of_headKeyword? {word : Keyword} (h : f.headKeyword? = some word)
    (hword : word ≠ .thenKw) : f.isNested = false := by
  rw [isNested, headOpcode?_of_headKeyword? h, isHeadedBy, h]
  simpa using hword

theorem not_nested_of_isHeadedBy {word : Keyword} (h : f.isHeadedBy word = true)
    (hword : word ≠ .thenKw) : f.isNested = false :=
  not_nested_of_headKeyword? (isHeadedBy_iff.mp h) hword

theorem Leaf.not_nested (h : f.Leaf) : f.isNested = false := by
  obtain ⟨-⟩ := h
  rfl

theorem not_nested_of_isSome (h : f.id?.isSome ∨ f.number?.isSome ∨ f.valType?.isSome ∨
    f.opcode?.isSome) : f.isNested = false := by
  obtain ⟨t⟩ | ⟨span, items⟩ := f
  · rfl
  · simp [id?, number?, valType?, opcode?] at h

theorem not_nested_of_isReference (h : f.isReference = true) : f.isNested = false := by
  obtain ⟨t⟩ | ⟨span, items⟩ := f
  · rfl
  · cases h

end Form

open Form

variable {items items' : List Form} {n : Nat} {span span' : Span}

/-! ## Single immediates -/

namespace Names

/-- The span is used for the problem only, so where a reference is resolved it does not matter. -/
theorem resolve_span {space : Space} {names : Names} {f? : Option Form} {index : Nat}
    (h : names.resolve space span f? = .ok index) (span' : Span) :
    names.resolve space span' f? = .ok index := by
  cases f? with
  | none => cases h
  | some f => exact h

theorem not_nested_of_resolve {space : Space} {names : Names} {f? : Option Form} {index : Nat}
    (h : names.resolve space span f? = .ok index) : ∃ f, f? = some f ∧ f.isNested = false := by
  obtain ⟨f, hf, hleaf⟩ := leaf_of_resolve h
  exact ⟨f, hf, hleaf.not_nested⟩

end Names

namespace Immediate

/-- Where a label is resolved the span does not matter either. -/
theorem label_span {labels : Labels} {f? : Option Form} {depth : Nat}
    (h : label labels span f? = .ok depth) (span' : Span) :
    label labels span' f? = .ok depth := by
  cases f? with
  | none => cases h
  | some f => exact h

theorem not_nested_of_label {labels : Labels} {f? : Option Form} {depth : Nat}
    (h : label labels span f? = .ok depth) : ∃ f, f? = some f ∧ f.isNested = false := by
  obtain ⟨f, hf, hleaf⟩ := leaf_of_label h
  exact ⟨f, hf, hleaf.not_nested⟩

/-- The labels of a table are the references at the start of its items. -/
theorem labelTable_cut {labels : Labels} {targets : List Nat} (hcut : Cut n items items')
    (h : labelTable labels span items = .ok (targets, n)) (span' : Span) :
    labelTable labels span' items' = .ok (targets, n) := by
  rw [labelTable_eq_ok_iff] at h ⊢
  obtain ⟨first, others, hfirst, hothers, rfl, rfl⟩ := h
  have htail : items'.tail.takeWhile isReference = items.tail.takeWhile isReference :=
    Cut.takeWhile (fun f hf => (eq_none_of_opcode? hf).2.2.2.2) (hothers.length_eq ▸ hcut.tail)
  refine ⟨first, others, ?_, ?_, rfl, rfl⟩
  · rw [hcut.head?]
    exact label_span hfirst span'
  · rw [htail]
    exact hothers.imp fun f depth hf => label_span hf span'

/-- The labels of a table hold no instructions. -/
theorem unnestedTake_of_labelTable {labels : Labels} {targets : List Nat}
    (h : labelTable labels span items = .ok (targets, n)) : UnnestedTake n items := by
  obtain ⟨first, others, hfirst, hothers, -, rfl⟩ := labelTable_eq_ok_iff.mp h
  rw [← hothers.length_eq, Nat.add_comm]
  refine (unnestedTake_one (not_nested_of_label hfirst)).add ?_
  rw [List.drop_one]
  exact unnestedTake_takeWhile (fun f => not_nested_of_isReference) _

/-- Where a constant is read the span does not matter either. -/
theorem const_span {op : Opcode} {f? : Option Form} {c : Const}
    (h : const op span f? = .ok c) (span' : Span) : const op span' f? = .ok c := by
  cases f? with
  | none => cases h
  | some f => exact h

theorem not_nested_of_const {op : Opcode} {f? : Option Form} {c : Const}
    (h : const op span f? = .ok c) : ∃ f, f? = some f ∧ f.isNested = false := by
  obtain ⟨f, hf, hleaf⟩ := leaf_of_const h
  exact ⟨f, hf, hleaf.not_nested⟩

/-- A word is no `offset=` and no `align=`. -/
theorem keyed?_of_wordFirst {kind : TokenKind} (hkind : ∀ op, kind ≠ .opcode op)
    (h : WordFirst items) : keyed? kind items.head? = none := by
  match items with
  | [] => rfl
  | .list _ _ :: _ => rfl
  | .atom ⟨kind', text, place⟩ :: _ =>
    have hword := h _ rfl
    cases kind' with
    | opcode op => exact if_neg (Ne.symm (hkind op))
    | _ => cases hword

/-- An immediate with a keyword is the same, or left out in both rows. -/
theorem keyed?_cut {kind : TokenKind} (hkind : ∀ op, kind ≠ .opcode op)
    (hcut : Cut (width kind items) items items') :
    keyed? kind items'.head? = keyed? kind items.head? := by
  cases h : keyed? kind items.head? with
  | none =>
    rw [width_of_eq_none h] at hcut
    rcases hcut.head?_or_wordFirst with hhead | hword
    · rw [hhead, h]
    · exact keyed?_of_wordFirst hkind hword
  | some t =>
    rw [width_of_eq_some h] at hcut
    rw [hcut.head?, h]

/-- A keyed immediate is no list. -/
theorem unnestedTake_width (kind : TokenKind) (items : List Form) :
    UnnestedTake (width kind items) items := by
  cases h : keyed? kind items.head? with
  | none =>
    rw [width_of_eq_none h]
    exact unnestedTake_zero items
  | some t =>
    rw [width_of_eq_some h]
    exact unnestedTake_one ⟨_, (keyed?_eq_some_iff.mp h).1, rfl⟩

theorem offset_cut {k : Nat} (hcut : Cut n items items') (h : offset items = .ok (k, n)) :
    offset items' = .ok (k, n) := by
  rw [takes_of_offset h] at hcut
  rwa [offset, keyed?_cut (by simp) hcut]

theorem align_cut {op : Opcode} {a : Nat} (hcut : Cut n items items')
    (h : align op items = .ok (a, n)) : align op items' = .ok (a, n) := by
  rw [takes_of_align h] at hcut
  rwa [align, keyed?_cut (by simp) hcut]

/-- The offset and the alignment of a memory access are read from the items they take. -/
theorem memArg_cut {op : Opcode} {arg : MemArg} (hcut : Cut n items items')
    (h : memArg op items = .ok (arg, n)) : memArg op items' = .ok (arg, n) := by
  obtain ⟨i, j, hoffset, halign, rfl⟩ := memArg_eq_ok_iff.mp h
  have hoffset' := offset_cut (hcut.mono (Nat.le_add_right i j)) hoffset
  exact memArg_eq_ok_iff.mpr ⟨i, j, hoffset', align_cut hcut.drop halign, rfl⟩

theorem unnestedTake_of_memArg {op : Opcode} {arg : MemArg}
    (h : memArg op items = .ok (arg, n)) : UnnestedTake n items := by
  obtain ⟨i, j, hoffset, halign, rfl⟩ := memArg_eq_ok_iff.mp h
  obtain rfl := takes_of_offset hoffset
  obtain rfl := takes_of_align halign
  exact (unnestedTake_width _ items).add (unnestedTake_width _ _)

end Immediate

/-! ## Type uses -/

namespace Signature

/-- A signature is read from the lists it takes, since a word starts no list of types. -/
theorem read_cut {namesAllowed : Bool} {ps : List Param} {rs : List ValType}
    (hcut : Cut n items items') (h : read namesAllowed items = .ok (ps, rs, n)) :
    read namesAllowed items' = .ok (ps, rs, n) := by
  rw [(readAs_of_read h).takes] at hcut
  have hps := Cut.takeWhile (fun f => not_isHeadedBy_of_opcode? .paramKw)
    (hcut.mono (Nat.le_add_right _ _))
  have hrs := Cut.takeWhile (fun f => not_isHeadedBy_of_opcode? .resultKw) hcut.drop
  unfold read at h ⊢
  dsimp only at h ⊢
  rw [hps, hrs]
  exact h

theorem unnestedTake_of_read {namesAllowed : Bool} {ps : List Param} {rs : List ValType}
    (h : read namesAllowed items = .ok (ps, rs, n)) : UnnestedTake n items := by
  rw [(readAs_of_read h).takes]
  exact (unnestedTake_takeWhile (fun f h => not_nested_of_isHeadedBy h (by decide)) _).add
    (unnestedTake_takeWhile (fun f h => not_nested_of_isHeadedBy h (by decide)) _)

end Signature

namespace TypeUse

variable {namesAllowed : Bool} {t t' : TypeTable} {use : TypeUse}

theorem isHeadedBy_of_explicit? {named : Nat × Span} (h : explicit? t items = .ok (some named)) :
    ∃ f, items.head? = some f ∧ f.isHeadedBy .typeKw = true := by
  obtain ⟨f, ref, hf, hhead, -⟩ := explicit?_eq_some_iff.mp h
  exact ⟨f, hf, hhead⟩

/-- A type that is named is named by the item that is taken. -/
theorem explicit?_cut {named : Nat × Span} (hcut : Cut (n + 1) items items')
    (h : explicit? t items = .ok (some named)) : explicit? t items' = .ok (some named) := by
  unfold explicit? at h ⊢
  rwa [hcut.head?]

/-- No type is named where no list starts with `type`, and cutting does not make one. -/
theorem explicit?_cut_none (hcut : Cut n items items') (h : explicit? t items = .ok none) :
    explicit? t items' = .ok none := by
  rw [explicit?_eq_none_iff] at h ⊢
  rcases hcut.head?_or_wordFirst with hhead | hword
  · rwa [hhead]
  · exact fun f hf => not_isHeadedBy_of_opcode? .typeKw (hword f hf)

/-- A type use is read from the items it takes. -/
theorem ReadAs.cut (h : ReadAs namesAllowed items t use n t') (hcut : Cut n items items') :
    ReadAs namesAllowed items' t use n t' := by
  cases h with
  | explicit hexplicit hread htype hagree hunwritten =>
    exact .explicit (explicit?_cut hcut hexplicit) (Signature.read_cut hcut.tail hread) htype
      hagree hunwritten
  | implicit hexplicit hread =>
    exact .implicit (explicit?_cut_none hcut hexplicit) (Signature.read_cut hcut hread)

theorem ReadAs.unnestedTake (h : ReadAs namesAllowed items t use n t') :
    UnnestedTake n items := by
  cases h with
  | explicit hexplicit hread =>
    obtain ⟨f, hhead, htype⟩ := isHeadedBy_of_explicit? hexplicit
    rw [Nat.add_comm]
    refine (unnestedTake_one ⟨f, hhead, not_nested_of_isHeadedBy htype (by decide)⟩).add ?_
    rw [List.drop_one]
    exact Signature.unnestedTake_of_read hread
  | implicit _ hread => exact Signature.unnestedTake_of_read hread

/-- `ReadAs` holds of nothing but what is read. -/
theorem read_of_readAs (h : ReadAs namesAllowed items t use n t') :
    (read namesAllowed items).run t = .ok ((use, n), t') := by
  obtain ⟨index, sig, params⟩ := use
  have hget : (get : Elab TypeTable).run t = .ok (t, t) := rfl
  unfold read
  rw [Success.run_bind hget]
  cases h with
  | @explicit _ span ps rs n hexplicit hread htype hagree hunwritten =>
    rw [Success.run_lift hexplicit]
    dsimp only
    rw [Success.run_lift hread]
    dsimp only at htype ⊢
    rw [htype]
    dsimp only
    split
    · next hn =>
      have hparams : params = sig.params.map (⟨·, none, span⟩) := hunwritten hn
      rw [hn, hparams]
      rfl
    · next hn =>
      obtain ⟨hsig, hparams⟩ := hagree hn
      dsimp only at hsig hparams
      rw [if_neg (by rw [hsig]; exact fun h => h rfl), hparams]
      rfl
  | implicit hexplicit hread =>
    rw [Success.run_lift hexplicit]
    dsimp only
    rw [Success.run_lift hread]
    rfl

end TypeUse

/-! ## Plain instructions -/

namespace Immediate

variable {t t' : TypeTable} {type : Nat}

theorem filter_isReference_of_wordFirst (h : WordFirst items) :
    items.head?.filter isReference = none := by
  cases items with
  | nil => rfl
  | cons f items => exact Option.filter_some_neg (by simp [(eq_none_of_opcode? (h f rfl)).2.2.2.2])

theorem IndirectType.cut (h : IndirectType span items t type n t') (hcut : Cut n items items')
    (span' : Span) : IndirectType span' items' t type n t' := by
  cases h with
  | reference hhead href h =>
    exact .reference (hcut.head?.trans hhead) href (Names.resolve_span h span')
  | use hhead h hpos =>
    refine .use ?_ (h.cut hcut) hpos
    rcases hcut.head?_or_wordFirst with heq | hword
    · rw [heq, hhead]
    · exact filter_isReference_of_wordFirst hword

theorem IndirectType.unnestedTake (h : IndirectType span items t type n t') :
    UnnestedTake n items := by
  cases h with
  | reference hhead href => exact unnestedTake_one ⟨_, hhead, not_nested_of_isReference href⟩
  | use _ h => exact h.unnestedTake

/-- The type of an indirect call is read as it is described. -/
theorem run_of_indirectType (h : IndirectType span items t type n t') :
    (indirectType span items).run t = .ok ((type, n), t') := by
  unfold indirectType
  cases h with
  | @reference f index hhead href h =>
    have hget : (get : Elab TypeTable).run t = .ok (t, t) := rfl
    rw [hhead, Option.filter_some_pos href]
    dsimp only
    rw [Success.run_bind hget, Success.run_lift h]
    rfl
  | use hhead h hpos =>
    rw [hhead]
    dsimp only
    rw [Success.run_bind (TypeUse.read_of_readAs h)]
    dsimp only
    rw [if_neg hpos]
    rfl

end Immediate

namespace Plain

variable {sc sc' : Scope} {t t' : TypeTable} {op : Opcode} {p : Plain}

theorem ReadAs.unnestedTake (h : ReadAs sc span items t op p n t') : UnnestedTake n items := by
  cases h with
  | bare | numeric => exact unnestedTake_zero items
  | br h | brIf h => exact unnestedTake_one (Immediate.not_nested_of_label h)
  | brTable h => exact Immediate.unnestedTake_of_labelTable h
  | call h | getLocal h | setLocal h | teeLocal h | getGlobal h | setGlobal h =>
    exact unnestedTake_one (Names.not_nested_of_resolve h)
  | callIndirect h => exact h.unnestedTake
  | const _ h => exact unnestedTake_one (Immediate.not_nested_of_const h)
  | load _ h | store _ h => exact Immediate.unnestedTake_of_memArg h

/-- An instruction is the same in any row that starts alike, wherever it is nested. -/
theorem ReadAs.cut (h : ReadAs sc span items t op p n t') (hspaces : sc'.spaces = sc.spaces)
    (hlocals : sc'.locals = sc.locals) (hlabels : sc'.labels = sc.labels)
    (hcut : Cut n items items') (span' : Span) : ReadAs sc' span' items' t op p n t' := by
  cases h with
  | bare h hop => exact .bare h hop
  | br h => exact .br (hlabels ▸ hcut.head? ▸ Immediate.label_span h span')
  | brIf h => exact .brIf (hlabels ▸ hcut.head? ▸ Immediate.label_span h span')
  | brTable h => exact .brTable (hlabels ▸ Immediate.labelTable_cut hcut h span')
  | call h => exact .call (hspaces ▸ hcut.head? ▸ Names.resolve_span h span')
  | callIndirect h => exact .callIndirect (h.cut hcut span')
  | getLocal h => exact .getLocal (hlocals ▸ hcut.head? ▸ Names.resolve_span h span')
  | setLocal h => exact .setLocal (hlocals ▸ hcut.head? ▸ Names.resolve_span h span')
  | teeLocal h => exact .teeLocal (hlocals ▸ hcut.head? ▸ Names.resolve_span h span')
  | getGlobal h => exact .getGlobal (hspaces ▸ hcut.head? ▸ Names.resolve_span h span')
  | setGlobal h => exact .setGlobal (hspaces ▸ hcut.head? ▸ Names.resolve_span h span')
  | const hop h => exact .const hop (hcut.head? ▸ Immediate.const_span h span')
  | load hop h => exact .load hop (Immediate.memArg_cut hcut h)
  | store hop h => exact .store hop (Immediate.memArg_cut hcut h)
  | numeric h => exact .numeric h

/-! A number, a memory access and a numeric instruction are told apart by the opcode. -/

/-- The opcodes with immediates of one sort have none of another, so that the first test of the
reader that they pass is their own. -/
theorem not_isConst_of_isLoad (h : op.isLoad = true) : op.isConst ≠ true := by
  intro hconst
  unfold Opcode.isConst at hconst
  split at hconst <;> first | cases h | cases hconst

theorem not_isConst_of_isStore (h : op.isStore = true) : op.isConst ≠ true := by
  intro hconst
  unfold Opcode.isConst at hconst
  split at hconst <;> first | cases h | cases hconst

theorem not_isLoad_of_isStore (h : op.isStore = true) : op.isLoad ≠ true := by
  intro hload
  simp only [Opcode.isStore, Opcode.isLoad, Bool.and_eq_true, bne_iff_ne, beq_iff_eq] at h hload
  exact h.2 hload.2

theorem not_isConst_of_numeric? (h : numeric? op = some p) : op.isConst ≠ true := by
  intro hconst
  unfold Opcode.isConst at hconst
  split at hconst <;> first | cases h | cases hconst

theorem access_of_numeric? (h : numeric? op = some p) : op.access = 0 := by
  cases op <;> first | rfl | cases h

/-- `ReadAs` holds of nothing but what is read. -/
theorem read_of_readAs (h : ReadAs sc span items t op p n t') :
    (read sc op span items).run t = .ok ((p, n), t') := by
  cases h with
  | bare h hop =>
    subst hop
    simp only [bare, List.mem_cons, List.not_mem_nil, or_false] at h
    rcases h with rfl | rfl | rfl | rfl | rfl | rfl | rfl <;> rfl
  | br h | brIf h | call h | getLocal h | setLocal h | teeLocal h | getGlobal h | setGlobal h =>
    exact Success.run_lift h
  | brTable h => exact Success.run_lift h
  | callIndirect h => exact Success.run_bind (Immediate.run_of_indirectType h)
  | const hop h =>
    unfold read
    dsimp only
    split
    case h_18 =>
      rw [if_pos hop]
      exact Success.run_lift h
    all_goals cases hop
  | load hop h =>
    unfold read
    dsimp only
    split
    case h_18 =>
      rw [if_neg (not_isConst_of_isLoad hop), if_pos hop]
      exact Success.run_lift h
    all_goals cases hop
  | store hop h =>
    unfold read
    dsimp only
    split
    case h_18 =>
      rw [if_neg (not_isConst_of_isStore hop), if_neg (not_isLoad_of_isStore hop), if_pos hop]
      exact Success.run_lift h
    all_goals cases hop
  | numeric h =>
    have haccess := access_of_numeric? h
    unfold read
    dsimp only
    split
    case h_18 =>
      rw [if_neg (not_isConst_of_numeric? h), if_neg (by simp [Opcode.isLoad, haccess]),
        if_neg (by simp [Opcode.isStore, haccess]), h]
      rfl
    all_goals cases h

end Plain

/-! ## Around the body of a block -/

namespace Block

variable {type : ValType} {name : Option String}

/-- Where no type is written, there is none. -/
theorem type_of_sig_zero (h : sig items = .ok (type, 0)) : type = .void := by
  cases sigAs_of_sig h
  rfl

/-- A block whose items start with a word has no type. -/
theorem sig_of_wordFirst (h : WordFirst items) : sig items = .ok (.void, 0) := by
  cases items with
  | nil => rfl
  | cons f items =>
    obtain ⟨-, -, htype, hhead, -⟩ := eq_none_of_opcode? (h f rfl)
    rw [sig, List.head?_cons]
    dsimp only
    rw [htype, hhead]

/-- The type of a block is read from the items it takes. -/
theorem sig_cut (hcut : Cut n items items') (h : sig items = .ok (type, n)) :
    sig items' = .ok (type, n) := by
  cases n with
  | zero =>
    rcases hcut.head?_or_wordFirst with hhead | hword
    · rwa [sig, hhead]
    · rw [sig_of_wordFirst hword, type_of_sig_zero h]
  | succ n => rwa [sig, hcut.head?]

theorem unnestedTake_of_sig (h : sig items = .ok (type, n)) : UnnestedTake n items := by
  cases sigAs_of_sig h with
  | none => exact unnestedTake_zero items
  | @bare f _ hf hvalue =>
    exact unnestedTake_one ⟨f, hf, not_nested_of_isSome (by simp [hvalue])⟩
  | @empty f hf hresult | @result f _ _ hf hresult =>
    exact unnestedTake_one ⟨f, hf, not_nested_of_headKeyword? hresult (by decide)⟩

/-- The label and the type of a block are read from the items they take. -/
theorem header_cut (hcut : Cut n items items') (h : header items = .ok (name, type, n)) :
    header items' = .ok (name, type, n) := by
  obtain ⟨m, hname, rfl, hsig⟩ := takes_of_header h
  have hname' : items'.head?.bind Form.id? = name := by
    cases name with
    | none =>
      rcases hcut.head?_or_wordFirst with hhead | hword
      · rw [hhead, hname]
      · cases items' with
        | nil => rfl
        | cons f items' => exact (eq_none_of_opcode? (hword f rfl)).1
    | some l =>
      have hone : Cut 1 items items' := hcut.mono (Nat.le_add_right 1 m)
      rw [hname, hone.head?]
  unfold header
  dsimp only
  rw [hname', Success.bind_of (sig_cut hcut.drop hsig)]
  rfl

theorem unnestedTake_of_header (h : header items = .ok (name, type, n)) :
    UnnestedTake n items := by
  obtain ⟨m, hname, rfl, hsig⟩ := takes_of_header h
  refine .add ?_ (unnestedTake_of_sig hsig)
  cases name with
  | none => exact unnestedTake_zero items
  | some l =>
    obtain ⟨f, hf, hid⟩ := Option.bind_eq_some_iff.mp hname.symm
    exact unnestedTake_one ⟨f, hf, not_nested_of_isSome (by simp [hid])⟩

/-- A label repeated at the end of a block is read from the item it takes. -/
theorem repeatedLabel_cut (hcut : Cut n items items') (h : repeatedLabel name items = .ok n) :
    repeatedLabel name items' = .ok n := by
  cases n with
  | zero =>
    rcases hcut.head?_or_wordFirst with hhead | hword
    · rwa [repeatedLabel, hhead]
    · cases items' with
      | nil => rfl
      | cons f items' =>
        rw [repeatedLabel, List.head?_cons]
        dsimp only
        rw [(eq_none_of_opcode? (hword f rfl)).1]
  | succ n => rwa [repeatedLabel, hcut.head?]

theorem unnestedTake_of_repeatedLabel (h : repeatedLabel name items = .ok n) :
    UnnestedTake n items := by
  obtain rfl | ⟨rfl, f, hf, hid, -⟩ := takes_of_repeatedLabel h
  · exact unnestedTake_zero items
  · exact unnestedTake_one ⟨f, hf, not_nested_of_isSome (by simp [hid])⟩

/-- What stands at the end of a flat block is read from the items it takes. -/
theorem flatEnd_cut (hcut : Cut n items items') (h : flatEnd name span items = .ok n)
    (span' : Span) : flatEnd name span' items' = .ok n := by
  obtain ⟨f, rest, m, rfl, hend, rfl, hlabel⟩ := takes_of_flatEnd h
  have hhead : items'.head? = some f := Cut.head? (hcut.mono (Nat.le_add_right 1 m))
  have hrest : Cut m rest items'.tail := Cut.tail (Nat.add_comm 1 m ▸ hcut)
  rw [← List.cons_head?_tail hhead, flatEnd, if_pos hend,
    Success.bind_of (repeatedLabel_cut hrest hlabel)]
  rfl

theorem unnestedTake_of_flatEnd (h : flatEnd name span items = .ok n) :
    UnnestedTake n items := by
  obtain ⟨f, rest, m, rfl, hend, rfl, hlabel⟩ := takes_of_flatEnd h
  have hone : UnnestedTake 1 (f :: rest) :=
    unnestedTake_one ⟨f, rfl, not_nested_of_isSome (by simp [hend])⟩
  exact hone.add (unnestedTake_of_repeatedLabel hlabel)

end Block

end WasmText
