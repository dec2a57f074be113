import WasmText.Proofs.BodySteps
import WasmText.Proofs.Unfolding

/-!
# Rows of flat forms

`Body.Flat` says what a row of forms without folded instructions comes to, whatever follows it: rows
stand side by side (`Flat.append`), and a flat block is put together from its header, its arms and
its `end` (`run_flat`). `Body.FlatAs` leaves the spans open, and allows for a scope that is nested
less deep.
-/

namespace WasmText

open Form

/-! ## Scopes that are less deep -/

/-- The scope `sc'` has the meaning of `sc`, and is nested no deeper. -/
structure Scope.Shallower (sc' sc : Scope) : Prop where
  spaces : sc'.spaces = sc.spaces
  locals : sc'.locals = sc.locals
  labels : sc'.labels = sc.labels
  depth : sc'.depth ≤ sc.depth

namespace Scope

variable {sc sc' : Scope}

theorem Shallower.refl (sc : Scope) : sc.Shallower sc := ⟨rfl, rfl, rfl, Nat.le_refl _⟩

theorem Shallower.trans {sc'' : Scope} (h : sc''.Shallower sc') (h' : sc'.Shallower sc) :
    sc''.Shallower sc :=
  ⟨h.spaces.trans h'.spaces, h.locals.trans h'.locals, h.labels.trans h'.labels,
    h.depth.trans h'.depth⟩

/-- A scope is shallower than the one a level deeper. -/
theorem shallower_of_descend {deeper : Scope} {span : Span} (h : sc.descend span = .ok deeper) :
    sc.Shallower deeper := by
  obtain ⟨-, rfl⟩ := descend_eq_ok_iff.mp h
  exact ⟨rfl, rfl, rfl, Nat.le_succ _⟩

/-- Where a level can be opened in a scope it can be opened in a shallower one. -/
theorem Shallower.descend {deeper : Scope} {span : Span} (h : sc'.Shallower sc)
    (hdeeper : sc.descend span = .ok deeper) (span' : Span) :
    ∃ deeper', sc'.descend span' = .ok deeper' ∧ deeper'.Shallower deeper := by
  obtain ⟨hroom, rfl⟩ := descend_eq_ok_iff.mp hdeeper
  have hroom' := Nat.lt_of_le_of_lt h.depth hroom
  exact ⟨_, descend_eq_ok_iff.mpr ⟨hroom', rfl⟩, h.spaces, h.locals, h.labels,
    Nat.succ_le_succ h.depth⟩

/-- Scopes stay shallower inside of the same block. -/
theorem Shallower.enter (h : sc'.Shallower sc) (kind : LabelKind) (name : Option String)
    (sig : ValType) : (sc'.enter kind name sig).Shallower (sc.enter kind name sig) :=
  ⟨h.spaces, h.locals, congrArg (Labels.push · kind name sig) h.labels, h.depth⟩

theorem Shallower.enterElse {other : Scope} {span : Span} (h : sc'.Shallower sc)
    (hother : sc.enterElse span = .ok other) (span' : Span) :
    ∃ other', sc'.enterElse span' = .ok other' ∧ other'.Shallower other := by
  obtain ⟨name, sig, outer, hlabels, rfl⟩ := enterElse_eq_ok_iff.mp hother
  exact ⟨_, enterElse_eq_ok_iff.mpr ⟨name, sig, outer, h.labels.trans hlabels, rfl⟩, h.spaces,
    h.locals, rfl, h.depth⟩

end Scope

namespace Body

/-! ## Rows of flat forms -/

section Rows

variable {sc : Scope} {t : TypeTable} {items items' : List Form} {is js : List Instr}

/-- Some forms come out as some instructions in front of any forms that a word starts, and leave the
types as they are. -/
structure Flat (sc : Scope) (t : TypeTable) (items : List Form) (is : List Instr) : Prop where
  wordFirst : WordFirst items
  run : ∀ {tail others n t'}, WordFirst tail → (sequence sc tail).run t = .ok ((others, n), t') →
    (sequence sc (items ++ tail)).run t = .ok ((is ++ others, items.length + n), t')

theorem Flat.nil (sc : Scope) (t : TypeTable) : Flat sc t [] [] :=
  ⟨wordFirst_nil, fun _ h => by rwa [List.length_nil, Nat.zero_add]⟩

/-- Rows one after the other are read one after the other. -/
theorem Flat.append (h : Flat sc t items is) (h' : Flat sc t items' js) :
    Flat sc t (items ++ items') (is ++ js) := by
  refine ⟨h.wordFirst.append h'.wordFirst, fun htail hrun => ?_⟩
  have hboth := h.run (h'.wordFirst.append htail) (h'.run htail hrun)
  rwa [List.append_assoc, List.append_assoc, List.length_append, Nat.add_assoc]

/-- A word with its immediates is a row, as long as these end where a word follows. -/
theorem Flat.plain {a : Token} {op : Opcode} {p : Plain} (hop : a.kind = .opcode op)
    (hend : op ≠ .endOp) (helse : op ≠ .elseOp) (hplain : BlockKind.ofOpcode? op = none)
    (hread : ∀ tail, WordFirst tail →
      (Plain.read sc op a.span (items ++ tail)).run t = .ok ((p, items.length), t)) :
    Flat sc t (.atom a :: items) [.plain p a.span] := by
  refine ⟨wordFirst_cons (by rw [opcode?_of_kind hop]; rfl) _, ?_⟩
  intro tail others n t' htail hrun
  rw [List.cons_append, List.singleton_append, List.length_cons, Nat.add_right_comm]
  refine run_of_sequenceAs (.plain hop hend helse hplain (hread tail htail) ?_)
  rwa [List.drop_left]

/-- A flat block with its items is a row. -/
theorem Flat.block {a : Token} {op : Opcode} {kind : BlockKind} {i : Instr}
    (hop : a.kind = .opcode op) (hkind : BlockKind.ofOpcode? op = some kind)
    (hread : ∀ tail, WordFirst tail →
      (flat sc kind a.span (items ++ tail)).run t = .ok ((i, items.length), t)) :
    Flat sc t (.atom a :: items) [i] := by
  refine ⟨wordFirst_cons (by rw [opcode?_of_kind hop]; rfl) _, ?_⟩
  intro tail others n t' htail hrun
  rw [List.cons_append, List.singleton_append, List.length_cons, Nat.add_right_comm]
  refine run_of_sequenceAs (.block hop hkind (hread tail htail) ?_)
  rwa [List.drop_left]

/-- An `end` comes first. -/
def EndFirst (items : List Form) : Prop :=
  ∃ f rest, items = f :: rest ∧ f.opcode? = some .endOp

/-- An `else` or `end` comes first. -/
def Delimited (items : List Form) : Prop :=
  ∃ f rest, items = f :: rest ∧ (f.opcode? = some .elseOp ∨ f.opcode? = some .endOp)

/-- An `end` delimits what stands before it. -/
theorem EndFirst.delimited (h : EndFirst items) : Delimited items := by
  obtain ⟨f, rest, hitems, hend⟩ := h
  exact ⟨f, rest, hitems, .inr hend⟩

theorem EndFirst.append (h : EndFirst items) (items' : List Form) : EndFirst (items ++ items') := by
  obtain ⟨f, rest, rfl, hend⟩ := h
  exact ⟨f, rest ++ items', rfl, hend⟩

/-- What delimits starts with a word. -/
theorem Delimited.wordFirst (h : Delimited items) : WordFirst items := by
  obtain ⟨f, rest, rfl, hf⟩ := h
  rcases hf with hf | hf <;> exact wordFirst_cons (by rw [hf]; rfl) rest

/-- A row is read up to what delimits it. -/
theorem Flat.run_delimited (h : Flat sc t items is) {tail : List Form} (htail : Delimited tail) :
    (sequence sc (items ++ tail)).run t = .ok ((is, items.length), t) := by
  have hstop : (sequence sc tail).run t = .ok (([], 0), t) := by
    obtain ⟨f, rest, rfl, hf⟩ := htail
    rw [sequence_delimiter hf]
    rfl
  have hrun := h.run htail.wordFirst hstop
  rwa [List.append_nil, Nat.add_zero] at hrun

/-- Some forms come out as the other arm of a flat block in front of its `end`. -/
structure FlatOther (sc : Scope) (kind : BlockKind) (name : Option String) (t : TypeTable)
    (items : List Form) (is : List Instr) : Prop where
  delimited : ∀ tail, EndFirst tail → Delimited (items ++ tail)
  run : ∀ tail, EndFirst tail →
    (otherArm sc kind name (items ++ tail)).run t = .ok ((is, items.length), t)

theorem FlatOther.none (sc : Scope) (kind : BlockKind) (name : Option String) (t : TypeTable) :
    FlatOther sc kind name t [] [] := by
  refine ⟨fun tail htail => htail.delimited, fun tail htail => ?_⟩
  obtain ⟨f, rest, rfl, hend⟩ := htail
  rw [List.nil_append, otherArm, hend]
  rfl

/-- A row behind an `else` is the second arm of a conditional. -/
theorem FlatOther.elseArm {other : Scope} {name : Option String} {f : Form} {label : List Form}
    (helse : f.opcode? = some .elseOp)
    (hlabel : ∀ tail, WordFirst tail →
      Block.repeatedLabel name (label ++ tail) = .ok label.length)
    (hother : sc.enterElse f.span = .ok other) (hbody : Flat other t items is) :
    FlatOther sc .cond name t (f :: (label ++ items)) is := by
  refine ⟨fun tail _ => ⟨f, label ++ items ++ tail, rfl, .inl helse⟩, fun tail htail => ?_⟩
  have hafter := hlabel (items ++ tail) (hbody.wordFirst.append htail.delimited.wordFirst)
  rw [List.cons_append, List.append_assoc, List.length_cons, List.length_append,
    Nat.add_comm (label.length + items.length) 1, ← Nat.add_assoc]
  refine run_of_otherArmAs (.arm rfl helse hafter hother ?_)
  rw [List.drop_left]
  exact hbody.run_delimited htail.delimited

/-- A flat block is put together from its header, its arms and its `end`. -/
theorem run_flat {deeper : Scope} {kind : BlockKind} {name : Option String} {sig : ValType}
    {span : Span} {header body other last : List Form}
    (hheader : ∀ tail, WordFirst tail →
      Block.header (header ++ tail) = .ok (name, sig, header.length))
    (hdeeper : sc.descend span = .ok deeper)
    (hbody : Flat (deeper.enter kind.label name sig) t body is)
    (hother : FlatOther (deeper.enter kind.label name sig) kind name t other js)
    (hend : EndFirst last)
    (hlast : ∀ tail, WordFirst tail →
      Block.flatEnd name span (last ++ tail) = .ok last.length)
    {tail : List Form} (htail : WordFirst tail) :
    (flat sc kind span (header ++ (body ++ (other ++ last)) ++ tail)).run t =
      .ok ((kind.toInstr name sig is js span,
        (header ++ (body ++ (other ++ last))).length), t) := by
  have hdelimited := hother.delimited (last ++ tail) (hend.append tail)
  have hafter := hheader (body ++ (other ++ (last ++ tail)))
    (hbody.wordFirst.append hdelimited.wordFirst)
  have hdropHeader : (header ++ (body ++ (other ++ (last ++ tail)))).drop header.length =
      body ++ (other ++ (last ++ tail)) := List.drop_left
  have hdropBody : (header ++ (body ++ (other ++ (last ++ tail)))).drop
      (header.length + body.length) = other ++ (last ++ tail) := by
    rw [← List.append_assoc, ← List.length_append, List.drop_left]
  have hdropOther : (header ++ (body ++ (other ++ (last ++ tail)))).drop
      (header.length + body.length + other.length) = last ++ tail := by
    rw [← List.drop_drop, hdropBody, List.drop_left]
  have hbody := hbody.run_delimited hdelimited
  have hother := hother.run (last ++ tail) (hend.append tail)
  have hlast := hlast tail htail
  rw [← hdropHeader] at hbody
  rw [← hdropBody] at hother
  rw [← hdropOther] at hlast
  simp only [List.append_assoc, List.length_append, ← Nat.add_assoc]
  exact run_of_flatBlockAs (.block hafter hdeeper hbody hother hlast)

end Rows

/-! ## Rows that come to given instructions

A body is unfolded in a scope that may be shallower than where it was read: an operand is one level
deeper than its instruction if it is folded, and on the same level if it is not. -/

section Unfolds

variable {sc : Scope} {t : TypeTable} {items items' : List Form} {is js : List Instr}

/-- In all scopes as shallow as `sc` some forms come out as instructions that are given but for
their spans. -/
def FlatAs (sc : Scope) (t : TypeTable) (items : List Form) (is : List Instr) : Prop :=
  ∀ sc', sc'.Shallower sc →
    ∃ flat, Flat sc' t items flat ∧ Instr.unspannedAll flat = Instr.unspannedAll is

/-- The same for the other arm of a flat block. -/
def OtherAs (sc : Scope) (kind : BlockKind) (name : Option String) (t : TypeTable)
    (items : List Form) (is : List Instr) : Prop :=
  ∀ sc', sc'.Shallower sc →
    ∃ flat, FlatOther sc' kind name t items flat ∧
      Instr.unspannedAll flat = Instr.unspannedAll is

/-- A row that is read in a scope is read in a shallower one. -/
theorem FlatAs.mono {deeper : Scope} (h : FlatAs deeper t items is) (hsc : sc.Shallower deeper) :
    FlatAs sc t items is :=
  fun sc' hsc' => h sc' (hsc'.trans hsc)

theorem FlatAs.nil (sc : Scope) (t : TypeTable) : FlatAs sc t [] [] :=
  fun sc' _ => ⟨[], .nil sc' t, rfl⟩

/-- Rows one after the other are read in any shallower scope. -/
theorem FlatAs.append (h : FlatAs sc t items is) (h' : FlatAs sc t items' js) :
    FlatAs sc t (items ++ items') (is ++ js) := by
  intro sc' hsc
  obtain ⟨flat, hflat, hsame⟩ := h sc' hsc
  obtain ⟨flat', hflat', hsame'⟩ := h' sc' hsc
  refine ⟨flat ++ flat', hflat.append hflat', ?_⟩
  rw [Instr.unspannedAll_append, Instr.unspannedAll_append, hsame, hsame']

/-- A plain instruction is the word and its immediates, wherever the immediates were read. -/
theorem FlatAs.plain {a : Token} {op : Opcode} {p : Plain} {n : Nat} {span : Span}
    (hop : a.kind = .opcode op) (hend : op ≠ .endOp) (helse : op ≠ .elseOp)
    (hplain : BlockKind.ofOpcode? op = none) (hread : Plain.ReadAs sc span items t op p n t) :
    FlatAs sc t (.atom a :: items.take n) [.plain p span] := by
  intro sc' hsc
  have hn : n ≤ items.length := hread.unnestedTake.le_length
  refine ⟨[.plain p a.span], .plain hop hend helse hplain fun tail htail => ?_, rfl⟩
  have hsame : Plain.ReadAs sc' a.span (items.take n ++ tail) t op p n t :=
    hread.cut hsc.spaces hsc.locals hsc.labels (cut_take hn htail) a.span
  rw [List.length_take_of_le hn]
  exact Plain.read_of_readAs hsame

theorem OtherAs.none (sc : Scope) (kind : BlockKind) (name : Option String) (t : TypeTable) :
    OtherAs sc kind name t [] [] :=
  fun sc' _ => ⟨[], .none sc' kind name t, rfl⟩

/-- A row behind an `else` is the second arm in any shallower scope. -/
theorem OtherAs.elseArm {other : Scope} {name : Option String} {f : Form} {label : List Form}
    {span : Span} (helse : f.opcode? = some .elseOp)
    (hlabel : ∀ tail, WordFirst tail →
      Block.repeatedLabel name (label ++ tail) = .ok label.length)
    (hother : sc.enterElse span = .ok other) (hbody : FlatAs other t items is) :
    OtherAs sc .cond name t (f :: (label ++ items)) is := by
  intro sc' hsc
  obtain ⟨other', hother', hshallower⟩ := hsc.enterElse hother f.span
  obtain ⟨flat, hflat, hsame⟩ := hbody other' hshallower
  exact ⟨flat, .elseArm helse hlabel hother' hflat, hsame⟩

/-- A flat block comes to what its parts do. -/
theorem FlatAs.block {deeper : Scope} {a : Token} {op : Opcode} {kind : BlockKind}
    {name : Option String} {sig : ValType} {span span' : Span}
    {header body other last : List Form} (hop : a.kind = .opcode op)
    (hkind : BlockKind.ofOpcode? op = some kind)
    (hheader : ∀ tail, WordFirst tail →
      Block.header (header ++ tail) = .ok (name, sig, header.length))
    (hdeeper : sc.descend span = .ok deeper)
    (hbody : FlatAs (deeper.enter kind.label name sig) t body is)
    (hother : OtherAs (deeper.enter kind.label name sig) kind name t other js)
    (hend : EndFirst last)
    (hlast : ∀ tail, WordFirst tail →
      Block.flatEnd name a.span (last ++ tail) = .ok last.length) :
    FlatAs sc t (.atom a :: (header ++ (body ++ (other ++ last))))
      [kind.toInstr name sig is js span'] := by
  intro sc' hsc
  obtain ⟨deeper', hdeeper', hshallower⟩ := hsc.descend hdeeper a.span
  have hinner := hshallower.enter kind.label name sig
  obtain ⟨flat, hflat, hsame⟩ := hbody _ hinner
  obtain ⟨flat', hflat', hsame'⟩ := hother _ hinner
  refine ⟨[kind.toInstr name sig flat flat' a.span], .block hop hkind fun tail htail =>
    run_flat hheader hdeeper' hflat hflat' hend hlast htail, ?_⟩
  simp only [Instr.unspannedAll, BlockKind.unspanned_toInstr, hsame, hsame']

end Unfolds

/-! ## What is taken of a row -/

section Takes

variable {items : List Form} {n : Nat}

/-- The label and the type of a block are the same with a word after them. -/
theorem header_take {name : Option String} {sig : ValType}
    (h : Block.header items = .ok (name, sig, n)) (tail : List Form) (htail : WordFirst tail) :
    Block.header (items.take n ++ tail) = .ok (name, sig, (items.take n).length) := by
  have hn := (Block.unnestedTake_of_header h).le_length
  rw [List.length_take_of_le hn]
  exact Block.header_cut (cut_take hn htail) h

/-- A label at the end of a block is the same with a word after it. -/
theorem repeatedLabel_take {name : Option String} (h : Block.repeatedLabel name items = .ok n)
    (tail : List Form) (htail : WordFirst tail) :
    Block.repeatedLabel name (items.take n ++ tail) = .ok (items.take n).length := by
  have hn := (Block.unnestedTake_of_repeatedLabel h).le_length
  rw [List.length_take_of_le hn]
  exact Block.repeatedLabel_cut (cut_take hn htail) h

/-- The end of a block is the same with a word after it. -/
theorem flatEnd_take {name : Option String} {span : Span}
    (h : Block.flatEnd name span items = .ok n) (span' : Span) (tail : List Form)
    (htail : WordFirst tail) :
    Block.flatEnd name span' (items.take n ++ tail) = .ok (items.take n).length := by
  have hn := (Block.unnestedTake_of_flatEnd h).le_length
  rw [List.length_take_of_le hn]
  exact Block.flatEnd_cut (cut_take hn htail) h span'

theorem endFirst_take {name : Option String} {span : Span}
    (h : Block.flatEnd name span items = .ok n) : EndFirst (items.take n) := by
  obtain ⟨f, rest, m, rfl, hend, rfl, -⟩ := Block.takes_of_flatEnd h
  exact ⟨f, rest.take m, by rw [Nat.add_comm, List.take_succ_cons], hend⟩

theorem repeatedLabel_of_wordFirst (name : Option String) (h : WordFirst items) :
    Block.repeatedLabel name items = .ok 0 := by
  cases items with
  | nil => rfl
  | cons f items =>
    rw [Block.repeatedLabel, List.head?_cons]
    dsimp only
    rw [(eq_none_of_opcode? (h f rfl)).1]

/-- An `end` that is put in has no label. -/
theorem flatEnd_endWord (name : Option String) (span span' : Span) (tail : List Form)
    (htail : WordFirst tail) :
    Block.flatEnd name span ([endWord span'] ++ tail) = .ok [endWord span'].length := by
  have hlabel := repeatedLabel_of_wordFirst name htail
  have hend : (endWord span').opcode? = some .endOp := rfl
  rw [List.singleton_append, Block.flatEnd, if_pos hend, Success.bind_of hlabel]
  rfl

theorem endFirst_endWord (span : Span) : EndFirst [endWord span] := ⟨endWord span, [], rfl, rfl⟩

end Takes

end Body

end WasmText
