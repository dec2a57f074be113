import WasmText.Proofs.Abandoned
import WasmText.Proofs.Ranges
import WasmText.Proofs.Locality
import WasmText.Proofs.Snippets

/-!
# Accesses that do not check their bounds

Readers look at the items of a list at places that earlier checks have led them to, and some of
these accesses do not check again that there is an item: they take the items from a place on, the
item at a place, or one from a counter. `Access.Made` has each of them with what has succeeded
before it, for any form and any state of the reader, and `Access.Made.inBounds` is that all of them
stay in bounds; `Proofs.AccessedItems` has the readers that make them. Places count from the head of
a list.
-/

namespace WasmText

open Form

/-! ## Accesses -/

/-- An access that does not check its bounds. -/
inductive Access
  /-- The item at a place of a list. -/
  | item (length place : Nat)
  /-- The items of a list from a place on. -/
  | rest (length place : Nat)
  /-- A counter, less one. -/
  | less (count : Nat)

namespace Access

/-- What is looked at is there, and no counter falls below 0. -/
def InBounds : Access → Prop
  | item length place => place < length
  | rest length place => place ≤ length
  | less count => 0 < count

end Access

namespace Form

/-- The number of items of a list, its head among them. -/
def itemCount (f : Form) : Nat := (f.items?.getD []).length

theorem itemCount_eq {f : Form} {word : Keyword} (h : f.headKeyword? = some word) :
    f.itemCount = f.args.length + 1 := by
  match f with
  | atom t => cases h
  | list span [] => cases h
  | list span (head :: items) => rfl

theorem args_length_lt_itemCount {f g : Form} {n : Nat} (h : f.args[n]? = some g) :
    n + 1 < f.itemCount := by
  match f with
  | atom t => cases h
  | list span [] => cases h
  | list span (head :: items) =>
    obtain ⟨hn, -⟩ := List.getElem?_eq_some_iff.mp h
    exact Nat.succ_lt_succ hn

end Form

/-! ## What is taken of a list -/

theorem lt_length_of_head?_drop {items : List Form} {n : Nat} {f : Form}
    (h : (items.drop n).head? = some f) : n < items.length := by
  rw [List.head?_drop] at h
  exact (List.getElem?_eq_some_iff.mp h).1

/-- What is taken after a word that stands in front leaves a place in the list. -/
theorem place_le_of_head {items : List Form} {op : Opcode} {n : Nat}
    (hhead : items.head?.bind Form.opcode? = some op) (h : n ≤ (items.drop 1).length) :
    1 + n ≤ items.length := by
  cases items with
  | nil => cases hhead
  | cons f items =>
    rw [List.drop_one, List.tail_cons] at h
    rw [List.length_cons]
    omega

namespace Signature

/-- How many forms the parameters and results at the front of some forms take. -/
def taken (items : List Form) : Nat :=
  (items.takeWhile (isHeadedBy .paramKw)).length +
    ((items.drop (items.takeWhile (isHeadedBy .paramKw)).length).takeWhile
      (isHeadedBy .resultKw)).length

theorem taken_le_length (items : List Form) : taken items ≤ items.length := by
  have hparams := (List.takeWhile_prefix (l := items) (isHeadedBy .paramKw)).length_le
  have hresults := (List.takeWhile_prefix
    (l := items.drop (items.takeWhile (isHeadedBy .paramKw)).length)
    (isHeadedBy .resultKw)).length_le
  rw [List.length_drop] at hresults
  unfold taken
  omega

/-- A signature that is refused has something written. -/
theorem taken_pos {namesAllowed : Bool} {items : List Form} {p : Problem}
    (h : read namesAllowed items = .error p) : 0 < taken items := by
  refine Nat.pos_of_ne_zero fun hzero => ?_
  obtain ⟨hparams, hresults⟩ := Nat.add_eq_zero_iff.mp hzero
  unfold read at h
  dsimp only at h
  rw [List.eq_nil_of_length_eq_zero hresults, List.eq_nil_of_length_eq_zero hparams] at h
  cases h

end Signature

namespace Field

/-- The place in a field after its name and its inline exports. -/
def placeAfterExports (f : Form) : Nat := 1 + (name f.args).2 + (inlineExports f).length

/-- What follows the opening of a definition goes on to the end of the field. -/
theorem placeAfterExports_add {kind : ExternKind} {d d' : Draft} {f : Form} {o : Opening}
    {word : Keyword} (hhead : f.headKeyword? = some word)
    (h : opening kind d f = .ok (o, d')) (himport : o.imported = none) :
    placeAfterExports f + o.rest.length = f.itemCount := by
  obtain ⟨es, hopen, -⟩ := opens_of_opening h
  have hname := name_le_length f.args
  have hexports := (List.takeWhile_prefix (l := afterName f) (isHeadedBy .exportKw)).length_le
  have hafter : (afterName f).length = f.args.length - (name f.args).2 := List.length_drop
  have hrest : o.rest.length = (afterName f).length - (inlineExports f).length := by
    rw [hopen.rest_eq himport, afterExports, List.length_drop]
  unfold placeAfterExports
  rw [itemCount_eq hhead]
  unfold inlineExports at *
  omega

end Field

namespace Access

/-- The accesses that readers make, each with what has succeeded before it. -/
inductive Made : Access → Prop
  /-- The fields of a module, after its name. -/
  | fields {f : Form} (hhead : f.headKeyword? = some .moduleKw) :
    Made (.rest f.itemCount (1 + (Field.name f.args).2))
  /-- The head that a type definition has in place of `func`. -/
  | definitionHead {f : Form} {span : Span} {items : List Form}
    (hread : FuncType.ofDefinition? f ≠ none)
    (hitem : f.args[(Field.name f.args).2]? = some (.list span items)) :
    Made (.item items.length 0)
  /-- The name of a parameter that may not have one. -/
  | parameterName {namesAllowed : Bool} {f : Form} {span : Span}
    (hread : Signature.params namesAllowed f = .error ⟨.parameterName, span⟩) :
    Made (.item f.itemCount 1)
  /-- The place before the end of a signature with too many results. -/
  | lastPlace {namesAllowed : Bool} {items : List Form} {start : Nat} {span : Span}
    (hread : Signature.read namesAllowed (items.drop start) = .error ⟨.severalResults, span⟩) :
    Made (.less (start + Signature.taken (items.drop start)))
  /-- The last result of a signature with too many. -/
  | lastResult {namesAllowed : Bool} {items : List Form} {start : Nat} {span : Span}
    (hread : Signature.read namesAllowed (items.drop start) = .error ⟨.severalResults, span⟩) :
    Made (.item items.length (start + Signature.taken (items.drop start) - 1))
  /-- The front of a signature that is written after a reference to a type. -/
  | writtenSignature {namesAllowed : Bool} {items : List Form} {start : Nat} {named : Nat × Span}
    {params : List Param} {results : List ValType} {n : Nat} {t : TypeTable}
    (hexplicit : TypeUse.explicit? t (items.drop start) = .ok (some named))
    (hread : Signature.read namesAllowed (items.drop (start + 1)) = .ok (params, results, n))
    (hwritten : n ≠ 0) :
    Made (.item items.length (start + 1))
  /-- The index of a signature that was just added. -/
  | addedType (t : TypeTable) (sig : FuncType) (h : (t.findOrAdd sig).2 ≠ t) :
    Made (.less (t.findOrAdd sig).2.names.length)
  /-- The type of the parameter after those that are declared. -/
  | parameter {items : List Form} {t t' : TypeTable} {use : TypeUse} {n k : Nat} {names : Names}
    (hread : (TypeUse.read true items).run t = .ok ((use, n), t')) (hk : k < use.params.length)
    (hnames : Field.parameters { use with params := use.params.take k } = .ok names) :
    Made (.item use.sig.params.length names.length)
  /-- The body of a function, after its type and its locals. -/
  | funcBody {d d' d'' : Draft} {f : Form} {o : Field.Opening} {use : TypeUse} {n : Nat}
    (hhead : f.headKeyword? = some .funcKw) (hopen : Field.opening .func d f = .ok (o, d'))
    (himport : o.imported = none)
    (hread : d'.withTypes (TypeUse.read true o.rest) = .ok ((use, n), d'')) :
    Made (.rest f.itemCount (Field.placeAfterExports f + n +
      ((o.rest.drop n).takeWhile (isHeadedBy .localKw)).length))
  /-- What stands in a table where its elements should. -/
  | elements {d d' : Draft} {f list : Form} {o : Field.Opening}
    (hhead : f.headKeyword? = some .tableKw) (hopen : Field.opening .table d f = .ok (o, d'))
    (himport : o.imported = none)
    (hlist : Form.need .elemForm f.span o.rest.tail.head? = .ok list) :
    Made (.item f.itemCount (Field.placeAfterExports f + 1))
  /-- The initialiser of a global, after its type. -/
  | globalInit {d d' : Draft} {f : Form} {o : Field.Opening} {type : GlobalType}
    (hhead : f.headKeyword? = some .globalKw) (hopen : Field.opening .global d f = .ok (o, d'))
    (himport : o.imported = none)
    (htype : Field.globalType f.span o.rest.head? = .ok type) :
    Made (.rest f.itemCount (Field.placeAfterExports f + 1))
  /-- What stands where the least size should. -/
  | least {items : List Form} {start : Nat} {span : Span} {first : Form}
    (hfirst : Form.need .natural span (items.drop start).head? = .ok first) :
    Made (.item items.length start)
  /-- The contents of a segment, after its target and its offset. -/
  | segment {f item : Form} {space : Space} {names : Names} {index n : Nat}
    (htarget : Field.target space names f.args = .ok (index, n))
    (hoffset : Form.need .offset f.span f.args[n]? = .ok item) :
    Made (.rest f.itemCount (1 + n + 1))
  /-- The body of a folded block, after its label and its type. -/
  | blockBody {items : List Form} {op : Opcode} {label : Option String} {sig : ValType} {n : Nat}
    (hhead : items.head?.bind Form.opcode? = some op)
    (hheader : Block.header (items.drop 1) = .ok (label, sig, n)) :
    Made (.rest items.length (1 + n))
  /-- The operands of a folded instruction, after its immediates. -/
  | operands {items : List Form} {sc : Scope} {op : Opcode} {span : Span} {p : Plain} {n : Nat}
    {t t' : TypeTable} (hhead : items.head?.bind Form.opcode? = some op)
    (hread : (Plain.read sc op span (items.drop 1)).run t = .ok ((p, n), t')) :
    Made (.rest items.length (1 + n))
  /-- The label at a depth, counted from the outermost one. -/
  | label {ls : Labels} {depth : Nat} {span : Span} {l : Label}
    (hdepth : ls.atDepth depth span = .ok l) :
    Made (.item ls.length (ls.length - (depth + 1)))
  /-- The level of nesting that ends. -/
  | ascent {sc sc' : Scope} {span : Span} (hdescend : sc.descend span = .ok sc') :
    Made (.less sc'.depth)
  /-- The results that an assertion expects, after its action. -/
  | expected {f : Form} {a : Action} (haction : Command.action f = .ok a) :
    Made (.rest f.itemCount 2)
  /-- The number of lists or comments still open, of which one is closed. -/
  | closing {depth : Nat} (hopen : depth ≠ 0) : Made (.less depth)

/-- No access that is made is out of bounds. -/
theorem Made.inBounds {a : Access} (h : Made a) : a.InBounds := by
  cases h with
  | @fields f hhead =>
    have hname := Field.name_le_length f.args
    show 1 + (Field.name f.args).2 ≤ f.itemCount
    rw [itemCount_eq hhead]
    omega
  | @definitionHead f span items hread hitem =>
    refine List.length_pos_of_ne_nil fun hnil => hread ?_
    rw [hnil, Field.name_snd, ← List.head?_drop] at hitem
    unfold FuncType.ofDefinition?
    dsimp only
    rw [hitem]
  | @parameterName namesAllowed f span hread =>
    -- without arguments there is nothing to refuse
    cases hargs : f.args with
    | nil =>
      unfold Signature.params at hread
      rw [hargs] at hread
      cases hread
    | cons g others =>
      have hfirst : f.args[0]? = some g := by rw [hargs]; rfl
      exact args_length_lt_itemCount hfirst
  | @lastPlace namesAllowed items start span hread =>
    exact Nat.add_pos_right start (Signature.taken_pos hread)
  | @lastResult namesAllowed items start span hread =>
    have hpos := Signature.taken_pos hread
    have hle := Signature.taken_le_length (items.drop start)
    rw [List.length_drop] at hle
    show _ < items.length
    omega
  | @writtenSignature namesAllowed items start named params results n t hexplicit hread hwritten =>
    have hle := (Signature.unnestedTake_of_read hread).le_length
    rw [List.length_drop] at hle
    show _ < items.length
    omega
  | addedType t sig hadded =>
    unfold TypeTable.findOrAdd at hadded ⊢
    split at hadded
    · exact absurd rfl hadded
    · show 0 < (t.names ++ [none]).length
      simp
  | @parameter items t t' use n k names hread hk hnames =>
    have hparams := (TypeUse.readAs_of_read hread).length_params
    have hlength := Field.length_of_foldlM_declare hnames
    rw [List.length_take, List.length_nil] at hlength
    show names.length < use.sig.params.length
    omega
  | @funcBody d d' d'' f o use n hhead hopen himport hread =>
    have hplace := Field.placeAfterExports_add hhead hopen himport
    obtain ⟨t, hrun, -⟩ := Draft.of_withTypes hread
    have huse := (TypeUse.readAs_of_read hrun).unnestedTake.le_length
    have hlocals := (List.takeWhile_prefix (l := o.rest.drop n) (isHeadedBy .localKw)).length_le
    rw [List.length_drop] at hlocals
    show _ ≤ f.itemCount
    omega
  | @elements d d' f list o hhead hopen himport hlist =>
    have hplace := Field.placeAfterExports_add hhead hopen himport
    have hlist := eq_some_of_need hlist
    rw [← List.drop_one] at hlist
    have hlt := lt_length_of_head?_drop hlist
    show _ < f.itemCount
    omega
  | @globalInit d d' f o type hhead hopen himport htype =>
    have hplace := Field.placeAfterExports_add hhead hopen himport
    obtain ⟨g, hneed, -⟩ := Success.of_bind htype
    have hlt := lt_length_of_head?_drop (n := 0) (eq_some_of_need hneed)
    show _ ≤ f.itemCount
    omega
  | @least items start span first hfirst =>
    exact lt_length_of_head?_drop (eq_some_of_need hfirst)
  | @segment f item space names index n htarget hoffset =>
    have hlt := args_length_lt_itemCount (eq_some_of_need hoffset)
    show 1 + n + 1 ≤ f.itemCount
    omega
  | @blockBody items op label sig n hhead hheader =>
    exact place_le_of_head hhead (Block.unnestedTake_of_header hheader).le_length
  | @operands items sc op span p n t t' hhead hread =>
    exact place_le_of_head hhead (Plain.readAs_of_read hread).unnestedTake.le_length
  | @label ls depth span l hdepth =>
    unfold Labels.atDepth at hdepth
    split at hdepth
    · next hl =>
      have hlt := (List.getElem?_eq_some_iff.mp hl).1
      show _ < ls.length
      omega
    · cases hdepth
  | @ascent sc sc' span hdescend =>
    obtain ⟨-, rfl⟩ := Scope.descend_eq_ok_iff.mp hdescend
    exact Nat.succ_pos sc.depth
  | @expected f a haction =>
    obtain ⟨g, hneed, -⟩ := Success.of_bind haction
    exact args_length_lt_itemCount (eq_some_of_need hneed)
  | closing hopen => exact Nat.pos_of_ne_zero hopen

end Access

/-! ## Places in short sources -/

/-- No part of a source is longer than all of it. -/
theorem Source.length_le_size_of_slice? {src : Source} {span : Span} {text : List Char}
    (h : src.slice? span = some text) : text.length ≤ src.size := by
  unfold slice? Slice.between? at h
  split at h
  · obtain ⟨⟨before, rest⟩, hfront, h⟩ := Option.bind_eq_some_iff.mp h
    obtain ⟨⟨body, back⟩, hbody, h⟩ := Option.bind_eq_some_iff.mp h
    obtain rfl := Option.some.inj h
    have hsource := congrArg List.length (Slice.walk?_append hfront)
    have hrest := congrArg List.length (Slice.walk?_append hbody)
    have hsize : src.chars.length ≤ src.size := Slice.length_le_byteSize src.chars
    simp only [List.length_append, List.length_reverse, List.reverse_nil, List.length_nil]
      at hsource hrest ⊢
    omega
  · cases h

/-- A line is counted once for each newline before it, a column once for each character before it on
its line, so both are at most one more than there are bytes. -/
theorem Span.StartsIn.le_size {src : Source} {s : Span} (h : s.StartsIn src) :
    s.start ≤ src.size ∧ s.line ≤ src.size + 1 ∧ s.column ≤ src.size + 1 := by
  obtain ⟨front, back, hchars, hfront⟩ := h
  have hsize : src.size = Slice.byteSize front + Slice.byteSize back := by
    rw [Source.size, hchars, Slice.byteSize_append]
  have hlength := Slice.length_le_byteSize front
  have hlines : front.count '\n' ≤ front.length := List.count_le_length
  have hcolumns := (List.rtakeWhile_suffix (fun c => c != '\n') front).length_le
  rw [hfront.start, hfront.line, hfront.column]
  omega

/-- A location whose numbers fit in 32 bits. -/
structure Location.Fits (l : Location) : Prop where
  line : l.line < Nat.pow 2 32
  first : l.first < Nat.pow 2 32
  last : l.last < Nat.pow 2 32

theorem Location.fits_ofSpan {src : Source} {s : Span} (hsize : src.size < Nat.pow 2 31)
    (h : s.StartsIn src) : (Location.ofSpan src s).Fits := by
  obtain ⟨-, hline, hcolumn⟩ := h.le_size
  have hwidth : width ((src.slice? s).getD []) ≤ max src.size 1 := by
    have hlength : ((src.slice? s).getD []).length ≤ src.size := by
      cases htext : src.slice? s with
      | none => exact Nat.zero_le _
      | some text => exact Source.length_le_size_of_slice? htext
    unfold width
    split <;> omega
  have hpow : Nat.pow 2 32 = Nat.pow 2 31 + Nat.pow 2 31 := rfl
  have htwo : 2 ≤ Nat.pow 2 31 := by decide
  refine ⟨?_, ?_, ?_⟩
  · show s.line < Nat.pow 2 32
    omega
  · show s.column < Nat.pow 2 32
    omega
  · show s.column + width ((src.slice? s).getD []) < Nat.pow 2 32
    omega

/-- A problem that starts in its source is shown with a snippet, whatever its width. -/
theorem Diagnostic.exists_of_startsIn {src : Source} {p : Problem} (max : Nat)
    (h : p.span.StartsIn src) :
    ∃ d, ofProblem? src max p = some d ∧ d.location = Location.ofSpan src p.span := by
  obtain ⟨line, -, hat⟩ := Snippet.exists_line_of_startsIn h
  refine ⟨⟨p.kind, Location.ofSpan src p.span, p.message,
    Snippet.ofLine (line.rdropWhile (· == '\r')) p.span.column max⟩, ?_, rfl⟩
  rw [ofProblem?, Snippet.at?, hat]
  rfl

/-! ## Reading comes to an end -/

/-- Every problem of a source that is not abandoned can be told. -/
theorem Parsed.exists_reports_of_startsIn {α : Type} {p : Parsed α} (max : Nat)
    (hout : p.outcome ≠ .abandoned) (h : ∀ q ∈ p.problems, q.span.StartsIn p.source) :
    ∃ told, p.Reports max told := by
  have htold (ps : List Problem) (h : ∀ q ∈ ps, q.span.StartsIn p.source) :
      ∃ told, Diagnostic.ofProblems? p.source max ps = some told := by
    induction ps with
    | nil => exact ⟨[], rfl⟩
    | cons q ps ih =>
      rw [List.forall_mem_cons] at h
      obtain ⟨d, hd, -⟩ := Diagnostic.exists_of_startsIn max h.1
      obtain ⟨told, htold⟩ := ih h.2
      refine ⟨d :: told, ?_⟩
      rw [Diagnostic.ofProblems?] at htold
      rw [Diagnostic.ofProblems?, List.mapM_cons, hd, htold]
      rfl
  obtain ⟨told, htold⟩ := htold p.problems h
  exact ⟨told, hout, htold⟩

/-- Reading a short source ends with a module or a script, or with a rejection of which everything
can be told, unless the source has a type definition with an empty list in place of its function
type. All that is found wrong on the way starts between two characters of the source and can be
shown, and no access that reading makes is out of bounds. -/
theorem reading_ends_in_bounds (src : Source) (max : Nat) (hsize : src.size < Nat.pow 2 31) :
    ((∃ told, (Module.parse src).Reports max told) ∨ Form.SomeEmptyDefinition src.Contains) ∧
    ((∃ told, (Script.parse src).Reports max told) ∨ Form.SomeEmptyDefinition src.Contains) ∧
    (∀ p ∈ (Module.parse src).problems ++ Script.found src, p.span.StartsIn src ∧
      ∃ d, Diagnostic.ofProblem? src max p = some d ∧ d.location.Fits) ∧
    ∀ a, Access.Made a → a.InBounds := by
  have hmodule := Module.problems_stand src.grounds_startsIn
  have hfound := Script.found_stand src.grounds_startsIn
  refine ⟨?_, ?_, fun p hp => ?_, fun a => Access.Made.inBounds⟩
  · by_cases hout : (Module.parse src).outcome = .abandoned
    · exact .inr (Module.contains_of_abandoned hout)
    · refine .inl (Parsed.exists_reports_of_startsIn max hout ?_)
      rw [Module.parse_source]
      exact hmodule
  · by_cases hout : (Script.parse src).outcome = .abandoned
    · exact .inr (Script.contains_of_abandoned hout)
    · refine .inl (Parsed.exists_reports_of_startsIn max hout ?_)
      rw [Script.parse_source]
      exact fun p hp => hfound p (Script.problems_eq_found src ▸ hp)
  · have hstarts := (List.mem_append.mp hp).elim (hmodule p) (hfound p)
    obtain ⟨d, hd, hlocation⟩ := Diagnostic.exists_of_startsIn max hstarts
    refine ⟨hstarts, d, hd, ?_⟩
    rw [hlocation]
    exact Location.fits_ofSpan hsize hstarts

/-- A module that is abandoned after a stray token, which is told of in bounds as well. -/
theorem reading_ends_in_bounds_abandoned :
    let src : Source := ⟨"t", "5 (type $t ())"⟩
    src.size < Nat.pow 2 31 ∧ (Module.parse src).outcome.isAbandoned = true ∧
      Form.SomeEmptyDefinition src.Contains ∧
      (Module.parse src).problems.map (·.span.start) = [0] ∧
      ∀ p ∈ (Module.parse src).problems, p.span.StartsIn src := by
  intro src
  have hsize : src.size < Nat.pow 2 31 := by decide +kernel
  have hout : (Module.parse src).outcome.isAbandoned = true := by decide +kernel
  obtain ⟨hmodule, -, hproblems, -⟩ := reading_ends_in_bounds src 80 hsize
  refine ⟨hsize, hout, ?_, by decide +kernel, fun p hp => ?_⟩
  · refine hmodule.resolve_left fun ⟨told, hne, _⟩ => ?_
    cases houtcome : (Module.parse src).outcome with
    | abandoned => exact hne houtcome
    | accepted | rejected => rw [houtcome] at hout; cases hout
  · exact (hproblems p (List.mem_append_left _ hp)).1

end WasmText
