import WasmText.Proofs.Assembly
import WasmText.Proofs.FormInvariants

/-!
# Branches reach the labels that they were written to reach

The branches of a body are those that the words of its field write, one for one. Each aims at a
block around it or, in a function, at the function itself, and one that names its target aims at the
innermost block of that name. No branch that a field writes is left out of the module, and each is
inside the blocks that it is written in, so a field with a branch to a name of no block around it is
not accepted.

The labels in scope at a branch are read off its site: those of the blocks around it, and then the
labels of the body as a whole, which have no name.
-/

namespace WasmText

open Form

/-- Whether an instruction is one of the three branches. -/
def Opcode.isBranch : Opcode → Bool
  | .br | .brIf | .brTable => true
  | _ => false

/-- The forms that the targets of a branch are written as. -/
def Word.targets (w : Word) : List Form :=
  match w.op with
  | .br | .brIf => w.args.take 1
  | .brTable => w.args.take 1 ++ w.args.tail.takeWhile isReference
  | _ => []

theorem Word.targets_eq_nil {w : Word} (h : w.op.isBranch = false) : w.targets = [] := by
  unfold targets
  split
  · next hop => rw [hop] at h; cases h
  · next hop => rw [hop] at h; cases h
  · next hop => rw [hop] at h; cases h
  · rfl

/-- An opcode of which something holds that holds of no branch is none. -/
theorem Opcode.not_isBranch {α : Type} {op : Opcode} {a : α} {g : Opcode → α} (h : g op = a)
    (hbr : g .br ≠ a) (hbrIf : g .brIf ≠ a) (hbrTable : g .brTable ≠ a) : op.isBranch = false := by
  unfold isBranch
  split
  · exact absurd h hbr
  · exact absurd h hbrIf
  · exact absurd h hbrTable
  · rfl

namespace Plain

/-- The depths that a branch stores, the default of a table last. -/
def depths : Plain → List Nat
  | br depth | brIf depth => [depth]
  | brTable targets default => targets ++ [default]
  | _ => []

/-- Numeric instructions have no labels. -/
theorem depths_of_numeric? {op : Opcode} {p : Plain} (h : numeric? op = some p) :
    p.depths = [] := by
  cases numericAs_of_numeric? h <;> rfl

end Plain

/-- The depths that an instruction stores if it is a branch. -/
def Instr.depths : Instr → List Nat
  | .plain p _ => p.depths
  | _ => []

namespace Branch

/-- The depth of a target written as `f`, inside blocks with the labels `enclosing`, is in scope.
There are `outer` labels of the body as a whole. -/
structure InScope (outer : Nat) (enclosing : List (Option String)) (f : Form) (depth : Nat) :
    Prop where
  lt : depth < enclosing.length + outer
  carries : ∀ name, f.id? = some name → enclosing[depth]? = some (some name)
  nearest : ∀ name, f.id? = some name → ∀ i < depth, enclosing[i]? ≠ some (some name)
  counts : ∀ t, f.number? = some t → Form.natural t.text t.span = .ok depth

/-- The instruction of a site is that of a word, in the blocks that the word is written in, and its
depths are those of the word's targets. -/
structure Scoped (outer : Nat) (p : PlacedWord) (s : Site) : Prop where
  opcode : s.instr.opcode = p.word.op
  span : s.instr.span = p.word.span
  enclosing : s.enclosing = p.enclosing
  targets : List.Forall₂ (InScope outer s.enclosing) p.word.targets s.instr.depths

/-- The branches of a body are those written in a field, and in scope. -/
def AllScoped (outer : Nat) (f : Form) (body : List Instr) : Prop :=
  List.Forall₂ (Scoped outer) (f.placed.filter (·.word.op.isBranch))
    ((Instr.sitesAll [] body).filter (·.instr.opcode.isBranch))

/-! ## One target -/

section Label

variable {labels : Labels} {enclosing around : List (Option String)} {span : Span} {depth : Nat}

/-- A depth in range is that of a label. -/
theorem getElem?_of_atDepth {l : Label} (h : labels.atDepth depth span = .ok l) :
    labels[depth]? = some l := by
  unfold Labels.atDepth at h
  split at h
  · next l' hl' => rw [hl', Except.ok.inj h]
  · cases h

/-- A name that some label carries is that of a block, as the others have none. -/
theorem lt_length_of_getElem? {name : String} (haround : ∀ n ∈ around, n = none)
    (h : (enclosing ++ around)[depth]? = some (some name)) : depth < enclosing.length := by
  by_contra hge
  rw [List.getElem?_append_right (Nat.le_of_not_lt hge)] at h
  have hnone := haround _ (List.mem_of_getElem? h)
  cases hnone

/-- A name that is found is that of the innermost block with it, as no label around has one. -/
theorem inScope_of_name {f : Form} {name : String} (hid : f.id? = some name)
    (hlabels : labels.map Label.name = enclosing ++ around) (haround : ∀ n ∈ around, n = none)
    (h : labels.depthOf name span = .ok depth) :
    InScope around.length enclosing f depth := by
  obtain ⟨⟨l, hl, hname⟩, hbefore⟩ := Labels.atDepth_of_depthOf h
  have hcarries : (enclosing ++ around)[depth]? = some (some name) := by
    rw [← hlabels, List.getElem?_map, getElem?_of_atDepth hl, Option.map_some, hname]
  -- a label that carries a name is that of a block, so none of the body as a whole is meant
  have hlt := lt_length_of_getElem? haround hcarries
  refine ⟨Nat.lt_add_right _ hlt, ?_, ?_, ?_⟩
  · intro name' hid'
    obtain rfl : name = name' := Option.some.inj (hid.symm.trans hid')
    rwa [List.getElem?_append_left hlt] at hcarries
  · intro name' hid' i hi hcarries'
    obtain rfl : name = name' := Option.some.inj (hid.symm.trans hid')
    have hi' : (labels.map Label.name)[i]? = some (some name) := by
      rwa [hlabels, List.getElem?_append_left (hi.trans hlt)]
    obtain ⟨l', hl', hname'⟩ := Option.map_eq_some_iff.mp (List.getElem?_map ▸ hi')
    exact hbefore i hi l' hl' hname'
  · simp [number?_of_id? hid]

/-- A label that is read is in scope. -/
theorem inScope_of_label {f : Form} (hlabels : labels.map Label.name = enclosing ++ around)
    (haround : ∀ n ∈ around, n = none) (h : Immediate.label labels span (some f) = .ok depth) :
    InScope around.length enclosing f depth := by
  obtain ⟨f, ⟨⟩, hlabel⟩ := Immediate.labelAs_of_label h
  cases hlabel with
  | name hid h => exact inScope_of_name hid hlabels haround h
  | number hid hnumber h hl =>
    have hlt : depth < labels.length := (List.getElem?_eq_some_iff.mp (getElem?_of_atDepth hl)).1
    refine ⟨?_, ?_, ?_, ?_⟩
    · rwa [← List.length_append, ← hlabels, List.length_map]
    · simp [hid]
    · simp [hid]
    · intro t' ht'
      obtain rfl := Option.some.inj (hnumber.symm.trans ht')
      exact h

/-- A single target, as a list. -/
theorem forall₂_of_label {items : List Form} (hlabels : labels.map Label.name = enclosing ++ around)
    (haround : ∀ n ∈ around, n = none)
    (h : Immediate.label labels span items.head? = .ok depth) :
    List.Forall₂ (InScope around.length enclosing) (items.take 1) [depth] := by
  cases items with
  | nil => cases h
  | cons f items => exact .cons (inScope_of_label hlabels haround h) .nil

/-- The labels of a table are in scope, each where it is written. -/
theorem forall₂_of_labelTable {items : List Form} {targets : List Nat} {n : Nat}
    (hlabels : labels.map Label.name = enclosing ++ around) (haround : ∀ n ∈ around, n = none)
    (h : Immediate.labelTable labels span items = .ok (targets, n)) :
    List.Forall₂ (InScope around.length enclosing)
      (items.take 1 ++ items.tail.takeWhile isReference)
      (targets.dropLast ++ [targets.getLast?.getD 0]) := by
  obtain ⟨first, others, hfirst, hothers, rfl, -⟩ := Immediate.labelTable_eq_ok_iff.mp h
  have htargets : (first :: others).dropLast ++ [(first :: others).getLast?.getD 0] =
      [first] ++ others := by
    rw [List.getLast?_eq_some_getLast (List.cons_ne_nil first others), Option.getD_some,
      List.dropLast_concat_getLast, List.singleton_append]
  rw [htargets]
  refine List.rel_append (forall₂_of_label hlabels haround hfirst) ?_
  exact hothers.imp fun f d hd => inScope_of_label hlabels haround hd

/-- The labels of an instruction are in scope, each where it is written. -/
theorem forall₂_of_readAs {inner : Scope} {items : List Form} {t t' : TypeTable} {op : Opcode}
    {p : Plain} {n : Nat} (hlabels : inner.labels.map Label.name = enclosing ++ around)
    (haround : ∀ n ∈ around, n = none) (h : p.ReadAs inner span items t op n t') :
    List.Forall₂ (InScope around.length enclosing) (Word.targets ⟨op, span, items⟩) p.depths := by
  cases h with
  | br h => exact forall₂_of_label hlabels haround h
  | brIf h => exact forall₂_of_label hlabels haround h
  | brTable h => exact forall₂_of_labelTable hlabels haround h
  | bare h hop =>
    simp only [Plain.bare, List.mem_cons, List.not_mem_nil, or_false] at h
    subst hop
    rcases h with rfl | rfl | rfl | rfl | rfl | rfl | rfl <;> exact .nil
  | numeric h =>
    have hsome : (Plain.numeric? op).isSome = true := by
      rw [h]
      rfl
    have hop : op.isBranch = false :=
      Opcode.not_isBranch (g := fun op => (Plain.numeric? op).isSome) hsome (by decide) (by decide)
        (by decide)
    rw [Word.targets_eq_nil hop, Plain.depths_of_numeric? h]
    exact .nil
  | const hop =>
    rw [Word.targets_eq_nil (Opcode.not_isBranch hop (by decide) (by decide) (by decide))]
    exact .nil
  | load hop =>
    rw [Word.targets_eq_nil (Opcode.not_isBranch hop (by decide) (by decide) (by decide))]
    exact .nil
  | store hop =>
    rw [Word.targets_eq_nil (Opcode.not_isBranch hop (by decide) (by decide) (by decide))]
    exact .nil
  | _ => exact .nil

end Label

/-! ## All branches of a body -/

section Body

variable {sc : Scope} {t t' : TypeTable}

/-- The instruction that a word is read as has the labels that the word writes. -/
theorem scoped_of_readsIn {p : PlacedWord} {s : Site} (haround : ∀ l ∈ sc.labels, l.name = none)
    (h : Body.ReadsIn sc t t' p s) : Scoped sc.labels.length p s := by
  have haround' : ∀ n ∈ sc.labels.map Label.name, n = none := by
    intro n hn
    obtain ⟨l, hl, rfl⟩ := List.mem_map.mp hn
    exact haround l hl
  have hlength : sc.labels.length = (sc.labels.map Label.name).length := by rw [List.length_map]
  obtain ⟨henclosing, hreads⟩ := h
  cases hreads with
  | @plain enclosing inner p n _ _ hinner hkind hstart hread hstop =>
    refine ⟨hread.opcode, rfl, henclosing, ?_⟩
    rw [hlength]
    exact forall₂_of_readAs hinner.labels haround' hread
  | @block enclosing kind name sig body elseBody n hkind hheader =>
    have hop : p.word.op.isBranch = false :=
      Opcode.not_isBranch hkind (by simp [BlockKind.ofOpcode?]) (by simp [BlockKind.ofOpcode?])
        (by simp [BlockKind.ofOpcode?])
    refine ⟨BlockKind.opcode_toInstr hkind, BlockKind.span_toInstr .., henclosing, ?_⟩
    rw [Word.targets_eq_nil hop]
    cases kind <;> exact .nil

/-- The branches of a body are in scope, as all labels around the body have no name. -/
theorem allScoped_of_covers {f : Form} {body : List Instr}
    (haround : ∀ l ∈ sc.labels, l.name = none)
    (h : Body.Covers sc [] t t' f.placed body) : AllScoped sc.labels.length f body := by
  have hscoped := h.placed.imp fun p s => scoped_of_readsIn (p := p) (s := s) haround
  refine List.rel_filter ?_ hscoped
  intro p s hps
  show p.word.op.isBranch = true ↔ s.instr.opcode.isBranch = true
  rw [hps.opcode]

/-- A block with the name that a branch has for its target is around the branch. -/
theorem AllScoped.mem_enclosing {outer : Nat} {f v : Form} {body : List Instr} {p : PlacedWord}
    {name : String} (h : AllScoped outer f body) (hp : p ∈ f.placed)
    (hbranch : p.word.op.isBranch = true) (hv : v ∈ p.word.targets) (hid : v.id? = some name) :
    some name ∈ p.enclosing := by
  have hfilter : p ∈ f.placed.filter (·.word.op.isBranch) := List.mem_filter.mpr ⟨hp, hbranch⟩
  obtain ⟨s, -, hscoped⟩ := Success.exists_right h hfilter
  obtain ⟨depth, -, htarget⟩ := Success.exists_right hscoped.targets hv
  rw [← hscoped.enclosing]
  exact List.mem_of_getElem? (htarget.carries name hid)

end Body

end Branch

/-! ## Accepted modules -/

/-- Without a body a field has no instruction words. -/
theorem Form.Layered.wordless {q : Form → Prop} {k : Nat} {f : Form} (h : f.Layered q k)
    (hq : ∀ g, ¬q g) : f.Wordless := by
  induction h with
  | inert h => exact h.wordless
  | body h => exact absurd h (hq _)
  | list hhead _ ih => exact wordless_of_headKeyword? hhead ih

/-- The branches of all bodies of a part are those written in its field, and in scope: in a function
the function itself is one label more. A field without a body writes none. -/
structure Part.BranchesScoped (f : Form) (part : Part) : Prop where
  funcs : ∀ x ∈ part.funcs, Branch.AllScoped 1 f x.body
  globals : ∀ g ∈ part.globals, Branch.AllScoped 0 f g.init
  elems : ∀ e ∈ part.elems, Branch.AllScoped 0 f e.offset
  data : ∀ x ∈ part.data, Branch.AllScoped 0 f x.offset
  others : ¬part.HasBody f → ∀ p ∈ f.placed, p.word.op.isBranch = false

/-- A branch of the form has a target whose name is that of no block around it. -/
def Form.HasDangling (f : Form) : Prop :=
  ∃ p ∈ f.placed, p.word.op.isBranch = true ∧
    ∃ v ∈ p.word.targets, ∃ name ∈ v.id?, some name ∉ p.enclosing

instance (f : Form) : Decidable f.HasDangling :=
  inferInstanceAs (Decidable (∃ p ∈ f.placed, p.word.op.isBranch = true ∧
    ∃ v ∈ p.word.targets, ∃ name ∈ v.id?, some name ∉ p.enclosing))

namespace Part

variable {spaces : Spaces} {d : Draft} {f : Form} {part : Part} {types : TypeTable}

/-- The labels of an offset are in scope. -/
theorem OffsetCovers.allScoped {t t' : TypeTable} {offset : List Instr}
    (h : OffsetCovers spaces t t' f offset) : Branch.AllScoped 0 f offset := by
  cases h with
  | written h => exact Branch.allScoped_of_covers (by simp [Field.constScope]) h
  | zero h =>
    rw [Branch.AllScoped, h]
    exact .nil

/-- The labels of all that is read from a field are in scope, in the body they are written in. -/
theorem ReadFrom.branchesScoped (h : part.ReadFrom spaces d f types)
    (hlayered : f.Layered (fun g => Body.IsRead g ∧ part.HasBody f) 2) :
    part.BranchesScoped f where
  funcs x hx := by
    obtain ⟨names, result, hcovers⟩ := h.covers_func x hx
    exact Branch.allScoped_of_covers (by simp [Labels.ofFunction]) hcovers
  globals g hg := Branch.allScoped_of_covers (by simp [Field.constScope]) (h.covers_global g hg)
  elems e he := (h.covers_elem e he).allScoped
  data x hx := (h.covers_data x hx).allScoped
  others hnone p hp := by
    have hwordless := hlayered.wordless fun g hg => hnone hg.2
    rw [placed, hwordless.placedIn] at hp
    cases hp

/-- The names that are written as targets are those of blocks. -/
theorem BranchesScoped.not_hasDangling (h : part.BranchesScoped f) : ¬f.HasDangling := by
  rintro ⟨p, hp, hbranch, v, hv, name, hid, hnot⟩
  have hno {outer : Nat} {body : List Instr} (hall : Branch.AllScoped outer f body) : False :=
    hnot (hall.mem_enclosing hp hbranch hv hid)
  -- the field writes a branch, so it has a body, and the branch is in it
  have hbody : part.HasBody f := by
    by_contra hnone
    rw [h.others hnone p hp] at hbranch
    cases hbranch
  rcases hbody with hne | hne | ⟨hne, -⟩ | ⟨hne, -⟩
  · obtain ⟨x, hx⟩ := List.exists_mem_of_ne_nil _ hne
    exact hno (h.funcs x hx)
  · obtain ⟨g, hg⟩ := List.exists_mem_of_ne_nil _ hne
    exact hno (h.globals g hg)
  · obtain ⟨e, he⟩ := List.exists_mem_of_ne_nil _ hne
    exact hno (h.elems e he)
  · obtain ⟨x, hx⟩ := List.exists_mem_of_ne_nil _ hne
    exact hno (h.data x hx)

end Part

namespace Module

variable {fields : List Form}

/-- An accepted module is assembled from parts whose labels are in scope. -/
theorem exists_scoped_of_accepted {m : Module} (h : Accepted fields m) :
    ∃ parts, m.Assembled fields parts ∧
      List.Forall₂ (fun f part => part.BranchesScoped f) fields parts := by
  obtain ⟨name, spaces, types, d, parts, hspaces, htypes, hrun, rfl⟩ := h.run
  refine ⟨parts, assembled_of_run hspaces hrun name, hrun.reads.mp ?_ (layered_of_run htypes hrun)⟩
  rintro f part ⟨_, _, hfield⟩ hlayered
  exact hfield.branchesScoped hlayered

/-- An accepted module is assembled from the parts of its fields, and the branches of each part are
those that its field writes, each in the blocks that it is written in, with its targets in scope.
Fields with a branch to a name that no block around it has make no module. -/
theorem branches_scoped :
    (∀ m, Accepted fields m → ∃ parts, m.Assembled fields parts ∧
      List.Forall₂ (fun f part => part.BranchesScoped f) fields parts) ∧
    ∀ f ∈ fields, f.HasDangling → ∀ m, ¬Accepted fields m := by
  refine ⟨fun m h => exists_scoped_of_accepted h, fun f hf hdangling m h => ?_⟩
  obtain ⟨parts, -, hscoped⟩ := exists_scoped_of_accepted h
  obtain ⟨part, -, hpart⟩ := Success.exists_right hscoped hf
  exact hpart.not_hasDangling hdangling

/-- A branch out of two blocks and one that aims at the function itself, and a branch to the name of
a block that it is not in. -/
theorem branches_scoped_nested :
    let src : Source := ⟨"t", "(func block $a (loop (br_if $a (i32.const 1))) end br 0)"⟩
    let fields := fieldsOf (Reader.ofSource src).readCommand.1
    let outside := fieldsOf (Reader.ofSource ⟨"t", "(func (block $a) br $a)"⟩).readCommand.1
    (∃ m parts, (parse src).outcome = .accepted m ∧ m.Assembled fields parts ∧
      List.Forall₂ (fun f part => part.BranchesScoped f) fields parts) ∧
    ∀ m, ¬Accepted outside m := by
  intro src fields outside
  refine ⟨?_, ?_⟩
  · obtain ⟨m, hm⟩ : ∃ m, (parse src).outcome = .accepted m :=
      Outcome.exists_accepted (by decide +kernel)
    obtain ⟨parts, hparts, hscoped⟩ := branches_scoped.1 m (.alone hm)
    exact ⟨m, parts, hm, hparts, hscoped⟩
  · obtain ⟨f, hf, hdangling⟩ : ∃ f ∈ outside, f.HasDangling := by decide +kernel
    exact branches_scoped.2 f hf hdangling

end Module

end WasmText
