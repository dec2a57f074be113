import WasmText.Proofs.FindsTypes
import WasmText.Proofs.Ranges
import WasmText.Proofs.WrittenTypes

/-!
# How the type table grows

While fields are read, the table changes in one way: a signature that a type use writes alone is
added if no entry equals it (`TypeTable.Adds`). So there is always a name or `none` for each type,
and a type that is named is there. `Keeps` says both of a reader, whether it succeeds or not, and
each reader with a table has one lemma: what it adds is written in the forms it is given.
-/

namespace WasmText

open Form

/-! ## Tables -/

namespace TypeTable

/-- The table `t'` is `t` with signatures added that have `Q`, each one new when it is added. -/
inductive Adds (Q : FuncType → Prop) (t : TypeTable) : TypeTable → Prop
  | refl : Adds Q t t
  | add {t' : TypeTable} {sig : FuncType} (h : Adds Q t t') (hnew : sig ∉ t'.types)
    (hsig : Q sig) : Adds Q t ⟨t'.names ++ [none], t'.types ++ [sig]⟩

variable {Q Q' : FuncType → Prop} {t t' t'' : TypeTable} {sig : FuncType}

/-- What is added twice is added. -/
theorem Adds.trans (h : t.Adds Q t') (h' : t'.Adds Q t'') : t.Adds Q t'' := by
  induction h' with
  | refl => exact h
  | add _ hnew hsig ih => exact ih.add hnew hsig

/-- Types that are added with a property are added with a weaker one. -/
theorem Adds.imp (hQ : ∀ sig, Q sig → Q' sig) (h : t.Adds Q t') : t.Adds Q' t' := by
  induction h with
  | refl => exact .refl
  | add _ hnew hsig ih => exact ih.add hnew (hQ _ hsig)

/-- What is added has no names, and differs from all that comes before it. -/
theorem Adds.exists_added (h : t.Adds Q t') :
    ∃ added, t'.types = t.types ++ added ∧
      t'.names = t.names ++ List.replicate added.length none ∧ added.Nodup ∧
        ∀ sig ∈ added, sig ∉ t.types ∧ Q sig := by
  induction h with
  | refl => exact ⟨[], by simp, by simp, List.nodup_nil, by simp⟩
  | @add t' sig h hnew hsig ih =>
    obtain ⟨added, htypes, hnames, hnodup, hall⟩ := ih
    rw [htypes, List.mem_append, not_or] at hnew
    refine ⟨added ++ [sig], ?_, ?_, ?_, ?_⟩
    · rw [htypes, List.append_assoc]
    · rw [hnames, List.length_append, List.length_singleton, List.replicate_succ',
        List.append_assoc]
    · refine List.nodup_append.mpr ⟨hnodup, by simp, ?_⟩
      rintro s hs _ hsig rfl
      exact hnew.2 (List.mem_singleton.mp hsig ▸ hs)
    · intro s hs
      rcases List.mem_append.mp hs with hs | hs
      · exact hall s hs
      · obtain rfl := List.mem_singleton.mp hs
        exact ⟨hnew.1, hsig⟩

/-- A table with a name for each type that is defined keeps one when types are added. -/
theorem Adds.aligned (h : t.Adds Q t') (ht : t.Aligned) : t'.Aligned := by
  obtain ⟨added, htypes, hnames, -⟩ := h.exists_added
  rw [Aligned, htypes, hnames, List.length_append, List.length_append, List.length_replicate, ht]

/-- Looking for a type adds that type or none. -/
theorem adds_findOrAdd (t : TypeTable) (hsig : Q sig) : t.Adds Q (t.findOrAdd sig).2 := by
  unfold findOrAdd
  split
  · exact .refl
  · next hnone =>
    refine Adds.refl.add ?_ hsig
    intro hmem
    have hne := List.findIdx?_eq_none_iff.mp hnone sig hmem
    rw [beq_self_eq_true] at hne
    cases hne

end TypeTable

/-! ## Readers with a table -/

variable {Q : FuncType → Prop} {α β : Type}

/-- A step that leaves the table alone finds all types when what follows does. -/
theorem FindsTypes.run_lift {x : Except Problem α} {f : α → Elab β} {t : TypeTable}
    (hx : FindsTypes x) (hf : ∀ a, x = .ok a → FindsTypes ((f a).run t)) :
    FindsTypes (((liftM x : Elab α) >>= f).run t) := by
  cases x with
  | error p => exact FindsTypes.error_iff.mpr (hx p rfl)
  | ok a => exact hf a rfl

/-- A reader that looks at the table. -/
theorem FindsTypes.run_get {f : TypeTable → Elab β} {t : TypeTable}
    (h : FindsTypes ((f t).run t)) : FindsTypes ((get >>= f).run t) := h

/-- A reader that finds its types, and adds only signatures that have `Q`. -/
def Keeps (Q : FuncType → Prop) (r : Elab α) : Prop :=
  ∀ t : TypeTable, t.Aligned →
    FindsTypes (r.run t) ∧ ∀ a t', r.run t = .ok (a, t') → t.Adds Q t'

namespace Keeps

theorem pure (a : α) : Keeps Q (Pure.pure a : Elab α) := by
  intro t ht
  refine ⟨.ok (a, t), fun a' t' h => ?_⟩
  rw [← (Success.of_run_pure h).2]
  exact .refl

/-- A problem that is not about a type that is missing. -/
theorem throw {p : Problem} (h : ∀ i, p.cause ≠ .typeOutOfRange i) :
    Keeps Q (MonadExcept.throw p : Elab α) := by
  intro t ht
  refine ⟨FindsTypes.error_iff.mpr h, fun a t' ha => ?_⟩
  cases ha

/-- Readers one after the other keep a table when each does. -/
theorem bind {x : Elab α} {f : α → Elab β} (hx : Keeps Q x) (hf : ∀ a, Keeps Q (f a)) :
    Keeps Q (x >>= f) := by
  intro t ht
  obtain ⟨hfinds, hadds⟩ := hx t ht
  constructor
  · refine FindsTypes.bind_iff.mpr ⟨hfinds, fun ⟨a, t'⟩ ha => ?_⟩
    exact (hf a t' ((hadds a t' ha).aligned ht)).1
  · intro b t'' hb
    obtain ⟨a, t', ha, hb⟩ := Success.of_run_bind hb
    have hfirst := hadds a t' ha
    exact hfirst.trans ((hf a t' (hfirst.aligned ht)).2 b t'' hb)

theorem lift {x : Except Problem α} {f : α → Elab β} (hx : FindsTypes x)
    (hf : ∀ a, x = .ok a → Keeps Q (f a)) : Keeps Q ((liftM x : Elab α) >>= f) := by
  intro t ht
  refine ⟨.run_lift hx fun a ha => (hf a ha t ht).1, fun b t' hb => ?_⟩
  obtain ⟨a, ha, hb⟩ := Success.of_run_lift hb
  exact (hf a ha t ht).2 b t' hb

end Keeps

/-! ## Type uses -/

namespace TypeUse

variable {items : List Form} {t t' : TypeTable}

/-- A type that a reference is resolved to is in the table. -/
theorem lt_of_explicit? {index : Nat} {span : Span} (ht : t.Aligned)
    (h : explicit? t items = .ok (some (index, span))) : index < t.types.length := by
  obtain ⟨f, ref, -, -, hindex⟩ := exists_ref_of_explicit? h
  exact Nat.lt_of_lt_of_eq (Names.lt_of_resolve hindex) ht

/-- A type use finds the types that are named by number, in a table with names. -/
theorem findsTypes_read (namesAllowed : Bool) (items : List Form) (ht : t.Aligned) :
    FindsTypes ((read namesAllowed items).run t) := by
  unfold read
  refine FindsTypes.run_get (FindsTypes.run_lift (findsTypes_explicit? items t) ?_)
  intro explicit hexplicit
  split
  · next index span =>
    have hlt := lt_of_explicit? ht hexplicit
    refine FindsTypes.run_lift (Signature.findsTypes_read _ _) fun ⟨ps, rs, n⟩ _ => ?_
    dsimp only
    split
    · next hnone =>
      have hle := List.getElem?_eq_none_iff.mp hnone
      omega
    · split
      · exact .pure _
      · split
        · exact FindsTypes.error_iff.mpr (by simp)
        · exact .pure _
  · refine FindsTypes.run_lift (Signature.findsTypes_read _ _) fun ⟨ps, rs, n⟩ _ => ?_
    exact .pure _

/-- A type use adds the signature that is written, or nothing. -/
theorem ReadAs.adds {namesAllowed : Bool} {use : TypeUse} {n : Nat}
    (hQ : ∀ sig, (WrittenType.ofTypeUse items).implicit? = some sig → Q sig)
    (h : ReadAs namesAllowed items t use n t') : t.Adds Q t' := by
  cases h with
  | explicit => exact .refl
  | implicit hexplicit hread =>
    refine t.adds_findOrAdd (hQ _ ?_)
    rw [ofTypeUse_of_explicit?_none hexplicit hread]
    rfl

theorem keeps_read (namesAllowed : Bool)
    (hQ : ∀ sig, (WrittenType.ofTypeUse items).implicit? = some sig → Q sig) :
    Keeps Q (read namesAllowed items) :=
  fun _ ht => ⟨findsTypes_read namesAllowed items ht,
    fun _ _ h => (readAs_of_read h).adds hQ⟩

end TypeUse

/-! ## Instructions -/

/-- The signatures that indirect calls write alone, among some words, have `Q`. -/
def WriteOnly (Q : FuncType → Prop) (ws : List Word) : Prop :=
  ∀ w ∈ ws, ∀ sig, w.type?.bind WrittenType.implicit? = some sig → Q sig

/-- An indirect call adds the signature that is written, or nothing. -/
theorem Immediate.keeps_indirectType (span : Span) {items : List Form}
    (hQ : ∀ sig, (WrittenType.ofCall items).implicit? = some sig → Q sig) :
    Keeps Q (indirectType span items) := by
  unfold indirectType
  split
  · intro t ht
    constructor
    · refine FindsTypes.run_get (FindsTypes.run_lift (Names.findsTypes_resolve _ _ _ _) ?_)
      exact fun index _ => .pure _
    · intro a t' h
      obtain ⟨_, _, hget, h⟩ := Success.of_run_bind h
      obtain ⟨rfl, rfl⟩ := Prod.mk.inj (Except.ok.inj hget)
      obtain ⟨index, -, h⟩ := Success.of_run_lift h
      rw [← (Success.of_run_pure h).2]
      exact .refl
  · next hnone =>
    rw [WrittenType.ofCall, hnone] at hQ
    refine (TypeUse.keeps_read false hQ).bind fun ⟨use, n⟩ => ?_
    dsimp only
    split
    · exact .throw (by simp)
    · exact .pure _

/-- A plain instruction adds what is written in its word. -/
theorem Plain.keeps_read (sc : Scope) (op : Opcode) (span : Span) (items : List Form)
    (hQ : WriteOnly Q [⟨op, span, items⟩]) : Keeps Q (read sc op span items) := by
  unfold read
  dsimp only
  split
  case h_1 | h_2 | h_3 | h_4 | h_5 | h_6 | h_7 => exact .pure _
  case h_8 | h_9 | h_10 | h_11 | h_13 | h_14 | h_15 | h_16 | h_17 =>
    exact .lift (by simp) fun _ _ => .pure _
  case h_12 =>
    have hcall := hQ _ (List.mem_singleton_self _)
    rw [Word.type?, if_pos rfl] at hcall
    exact (Immediate.keeps_indirectType span hcall).bind fun _ => .pure _
  case h_18 =>
    -- constants, memory accesses and numeric instructions, by what the opcode is
    split
    · exact .lift (by simp) fun _ _ => .pure _
    · split
      · exact .lift (by simp) fun _ _ => .pure _
      · split
        · exact .lift (by simp) fun _ _ => .pure _
        · split
          · exact .pure _
          · exact .throw (by simp)

/-! ## Bodies -/

section WriteOnly

variable {ws ws' : List Word} {items : List Form}

/-- What is written in words one after the other is written in one of them. -/
theorem writeOnly_append : WriteOnly Q (ws ++ ws') ↔ WriteOnly Q ws ∧ WriteOnly Q ws' :=
  List.forall_mem_append

theorem writeOnly_cons {w : Word} : WriteOnly Q (w :: ws) ↔ WriteOnly Q [w] ∧ WriteOnly Q ws := by
  rw [← writeOnly_append, List.singleton_append]

theorem Form.wordsAll_suffix_cons (f : Form) (items : List Form) :
    wordsAll items <:+ wordsAll (f :: items) := by
  obtain ⟨t⟩ | ⟨span, inside⟩ := f
  · rw [wordsAll]
    split
    · split
      · exact List.suffix_rfl
      · exact List.suffix_rfl
      · exact List.suffix_cons ..
    · exact List.suffix_rfl
  · rw [wordsAll]
    exact List.suffix_append ..

/-- The words of what is left after some forms are words of all of them. -/
theorem WriteOnly.drop (h : WriteOnly Q (wordsAll items)) (n : Nat) :
    WriteOnly Q (wordsAll (items.drop n)) := by
  induction n generalizing items with
  | zero => exact h
  | succ n ih =>
    cases items with
    | nil => exact h
    | cons f items =>
      exact ih fun w hw => h w ((wordsAll_suffix_cons f items).subset hw)

end WriteOnly

namespace Body

mutual

/-- A sequence of instructions adds what is written in its words. The cases are those of the
readers, here and below. -/
theorem keeps_sequence (sc : Scope) (items : List Form) (hQ : WriteOnly Q (wordsAll items)) :
    Keeps Q (sequence sc items) := by
  match items with
  | [] =>
    rw [sequence]
    exact .pure _
  | .list place inside :: rest =>
    rw [wordsAll, writeOnly_append] at hQ
    rw [sequence]
    refine (keeps_folded sc (.list place inside) hQ.1).bind fun front => ?_
    exact (keeps_sequence sc rest hQ.2).bind fun _ => .pure _
  | .atom a :: rest =>
    rw [sequence]
    split
    · exact .pure _
    · exact .pure _
    · next op hend helse hop =>
      rw [wordsAll_atom hop (by rintro rfl; exact hend rfl) (by rintro rfl; exact helse rfl),
        writeOnly_cons] at hQ
      split
      · next kind _ =>
        refine (keeps_flat sc kind a.span rest hQ.2).bind fun ⟨i, n⟩ => ?_
        exact (keeps_sequence sc (rest.drop n) (hQ.2.drop n)).bind fun _ => .pure _
      · refine (Plain.keeps_read sc op a.span rest hQ.1).bind fun ⟨p, n⟩ => ?_
        exact (keeps_sequence sc (rest.drop n) (hQ.2.drop n)).bind fun _ => .pure _
    · exact .throw (by simp [unexpected])
termination_by 2 * sizeOf items
decreasing_by
  · exact two_mul_sizeOf_head_lt _ rest
  · exact Nat.lt_of_succ_lt (two_mul_sizeOf_drop_lt _ 0 rest)
  · exact two_mul_sizeOf_drop_lt _ 0 rest
  · exact Nat.lt_of_succ_lt (two_mul_sizeOf_drop_lt _ _ rest)
  · exact Nat.lt_of_succ_lt (two_mul_sizeOf_drop_lt _ _ rest)

/-- A flat block adds what is written in its words. -/
theorem keeps_flat (sc : Scope) (kind : BlockKind) (span : Span) (items : List Form)
    (hQ : WriteOnly Q (wordsAll items)) : Keeps Q (flat sc kind span items) := by
  rw [flat]
  refine .lift (by simp) fun ⟨name, sig, n⟩ _ => ?_
  refine .lift (by simp) fun deeper _ => ?_
  refine (keeps_sequence _ (items.drop n) (hQ.drop n)).bind fun ⟨body, m⟩ => ?_
  refine (keeps_otherArm _ kind name (items.drop (n + m)) (hQ.drop _)).bind
    fun ⟨elseBody, k⟩ => ?_
  exact .lift (by simp) fun _ _ => .pure _
termination_by 2 * sizeOf items + 1
decreasing_by
  all_goals exact Nat.lt_succ_of_le (Nat.mul_le_mul_left 2 (sizeOf_drop_le _ items))

theorem keeps_otherArm (sc : Scope) (kind : BlockKind) (name : Option String)
    (items : List Form) (hQ : WriteOnly Q (wordsAll items)) :
    Keeps Q (otherArm sc kind name items) := by
  match items with
  | [] =>
    rw [otherArm]
    exact .pure _
  | f :: rest =>
    have hrest : WriteOnly Q (wordsAll rest) := hQ.drop 1
    rw [otherArm]
    split
    · dsimp only
      split
      · exact .throw (by simp)
      · refine .lift (by simp) fun n _ => ?_
        refine .lift (by simp) fun other _ => ?_
        exact (keeps_sequence other (rest.drop n) (hrest.drop n)).bind fun _ => .pure _
    · exact .pure _
termination_by 2 * sizeOf items
decreasing_by exact Nat.lt_of_succ_lt (two_mul_sizeOf_drop_lt _ _ _)

/-- A folded instruction adds what is written in its words. -/
theorem keeps_folded (sc : Scope) (f : Form) (hQ : WriteOnly Q f.words) :
    Keeps Q (folded sc f) := by
  -- a part of the form is read with the hypothesis on its own words alone
  match f with
  | .atom a =>
    rw [folded.eq_def]
    exact .lift (by simp) fun _ _ => .throw (by simp [unexpected])
  | .list place [] =>
    rw [folded.eq_def]
    exact .lift (by simp) fun _ _ => .throw (by simp [unexpected])
  | .list place (.list _ _ :: rest) =>
    rw [folded.eq_def]
    exact .lift (by simp) fun _ _ => .throw (by simp [unexpected])
  | .list place (.atom a :: rest) =>
    rw [folded.eq_def]
    refine .lift (by simp) fun deeper _ => ?_
    simp only [List.drop_succ_cons, List.drop_zero]
    split
    · exact .throw (by simp [unexpected])
    · exact .throw (by simp)
    · exact .throw (by simp)
    · next op hend helse hhead =>
      have hop : a.kind = .opcode op := kind_of_opcode? hhead
      split
      · next hplain =>
        rw [words_plain hop (by rintro rfl; exact hend rfl) (by rintro rfl; exact helse rfl) hplain,
          writeOnly_append] at hQ
        refine (Plain.keeps_read deeper op place rest hQ.2).bind fun ⟨p, n⟩ => ?_
        refine (keeps_operands deeper (rest.drop n) (hQ.1.drop n)).bind fun groups => ?_
        exact .lift (by simp) fun _ _ => .pure _
      · next hcond =>
        refine .lift (by simp) fun ⟨name, sig, n⟩ hheader => ?_
        rw [words_cond hop hcond, ← map_word_placedOfIf [],
          ← Block.placedOfIf_drop (Block.inert_of_header hheader), map_word_placedOfIf] at hQ
        exact keeps_conditional deeper name sig place (rest.drop n) hQ
      · next kind hcond hkind =>
        rw [words_block hop hkind (by rintro rfl; exact hcond rfl), writeOnly_cons] at hQ
        refine .lift (by simp) fun ⟨name, sig, n⟩ _ => ?_
        exact (keeps_whole _ (rest.drop n) (hQ.2.drop n)).bind fun _ => .pure _
termination_by 2 * sizeOf f
decreasing_by
  · exact Nat.lt_of_succ_lt (two_mul_sizeOf_drop_lt_list _ _ _ _)
  · exact Nat.lt_of_succ_lt (two_mul_sizeOf_drop_lt_list _ _ _ _)
  · exact two_mul_sizeOf_drop_lt_list _ _ _ _

/-- Operands add what is written in their words. -/
theorem keeps_operands (sc : Scope) (items : List Form) (hQ : WriteOnly Q (wordsAll items)) :
    Keeps Q (operands sc items) := by
  match items with
  | [] =>
    rw [operands]
    exact .pure _
  | .atom a :: rest =>
    rw [operands]
    exact .throw (by simp [unexpected])
  | .list place inside :: rest =>
    rw [wordsAll, writeOnly_append] at hQ
    rw [operands]
    refine (keeps_folded sc (.list place inside) hQ.1).bind fun group => ?_
    exact (keeps_operands sc rest hQ.2).bind fun _ => .pure _
termination_by 2 * sizeOf items

/-- A folded conditional adds what is written in the words after its header. -/
theorem keeps_conditional (sc : Scope) (name : Option String) (sig : ValType) (span : Span)
    (items : List Form) {w : Word} (hQ : WriteOnly Q (wordsOfIf w items)) :
    Keeps Q (conditional sc name sig span items) := by
  match items with
  | [] =>
    rw [conditional]
    exact .throw (by simp)
  | f :: rest =>
    rw [conditional.eq_def]
    dsimp only
    split
    · next hthen =>
      -- after the word come the words of the arms
      have hwords : wordsOfIf w (f :: rest) = w :: (f.words ++ wordsAll rest) := by
        obtain ⟨a⟩ | ⟨place, inside⟩ := f
        · cases hthen
        · rw [wordsOfIf, if_pos hthen]
      rw [hwords, writeOnly_cons, writeOnly_append, words_arm (.inl hthen)] at hQ
      obtain ⟨-, hthenArm, hrest⟩ := hQ
      refine (keeps_arm _ f hthenArm).bind fun body => ?_
      match hmatch : rest with
      | [] => exact .pure _
      | g :: rest =>
        dsimp only
        split
        · next helse =>
          rw [wordsAll_list (isSome_items?_of_headOpcode? helse), writeOnly_append,
            words_arm (.inr helse)] at hrest
          refine .lift (by simp) fun other _ => ?_
          refine (keeps_arm other g hrest.1).bind fun elseBody => ?_
          exact .lift (by simp) fun _ _ => .pure _
        · exact .throw (by simp [unexpected])
    · next hthen =>
      have hwords : wordsOfIf w (f :: rest) = f.words ++ wordsOfIf w rest := by
        obtain ⟨a⟩ | ⟨place, inside⟩ := f
        · rw [wordsOfIf, words, List.nil_append]
        · rw [wordsOfIf, if_neg hthen]
      rw [hwords, writeOnly_append] at hQ
      refine (keeps_folded sc f hQ.1).bind fun group => ?_
      refine .lift (by simp) fun _ _ => ?_
      exact (keeps_conditional sc name sig span rest hQ.2).bind fun _ => .pure _
termination_by 2 * sizeOf items
decreasing_by
  all_goals
    simp only [*, List.cons.sizeOf_spec]
    omega

theorem keeps_arm (sc : Scope) (f : Form) (hQ : WriteOnly Q (wordsAll f.args)) :
    Keeps Q (arm sc f) := by
  match f with
  | .atom a =>
    rw [arm]
    exact .pure _
  | .list place items =>
    rw [arm, List.drop_one]
    exact keeps_whole sc items.tail hQ
termination_by 2 * sizeOf f
decreasing_by
  have hle := sizeOf_drop_le 1 items
  rw [List.drop_one] at hle
  rw [Form.list.sizeOf_spec]
  omega

/-- A body adds what is written in its words. -/
theorem keeps_whole (sc : Scope) (items : List Form) (hQ : WriteOnly Q (wordsAll items)) :
    Keeps Q (whole sc items) := by
  rw [whole]
  refine (keeps_sequence sc items hQ).bind fun ⟨body, n⟩ => ?_
  exact .lift (by simp) fun _ _ => .pure _
termination_by 2 * sizeOf items + 1

end

end Body

end WasmText
