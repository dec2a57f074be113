import WasmText.Instr.LiveBody
import WasmText.Proofs.NumberedBodies

/-!
# The context of a body is put back

Live readers push and pop labels and count levels in one context, where the readers of `Body` pass a
scope down. `Follows` runs both side by side: they answer the same, or fail with the same problem,
and the context afterwards is the one before but for types. Each change of the context has one lemma
about what it does to that, and each reader has one that is put together from them.

The invariant is that a context is deeper by exactly what is open (`Context.Within`). It leaves room
for one more label right after something is opened, which is what a block pushes its label into, and
an `else` takes the place of the label that is there. What follows for a whole run is that it
answers as a reader with a scope does (`answers`), and that it leaves its context as it was
(`restores`).
-/

namespace WasmText.LiveBody

/-! ## Contexts while a body is read -/

namespace Context

/-- A context while a body is read that was started in another one: it is deeper by as much as is
open, and even `room` more labels would be no more than that. -/
structure Within (c start : Context) (opened : List Span) (room : Nat) : Prop where
  depth_eq : c.depth = start.depth + opened.length
  depth_le : c.depth ≤ Scope.maxNesting
  labels : ∃ above, c.labels = above ++ start.labels ∧ above.length + room ≤ opened.length

/-- The context one level deeper. -/
def deeper (c : Context) : Context := { c with depth := c.depth + 1 }

/-- The context inside a label. -/
def inside (c : Context) (l : Label) : Context := { c with labels := l :: c.labels }

namespace Within

variable {c start : Context} {opened : List Span} {room : Nat}

/-- A body starts within its own scope, with nothing opened. -/
theorem refl (h : start.depth ≤ Scope.maxNesting) : start.Within start [] 0 :=
  ⟨rfl, h, [], rfl, Nat.le_refl _⟩

theorem withTypes (h : c.Within start opened room) (t : TypeTable) :
    (c.withTypes t).Within start opened room := ⟨h.depth_eq, h.depth_le, h.labels⟩

theorem anyRoom (h : c.Within start opened room) : c.Within start opened 0 := by
  obtain ⟨above, hlabels, hle⟩ := h.labels
  exact ⟨h.depth_eq, h.depth_le, above, hlabels, Nat.le_of_add_right_le hle⟩

/-- A level is opened where there is room for it. -/
theorem deeper (h : c.Within start opened 0) (hlt : c.depth < Scope.maxNesting) (span : Span) :
    c.deeper.Within start (span :: opened) 1 := by
  obtain ⟨above, hlabels, hle⟩ := h.labels
  refine ⟨?_, hlt, above, hlabels, Nat.succ_le_succ hle⟩
  rw [Context.deeper, List.length_cons, h.depth_eq, Nat.add_assoc]

/-- A label is pushed on top of those that were there. -/
theorem inside (h : c.Within start opened 1) (l : Label) :
    (c.inside l).Within start opened 0 := by
  obtain ⟨above, hlabels, hle⟩ := h.labels
  refine ⟨h.depth_eq, h.depth_le, l :: above, ?_, hle⟩
  rw [Context.inside, hlabels, List.cons_append]

end Within

end Context

/-- Every moment so far is within what was started in a context. -/
def History.Sound (h : History) (start : Context) : Prop :=
  ∀ m ∈ h.moments, m.context.Within start m.opened 0

/-- A history of one context is sound. -/
theorem History.Sound.start {c : Context} (h : c.depth ≤ Scope.maxNesting) :
    (History.start c).Sound c := List.forall_mem_singleton.mpr (.refl h)

/-! ## Live readers beside the readers with a scope -/

section Follows

variable {α α' β β' : Type} {start F F' : Context} {x : Live α} {y : Elab β} {f : α → Live α'}
  {k : β → Elab β'} {Q : α → β → Context → Prop} {R : α' → β' → Context → Prop}

/-- A live reader does what a reader does with the types of its context: it fails with the same
problem, or the answers and the context afterwards are related. -/
def Follows (start F : Context) (x : Live α) (y : Elab β) (Q : α → β → Context → Prop) : Prop :=
  ∀ h t, h.Sound start → h.now.context = F.withTypes t →
    match y.run t with
    | .error p => ∃ h', x.run h = .error p h' ∧ h'.Sound start
    | .ok (b, t') => ∃ a h' G, x.run h = .ok a h' ∧ h'.Sound start ∧ Q a b G ∧
        h'.now.context = G.withTypes t'

namespace Follows

/-- Readers that follow each other step by step follow each other. -/
theorem bind (hx : Follows start F x y Q)
    (hf : ∀ a b G, Q a b G → Follows start G (f a) (k b) R) :
    Follows start F (x >>= f) (y >>= k) R := by
  intro h t hsound hnow
  have hfirst := hx h t hsound hnow
  rw [StateT.run_bind]
  cases hy : y.run t with
  | error p =>
    rw [hy] at hfirst
    obtain ⟨h', hrun, hsound'⟩ := hfirst
    refine ⟨h', ?_, hsound'⟩
    show EStateM.bind x f h = _
    rw [EStateM.bind, show x h = _ from hrun]
  | ok bt =>
    obtain ⟨b, t'⟩ := bt
    rw [hy] at hfirst
    obtain ⟨a, h', G, hrun, hsound', hQ, hnow'⟩ := hfirst
    have hrest := hf a b G hQ h' t' hsound' hnow'
    have hbind : (x >>= f).run h = (f a).run h' := by
      show EStateM.bind x f h = _
      rw [EStateM.bind, show x h = _ from hrun]
      rfl
    rw [hbind]
    exact hrest

theorem pure {a : α} {b : β} (h : Q a b F) : Follows start F (pure a) (pure b) Q :=
  fun h' _ hsound hnow => ⟨a, h', F, rfl, hsound, h, hnow⟩

theorem throw (p : Problem) : Follows start F (throw p) (throw p) Q :=
  fun h' _ hsound _ => ⟨h', rfl, hsound⟩

/-- A step that needs no context is the same for both. -/
theorem lift_bind {γ : Type} (z : Except Problem γ) {f : γ → Live α'} {k : γ → Elab β'}
    (hf : ∀ c, Follows start F (f c) (k c) R) :
    Follows start F (liftM z >>= f) (liftM z >>= k) R := by
  cases z with
  | error p => exact fun h' _ hsound _ => ⟨h', rfl, hsound⟩
  | ok c => exact hf c

/-- What is done afterwards changes the answer and the context alone. -/
theorem andThen {f : α → Live α'} {R : α' → β → Context → Prop} (hx : Follows start F x y Q)
    (hf : ∀ a b G, Q a b G → Follows start G (f a) (Pure.pure b : Elab β) R) :
    Follows start F (x >>= f) y R := by
  have h := hx.bind (k := Pure.pure) hf
  rwa [bind_pure] at h

/-- What the other reader does to its answer alone. -/
theorem map {g : β → β'} {R : α → β' → Context → Prop} (hx : Follows start F x y Q)
    (hR : ∀ a b G, Q a b G → R a (g b) G) :
    Follows start F x (y >>= fun b => Pure.pure (g b)) R := by
  have h := hx.bind (f := Pure.pure) (k := fun b => Pure.pure (g b))
    fun a b G hQ => Follows.pure (hR a b G hQ)
  rwa [bind_pure] at h

/-- A change of the context that the other reader does not have. -/
theorem step {x : Live Unit} {f : Unit → Live α'} {y : Elab β'}
    (hx : Follows start F x (Pure.pure () : Elab Unit) fun _ _ G => G = F')
    (hf : Follows start F' (f ()) y R) : Follows start F (x >>= f) y R := by
  refine hx.bind (k := fun _ => y) ?_
  rintro ⟨⟩ ⟨⟩ G rfl
  exact hf

end Follows

/-! ## Changes -/

variable {opened : List Span} {h : History} {t : TypeTable}

/-- What is looked up is the current context. -/
theorem run_context {g : Context → Live α} (hnow : h.now.context = F.withTypes t) :
    (context >>= g).run h = (g (F.withTypes t)).run h := by
  rw [← hnow]
  rfl

/-- A change that keeps a history sound. -/
theorem run_record {c : Context} (hsound : h.Sound start) (hc : c.Within start opened 0) :
    ∃ h', (record opened c).run h = .ok () h' ∧ h'.Sound start ∧ h'.now.context = c :=
  ⟨⟨⟨opened, c⟩, h.moments⟩, rfl, List.forall_mem_cons.mpr ⟨hc, hsound⟩, rfl⟩

/-- A change of the context is recorded, and the reader without it does nothing. -/
theorem follows_change {g : Context → Context} (hg : ∀ t, g (F.withTypes t) = F'.withTypes t)
    (hF' : F'.Within start opened 0) :
    Follows start F (context >>= fun c => record opened (g c)) (pure () : Elab Unit)
      fun _ _ G => G = F' := by
  intro h t hsound hnow
  obtain ⟨h', hrun, hsound', hnow'⟩ := run_record hsound (hF'.withTypes t)
  refine ⟨(), h', F', ?_, hsound', rfl, hnow'⟩
  rw [run_context hnow, hg]
  exact hrun

/-- The context is taken down a level where the scope is. -/
theorem follows_descend (hF : F.Within start opened 0) (span : Span) :
    Follows start F (descend opened span) (liftM (F.scope.descend span)) fun _ sc G =>
      G = F.deeper ∧ sc = F.deeper.scope ∧ F.deeper.Within start (span :: opened) 1 := by
  intro h t hsound hnow
  have hrun : (descend opened span).run h = (if Scope.maxNesting ≤ F.depth then
      throw ⟨.instructionsTooDeep, span⟩
      else record (span :: opened) (F.deeper.withTypes t) : Live Unit).run h := run_context hnow
  rw [hrun]
  by_cases hdeep : Scope.maxNesting ≤ F.depth
  · rw [if_pos hdeep, show F.scope.descend span = _ from if_pos hdeep]
    exact ⟨h, rfl, hsound⟩
  · have hF' := hF.deeper (Nat.not_le.mp hdeep) span
    rw [if_neg hdeep, show F.scope.descend span = _ from if_neg hdeep]
    obtain ⟨h', hrun, hsound', hnow'⟩ := run_record hsound (hF'.anyRoom.withTypes t)
    exact ⟨(), h', _, hrun, hsound', ⟨rfl, rfl, hF'⟩, hnow'⟩

/-- A label is pushed where the scope is entered. -/
theorem follows_push (hF : F.Within start opened 1) (kind : LabelKind) (name : Option String)
    (sig : ValType) : Follows start F (push opened kind name sig) (pure () : Elab Unit)
      fun _ _ G => G = F.inside ⟨kind, name, sig⟩ :=
  follows_change (g := fun c => { c with labels := c.labels.push kind name sig }) (fun _ => rfl)
    (hF.inside _)

/-- The label is popped, where the scope is left behind. -/
theorem follows_pop (hF : F.Within start opened 1) (l : Label) :
    Follows start (F.inside l) (pop opened) (pure () : Elab Unit) fun _ _ G => G = F :=
  follows_change (g := fun c => { c with labels := c.labels.pop.2 }) (fun _ => rfl) hF.anyRoom

/-- The level is left again. -/
theorem follows_ascend (hF : F.Within start opened 0) :
    Follows start F.deeper (ascend opened) (pure () : Elab Unit) fun _ _ G => G = F :=
  follows_change (g := fun c => { c with depth := c.depth - 1 }) (fun _ => rfl) hF

/-- The second arm of a conditional replaces the label on top. -/
theorem exists_of_enterElse {l : Label} {outer labels : Labels} {span : Span}
    (h : Labels.enterElse (l :: outer) span = .ok labels) : ∃ l', labels = l' :: outer := by
  obtain ⟨_, _, _, heq, rfl⟩ := Labels.enterElse_eq_ok_iff.mp h
  obtain ⟨-, rfl⟩ := List.cons.inj heq
  exact ⟨_, rfl⟩

/-- The other arm of a block has its label in the place of the first one's. -/
theorem follows_enterElse (hF : F.Within start opened 1) (l : Label) (span : Span) :
    Follows start (F.inside l) (enterElse opened span)
      (liftM ((F.inside l).scope.enterElse span)) fun _ sc G =>
        ∃ l', G = F.inside l' ∧ sc = G.scope := by
  intro h t hsound hnow
  have hrun : (enterElse opened span).run h = (do
      let labels ← Labels.enterElse (l :: F.labels) span
      record opened { F.withTypes t with labels } : Live Unit).run h := run_context hnow
  rw [hrun, Scope.enterElse, show (F.inside l).scope.labels = l :: F.labels from rfl]
  cases hlabels : Labels.enterElse (l :: F.labels) span with
  | error p => exact ⟨h, rfl, hsound⟩
  | ok labels =>
    obtain ⟨l', rfl⟩ := exists_of_enterElse hlabels
    obtain ⟨h', hrun, hsound', hnow'⟩ := run_record hsound ((hF.inside l').withTypes t)
    exact ⟨(), h', _, hrun, hsound', ⟨l', rfl, rfl⟩, hnow'⟩

/-- An instruction that holds no others changes the types alone. -/
theorem follows_plain (hF : F.Within start opened 0) (op : Opcode) (span : Span)
    (items : List Form) :
    Follows start F (plain opened op span items) (Plain.read F.scope op span items) fun a b G =>
      a = b ∧ G = F := by
  intro h t hsound hnow
  -- the types so far change nothing else of the context
  have hread : (Plain.read (F.withTypes t).scope op span items).run (F.withTypes t).draft.types =
      (Plain.read F.scope op span items).run t := rfl
  rw [plain, run_context hnow, hread]
  cases (Plain.read F.scope op span items).run t with
  | error p => exact ⟨h, rfl, hsound⟩
  | ok read =>
    obtain ⟨a, types⟩ := read
    exact ⟨a, ⟨⟨opened, F.withTypes types⟩, h.moments⟩, F, rfl,
      List.forall_mem_cons.mpr ⟨hF.withTypes types, hsound⟩, ⟨rfl, rfl⟩, rfl⟩

end Follows

/-! ## The readers -/

/-- The items of a list, with some of them dropped, are smaller than the list. -/
theorem two_mul_sizeOf_drop_lt_inside (place : Span) (n : Nat) (items : List Form) :
    2 * sizeOf (items.drop n) + 1 < 2 * sizeOf (Form.list place items) := by
  have hle := sizeOf_drop_le n items
  rw [Form.list.sizeOf_spec]
  omega

mutual

/-- A sequence appends what is read to the output and leaves the context as it was. The cases are
those of the readers, here and below. -/
theorem follows_sequence {start F : Context} {opened : List Span} (hF : F.Within start opened 0)
    (out : List Instr) (items : List Form) :
    Follows start F (sequence opened out items) (Body.sequence F.scope items) fun a b G =>
      a = (out ++ b.1, b.2) ∧ G = F := by
  -- `out` is what the live reader has put out so far, and the other one starts from nothing
  match items with
  | [] =>
    rw [sequence, Body.sequence]
    exact .pure ⟨by rw [List.append_nil], rfl⟩
  | .atom a :: rest =>
    rw [sequence]
    split
    · next hend =>
      rw [Body.sequence_delimiter (.inr (Form.opcode?_of_kind hend))]
      exact .pure ⟨by rw [List.append_nil], rfl⟩
    · next helse =>
      rw [Body.sequence_delimiter (.inl (Form.opcode?_of_kind helse))]
      exact .pure ⟨by rw [List.append_nil], rfl⟩
    · next op hend helse hop =>
      rw [Body.sequence_word hop hend helse]
      cases BlockKind.ofOpcode? op with
      | some kind =>
        refine (follows_flat hF out kind a.span rest).bind ?_
        rintro _ ⟨i, n⟩ _ ⟨rfl, rfl⟩
        refine (follows_sequence hF (out ++ [i]) (rest.drop n)).bind ?_
        rintro _ ⟨others, m⟩ _ ⟨rfl, rfl⟩
        exact .pure ⟨by rw [List.append_assoc]; rfl, rfl⟩
      | none =>
        refine (follows_plain hF op a.span rest).bind ?_
        rintro _ ⟨p, n⟩ _ ⟨rfl, rfl⟩
        refine (follows_sequence hF (out ++ [.plain p a.span]) (rest.drop n)).bind ?_
        rintro _ ⟨others, m⟩ _ ⟨rfl, rfl⟩
        exact .pure ⟨by rw [List.append_assoc]; rfl, rfl⟩
    · next hend helse hop =>
      rw [Body.sequence]
      split
      · next h => exact absurd h (hop _)
      · next h => exact absurd h (hop _)
      · next h => exact absurd h (hop _)
      · exact .throw _
  | .list place inside :: rest =>
    rw [sequence, Body.sequence]
    refine (follows_folded hF out (.list place inside)).bind ?_
    rintro _ front _ ⟨rfl, rfl⟩
    refine (follows_sequence hF (out ++ front) rest).bind ?_
    rintro _ ⟨others, n⟩ _ ⟨rfl, rfl⟩
    exact .pure ⟨by rw [List.append_assoc], rfl⟩
termination_by 2 * sizeOf items
decreasing_by
  · exact Nat.lt_of_succ_lt (Body.two_mul_sizeOf_drop_lt _ _ rest)
  · exact Body.two_mul_sizeOf_drop_lt _ 0 rest
  · exact Nat.lt_of_succ_lt (Body.two_mul_sizeOf_drop_lt _ _ rest)
  · exact Body.two_mul_sizeOf_head_lt _ rest
  · exact Nat.lt_of_succ_lt (Body.two_mul_sizeOf_drop_lt _ 0 rest)

/-- A flat block appends itself, and leaves the context as it was. -/
theorem follows_flat {start F : Context} {opened : List Span} (hF : F.Within start opened 0)
    (out : List Instr) (kind : BlockKind) (span : Span) (items : List Form) :
    Follows start F (flat opened out kind span items) (Body.flat F.scope kind span items)
      fun a b G => a = (out ++ [b.1], b.2) ∧ G = F := by
  rw [flat, Body.flat]
  refine .lift_bind _ fun (name, sig, n) => ?_
  refine (follows_descend hF span).bind ?_
  rintro ⟨⟩ _ _ ⟨rfl, rfl, hdeeper⟩
  refine .step (follows_push hdeeper kind.label name sig) ?_
  refine (follows_sequence (hdeeper.inside _) [] (items.drop n)).bind ?_
  rintro _ ⟨body, m⟩ _ ⟨rfl, rfl⟩
  refine (follows_otherArm hdeeper _ kind name (items.drop (n + m))).bind ?_
  rintro _ ⟨elseBody, k⟩ _ ⟨rfl, l, rfl⟩
  refine .lift_bind _ fun last => ?_
  refine .step (follows_pop hdeeper l) ?_
  refine .step (follows_ascend hF) ?_
  exact .pure ⟨rfl, rfl⟩
termination_by 2 * sizeOf items + 1
decreasing_by
  all_goals exact Nat.lt_succ_of_le (Nat.mul_le_mul_left 2 (sizeOf_drop_le _ items))

/-- What follows the `else` of a block leaves a label on top, to be popped. -/
theorem follows_otherArm {start F : Context} {opened : List Span} (hF : F.Within start opened 1)
    (l : Label) (kind : BlockKind) (name : Option String) (items : List Form) :
    Follows start (F.inside l) (otherArm opened kind name items)
      (Body.otherArm (F.inside l).scope kind name items) fun a b G =>
        a = b ∧ ∃ l', G = F.inside l' := by
  match items with
  | [] =>
    rw [otherArm, Body.otherArm]
    exact .pure ⟨rfl, l, rfl⟩
  | f :: rest =>
    rw [otherArm, Body.otherArm]
    by_cases helse : f.opcode? = some .elseOp
    · rw [if_pos helse, if_pos helse]
      by_cases hkind : kind = .cond
      · subst hkind
        refine .lift_bind _ fun n => ?_
        refine (follows_enterElse hF l f.span).bind ?_
        rintro ⟨⟩ _ _ ⟨l', rfl, rfl⟩
        refine (follows_sequence (hF.inside l') [] (rest.drop n)).bind ?_
        rintro _ ⟨body, m⟩ _ ⟨rfl, rfl⟩
        exact .pure ⟨rfl, l', rfl⟩
      · rw [if_pos hkind, if_pos hkind]
        exact .throw _
    · rw [if_neg helse, if_neg helse]
      exact .pure ⟨rfl, l, rfl⟩
termination_by 2 * sizeOf items
decreasing_by exact Nat.lt_of_succ_lt (Body.two_mul_sizeOf_drop_lt _ _ rest)

/-- A folded instruction appends its operands and itself. -/
theorem follows_folded {start F : Context} {opened : List Span} (hF : F.Within start opened 0)
    (out : List Instr) (f : Form) :
    Follows start F (folded opened out f) (Body.folded F.scope f) fun a b G =>
      a = out ++ b ∧ G = F := by
  rw [folded, Body.folded.eq_def]
  refine (follows_descend hF f.span).bind ?_
  rintro ⟨⟩ _ _ ⟨rfl, rfl, hdeeper⟩
  -- the depth is taken back after the form, however it was read
  refine Follows.andThen (Q := fun a b G => a = out ++ b ∧ G = F.deeper) ?_ ?_
  · match f with
    | .atom t =>
      rw [form]
      exact .throw _
    | .list place items =>
      dsimp only
      split
      · next h =>
        rw [form, h]
        exact .throw _
      · next h =>
        rw [form, h]
        exact .throw _
      · next h =>
        rw [form, h]
        exact .throw _
      · next op hend helse h =>
        rw [form, h]
        dsimp only
        split
        · next heq => cases heq
        · next heq => exact (hend (Option.some.inj heq)).elim
        · next heq => exact (helse (Option.some.inj heq)).elim
        · next op' _ _ heq =>
          obtain rfl := Option.some.inj heq
          cases BlockKind.ofOpcode? op with
          | none =>
            refine (follows_plain hdeeper.anyRoom op place (items.drop 1)).bind ?_
            rintro _ ⟨p, n⟩ _ ⟨rfl, rfl⟩
            refine (follows_operands hdeeper.anyRoom (items.drop (n + 1))).bind ?_
            rintro _ groups _ ⟨rfl, rfl⟩
            refine .lift_bind _ fun _ => ?_
            exact .pure ⟨List.append_assoc .., rfl⟩
          | some kind =>
            cases kind with
            | cond =>
              refine .lift_bind _ fun (name, sig, n) => ?_
              exact follows_conditional hdeeper out [] name sig place (items.drop (n + 1))
            | block | loop =>
              refine .lift_bind _ fun (name, sig, n) => ?_
              refine .step (follows_push hdeeper _ name sig) ?_
              refine (follows_whole (hdeeper.inside _) (items.drop (n + 1))).bind ?_
              rintro _ body _ ⟨rfl, rfl⟩
              exact .step (follows_pop hdeeper _) (.pure ⟨rfl, rfl⟩)
  · rintro _ is _ ⟨rfl, rfl⟩
    exact .step (follows_ascend hF) (.pure ⟨rfl, rfl⟩)
termination_by 2 * sizeOf f
decreasing_by
  · exact Nat.lt_of_succ_lt (two_mul_sizeOf_drop_lt_inside place _ items)
  · exact two_mul_sizeOf_drop_lt_inside place _ items
  · exact two_mul_sizeOf_drop_lt_inside place _ items
  · exact Nat.lt_of_succ_lt (two_mul_sizeOf_drop_lt_inside place _ items)

/-- Operands leave the context as it was. -/
theorem follows_operands {start F : Context} {opened : List Span} (hF : F.Within start opened 0)
    (items : List Form) :
    Follows start F (operands opened items) (Body.operands F.scope items) fun a b G =>
      a = b ∧ G = F := by
  match items with
  | [] =>
    rw [operands, Body.operands]
    exact .pure ⟨rfl, rfl⟩
  | .atom t :: rest =>
    rw [operands, Body.operands]
    exact .throw _
  | .list place inside :: rest =>
    rw [operands, Body.operands]
    refine (follows_folded hF [] (.list place inside)).bind ?_
    rintro _ group _ ⟨rfl, rfl⟩
    refine (follows_operands hF rest).bind ?_
    rintro _ groups _ ⟨rfl, rfl⟩
    exact .pure ⟨rfl, rfl⟩
termination_by 2 * sizeOf items
decreasing_by
  · exact Body.two_mul_sizeOf_head_lt _ rest
  · exact Nat.lt_of_succ_lt (Body.two_mul_sizeOf_drop_lt _ 0 rest)

/-- What follows the header of a folded conditional appends the condition and then the
conditional. -/
theorem follows_conditional {start F : Context} {opened : List Span}
    (hF : F.Within start opened 1) (out condition : List Instr) (name : Option String)
    (sig : ValType) (span : Span) (items : List Form) :
    Follows start F (conditional opened out condition name sig span items)
      (Body.conditional F.scope name sig span items) fun a b G =>
        a = out ++ (condition ++ b) ∧ G = F := by
  match items with
  | [] =>
    rw [conditional, Body.conditional]
    exact .throw _
  | f :: rest =>
    rw [conditional.eq_def, Body.conditional.eq_def]
    dsimp only
    -- what stands before the first arm is the condition, read as operands are
    by_cases hthen : f.isHeadedBy .thenKw = true
    · rw [if_pos hthen, if_pos hthen]
      refine .step (follows_push hF .ifArm name sig) ?_
      refine (follows_arm (hF.inside _) f).bind ?_
      rintro _ body _ ⟨rfl, rfl⟩
      match rest with
      | [] => exact .step (follows_pop hF _) (.pure ⟨List.append_assoc .., rfl⟩)
      | g :: rest =>
        dsimp only
        by_cases helse : g.headOpcode? = some .elseOp
        · rw [if_pos helse, if_pos helse]
          refine (follows_enterElse hF _ g.span).bind ?_
          rintro ⟨⟩ _ _ ⟨l', rfl, rfl⟩
          refine (follows_arm (hF.inside l') g).bind ?_
          rintro _ elseBody _ ⟨rfl, rfl⟩
          refine .lift_bind _ fun _ => ?_
          exact .step (follows_pop hF _) (.pure ⟨List.append_assoc .., rfl⟩)
        · rw [if_neg helse, if_neg helse]
          exact .throw _
    · rw [if_neg hthen, if_neg hthen]
      refine (follows_folded hF.anyRoom [] f).bind ?_
      rintro group _ _ ⟨rfl, rfl⟩
      refine .lift_bind _ fun _ => ?_
      refine (follows_conditional hF out (condition ++ group) name sig span rest).map ?_
      rintro _ others _ ⟨rfl, rfl⟩
      exact ⟨by rw [List.append_assoc], rfl⟩
termination_by 2 * sizeOf items
decreasing_by
  · exact Body.two_mul_sizeOf_head_lt f _
  · exact (Body.two_mul_sizeOf_head_lt g rest).trans
      (Nat.lt_of_succ_lt (Body.two_mul_sizeOf_drop_lt f 0 (g :: rest)))
  · exact Body.two_mul_sizeOf_head_lt f rest
  · exact Nat.lt_of_succ_lt (Body.two_mul_sizeOf_drop_lt f 0 rest)

theorem follows_arm {start F : Context} {opened : List Span} (hF : F.Within start opened 0)
    (f : Form) :
    Follows start F (arm opened f) (Body.arm F.scope f) fun a b G => a = b ∧ G = F := by
  match f with
  | .atom t =>
    rw [arm, Body.arm]
    exact .pure ⟨rfl, rfl⟩
  | .list place items =>
    rw [arm, Body.arm]
    exact follows_whole hF (items.drop 1)
termination_by 2 * sizeOf f
decreasing_by exact two_mul_sizeOf_drop_lt_inside place 1 items

/-- A body leaves the context as it was. -/
theorem follows_whole {start F : Context} {opened : List Span} (hF : F.Within start opened 0)
    (items : List Form) :
    Follows start F (whole opened items) (Body.whole F.scope items) fun a b G =>
      a = b ∧ G = F := by
  rw [whole, Body.whole]
  refine (follows_sequence hF [] items).bind ?_
  rintro _ ⟨body, n⟩ _ ⟨rfl, rfl⟩
  exact .lift_bind _ fun _ => .pure ⟨rfl, rfl⟩
termination_by 2 * sizeOf items + 1

end

/-! ## Answers -/

/-- A live reader that is started in a context fails just where a reader does, and otherwise gives
what it makes of that one's answer, with the types of that one and nothing else changed. -/
structure Answers {α β : Type} (start : Context) (x : Live α) (y : Elab β) (answer : β → α) :
    Prop where
  error : ∀ p, (∃ h, x.run (.start start) = .error p h) ↔ y.run start.draft.types = .error p
  ok : ∀ a c, (∃ h, x.run (.start start) = .ok a h ∧ h.now.context = c) ↔
    ∃ b t, y.run start.draft.types = .ok (b, t) ∧ a = answer b ∧ c = start.withTypes t

namespace Follows

variable {α β : Type} {start : Context} {x : Live α} {y : Elab β} {Q : α → β → Context → Prop}

/-- A reader that follows another from the start answers the same, and ends where it started. -/
theorem answers {answer : β → α} (hx : Follows start start x y Q)
    (hstart : start.depth ≤ Scope.maxNesting)
    (hQ : ∀ a b G, Q a b G → a = answer b ∧ G = start) : Answers start x y answer := by
  have hrun := hx _ start.draft.types (.start hstart) rfl
  -- the live run ends as the other does, and a run ends in one way only
  cases hy : y.run start.draft.types with
  | error p =>
    rw [hy] at hrun
    obtain ⟨h, hrun, -⟩ := hrun
    refine ⟨fun q => ⟨?_, ?_⟩, fun a c => ⟨?_, ?_⟩⟩
    · rintro ⟨h', herror⟩
      cases hrun.symm.trans herror
      exact hy
    · intro herror
      cases hy.symm.trans herror
      exact ⟨h, hrun⟩
    · rintro ⟨h', hok, -⟩
      cases hrun.symm.trans hok
    · rintro ⟨b, t, hok, -⟩
      cases hy.symm.trans hok
  | ok bt =>
    obtain ⟨b, t⟩ := bt
    rw [hy] at hrun
    obtain ⟨a, h, G, hrun, -, hresult, hnow⟩ := hrun
    obtain ⟨rfl, rfl⟩ := hQ a b G hresult
    refine ⟨fun q => ⟨?_, ?_⟩, fun a' c => ⟨?_, ?_⟩⟩
    · rintro ⟨h', herror⟩
      cases hrun.symm.trans herror
    · intro herror
      cases hy.symm.trans herror
    · rintro ⟨h', hok, rfl⟩
      cases hrun.symm.trans hok
      exact ⟨b, t, hy, rfl, hnow⟩
    · rintro ⟨b', t', hok, rfl, rfl⟩
      cases hy.symm.trans hok
      exact ⟨h, hrun, hnow⟩

/-- Up to the end or to a failure every moment is sound. -/
theorem sound (hx : Follows start start x y Q) (hstart : start.depth ≤ Scope.maxNesting)
    {h : History} (hend : (∃ a, x.run (.start start) = .ok a h) ∨
      ∃ p, x.run (.start start) = .error p h) : h.Sound start := by
  have hrun := hx _ start.draft.types (.start hstart) rfl
  cases hy : y.run start.draft.types with
  | error p =>
    rw [hy] at hrun
    obtain ⟨h', hrun, hsound⟩ := hrun
    rcases hend with ⟨a, hend⟩ | ⟨q, hend⟩
    · cases hrun.symm.trans hend
    · cases hrun.symm.trans hend
      exact hsound
  | ok bt =>
    rw [hy] at hrun
    obtain ⟨a, h', G, hrun, hsound, -⟩ := hrun
    rcases hend with ⟨a', hend⟩ | ⟨q, hend⟩
    · cases hrun.symm.trans hend
      exact hsound
    · cases hrun.symm.trans hend

end Follows

section WholeRun

variable {start : Context}

/-- Reading in one context is reading with a scope that is passed on. -/
theorem answers (hstart : start.depth ≤ Scope.maxNesting) (out : List Instr) (items : List Form) :
    Answers start (sequence [] out items) (Body.sequence start.scope items)
        (fun b => (out ++ b.1, b.2)) ∧
      (∀ f, Answers start (folded [] out f) (Body.folded start.scope f) (out ++ ·)) ∧
      ∀ kind span, Answers start (flat [] out kind span items)
        (Body.flat start.scope kind span items) fun b => (out ++ [b.1], b.2) := by
  have hwithin := Context.Within.refl hstart
  refine ⟨?_, fun f => ?_, fun kind span => ?_⟩
  · exact (follows_sequence hwithin out items).answers hstart fun _ _ _ h => h
  · exact (follows_folded hwithin out f).answers hstart fun _ _ _ h => h
  · exact (follows_flat hwithin out kind span items).answers hstart fun _ _ _ h => h

/-! ## What a whole run keeps -/

/-- A context is another one with types added at the end. -/
structure Context.Grows (c c' : Context) : Prop where
  context : c' = c.withTypes c'.draft.types
  types : c.draft.types.Grows c'.draft.types

/-- A reader that is started in a context leaves it as it was but for types, and it adds to the
instructions `out`. Up to the end or to a failure the context is as deep as what is open, and has no
more labels of its own than that. -/
structure Restores {α : Type} (start : Context) (out : List Instr) (x : Live α)
    (outOf : α → List Instr) : Prop where
  context : ∀ a h, x.run (.start start) = .ok a h → start.Grows h.now.context
  appends : ∀ a h, x.run (.start start) = .ok a h → out <+: outOf a
  during : ∀ h, ((∃ a, x.run (.start start) = .ok a h) ∨ ∃ p, x.run (.start start) = .error p h) →
    h.Sound start

/-- A reader that answers as one without a context restores its context. -/
theorem restores_of_answers {α β : Type} {x : Live α} {y : Elab β} {answer : β → α}
    {out : List Instr} {outOf : α → List Instr} (hx : Answers start x y answer)
    (hgrows : ∀ {t t' b}, y.run t = .ok (b, t') → t.Grows t')
    (hout : ∀ b, out <+: outOf (answer b))
    (hsound : ∀ {h}, ((∃ a, x.run (.start start) = .ok a h) ∨
      ∃ p, x.run (.start start) = .error p h) → h.Sound start) : Restores start out x outOf where
  context a h hok := by
    obtain ⟨b, t, hy, -, hnow⟩ := (hx.ok a _).mp ⟨h, hok, rfl⟩
    rw [hnow]
    exact ⟨rfl, hgrows hy⟩
  appends a h hok := by
    obtain ⟨b, t, -, rfl, -⟩ := (hx.ok a _).mp ⟨h, hok, rfl⟩
    exact hout b
  during _ := hsound

/-- Reading a sequence, a folded instruction or a flat block puts back all that it changes of the
context, except that the types may have grown, and counts what is open. -/
theorem restores (hstart : start.depth ≤ Scope.maxNesting) (out : List Instr)
    (items : List Form) :
    Restores start out (sequence [] out items) Prod.fst ∧
      (∀ f, Restores start out (folded [] out f) id) ∧
      ∀ kind span, Restores start out (flat [] out kind span items) Prod.fst := by
  have hwithin := Context.Within.refl hstart
  obtain ⟨hsequence, hfolded, hflat⟩ := answers hstart out items
  refine ⟨?_, fun f => ?_, fun kind span => ?_⟩
  · exact restores_of_answers hsequence (Body.holds_of_sequence Body.invariant_grows items)
      (fun _ => List.prefix_append ..) ((follows_sequence hwithin out items).sound hstart)
  · exact restores_of_answers (hfolded f) (Body.holds_of_folded Body.invariant_grows f)
      (fun _ => List.prefix_append ..) ((follows_folded hwithin out f).sound hstart)
  · exact restores_of_answers (hflat kind span) (Body.holds_of_flat Body.invariant_grows items)
      (fun _ => List.prefix_append ..) ((follows_flat hwithin out kind span items).sound hstart)

end WholeRun

/-- A context one level deep, inside the label of a function. -/
def nestedStart : Context :=
  ⟨.empty, .ofTypes ⟨[], []⟩, [], [], .ofFunction .void, 1⟩

/-- A flat block around a conditional, whose arms are a call of a new type and a folded one. -/
def nestedItems : List Form :=
  let text := "(func block if call_indirect (param i32) else (if (i32.const 1) (then nop)) end end)"
  (Reader.ofSource ⟨"t", text⟩).readForms.1.flatMap Form.args

/-- Instructions nested in each other, flat and folded. -/
theorem restores_nestedItems : nestedStart.depth ≤ Scope.maxNesting ∧
    Restores nestedStart [] (sequence [] [] nestedItems) Prod.fst ∧
      (∀ f, Restores nestedStart [] (folded [] [] f) id) ∧
      ∀ kind span, Restores nestedStart [] (flat [] [] kind span nestedItems) Prod.fst :=
  ⟨by decide, restores (by decide) [] nestedItems⟩

/-- How many are open there, from the last moment to the first. -/
example :
    (match (sequence [] [] nestedItems).run (.start nestedStart) with
      | .ok _ h => h.moments.map (List.length ∘ Moment.opened)
      | .error _ _ => []) =
    [0, 1, 1, 2, 2, 3, 3, 3, 3, 4, 4, 3, 2, 2, 2, 2, 1, 1, 0] := by
  decide +kernel

end WasmText.LiveBody
