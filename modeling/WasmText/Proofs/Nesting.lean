import WasmText.Proofs.FormInvariants
import WasmText.Proofs.Layout

/-!
# How deep the fields of a module nest

The reader of forms refuses lists that nest too deeply, and the reader of bodies refuses
instructions that do, long before. A folded instruction is one level for either; a `then` form adds
a list and no level. So what is read in a scope nests no deeper than the levels that are left twice
over (`Scope.room`), and a field of a module stays far below the limit of the reader of forms
(`Module.depth_le_of_ofFields`).
-/

namespace WasmText

open Form

/-! ## The depth of parts -/

namespace Form

variable {f : Form} {items : List Form} {k : Nat}

theorem depthAll_le_iff : depthAll items ≤ k ↔ ∀ f ∈ items, f.depth ≤ k := by
  induction items with
  | nil => simp [depthAll]
  | cons f items ih => rw [depthAll, Nat.max_le, ih, List.forall_mem_cons]

/-- A leaf has no depth. -/
theorem Leaf.depth_eq (h : f.Leaf) : f.depth = 0 := by
  obtain ⟨-⟩ := h
  rw [depth]

/-- A list behind a word is one deeper than what follows the word. -/
theorem depth_le_of_head {head : Form} {span : Span} {rest : List Form} (hhead : head.depth = 0)
    (hrest : ∀ g ∈ rest, g.depth ≤ k) : (list span (head :: rest)).depth ≤ k + 1 := by
  rw [depth, depthAll, hhead, Nat.zero_max]
  exact Nat.succ_le_succ (depthAll_le_iff.mpr hrest)

/-- A list with a keyword at its head is one deeper than its arguments. -/
theorem depth_le_of_headKeyword? {word : Keyword} (hhead : f.headKeyword? = some word)
    (hargs : ∀ g ∈ f.args, g.depth ≤ k) : f.depth ≤ k + 1 := by
  obtain ⟨span, head, rest, rfl⟩ := exists_list_of_headKeyword? hhead
  have hword : head.keyword? = some word := hhead
  exact depth_le_of_head (leaf_of_isSome (by simp [hword])).depth_eq hargs

theorem depth_le_of_headOpcode? {op : Opcode} (hhead : f.headOpcode? = some op)
    (hargs : ∀ g ∈ f.args, g.depth ≤ k) : f.depth ≤ k + 1 := by
  match f with
  | .atom _ => cases hhead
  | .list _ [] => cases hhead
  | .list _ (.list _ _ :: _) => cases hhead
  | .list span (.atom a :: rest) => exact depth_le_of_head (by rw [depth]) hargs

/-- An inert form is at most a list of leaves. -/
theorem Inert.depth_le (h : f.Inert) : f.depth ≤ 1 := by
  cases h with
  | leaf h => exact h.depth_eq.trans_le (Nat.zero_le 1)
  | list hhead hargs => exact depth_le_of_headKeyword? hhead fun g hg => (hargs g hg).depth_eq.le

end Form

/-! ## Bodies -/

/-- How deep the forms may nest that are read in a scope. -/
def Scope.room (sc : Scope) : Nat := 2 * (Scope.maxNesting - sc.depth) + 1

theorem Scope.one_le_room (sc : Scope) : 1 ≤ sc.room := Nat.le_add_left 1 _

/-- One level leaves room for a list, and for a `then` in it. -/
theorem Scope.room_of_descend {sc deeper : Scope} {span : Span}
    (h : sc.descend span = .ok deeper) : sc.room = deeper.room + 2 := by
  obtain ⟨hlt, hdepth⟩ := Body.depth_of_descend h
  rw [room, room, hdepth]
  omega

/-- The second arm of a conditional has the room that the first had. -/
theorem Scope.room_of_enterElse {sc other : Scope} {span : Span}
    (h : sc.enterElse span = .ok other) : other.room = sc.room := by
  obtain ⟨labels, -, h⟩ := Success.of_bind h
  rw [← Success.of_pure h]
  rfl

namespace Body

/-- A folded instruction takes one level of the room, be it with a list more for its arms. -/
theorem formInvariant_depth : FormInvariant fun sc f => f.depth ≤ sc.room where
  atom sc t := by
    rw [depth]
    exact Nat.zero_le _
  inert sc f h := h.depth_le.trans sc.one_le_room
  enter h := h
  enterElse hother h := h.trans_eq (Scope.room_of_enterElse hother)
  descend hdeeper h := by
    rw [Scope.room_of_descend hdeeper]
    exact h.trans (Nat.le_add_right _ 2)
  folded := by
    intro sc deeper f t t' is hread hdeeper hargs
    rw [Scope.room_of_descend hdeeper]
    have hdepth : ∀ g ∈ f.args, g.depth ≤ deeper.room + 1 := by
      intro g hg
      obtain hplain | ⟨hthen | helse, harm⟩ := hargs g hg
      · exact hplain.trans (Nat.le_succ _)
      · exact depth_le_of_headKeyword? (isHeadedBy_iff.mp hthen) harm
      · exact depth_le_of_headOpcode? helse harm
    obtain ⟨op, hhead, -⟩ := exists_headOpcode?_of_folded hread
    exact depth_le_of_headOpcode? hhead hdepth

/-- What is read in a body is no deeper than two lists for each level. -/
theorem depth_le_of_isRead {f : Form} (h : IsRead f) : f.depth ≤ 2 * Scope.maxNesting + 1 := by
  obtain ⟨sc, hdepth⟩ := formInvariant_depth.of_isRead h
  exact hdepth.trans (Nat.succ_le_succ (Nat.mul_le_mul_left 2 (Nat.sub_le _ _)))

end Body

/-! ## Fields -/

namespace Field

/-- How deep a field may nest: as deep as the offset of a segment, with a list for the offset and
one for the segment. -/
def maxDepth : Nat := 2 * Scope.maxNesting + 3

end Field

/-- Every layer is one list more. -/
theorem Form.Layered.depth_le {p : Form → Prop} {k m : Nat} {f : Form} (h : f.Layered p k)
    (hone : 1 ≤ m) (hp : ∀ g, p g → g.depth ≤ m) : f.depth ≤ m + k := by
  induction h with
  | inert h => exact (h.depth_le.trans hone).trans (Nat.le_add_right ..)
  | body h => exact (hp _ h).trans (Nat.le_add_right ..)
  | list hhead _ ih => exact depth_le_of_headKeyword? hhead ih

namespace Module

/-- The fields of a module stay far below the limit of the reader of forms. -/
theorem depth_le_of_ofFields {name : Option String} {fields : List Form} {m : Module}
    (h : ofFields name fields = .ok m) : ∀ f ∈ fields, f.depth ≤ Field.maxDepth := by
  intro f hf
  exact (layered_of_ofFields h f hf).depth_le (Nat.le_add_left 1 _) fun _ => Body.depth_le_of_isRead

end Module

end WasmText
