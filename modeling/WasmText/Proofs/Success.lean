import Mathlib.Data.List.Forall2
import WasmText.Outcome

/-!
# Readers that succeed

A reader that succeeds has succeeded at each of its steps. The lemmas take a success apart one step
at a time, for readers that can fail and for those that carry a state as well.
-/

namespace WasmText.Success

universe u v w

variable {ε : Type u} {α β σ : Type v}

/-! ## Readers that can fail -/

theorem of_bind {x : Except ε α} {f : α → Except ε β} {b : β} (h : x >>= f = .ok b) :
    ∃ a, x = .ok a ∧ f a = .ok b := by
  cases x with
  | error e => cases h
  | ok a => exact ⟨a, rfl, h⟩

theorem of_map {x : Except ε α} {f : α → β} {b : β} (h : f <$> x = .ok b) :
    ∃ a, x = .ok a ∧ f a = b := by
  cases x with
  | error e => cases h
  | ok a => exact ⟨a, rfl, Except.ok.inj h⟩

theorem of_mapError {ε' : Type u} {f : ε → ε'} {x : Except ε α} {a : α}
    (h : x.mapError f = .ok a) : x = .ok a := by
  cases x with
  | error e => cases h
  | ok a' => rw [Except.ok.inj h]

theorem of_pure {a b : α} (h : (pure a : Except ε α) = .ok b) : a = b := Except.ok.inj h

theorem of_map_toOption {x : Except ε α} {f : α → β} {b : β} (h : x.toOption.map f = some b) :
    ∃ a, x = .ok a ∧ f a = b := by
  cases x with
  | error e => cases h
  | ok a => exact ⟨a, rfl, Option.some.inj h⟩

/-- A list of readers succeeds if each of them does. -/
theorem mapM_iff {γ : Type w} {f : γ → Except ε α} {xs : List γ} {ys : List α} :
    xs.mapM f = .ok ys ↔ List.Forall₂ (fun x y => f x = .ok y) xs ys := by
  induction xs generalizing ys with
  | nil =>
    rw [List.mapM_nil, List.forall₂_nil_left_iff]
    exact ⟨fun h => (Except.ok.inj h).symm, fun h => h ▸ rfl⟩
  | cons x xs ih =>
    rw [List.mapM_cons, List.forall₂_cons_left_iff]
    constructor
    · intro h
      obtain ⟨y, hy, h⟩ := of_bind h
      obtain ⟨ys', hys, h⟩ := of_bind h
      exact ⟨y, ys', hy, ih.mp hys, (of_pure h).symm⟩
    · rintro ⟨y, ys', hy, hys, rfl⟩
      rw [hy, show xs.mapM f = .ok ys' from ih.mpr hys]
      rfl

theorem of_mapM {γ : Type w} {f : γ → Except ε α} {xs : List γ} {ys : List α}
    (h : xs.mapM f = .ok ys) : ∀ x ∈ xs, ∃ y, f x = .ok y := by
  induction mapM_iff.mp h with
  | nil => simp
  | cons hxy _ ih =>
    have htail := mapM_iff.mpr ‹_›
    exact List.forall_mem_cons.mpr ⟨⟨_, hxy⟩, ih htail⟩

theorem of_forM {γ : Type w} {f : γ → Except ε PUnit} {xs : List γ}
    (h : xs.forM f = .ok ⟨⟩) : ∀ x ∈ xs, f x = .ok ⟨⟩ := by
  induction xs with
  | nil => simp
  | cons x xs ih =>
    obtain ⟨_, hx, h⟩ := of_bind h
    exact List.forall_mem_cons.mpr ⟨hx, ih h⟩

section Forall₂

variable {γ : Type w} {δ : Type v} {R : γ → δ → Prop} {xs : List γ} {ys : List δ}

/-- An item of the first of two lists that belong together has its item in the second. -/
theorem exists_right (h : List.Forall₂ R xs ys) {x : γ} (hx : x ∈ xs) : ∃ y ∈ ys, R x y := by
  obtain ⟨i, hi, rfl⟩ := List.getElem_of_mem hx
  have hi' : i < ys.length := h.length_eq ▸ hi
  exact ⟨ys[i], List.getElem_mem hi', (List.forall₂_iff_get.mp h).2 i hi hi'⟩

/-- An item of the second of two lists that belong together has its item in the first. -/
theorem exists_left (h : List.Forall₂ R xs ys) {y : δ} (hy : y ∈ ys) : ∃ x ∈ xs, R x y := by
  obtain ⟨i, hi, rfl⟩ := List.getElem_of_mem hy
  have hi' : i < xs.length := h.length_eq ▸ hi
  exact ⟨xs[i], List.getElem_mem hi', (List.forall₂_iff_get.mp h).2 i hi' hi⟩

theorem forall_of_forall₂ {Q : δ → Prop} (hR : ∀ x y, R x y → Q y) (h : List.Forall₂ R xs ys) :
    ∀ y ∈ ys, Q y := by
  intro y hy
  obtain ⟨x, -, hxy⟩ := exists_left h hy
  exact hR x y hxy

end Forall₂

/-- What each of some readers answers has a property, if whatever they answer has it. -/
theorem forall_of_mapM {γ : Type w} {f : γ → Except ε α} {Q : α → Prop} {xs : List γ}
    {ys : List α} (hf : ∀ x y, f x = .ok y → Q y) (h : xs.mapM f = .ok ys) : ∀ y ∈ ys, Q y :=
  forall_of_forall₂ hf (mapM_iff.mp h)

theorem of_mapM_getElem? {γ : Type w} {f : γ → Except ε α} {xs : List γ} {ys : List α} {i : Nat}
    {x : γ} {y : α} (h : xs.mapM f = .ok ys) (hx : xs[i]? = some x) (hy : ys[i]? = some y) :
    f x = .ok y := by
  obtain ⟨hi, rfl⟩ := List.getElem?_eq_some_iff.mp hx
  obtain ⟨hi', rfl⟩ := List.getElem?_eq_some_iff.mp hy
  exact (List.forall₂_iff_get.mp (mapM_iff.mp h)).2 i hi hi'

/-! ## Readers with a state -/

theorem of_run_bind {x : StateT σ (Except ε) α} {f : α → StateT σ (Except ε) β} {s t : σ} {b : β}
    (h : (x >>= f).run s = .ok (b, t)) :
    ∃ a s', x.run s = .ok (a, s') ∧ (f a).run s' = .ok (b, t) := by
  obtain ⟨⟨a, s'⟩, hx, hf⟩ := of_bind (x := x.run s) h
  exact ⟨a, s', hx, hf⟩

theorem of_run_pure {s t : σ} {a b : α}
    (h : (pure a : StateT σ (Except ε) α).run s = .ok (b, t)) : a = b ∧ s = t :=
  Prod.mk.inj (Except.ok.inj h)

theorem of_run_pure_pair {s t : σ} {a a' : α} {b b' : β}
    (h : (pure (a, b) : StateT σ (Except ε) (α × β)).run s = .ok ((a', b'), t)) :
    a = a' ∧ b = b' ∧ s = t := by
  obtain ⟨hpair, rfl⟩ := of_run_pure h
  obtain ⟨rfl, rfl⟩ := Prod.mk.inj hpair
  exact ⟨rfl, rfl, rfl⟩

/-- A step without the state leaves it as it is. -/
theorem of_run_lift {x : Except ε α} {f : α → StateT σ (Except ε) β} {s t : σ} {b : β}
    (h : ((liftM x : StateT σ (Except ε) α) >>= f).run s = .ok (b, t)) :
    ∃ a, x = .ok a ∧ (f a).run s = .ok (b, t) := by
  obtain ⟨a, s', hx, h⟩ := of_run_bind h
  cases x with
  | error e => cases hx
  | ok a' =>
    obtain ⟨rfl, rfl⟩ := Prod.mk.inj (Except.ok.inj hx)
    exact ⟨a', rfl, h⟩

/-! ## Steps that succeed -/

theorem bind_of {x : Except ε α} {f : α → Except ε β} {a : α} (h : x = .ok a) :
    x >>= f = f a := by
  rw [h]
  rfl

theorem run_bind {x : StateT σ (Except ε) α} {f : α → StateT σ (Except ε) β} {s s' : σ} {a : α}
    (h : x.run s = .ok (a, s')) : (x >>= f).run s = (f a).run s' :=
  bind_of (x := x.run s) h

theorem run_lift {x : Except ε α} {f : α → StateT σ (Except ε) β} {s : σ} {a : α}
    (h : x = .ok a) :
    ((liftM x : StateT σ (Except ε) α) >>= f).run s = (f a).run s := by
  rw [h]
  rfl

end WasmText.Success
