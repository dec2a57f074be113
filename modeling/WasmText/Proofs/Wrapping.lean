import WasmText.Proofs.Closing
import WasmText.Proofs.Nesting

/-!
# Quoted text in parentheses

Quoted text is handed on as it stands if it starts like a module, and in `(module …)` otherwise.
What is put around it are tokens of their own, unless the text ends in a comment that takes the
closing parenthesis. But the word `module` stands in front of the tokens of the text then: a name
that comes first is taken for that of the module, and a module is none of its fields.

So a text and what it is handed on as come to the same module if the text is `Wrappable`, and
otherwise only where neither is accepted (`Module.wat_readAlike_iff`). Fields that are accepted nest
so little that one list around them is never one too many.
-/

namespace WasmText

open Lexeme

/-! ## The tokens of a wrapped text -/

theorem Form.keyword?_atom_iff {t : Token} {word : Keyword} :
    (atom t).keyword? = some word ↔ t.kind = .keyword word := by
  obtain ⟨kind, text, span⟩ := t
  cases kind <;> simp [keyword?]

/-- The tokens that `(module …)` puts around a text. -/
structure Bracket where
  left : Token
  word : Token
  right : Token
  left_kind : left.kind = .leftParen
  word_kind : word.kind = .keyword .moduleKw
  right_kind : right.kind = .rightParen

namespace Bracket

/-- Some items in a bracket. -/
def around (b : Bracket) (items : List Item) : List Item :=
  .ok b.left :: .ok b.word :: (items ++ [.ok b.right])

/-- Some forms in a bracket. -/
def form (b : Bracket) (inner : List Form) : Form :=
  .list (b.left.span.join b.right.span) (.atom b.word :: inner)

theorem isHeadedBy_word (b : Bracket) (span : Span) (inner : List Form) :
    (Form.list span (.atom b.word :: inner)).isHeadedBy .moduleKw = true :=
  Form.isHeadedBy_iff.mpr (Form.keyword?_atom_iff.mpr b.word_kind)

end Bracket

namespace Source

variable {src : Source}

/-- The source in `(module …)`. -/
def wrapped (src : Source) : Source := ⟨src.file, "(module " ++ src.text ++ ")"⟩

theorem items_wrapped (src : Source) : ∃ (left word : Token) (p : Pos),
    left.kind = .leftParen ∧ word.kind = .keyword .moduleKw ∧
      src.wrapped.items = .ok left :: .ok word :: Item.ofChars p (src.chars ++ [')']) := by
  have hspelled : (TokenKind.keyword .moduleKw).SpelledBy "module".toList :=
    spelledBy_word (by decide) (List.all_eq_true.mp (by decide)) (by decide +kernel)
  have hblank : (TokenKind.keyword .moduleKw).MayPrecede (' ' :: (src.chars ++ [')'])) :=
    TokenKind.mayPrecede_of_boundary _ (by simp [isBoundary, isBlank])
  have hchars : src.wrapped.chars =
      '(' :: ("module".toList ++ ' ' :: (src.chars ++ [')'])) := by
    simp [wrapped, chars]
  rw [items, hchars, Item.ofChars_leftParen _ (by simp), Item.ofChars_text _ hspelled hblank,
    Item.ofLexeme_ok (by decide), Item.ofChars_blank _ (by decide)]
  exact ⟨_, _, _, rfl, rfl, rfl⟩

/-- A text in `(module …)` has its own tokens in a bracket, which stays open if the text ends in a
comment. -/
theorem exists_bracket_of_isLexed (h : IsLexed src.chars) : ∃ b : Bracket,
    if endsInComment src.chars = true then
      src.wrapped.SameItems (.ok b.left :: .ok b.word :: src.items)
    else src.wrapped.SameItems (b.around src.items) := by
  obtain ⟨left, word, p, hleft, hword, hitems⟩ := src.items_wrapped
  obtain ⟨right, hright, hbehind⟩ := Item.ofChars_append_rightParen h p
  have hsame := Item.unspanned_ofChars p .start src.chars
  refine ⟨⟨left, word, right, hleft, hword, hright⟩, ?_⟩
  rw [hbehind] at hitems
  split
  · next hends =>
    rw [SameItems, hitems, if_pos hends, List.append_nil]
    simp only [List.map_cons, hsame]
    rfl
  · next hends =>
    rw [SameItems, hitems, if_neg hends, Bracket.around]
    simp only [List.map_cons, List.map_append, hsame]
    rfl

end Source

/-! ## What a wrapped text spells -/

namespace Form

variable {items : List Item} {inner forms : List Form}

theorem Spells.around (h : Spells items inner) (b : Bracket) :
    Spells (b.around items) [b.form inner] := by
  have hleft : b.word.kind ≠ .leftParen := by simp [b.word_kind]
  have hright : b.word.kind ≠ .rightParen := by simp [b.word_kind]
  exact .list b.left_kind b.right_kind (.atom hleft hright h) .nil

/-- Without problems there is nothing but forms. -/
theorem Spells.eq_nil (h : Spells items []) (hok : Item.problems items = []) : items = [] := by
  cases h with
  | nil => rfl
  | problem => cases hok

/-- The first list in a bracket is that of its word, and it is the only one if the bracket is closed
by its own parenthesis. -/
theorem exists_inner_of_spells {b : Bracket} (h : Spells (b.around items) forms)
    (hok : Item.problems items = []) :
    ∃ span inner others, forms = .list span (.atom b.word :: inner) :: others ∧
      (others = [] → Spells items inner) := by
  generalize hall : b.around items = all at h
  cases h with
  | nil => cases hall
  | problem => cases hall
  | @atom t _ _ hleft =>
    obtain ⟨rfl⟩ := (List.cons.inj hall).1
    exact absurd b.left_kind hleft
  | @list left right body rest inner others hleft hright hbody hrest =>
    obtain ⟨-, htail⟩ := List.cons.inj hall
    obtain _ | ⟨i, body⟩ := body
    · obtain ⟨rfl⟩ := (List.cons.inj htail).1
      cases b.word_kind.symm.trans hright
    obtain ⟨rfl, hrow⟩ := List.cons.inj htail
    cases hbody with
    | list hword => cases b.word_kind.symm.trans hword
    | @atom _ _ inner _ _ hinner =>
      refine ⟨_, inner, others, rfl, ?_⟩
      rintro rfl
      have hrow : items ++ [.ok b.right] = body ++ .ok right :: rest := hrow
      have hproblems := congrArg Item.problems hrow
      rw [Item.problems_append, hok, Item.problems_append] at hproblems
      obtain rfl := hrest.eq_nil (List.append_eq_nil_iff.mp hproblems.symm).2
      obtain ⟨rfl, -⟩ := List.append_inj' hrow rfl
      exact hinner

/-- A name comes first among the forms where it does among the items. -/
theorem Spells.head?_id (h : Spells items forms) (hok : Item.problems items = []) (name : String) :
    forms.head?.bind id? = some name ↔
      ∃ t, items.head? = some (.ok t) ∧ t.kind = .id name := by
  cases h with
  | nil => simp
  | problem => cases hok
  | @atom t =>
    obtain ⟨kind, text, span⟩ := t
    cases kind <;> simp [id?]
  | list hleft => simp [id?, hleft]

/-- A module comes first among the forms where its parenthesis and its word do among the items. -/
theorem Spells.head?_module (h : Spells items forms) (hok : Item.problems items = []) :
    (∃ f ∈ forms.head?, f.isHeadedBy .moduleKw = true) ↔
      ∃ t t', [.ok t, .ok t'] <+: items ∧ t.kind = .leftParen ∧
        t'.kind = .keyword .moduleKw := by
  constructor
  · rintro ⟨f, hf, hhead⟩
    cases h with
    | nil => cases hf
    | problem => cases hok
    | atom =>
      cases hf
      cases hhead
    | @list left _ _ _ _ _ hleft _ hbody =>
      cases hf
      cases hbody with
      | nil | list => cases hhead
      | problem => cases hok
      | @atom t =>
        exact ⟨left, t, ⟨_, rfl⟩, hleft, keyword?_atom_iff.mp (isHeadedBy_iff.mp hhead)⟩
  · rintro ⟨t, t', ⟨tail, heq⟩, hleft, hword⟩
    cases h with
    | nil => cases heq
    | problem => cases hok
    | atom hleft' =>
      cases heq
      exact absurd hleft hleft'
    | list _ hright hbody =>
      refine ⟨_, rfl, ?_⟩
      cases hbody with
      | nil =>
        cases heq
        cases hword.symm.trans hright
      | problem => cases hok
      | list hleft' =>
        cases (List.cons.inj (List.cons.inj heq).2).1
        cases hword.symm.trans hleft'
      | atom =>
        cases (List.cons.inj (List.cons.inj heq).2).1
        exact isHeadedBy_iff.mpr (keyword?_atom_iff.mpr hword)

/-- As many parentheses open as close. -/
theorem Spells.balanced (h : Spells items forms) :
    (Item.tokens items).countP (·.kind == .leftParen) =
      (Item.tokens items).countP (·.kind == .rightParen) := by
  induction h with
  | nil => rfl
  | problem _ ih => exact ih
  | atom hleft hright _ ih =>
    rw [Item.tokens_ok, List.countP_cons_of_neg (by simpa using hleft),
      List.countP_cons_of_neg (by simpa using hright), ih]
  | list hleft hright _ _ ihbody ih =>
    simp only [Item.tokens_ok, Item.tokens_append, List.countP_cons, List.countP_append, hleft,
      hright, ihbody, ih]
    simp
    omega

end Form

/-! ## Fields -/

theorem Module.isField_of_ofFields {name : Option String} {fields : List Form} {m : Module}
    (h : ofFields name fields = .ok m) : ∀ f ∈ fields, f.isField = true := by
  obtain ⟨spaces, types, d, -, -, hd, -⟩ := passes_of_ofFields h
  obtain ⟨parts, hrun⟩ := Draft.run_of_foldlM hd
  exact hrun.forall_fields fun hread => hread.isField

theorem Field.name_of_none {items : List Form} (h : items.head?.bind Form.id? = none) :
    name items = (none, 0) := by
  rw [name, h]

/-! ## Texts that are read alike -/

/-- A source may be put in `(module …)`: the parenthesis behind it is one, no name comes first that
would be that of the module, and the source is no module itself. -/
structure Source.Wrappable (src : Source) : Prop where
  closed : endsInComment src.chars = false
  nameless : ∀ t name, src.items.head? = some (.ok t) → t.kind ≠ .id name
  bare : ∀ t t', [.ok t, .ok t'] <+: src.items → t.kind = .leftParen →
    t'.kind ≠ .keyword .moduleKw

/-- There is no name in front of what may be wrapped. -/
theorem Source.Wrappable.name_eq {src : Source} {forms : List Form} (h : src.Wrappable)
    (hspells : Form.Spells src.items forms) (hok : Item.problems src.items = []) :
    Field.name forms = (none, 0) := by
  refine Field.name_of_none (Option.eq_none_iff_forall_ne_some.mpr fun name hname => ?_)
  obtain ⟨t, ht, hkind⟩ := (hspells.head?_id hok name).mp hname
  exact h.nameless t name ht hkind

namespace Module

open Reader (maxNesting)

/-- Two sources are both accepted, as modules that differ in places only, or neither is. -/
def ReadAlike (src src' : Source) : Prop :=
  ∀ m : Module, (∃ m', (parse src).outcome = .accepted m' ∧ m'.unspanned = m) ↔
    ∃ m', (parse src').outcome = .accepted m' ∧ m'.unspanned = m

variable {src : Source} {m m' : Module}

/-- The tokens of a text whose wrapping is accepted spell the fields of that module, behind a name
perhaps. -/
theorem exists_inner_of_wrapped (hclosed : endsInComment src.chars = false)
    (h : (parse src.wrapped).outcome = .accepted m) :
    Item.problems src.items = [] ∧ ∃ inner m', Form.Spells src.items inner ∧
      ofFields (Field.name inner).1 (inner.drop (Field.name inner).2) = .ok m' ∧
        m'.unspanned = m.unspanned := by
  have hlexed : IsLexed src.chars := by
    obtain ⟨left, word, p, -, -, hitems⟩ := src.items_wrapped
    have hok := (exists_forms_of_accepted h).1
    rw [hitems] at hok
    exact ((Item.problems_ofChars_iff p _).mp hok).of_append_rightParen rfl hclosed
  have hok : Item.problems src.items = [] := (Item.problems_ofChars_iff .start _).mpr hlexed
  obtain ⟨b, hsame⟩ := Source.exists_bracket_of_isLexed hlexed
  rw [if_neg (by simp [hclosed])] at hsame
  obtain ⟨-, forms, m', hspells, hm', hunspanned⟩ := exists_spells_of_accepted hsame h
  obtain ⟨span, inner, others, rfl, hinner⟩ := Form.exists_inner_of_spells hspells hok
  have hhead := b.isHeadedBy_word span inner
  obtain _ | ⟨g, others⟩ := others
  · rw [ofForms, if_pos hhead] at hm'
    exact ⟨hok, inner, m', hinner rfl, hm', hunspanned⟩
  · rw [ofForms, if_pos hhead] at hm'
    cases hm'

/-- What is accepted as it stands is accepted in `(module …)`. -/
theorem wrapped_of_accepted (hsrc : src.Wrappable) (h : (parse src).outcome = .accepted m) :
    ∃ m', (parse src.wrapped).outcome = .accepted m' ∧ m'.unspanned = m.unspanned := by
  obtain ⟨hok, forms, hspells, hlists, hm⟩ := exists_forms_of_accepted h
  obtain ⟨b, hsame⟩ :=
    Source.exists_bracket_of_isLexed ((Item.problems_ofChars_iff .start _).mp hok)
  rw [if_neg (by simp [hsrc.closed])] at hsame
  have hbare : ∀ f ∈ forms.head?, ¬f.isHeadedBy .moduleKw = true := by
    intro f hf hhead
    obtain ⟨t, t', hprefix, hleft, hword⟩ := (hspells.head?_module hok).mp ⟨f, hf, hhead⟩
    exact hsrc.bare t t' hprefix hleft hword
  rw [ofForms_of_bare hbare] at hm
  have hform : ofForms [b.form forms] = .ok m := by
    have hhead : (b.form forms).isHeadedBy .moduleKw = true := b.isHeadedBy_word _ forms
    rw [ofForms, if_pos hhead, ofForm, show (b.form forms).args = forms from rfl,
      hsrc.name_eq hspells hok]
    exact hm
  have hdepth : Form.depthAll [b.form forms] ≤ maxNesting := by
    rw [Form.depthAll_le_iff, List.forall_mem_singleton]
    exact (Form.depth_le_of_head rfl (depth_le_of_ofFields hm)).trans (by decide)
  have hokAround : Item.problems (b.around src.items) = [] := by
    simp [Bracket.around, hok]
  exact parse_of_spells hsame hokAround (hspells.around b) (List.forall_mem_singleton.mpr rfl)
    hdepth hform

/-- What is accepted in `(module …)` is accepted as it stands. -/
theorem accepted_of_wrapped (hsrc : src.Wrappable)
    (h : (parse src.wrapped).outcome = .accepted m) :
    ∃ m', (parse src).outcome = .accepted m' ∧ m'.unspanned = m.unspanned := by
  obtain ⟨hok, inner, m', hspells, hm', hunspanned⟩ := exists_inner_of_wrapped hsrc.closed h
  rw [hsrc.name_eq hspells hok] at hm'
  have hm' : ofFields none inner = .ok m' := hm'
  have hfields := isField_of_ofFields hm'
  have hforms : ofForms inner = .ok m' := by
    rw [ofForms_of_bare fun f hf => Form.not_module_of_isField (hfields f (List.mem_of_head? hf))]
    exact hm'
  have hdepth : Form.depthAll inner ≤ maxNesting :=
    Form.depthAll_le_iff.mpr fun f hf => (depth_le_of_ofFields hm' f hf).trans (by decide)
  have hsame : src.SameItems src.items := rfl
  obtain ⟨m'', hm'', hunspanned'⟩ := parse_of_spells hsame hok hspells
    (fun f hf => Form.isSome_items?_of_isField (hfields f hf)) hdepth hforms
  exact ⟨m'', hm'', hunspanned'.trans hunspanned⟩

/-- What is accepted both ways may be wrapped. -/
theorem wrappable_of_accepted (h : (parse src).outcome = .accepted m)
    (h' : (parse src.wrapped).outcome = .accepted m') : src.Wrappable := by
  obtain ⟨hok, forms, hspells, hlists, -⟩ := exists_forms_of_accepted h
  have hclosed : endsInComment src.chars = false := by
    by_contra hends
    -- the parenthesis in front of the text is the only one without a partner
    obtain ⟨b, hsame⟩ :=
      Source.exists_bracket_of_isLexed ((Item.problems_ofChars_iff .start _).mp hok)
    rw [if_pos (by simpa using hends)] at hsame
    obtain ⟨-, forms', -, hspells', -⟩ := exists_spells_of_accepted hsame h'
    have hbalanced := hspells'.balanced
    simp only [Item.tokens_ok, List.countP_cons, b.left_kind, b.word_kind, hspells.balanced]
      at hbalanced
    simp at hbalanced
  obtain ⟨-, inner, m'', hinner, hm'', -⟩ := exists_inner_of_wrapped hclosed h'
  obtain rfl := hspells.unique hinner
  have hnone : forms.head?.bind Form.id? = none := by
    cases forms with
    | nil => rfl
    | cons f forms =>
      have hlist := hlists f List.mem_cons_self
      cases f with
      | atom => cases hlist
      | list => rfl
  rw [Field.name_of_none hnone] at hm''
  refine ⟨hclosed, fun t name ht hkind => ?_, fun t t' hprefix hleft hword => ?_⟩
  · have hid := (hspells.head?_id hok name).mpr ⟨t, ht, hkind⟩
    rw [hnone] at hid
    cases hid
  · obtain ⟨f, hf, hhead⟩ := (hspells.head?_module hok).mpr ⟨t, t', hprefix, hleft, hword⟩
    exact Form.not_module_of_isField (isField_of_ofFields hm'' f (List.mem_of_head? hf)) hhead

theorem ReadAlike.symm {src src' : Source} (h : ReadAlike src src') : ReadAlike src' src :=
  fun m => (h m).symm

theorem ReadAlike.isAccepted {src src' : Source} (h : ReadAlike src src')
    (haccepted : (parse src).outcome.isAccepted = true) :
    (parse src').outcome.isAccepted = true := by
  obtain ⟨m, hm⟩ := Outcome.exists_accepted haccepted
  obtain ⟨m', hm', -⟩ := (h m.unspanned).mp ⟨m, hm, rfl⟩
  rw [hm']
  rfl

theorem not_readAlike_of_isAccepted {src src' : Source}
    (h : (parse src).outcome.isAccepted ≠ (parse src').outcome.isAccepted) :
    ¬ReadAlike src src' := fun halike =>
  h (Bool.eq_iff_iff.mpr ⟨halike.isAccepted, halike.symm.isAccepted⟩)

/-- Quoted text comes to the same module as the text itself if and only if the text is handed on as
it stands, or it may be wrapped, or neither is accepted. -/
theorem wat_readAlike_iff (name : Option String) (file text : String) :
    ∃ w, (ScriptModule.quote name text).wat? = some w ∧
      (ReadAlike ⟨file, w⟩ ⟨file, text⟩ ↔ w = text ∨ (Source.mk file text).Wrappable ∨
        ∀ m, (parse ⟨file, w⟩).outcome ≠ .accepted m ∧
          (parse ⟨file, text⟩).outcome ≠ .accepted m) := by
  rw [ScriptModule.wat?]
  split
  · exact ⟨text, rfl, iff_of_true (fun m => Iff.rfl) (.inl rfl)⟩
  refine ⟨"(module " ++ text ++ ")", rfl, ?_, ?_⟩
  · intro halike
    by_cases hsrc : (Source.mk file text).Wrappable
    · exact .inr (.inl hsrc)
    refine .inr (.inr fun m => ⟨fun h => ?_, fun h => ?_⟩)
    · obtain ⟨m', h', -⟩ := (halike m.unspanned).mp ⟨m, h, rfl⟩
      exact hsrc (wrappable_of_accepted h' h)
    · obtain ⟨m', h', -⟩ := (halike m.unspanned).mpr ⟨m, h, rfl⟩
      exact hsrc (wrappable_of_accepted h h')
  · rintro (heq | hsrc | hnone)
    · rw [heq]
      exact fun m => Iff.rfl
    · intro m
      constructor
      · rintro ⟨m', h, rfl⟩
        exact accepted_of_wrapped hsrc h
      · rintro ⟨m', h, rfl⟩
        exact wrapped_of_accepted hsrc h
    · intro m
      constructor
      · rintro ⟨m', h, -⟩
        exact absurd h (hnone m').1
      · rintro ⟨m', h, -⟩
        exact absurd h (hnone m').2

/-- A bare function is accepted as it stands and in `(module …)`. -/
theorem wat_readAlike_iff_func :
    (Source.mk "t" "(func)").Wrappable ∧
      ReadAlike ⟨"t", "(module (func))"⟩ ⟨"t", "(func)"⟩ ∧
        (parse ⟨"t", "(func)"⟩).outcome.isAccepted = true := by
  have hfacts : (Source.mk "t" "(func)").items =
      [.ok ⟨.leftParen, ⟨"(", 0⟩, ⟨0, 1, 1, 1⟩⟩,
        .ok ⟨.keyword .funcKw, ⟨"func", 1⟩, ⟨1, 5, 1, 2⟩⟩,
        .ok ⟨.rightParen, ⟨")", 5⟩, ⟨5, 6, 1, 6⟩⟩] ∧
      endsInComment (Source.mk "t" "(func)").chars = false ∧
        (parse ⟨"t", "(func)"⟩).outcome.isAccepted = true := by
    decide +kernel
  obtain ⟨hitems, hclosed, haccepted⟩ := hfacts
  have hsrc : (Source.mk "t" "(func)").Wrappable := by
    refine ⟨hclosed, ?_, ?_⟩
    · rw [hitems]
      rintro t name ⟨⟩
      simp
    · rw [hitems]
      rintro t t' ⟨rest, heq⟩ -
      cases heq
      decide
  obtain ⟨w, hw, halike⟩ := wat_readAlike_iff none "t" "(func)"
  obtain rfl : "(module (func))" = w := Option.some.inj hw
  exact ⟨hsrc, halike.mpr (.inr (.inl hsrc)), haccepted⟩

/-- A module with a comment in front of it is put in another, a line comment takes the parenthesis
behind it, and a name that stands alone becomes that of a module. -/
theorem wat_not_readAlike :
    ((ScriptModule.quote none "(;c;) (module)").wat? = some "(module (;c;) (module))" ∧
      ¬ReadAlike ⟨"t", "(module (;c;) (module))"⟩ ⟨"t", "(;c;) (module)"⟩) ∧
    ((ScriptModule.quote none "(func) ;;c").wat? = some "(module (func) ;;c)" ∧
      ¬ReadAlike ⟨"t", "(module (func) ;;c)"⟩ ⟨"t", "(func) ;;c"⟩) ∧
    (ScriptModule.quote none "$m (func)").wat? = some "(module $m (func))" ∧
      ¬ReadAlike ⟨"t", "(module $m (func))"⟩ ⟨"t", "$m (func)"⟩ := by
  have hfacts : ∀ text ∈ ["(;c;) (module)", "(func) ;;c", "$m (func)"],
      (ScriptModule.quote none text).wat? = some ("(module " ++ text ++ ")") ∧
        (parse ⟨"t", "(module " ++ text ++ ")"⟩).outcome.isAccepted ≠
          (parse ⟨"t", text⟩).outcome.isAccepted := by
    decide +kernel
  have hread (text : String) (htext : text ∈ ["(;c;) (module)", "(func) ;;c", "$m (func)"]) :
      (ScriptModule.quote none text).wat? = some ("(module " ++ text ++ ")") ∧
        ¬ReadAlike ⟨"t", "(module " ++ text ++ ")"⟩ ⟨"t", text⟩ :=
    (hfacts text htext).imp_right not_readAlike_of_isAccepted
  exact ⟨hread "(;c;) (module)" (by simp), hread "(func) ;;c" (by simp),
    hread "$m (func)" (by simp)⟩

end Module

end WasmText
