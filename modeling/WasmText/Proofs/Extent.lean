import Mathlib.Data.List.TakeWhile
import WasmText.Token.Stream

/-!
# How far a lexeme reaches

A lexeme other than a parenthesis has a core, such as the characters between two quotes, and is
`bounded`: it takes what follows its core up to the next boundary, and is refused if that is
anything. A lexeme takes one character at least and never more than there are.

None of the readers looks past a newline, because no lexeme holds one: what they take of a line and
what they make of it is the same whatever the next lines hold (`Lexeme.read_append_newline`). In
front of a lexeme only a block comment reaches over lines, and one that ends does so wherever the
source goes on.
-/

namespace WasmText

namespace Lexeme

/-! ## Maximal stretches -/

variable {p : Char → Bool} {body rest : List Char}

/-- What is taken while a predicate holds is the stretch in front of a character that fails it. -/
theorem takeWhile_stretch (hbody : ∀ c ∈ body, p c = true) (hrest : ∀ c ∈ rest.head?, p c = false) :
    (body ++ rest).takeWhile p = body := by
  rw [List.takeWhile_append_of_pos hbody]
  cases rest with
  | nil => simp
  | cons c rest => simp [hrest c rfl]

/-- A stretch of characters is dropped up to where it ends. -/
theorem dropWhile_stretch (hbody : ∀ c ∈ body, p c = true) (hrest : ∀ c ∈ rest.head?, p c = false) :
    (body ++ rest).dropWhile p = rest := by
  rw [List.dropWhile_append_of_pos hbody]
  cases rest with
  | nil => rfl
  | cons c rest => simp [hrest c rfl]

/-! ## The characters taken -/

/-- A code point is written with no more characters than there are. -/
theorem snd_codePointEscape_le (cs : List Char) : (codePointEscape cs).2 ≤ cs.length := by
  unfold codePointEscape
  split
  · next cs =>
    have hlen := congrArg List.length (List.takeWhile_append_dropWhile (p := isHex) (l := cs))
    rw [List.length_append] at hlen
    dsimp only
    split
    · next heq =>
      rw [heq, List.length_cons] at hlen
      split <;> (simp only [List.length_cons]; omega)
    · simp only [List.length_cons]
      omega
  · exact Nat.zero_le _

/-- An escape is written with no more characters than there are. -/
theorem snd_escape_le (cs : List Char) : (escape cs).2 ≤ cs.length := by
  unfold escape
  split
  case h_9 =>
    rename_i cs
    have hle := snd_codePointEscape_le cs
    simp only [List.length_cons]
    omega
  case h_10 =>
    rename_i c cs _ _ _ _ _ _ _ _
    cases cs with
    | nil => cases Digit.value? 16 c <;> simp
    | cons d ds => split <;> simp
  all_goals simp

/-- A string ends no earlier than it starts. -/
theorem le_snd_string (n : Nat) (bytes : Array UInt8) (refused : Option (LexCause × Nat))
    (cs : List Char) : n ≤ (string n bytes refused cs).2 := by
  fun_induction string n bytes refused cs with
  | case1 | case2 | case3 | case4 => simp
  | case5 | case6 | case7 => omega

/-- A string ends no later than the source. -/
theorem snd_string_le (n : Nat) (bytes : Array UInt8) (refused : Option (LexCause × Nat))
    (cs : List Char) : (string n bytes refused cs).2 ≤ n + cs.length := by
  fun_induction string n bytes refused cs with
  | case1 | case2 | case3 | case4 => simp
  | case5 n bytes refused cs bs k hescape ih | case6 n bytes refused cs cause place k hescape ih =>
    have hk := snd_escape_le cs
    rw [hescape] at hk
    simp only [List.length_drop, List.length_cons] at ih ⊢
    omega
  | case7 n bytes refused c cs h1 h2 h3 ih =>
    simp only [List.length_cons]
    omega

/-- The cores that a character may start: parentheses stand for themselves, and any other lexeme is
bounded after the characters of its core. -/
theorem read_cases (c : Char) (cs : List Char) :
    read c cs = ⟨.ok .leftParen, 1⟩ ∨ read c cs = ⟨.ok .rightParen, 1⟩ ∨
      ∃ n result, read c cs = bounded (c :: cs) n result ∧ 1 ≤ n ∧ n ≤ cs.length + 1 ∧
        ∀ refusal, result = .error refusal → refusal.first ≤ refusal.last := by
  unfold read
  split
  · exact .inl rfl
  split
  · exact .inr (.inl rfl)
  refine .inr (.inr ?_)
  split
  · have hge := le_snd_string 1 #[] none cs
    have hle := snd_string_le 1 #[] none cs
    split
    all_goals
      next n hstring =>
        rw [hstring] at hge hle
        dsimp only at hge hle
        exact ⟨n, _, rfl, hge, by omega, by rintro refusal ⟨⟩ <;> simp⟩
  split
  · have hle := (List.takeWhile_prefix (l := cs) isIdChar).length_le
    dsimp only
    split <;> exact ⟨_, _, rfl, by omega, by omega, by rintro refusal ⟨⟩ <;> simp⟩
  split
  · next hid =>
    have hle := (List.takeWhile_prefix (l := c :: cs) isIdChar).length_le
    have hpos : 1 ≤ ((c :: cs).takeWhile isIdChar).length := by simp [hid]
    dsimp only
    split <;> exact ⟨_, _, rfl, hpos, by simpa using hle, by rintro refusal ⟨⟩ <;> simp⟩
  · exact ⟨1, _, rfl, le_rfl, by omega, by rintro refusal ⟨⟩; simp⟩

/-! ## Boundaries -/

/-- What a boundary has to follow is followed by one when it is not refused. -/
theorem boundary_of_bounded {cs : List Char} {n : Nat} {result : Except Refusal TokenKind}
    {kind : TokenKind} (h : (bounded cs n result).result = .ok kind) :
    (bounded cs n result).size = n ∧ ∀ d ∈ (cs.drop n).head?, isBoundary d = true := by
  obtain refusal | kind' := result
  · cases h
  · dsimp only [bounded] at h ⊢
    split at h
    · next hsize =>
      rw [if_pos hsize]
      refine ⟨rfl, fun d hd => ?_⟩
      have hnone : ((cs.drop n).takeWhile (!isBoundary ·)).length = 0 := by
        unfold toBoundary at hsize
        omega
      obtain ⟨ds, hds⟩ := List.head?_eq_some_iff.mp hd
      rw [hds, List.takeWhile_cons] at hnone
      by_contra hd'
      simp [hd'] at hnone
    · cases h

/-- A lexeme is not refused where a boundary follows its core. -/
theorem bounded_of_boundary (text : List Char) {rest : List Char} (kind : TokenKind)
    (hrest : ∀ c ∈ rest.head?, isBoundary c = true) :
    bounded (text ++ rest) text.length (.ok kind) = ⟨.ok kind, text.length⟩ := by
  have hnone : ([] ++ rest).takeWhile (!isBoundary ·) = [] :=
    takeWhile_stretch (by simp) fun c hc => by simp [hrest c hc]
  have hsize : toBoundary (text ++ rest) text.length = text.length := by
    rw [toBoundary, List.drop_left, ← List.nil_append rest, hnone]
    rfl
  simp only [bounded, hsize, if_true]

/-- A lexeme that has to stop at a boundary is read as it was, or refused. -/
theorem result_of_bounded {cs : List Char} {n : Nat} {result : Except Refusal TokenKind}
    {kind : TokenKind} (h : (bounded cs n result).result = .ok kind) : result = .ok kind := by
  obtain refusal | kind' := result
  · cases h
  · dsimp only [bounded] at h
    split at h
    · exact h
    · cases h

/-- What is refused is refused from a first character to a last one. -/
theorem first_le_last_of_bounded {cs : List Char} {n : Nat} {result : Except Refusal TokenKind}
    {refusal : Refusal} (hresult : ∀ r, result = .error r → r.first ≤ r.last)
    (h : (bounded cs n result).result = .error refusal) : refusal.first ≤ refusal.last := by
  obtain r | kind := result
  · cases h
    exact hresult refusal rfl
  · dsimp only [bounded] at h
    split at h
    · cases h
    · cases h
      exact Nat.zero_le _

/-- A boundary is no later than the end. -/
theorem toBoundary_le {cs : List Char} {n : Nat} (h : n ≤ cs.length) :
    toBoundary cs n ≤ cs.length := by
  have hle := (List.takeWhile_prefix (l := cs.drop n) (!isBoundary ·)).length_le
  rw [List.length_drop] at hle
  unfold toBoundary
  omega

theorem size_bounded_le {cs : List Char} {n : Nat} (h : n ≤ cs.length)
    (result : Except Refusal TokenKind) : (bounded cs n result).size ≤ cs.length := by
  have hle := toBoundary_le h
  unfold bounded
  dsimp only
  split
  · split
    · exact h
    · exact hle
  · exact hle

/-- A lexeme takes no more characters than there are. -/
theorem size_read_le (c : Char) (cs : List Char) : (read c cs).size ≤ cs.length + 1 := by
  obtain h | h | ⟨n, result, h, -, hn, -⟩ := read_cases c cs
  · rw [h]
    exact Nat.le_add_left ..
  · rw [h]
    exact Nat.le_add_left ..
  · rw [h]
    exact size_bounded_le (show n ≤ (c :: cs).length from hn) result

/-- A lexeme is refused from a first character to a last one. -/
theorem first_le_last_of_read {c : Char} {cs : List Char} {refusal : Refusal}
    (h : (read c cs).result = .error refusal) : refusal.first ≤ refusal.last := by
  obtain hread | hread | ⟨n, result, hread, -, -, hresult⟩ := read_cases c cs
  · rw [hread] at h
    cases h
  · rw [hread] at h
    cases h
  · rw [hread] at h
    exact first_le_last_of_bounded hresult h

/-- A token that is not a parenthesis ends where a boundary or nothing follows. -/
theorem boundary_of_read {c : Char} {cs : List Char} {kind : TokenKind}
    (h : (read c cs).result = .ok kind) (hleft : kind ≠ .leftParen)
    (hright : kind ≠ .rightParen) :
    ∀ d ∈ (cs.drop ((read c cs).size - 1)).head?, isBoundary d = true := by
  obtain hread | hread | ⟨n, result, hread, hn, -⟩ := read_cases c cs
  · rw [hread] at h
    cases h
    exact absurd rfl hleft
  · rw [hread] at h
    cases h
    exact absurd rfl hright
  · rw [hread] at h ⊢
    obtain ⟨hsize, hboundary⟩ := boundary_of_bounded h
    obtain ⟨m, rfl⟩ : ∃ m, n = m + 1 := ⟨n - 1, by omega⟩
    rw [hsize]
    exact hboundary

/-! ## Lines -/

/-- What is taken while a predicate holds that a newline does not have ends with the line. -/
theorem takeWhile_append_newline {p : Char → Bool} (hp : p '\n' = false) (cs ds : List Char) :
    (cs ++ '\n' :: ds).takeWhile p = cs.takeWhile p := by
  have hnone : ('\n' :: ds).takeWhile p = [] := by rw [List.takeWhile_cons, hp]; rfl
  rw [List.takeWhile_append]
  split
  · next hall =>
    rw [hnone, List.append_nil]
    exact ((List.takeWhile_prefix p).eq_of_length hall).symm
  · rfl

/-- Where a newline stops, what follows it does not matter. -/
theorem dropWhile_append_newline {p : Char → Bool} (hp : p '\n' = false) (cs ds : List Char) :
    (cs ++ '\n' :: ds).dropWhile p = cs.dropWhile p ++ '\n' :: ds := by
  have hall : ('\n' :: ds).dropWhile p = '\n' :: ds := by rw [List.dropWhile_cons, hp]; rfl
  rw [List.dropWhile_append]
  split
  · next hnil => rw [List.isEmpty_iff.mp hnil, hall, List.nil_append]
  · rfl

/-- A newline ends a code point. -/
theorem codePointEscape_append_newline (cs ds : List Char) :
    codePointEscape (cs ++ '\n' :: ds) = codePointEscape cs := by
  have hhex : isHex '\n' = false := by decide
  obtain _ | ⟨c, cs⟩ := cs
  · rfl
  by_cases hc : c = '\x7b'
  · subst hc
    rw [List.cons_append, codePointEscape, codePointEscape, takeWhile_append_newline hhex,
      dropWhile_append_newline hhex]
    -- a closing brace is looked for right after the digits
    obtain _ | ⟨d, rest⟩ := cs.dropWhile isHex
    · cases cs.takeWhile isHex <;> rfl
    · by_cases hd : d = '\x7d'
      · subst hd
        cases cs.takeWhile isHex <;> rfl
      · simp [hd]
  · simp [codePointEscape, hc]

/-- A newline ends an escape. -/
theorem escape_append_newline (cs ds : List Char) :
    escape (cs ++ '\n' :: ds) = escape cs := by
  have hlow (cs : List Char) : (cs ++ '\n' :: ds).head?.bind (Digit.value? 16) =
      cs.head?.bind (Digit.value? 16) := by
    cases cs <;> rfl
  fun_cases escape cs with
  | case1 | case2 | case3 | case4 | case5 | case6 | case7 | case8 => rfl
  | case9 cs r n hcode => rw [List.cons_append, escape, codePointEscape_append_newline, hcode]
  | case10 | case11 | case12 => simp only [List.cons_append, escape, *]

/-- A newline ends a string. -/
theorem string_append_newline (n : Nat) (bytes : Array UInt8) (refused : Option (LexCause × Nat))
    (cs ds : List Char) :
    string n bytes refused (cs ++ '\n' :: ds) = string n bytes refused cs := by
  fun_induction string n bytes refused cs with
  | case1 => rw [List.nil_append, string]
  | case2 => rw [List.cons_append, string]
  | case3 | case4 => rw [List.cons_append, string]
  | case5 n bytes refused cs bs k hescape ih | case6 n bytes refused cs cause place k hescape ih =>
    have hk : k ≤ cs.length := by simpa [hescape] using snd_escape_le cs
    rw [← List.drop_append_of_le_length hk] at ih
    rw [List.cons_append, string, escape_append_newline, hescape]
    exact ih
  | case7 n bytes refused c cs h1 h2 h3 ih =>
    rw [List.cons_append, string]
    · exact ih
    · exact h1
    · exact h2
    · exact h3

/-- A newline is a boundary. -/
theorem bounded_append_newline {cs : List Char} {n : Nat} (h : n ≤ cs.length)
    (result : Except Refusal TokenKind) (ds : List Char) :
    bounded (cs ++ '\n' :: ds) n result = bounded cs n result := by
  have hsize : toBoundary (cs ++ '\n' :: ds) n = toBoundary cs n := by
    rw [toBoundary, toBoundary, List.drop_append_of_le_length h,
      takeWhile_append_newline (by decide)]
  simp only [bounded, hsize]

/-- A lexeme does not depend on the lines after its own. -/
theorem read_append_newline (c : Char) (cs ds : List Char) :
    read c (cs ++ '\n' :: ds) = read c cs := by
  have hid : isIdChar '\n' = false := by decide
  have hbounded {n : Nat} (h : n ≤ cs.length + 1) (result : Except Refusal TokenKind) :
      bounded (c :: (cs ++ '\n' :: ds)) n result = bounded (c :: cs) n result :=
    bounded_append_newline (show n ≤ (c :: cs).length from h) result ds
  have htake : (c :: (cs ++ '\n' :: ds)).takeWhile isIdChar = (c :: cs).takeWhile isIdChar :=
    takeWhile_append_newline hid (c :: cs) ds
  have hone : 1 ≤ cs.length + 1 := Nat.le_add_left ..
  have hname : (cs.takeWhile isIdChar).length + 1 ≤ cs.length + 1 :=
    Nat.succ_le_succ (List.takeWhile_prefix isIdChar).length_le
  have hword : ((c :: cs).takeWhile isIdChar).length ≤ cs.length + 1 :=
    (List.takeWhile_prefix isIdChar).length_le
  have hstring : (string 1 #[] none cs).2 ≤ cs.length + 1 :=
    Nat.add_comm .. ▸ snd_string_le 1 #[] none cs
  unfold read
  rw [string_append_newline, takeWhile_append_newline hid, htake]
  generalize string 1 #[] none cs = s at hstring ⊢
  obtain ⟨⟨⟩, n⟩ := s
  all_goals simp only [hbounded hone, hbounded hname, hbounded hword, hbounded hstring]

/-! ## Between lexemes -/

/-- A block comment ends after it starts, and no later than the source. -/
theorem blockComment?_bounds {d n m : Nat} {cs : List Char} (h : blockComment? d n cs = some m) :
    n ≤ m ∧ m ≤ n + cs.length := by
  fun_induction blockComment? d n cs with
  | case1 n cs =>
    cases h
    exact ⟨le_rfl, Nat.le_add_right ..⟩
  | case2 => cases h
  | case3 d n cs ih | case4 d n cs ih =>
    obtain ⟨hge, hle⟩ := ih h
    simp only [List.length_cons]
    omega
  | case5 d n c cs hopen hclose ih =>
    obtain ⟨hge, hle⟩ := ih h
    simp only [List.length_cons]
    omega

/-- A block comment that ends does so however the source goes on. -/
theorem blockComment?_append {d n m : Nat} {cs : List Char} (h : blockComment? d n cs = some m)
    (ds : List Char) : blockComment? d n (cs ++ ds) = some m := by
  fun_induction blockComment? d n cs with
  | case1 n cs => rw [blockComment?, h]
  | case2 => cases h
  | case3 d n cs ih | case4 d n cs ih =>
    rw [List.cons_append, List.cons_append, blockComment?]
    exact ih h
  | case5 d n c cs hopen hclose ih =>
    obtain _ | ⟨c', cs⟩ := cs
    · rw [blockComment?] at h
      cases h
    · rw [List.cons_append, List.cons_append, blockComment?]
      · exact ih h
      · rintro cs' hc ⟨⟩
        exact hopen cs hc rfl
      · rintro cs' hc ⟨⟩
        exact hclose cs hc rfl

/-- What may stand between lexemes: a line comment, a block comment or blanks. -/
theorem gap_skip_cases {c : Char} {cs : List Char} {n : Nat} (h : gap (c :: cs) = .skip n) :
    (∃ rest, c = ';' ∧ cs = ';' :: rest ∧ n = 2 + (rest.takeWhile (· != '\n')).length) ∨
      (∃ rest, c = '(' ∧ cs = ';' :: rest ∧ blockComment? 1 2 rest = some n) ∨
      (isBlank c = true ∧ n = 1 + (cs.takeWhile isBlank).length) := by
  unfold gap at h
  split at h
  · next rest heq =>
    cases heq
    cases h
    exact .inl ⟨rest, rfl, rfl, rfl⟩
  · next rest heq =>
    cases heq
    split at h
    · next m hm =>
      cases h
      exact .inr (.inl ⟨rest, rfl, rfl, hm⟩)
    · cases h
  · next heq =>
    cases heq
    split at h
    · next hblank =>
      cases h
      exact .inr (.inr ⟨hblank, rfl⟩)
    · cases h
  · cases h

/-- A gap takes one character at least and no more than there are. -/
theorem gap_skip_bounds {c : Char} {cs : List Char} {n : Nat} (h : gap (c :: cs) = .skip n) :
    1 ≤ n ∧ n ≤ cs.length + 1 := by
  obtain ⟨rest, rfl, rfl, rfl⟩ | ⟨rest, rfl, rfl, hn⟩ | ⟨-, rfl⟩ := gap_skip_cases h
  · have hle := (List.takeWhile_prefix (l := rest) (· != '\n')).length_le
    simp only [List.length_cons]
    omega
  · have hle := blockComment?_bounds hn
    simp only [List.length_cons]
    omega
  · have hle := (List.takeWhile_prefix (l := cs) isBlank).length_le
    omega

/-- Only a semicolon in second place starts a comment. -/
theorem gap_of_no_comment {c : Char} {cs : List Char}
    (h : ∀ rest, cs = ';' :: rest → c ≠ ';' ∧ c ≠ '(') :
    gap (c :: cs) =
      if isBlank c then .skip (1 + (cs.takeWhile isBlank).length) else .done := by
  unfold gap
  split
  · next rest heq =>
    cases heq
    exact absurd rfl (h rest rfl).1
  · next rest heq =>
    cases heq
    exact absurd rfl (h rest rfl).2
  · next heq =>
    cases heq
    rfl
  · next heq => cases heq

/-- Blanks are skipped together. -/
theorem gap_blank {c : Char} (hc : isBlank c = true) (cs : List Char) :
    gap (c :: cs) = .skip (1 + (cs.takeWhile isBlank).length) := by
  have hcomment : c ≠ ';' ∧ c ≠ '(' := by
    constructor
    · rintro rfl
      exact absurd hc (by decide)
    · rintro rfl
      exact absurd hc (by decide)
  rw [gap_of_no_comment fun _ _ => hcomment, if_pos hc]

/-- Where no blank stands, what comes next does not depend on the lines after this one, unless it
is a block comment that stays open. -/
theorem gap_append_newline {c : Char} {cs : List Char} (hc : isBlank c = false)
    (h : gap (c :: cs) ≠ .unterminated) (ds : List Char) :
    gap (c :: (cs ++ '\n' :: ds)) = gap (c :: cs) := by
  by_cases hcomment : ∃ rest, cs = ';' :: rest ∧ (c = ';' ∨ c = '(')
  · obtain ⟨rest, rfl, rfl | rfl⟩ := hcomment
    · rw [List.cons_append, gap, gap, takeWhile_append_newline (by decide)]
    · rw [gap] at h ⊢
      rw [List.cons_append, gap]
      rcases hblock : blockComment? 1 2 rest with _ | n
      · rw [hblock] at h
        exact absurd rfl h
      · rw [blockComment?_append hblock]
  · have hnone : ∀ rest, cs = ';' :: rest → c ≠ ';' ∧ c ≠ '(' := by
      intro rest hrest
      constructor
      · exact fun heq => hcomment ⟨rest, hrest, .inl heq⟩
      · exact fun heq => hcomment ⟨rest, hrest, .inr heq⟩
    rw [gap_of_no_comment hnone, gap_of_no_comment, if_neg (by simp [hc]), if_neg (by simp [hc])]
    intro rest hrest
    obtain _ | ⟨d, cs⟩ := cs
    · cases hrest
    · cases hrest
      exact hnone cs rfl

end Lexeme

/-! ## One step of lexing -/

namespace Item

/-- Blanks are passed over one by one. -/
theorem ofChars_blank (p : Pos) {c : Char} (hc : Lexeme.isBlank c = true) (cs : List Char) :
    ofChars p (c :: cs) = ofChars (p.next c) cs := by
  rw [ofChars, Lexeme.gap_blank hc]
  dsimp only
  obtain _ | ⟨d, ds⟩ := cs
  · rfl
  by_cases hd : Lexeme.isBlank d = true
  · -- the rest of a run of blanks is a run of blanks
    rw [ofChars, Lexeme.gap_blank hd, List.takeWhile_cons, if_pos hd]
    simp
  · simp [hd]

/-- What is skipped is skipped at once. -/
theorem ofChars_comment (p : Pos) {c : Char} {cs : List Char} {n : Nat}
    (h : Lexeme.gap (c :: cs) = .skip n) :
    ofChars p (c :: cs) = ofChars (p.after (c :: cs.take (n - 1))) (cs.drop (n - 1)) := by
  rw [ofChars, h]

/-- A lexeme is read where nothing is skipped. -/
theorem ofChars_lexeme (p : Pos) {c : Char} {cs : List Char} (h : Lexeme.gap (c :: cs) = .done) :
    ofChars p (c :: cs) =
      ofLexeme p (c :: cs.take ((Lexeme.read c cs).size - 1)) (Lexeme.read c cs).result ++
        ofChars (p.after (c :: cs.take ((Lexeme.read c cs).size - 1)))
          (cs.drop ((Lexeme.read c cs).size - 1)) := by
  rw [ofChars, h]

/-- A block comment without an end is reported where it starts. -/
theorem ofChars_unterminated (p : Pos) {c : Char} {cs : List Char}
    (h : Lexeme.gap (c :: cs) = .unterminated) :
    ofChars p (c :: cs) =
      [.error (.lexical .unterminatedComment (p.spanTo (p.after (c :: cs))))] := by
  rw [ofChars, h]

/-- Lexing goes on by one blank, one comment or one lexeme. -/
theorem ofChars_induction {motive : Pos → List Char → Prop} (nil : ∀ p, motive p [])
    (blank : ∀ p c cs, Lexeme.isBlank c = true → motive (p.next c) cs → motive p (c :: cs))
    (comment : ∀ p c cs n, Lexeme.isBlank c = false → Lexeme.gap (c :: cs) = .skip n →
      motive (p.after (c :: cs.take (n - 1))) (cs.drop (n - 1)) → motive p (c :: cs))
    (unterminated : ∀ p c cs, Lexeme.gap (c :: cs) = .unterminated → motive p (c :: cs))
    (lexeme : ∀ p c cs, Lexeme.isBlank c = false → Lexeme.gap (c :: cs) = .done →
      motive (p.after (c :: cs.take ((Lexeme.read c cs).size - 1)))
        (cs.drop ((Lexeme.read c cs).size - 1)) → motive p (c :: cs))
    (p : Pos) (cs : List Char) : motive p cs := by
  induction hn : cs.length using Nat.strong_induction_on generalizing p cs with
  | _ n ih =>
    obtain _ | ⟨c, cs⟩ := cs
    · exact nil p
    have hshort (m : Nat) : (cs.drop m).length < n := by
      rw [← hn, List.length_drop, List.length_cons]
      omega
    obtain hblank | hblank := Bool.eq_false_or_eq_true (Lexeme.isBlank c)
    · exact blank p c cs hblank (ih cs.length (hshort 0) _ _ rfl)
    rcases hgap : Lexeme.gap (c :: cs) with k | _ | _
    · exact comment p c cs k hblank hgap (ih _ (hshort _) _ _ rfl)
    · exact unterminated p c cs hgap
    · exact lexeme p c cs hblank hgap (ih _ (hshort _) _ _ rfl)

end Item

end WasmText
