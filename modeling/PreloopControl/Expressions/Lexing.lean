import PreloopControl.Lib.Fallible
import PreloopControl.Expressions.Syntax

/-!
# Texts Lexed in Pieces

A text that lexes keeps its tokens when another one is put behind it, provided
the other one starts with a character that continues no token. A closing
parenthesis is such a character, and so is a closing brace, which is no token at
all.

The fuel of the lexer disappears first: `lex_cons` reads one token and lexes what
is left, so the rest is an induction on the length of the text.

## Theorems

* `lex_cons`: Lexing without fuel.
* `lex_append`: The tokens of a text with a closing text behind it.
* `lex_append_error`: A text that does not lex is not mended by a parenthesis.
* `even_quotes_of_lex`: A text that lexes has an even number of quotes.
-/

namespace Preloop

namespace Expressions

open Fallible

/-! ## One token at a time -/

/-- The text continues no token: it is empty or starts with a character that
    belongs to none. -/
def Stops (x : Text) : Prop :=
  ∀ c ∈ x.head?, identPart c = false ∧ numeric c = false ∧
    c ≠ quote ∧ c ≠ '=' ∧ c ≠ '&' ∧ c ≠ '|'

/-- A string literal ends where it ends, whatever follows; some text is consumed. -/
theorem lexString_append {t s r x : Text} (h : lexString t = .ok (s, r)) (hx : Stops x) :
    lexString (t ++ x) = .ok (s, r ++ x) ∧ r.length ≤ t.length := by
  induction t using lexString.induct generalizing s r with
  | case1 => cases h
  | case2 =>
      -- the closing quote is the last character
      simp only [lexString, if_pos] at h
      cases h
      cases x with
      | nil => exact ⟨by simp [lexString], Nat.zero_le _⟩
      | cons c x =>
          have hc : c ≠ quote := (hx c rfl).2.2.1
          exact ⟨by simp [lexString, hc], Nat.zero_le _⟩
  | case3 t ih =>
      simp only [lexString, if_pos] at h
      obtain ⟨p, hp, hq⟩ := map_eq_ok h
      cases hq
      obtain ⟨happ, hlen⟩ := ih hp
      refine ⟨?_, by simp only [List.length_cons]; omega⟩
      simp only [List.cons_append, lexString, if_pos, happ]
      rfl
  | case4 c t hc =>
      simp only [lexString, if_pos, if_neg hc] at h
      cases h
      exact ⟨by simp [lexString, hc], by simp⟩
  | case5 c t hc ih =>
      unfold lexString at h
      rw [if_neg hc] at h
      obtain ⟨p, hp, hq⟩ := map_eq_ok h
      cases hq
      obtain ⟨happ, hlen⟩ := ih hp
      refine ⟨?_, by simp only [List.length_cons]; omega⟩
      rw [List.cons_append]
      unfold lexString
      rw [if_neg hc, happ]
      rfl

theorem takeWhile_append_of_stops {p : Char → Bool} {x : Text} (hx : ∀ c ∈ x.head?, p c = false)
    (t : Text) : (t ++ x).takeWhile p = t.takeWhile p ∧
      (t ++ x).dropWhile p = t.dropWhile p ++ x := by
  have hxt : x.takeWhile p = [] ∧ x.dropWhile p = x := by
    cases x with
    | nil => exact ⟨rfl, rfl⟩
    | cons c x =>
        have hc : p c = false := hx c rfl
        exact ⟨by simp [hc], by simp [hc]⟩
  induction t with
  | nil => simpa using hxt
  | cons c t ih =>
      by_cases hc : p c = true
      · simpa [hc] using ih
      · simp [hc]

/-- What is read of a text does not change with a closing text behind it, and the
    rest is no longer than the text. -/
def Local (f : Text → Result (Option Token × Text)) : Prop :=
  ∀ t tok r, f t = .ok (tok, r) →
    (∀ x, Stops x → f (t ++ x) = .ok (tok, r ++ x)) ∧ r.length ≤ t.length

theorem Local.ite {p : Prop} [Decidable p] {f g : Text → Result (Option Token × Text)}
    (hf : p → Local f) (hg : ¬ p → Local g) : Local fun t => if p then f t else g t := by
  by_cases hp : p
  · simpa only [if_pos hp] using hf hp
  · simpa only [if_neg hp] using hg hp

theorem local_const (tok : Option Token) : Local fun t => .ok (tok, t) := by
  intro t tok' r h
  cases h
  exact ⟨fun x _ => rfl, Nat.le_refl _⟩

theorem local_error (e : ExpressionError) : Local fun _ => .error e := by
  intro t tok r h
  cases h

theorem local_string : Local fun t => (lexString t).map fun p => (some (.string p.1), p.2) := by
  intro t tok r h
  obtain ⟨p, hp, hq⟩ := map_eq_ok h
  cases hq
  refine ⟨?_, (lexString_append (x := []) hp (by intro c hc; cases hc)).2⟩
  intro x hx
  simp only [(lexString_append hp hx).1]
  rfl

theorem local_word {p : Char → Bool} {c : Char} (hc : p c = true)
    (hp : ∀ x, Stops x → ∀ d ∈ x.head?, p d = false) (token : Text → Token) :
    Local fun t => .ok (some (token ((c :: t).takeWhile p)), (c :: t).dropWhile p) := by
  intro t tok r h
  cases h
  constructor
  · intro x hx
    have happ := takeWhile_append_of_stops (hp x hx) (c :: t)
    simp only [← List.cons_append, happ.1, happ.2]
  · simp only [List.dropWhile_cons, hc, if_true]
    exact List.length_dropWhile_le p t

theorem local_twoChar {next : Char} (long short : Token)
    (hp : ∀ x, Stops x → ∀ c ∈ x.head?, c ≠ next) :
    Local fun t => .ok (some (twoChar next long short t).1, (twoChar next long short t).2) := by
  intro t tok r h
  cases h
  cases t with
  | nil =>
      refine ⟨?_, Nat.le_refl _⟩
      intro x hx
      cases x with
      | nil => rfl
      | cons c x =>
          have hc : c ≠ next := hp _ hx c rfl
          simp [twoChar, hc]
  | cons c t =>
      by_cases hc : c = next
      · exact ⟨fun x _ => by simp [twoChar, hc], by simp [twoChar, hc]⟩
      · exact ⟨fun x _ => by simp [twoChar, hc], by simp [twoChar, hc]⟩

theorem local_doubled (c : Char) (token : Token) : Local (doubled c token) := by
  intro t tok r h
  cases t with
  | nil => cases h
  | cons c' t =>
      by_cases hc : c' = c
      · simp only [doubled, if_pos hc] at h
        cases h
        exact ⟨fun x _ => by simp [doubled, hc], by simp⟩
      · simp [doubled, hc] at h

theorem local_punctuation (c : Char) : Local fun t =>
    match punctuation c with
    | some token => .ok (some token, t)
    | none => .error (.unexpected [c]) := by
  cases punctuation c with
  | none => exact local_error _
  | some token => exact local_const (some token)

theorem numeric_of_isDigit {c : Char} (h : c.isDigit = true) : numeric c = true := by
  simp [numeric, h]

theorem identPart_of_identStart {c : Char} (h : identStart c = true) : identPart c = true := by
  simp only [identStart, identPart, Char.isAlphanum, Bool.or_eq_true] at h ⊢
  tauto

/-- One token is read alike with a closing text behind it. -/
theorem local_lexStep (c : Char) : Local (lexStep c) := by
  have heq : ∀ x, Stops x → ∀ c ∈ x.head?, c ≠ '=' := fun x hx c hc => (hx c hc).2.2.2.1
  unfold lexStep
  refine .ite (fun _ => local_const none) fun _ => ?_
  refine .ite (fun _ => local_string) fun _ => ?_
  refine .ite (fun hd => local_word (numeric_of_isDigit hd) (fun x hx d hd => (hx d hd).2.1) _)
    fun _ => ?_
  refine .ite (fun hi => local_word (identPart_of_identStart hi) (fun x hx d hd => (hx d hd).1) _)
    fun _ => ?_
  refine .ite (fun _ => local_twoChar _ _ heq) fun _ => ?_
  refine .ite (fun _ => local_doubled _ _) fun _ => ?_
  refine .ite (fun _ => local_twoChar _ _ heq) fun _ => ?_
  refine .ite (fun _ => local_twoChar _ _ heq) fun _ => ?_
  refine .ite (fun _ => local_doubled _ _) fun _ => ?_
  exact .ite (fun _ => local_doubled _ _) fun _ => local_punctuation c

/-! ## Whole texts -/

theorem lexLoop_nil (n : Nat) : lexLoop n [] = .ok [.eof] := by
  cases n with
  | zero => rfl
  | succ n => rfl

theorem lexLoop_fuel (n : Nat) : ∀ (k : Nat) (t : Text), t.length ≤ n → t.length ≤ k →
    lexLoop n t = lexLoop k t := by
  induction n with
  | zero =>
      intro k t hn hk
      rw [List.length_eq_zero_iff.mp (Nat.le_zero.mp hn), lexLoop_nil, lexLoop_nil]
  | succ n ih =>
      intro k t hn hk
      cases t with
      | nil => rw [lexLoop_nil, lexLoop_nil]
      | cons c t =>
          obtain ⟨k, rfl⟩ : ∃ j, k = j + 1 := ⟨k - 1, by simp only [List.length_cons] at hk; omega⟩
          simp only [List.length_cons, Nat.add_le_add_iff_right] at hn hk
          simp only [lexLoop]
          cases hstep : lexStep c t with
          | error e => rfl
          | ok p =>
              -- the rest is no longer, so the fuel still suffices
              have hlen := (local_lexStep c t p.1 p.2 hstep).2
              show (lexLoop n p.2 >>= _) = (lexLoop k p.2 >>= _)
              rw [ih k p.2 (by omega) (by omega)]

theorem lex_nil : lex [] = .ok [.eof] := rfl

/-- Lexing reads one token and lexes the rest. -/
theorem lex_cons (c : Char) (t : Text) :
    lex (c :: t) = (do
      let p ← lexStep c t
      let tokens ← lex p.2
      return p.1.toList ++ tokens) := by
  simp only [lex, List.length_cons, lexLoop]
  cases hstep : lexStep c t with
  | error e => rfl
  | ok p =>
      have hlen := (local_lexStep c t p.1 p.2 hstep).2
      show (lexLoop t.length p.2 >>= _) = (lexLoop p.2.length p.2 >>= _)
      rw [lexLoop_fuel t.length p.2.length p.2 hlen (Nat.le_refl _)]

/-- The tokens of a text, up to its end, stay when a closing text follows. -/
theorem lex_append_of_length (n : Nat) : ∀ {t : Text} {tokens : List Token}, t.length ≤ n →
    lex t = .ok tokens → ∃ body, tokens = body ++ [.eof] ∧
      ∀ x, Stops x → lex (t ++ x) = (lex x).map (body ++ ·) := by
  -- the induction is on the length, one step of the lexer takes a piece off
  induction n with
  | zero =>
      intro t tokens hn h
      obtain rfl : t = [] := List.length_eq_zero_iff.mp (Nat.le_zero.mp hn)
      rw [lex_nil] at h
      cases h
      refine ⟨[], rfl, ?_⟩
      intro x _
      rw [List.nil_append]
      cases lex x with
      | error e => rfl
      | ok ts => rfl
  | succ n ih =>
      intro t tokens hn h
      cases t with
      | nil => exact ih (Nat.zero_le _) h
      | cons c t =>
          rw [lex_cons] at h
          obtain ⟨p, hstep, h⟩ := bind_eq_ok h
          obtain ⟨rest, hrest, h⟩ := bind_eq_ok h
          cases h
          -- the step looks at most at what closes the piece, so it is the same in front of `x`
          obtain ⟨happ, hlen⟩ := local_lexStep c t p.1 p.2 hstep
          simp only [List.length_cons, Nat.add_le_add_iff_right] at hn
          obtain ⟨body, rfl, hbody⟩ := ih (by omega) hrest
          refine ⟨p.1.toList ++ body, by simp, ?_⟩
          intro x hx
          rw [List.cons_append, lex_cons, happ x hx]
          show (lex (p.2 ++ x) >>= _) = _
          rw [hbody x hx]
          cases lex x with
          | error e => rfl
          | ok ts => simp [Except.map, bind, Except.bind, pure, Except.pure]

theorem lex_append {t : Text} {tokens : List Token} (h : lex t = .ok tokens) :
    ∃ body, tokens = body ++ [.eof] ∧ ∀ x, Stops x → lex (t ++ x) = (lex x).map (body ++ ·) :=
  lex_append_of_length t.length (Nat.le_refl _) h

theorem wordToken_ne_eof (word : Text) : wordToken word ≠ .eof := by
  unfold wordToken
  dsimp only
  split_ifs <;> simp

theorem twoChar_ne_eof {next : Char} {long short : Token} (hl : long ≠ .eof) (hs : short ≠ .eof)
    (t : Text) : (twoChar next long short t).1 ≠ .eof := by
  unfold twoChar
  split
  · exact hs
  · split
    · exact hl
    · exact hs

theorem doubled_ne_eof {c : Char} {token tok : Token} {t r : Text} (ht : token ≠ .eof)
    (h : doubled c token t = .ok (some tok, r)) : tok ≠ .eof := by
  unfold doubled at h
  split at h
  · cases h
  · split at h
    · cases h
      exact ht
    · cases h

theorem punctuation_ne_eof {c : Char} {tok : Token} (h : punctuation c = some tok) :
    tok ≠ .eof := by
  rintro rfl
  unfold punctuation at h
  split_ifs at h <;> cases h

/-- The end is no token of a text. -/
theorem lexStep_ne_eof {c : Char} {t r : Text} {tok : Token}
    (h : lexStep c t = .ok (some tok, r)) : tok ≠ .eof := by
  unfold lexStep at h
  split_ifs at h
  · cases h
  · obtain ⟨p, hp, h⟩ := map_eq_ok h
    cases h
    simp
  · cases h
    simp
  · cases h
    exact wordToken_ne_eof _
  · cases h
    exact twoChar_ne_eof (by simp) (by simp) t
  · exact doubled_ne_eof (by simp) h
  · cases h
    exact twoChar_ne_eof (by simp) (by simp) t
  · cases h
    exact twoChar_ne_eof (by simp) (by simp) t
  · exact doubled_ne_eof (by simp) h
  · exact doubled_ne_eof (by simp) h
  · cases hp : punctuation c with
    | none => rw [hp] at h; cases h
    | some token =>
        rw [hp] at h
        cases h
        exact punctuation_ne_eof hp

/-- The tokens of a text end with the end, which stands nowhere else. -/
theorem eof_notMem_of_length (n : Nat) : ∀ {t : Text} {body : List Token}, t.length ≤ n →
    lex t = .ok (body ++ [.eof]) → Token.eof ∉ body := by
  -- the induction is on the length, as above
  induction n with
  | zero =>
      intro t body hn h
      obtain rfl : t = [] := List.length_eq_zero_iff.mp (Nat.le_zero.mp hn)
      rw [lex_nil] at h
      obtain rfl : body = [] := by simpa using h
      exact List.not_mem_nil
  | succ n ih =>
      intro t body hn h
      cases t with
      | nil => exact ih (Nat.zero_le _) h
      | cons c t =>
          rw [lex_cons] at h
          obtain ⟨p, hstep, h⟩ := bind_eq_ok h
          obtain ⟨tokens, htokens, h⟩ := bind_eq_ok h
          obtain ⟨rest, rfl, _⟩ := lex_append htokens
          have hbody : body = p.1.toList ++ rest := by
            have h : p.1.toList ++ (rest ++ [.eof]) = body ++ [.eof] := Except.ok.inj h
            rw [← List.append_assoc] at h
            exact (List.append_cancel_right h).symm
          have hlen := (local_lexStep c t p.1 p.2 hstep).2
          simp only [List.length_cons, Nat.add_le_add_iff_right] at hn
          rw [hbody]
          intro hmem
          rcases List.mem_append.mp hmem with hmem | hmem
          · have htok : p.1 = some .eof := Option.mem_toList.mp hmem
            exact lexStep_ne_eof (r := p.2) (by rw [hstep, ← htok]) rfl
          · exact ih (by omega) htokens hmem

theorem eof_notMem_of_lex {t : Text} {body : List Token} (h : lex t = .ok (body ++ [.eof])) :
    Token.eof ∉ body :=
  eof_notMem_of_length t.length (Nat.le_refl _) h

/-! ## Texts that do not lex -/

/-- A text that cannot be read is not mended by a closing parenthesis. -/
def Broken (f : Text → Result (Option Token × Text)) : Prop :=
  ∀ t e, f t = .error e → ∃ e', f (t ++ [')']) = .error e'

theorem Broken.ite {p : Prop} [Decidable p] {f g : Text → Result (Option Token × Text)}
    (hf : p → Broken f) (hg : ¬ p → Broken g) : Broken fun t => if p then f t else g t := by
  by_cases hp : p
  · simpa only [if_pos hp] using hf hp
  · simpa only [if_neg hp] using hg hp

theorem broken_ok (f : Text → Option Token × Text) : Broken fun t => .ok (f t) := by
  intro t e h
  cases h

theorem map_eq_error {α β : Type} {r : Result α} {f : α → β} {e : ExpressionError}
    (h : r.map f = .error e) : r = .error e := by
  cases r with
  | error e' => simpa [Except.map] using h
  | ok a => cases h

/-- A string literal that is never closed stays open. -/
theorem lexString_broken {t : Text} {e : ExpressionError} (h : lexString t = .error e) :
    ∃ e', lexString (t ++ [')']) = .error e' := by
  induction t using lexString.induct generalizing e with
  | case1 => exact ⟨.eof, by decide⟩
  | case2 => simp [lexString] at h
  | case3 t ih =>
      simp only [lexString, if_pos] at h
      obtain ⟨e', he'⟩ := ih (map_eq_error h)
      refine ⟨e', ?_⟩
      simp only [List.cons_append, lexString, if_pos, he']
      rfl
  | case4 c t hc => simp [lexString, hc] at h
  | case5 c t hc ih =>
      unfold lexString at h
      rw [if_neg hc] at h
      obtain ⟨e', he'⟩ := ih (map_eq_error h)
      refine ⟨e', ?_⟩
      rw [List.cons_append]
      unfold lexString
      rw [if_neg hc, he']
      rfl

theorem broken_doubled {c : Char} (token : Token) (hc : ')' ≠ c) : Broken (doubled c token) := by
  intro t e h
  cases t with
  | nil => exact ⟨.unexpected [c], by simp [doubled, hc]⟩
  | cons c' t =>
      by_cases hc' : c' = c
      · simp [doubled, hc'] at h
      · exact ⟨.unexpected [c], by simp [doubled, hc']⟩

theorem broken_lexStep (c : Char) : Broken (lexStep c) := by
  unfold lexStep
  refine .ite (fun _ => broken_ok _) fun _ => ?_
  refine .ite (fun _ => ?_) fun _ => ?_
  · intro t e h
    obtain ⟨e', he'⟩ := lexString_broken (map_eq_error h)
    exact ⟨e', by simp only [he']; rfl⟩
  refine .ite (fun _ => broken_ok _) fun _ => ?_
  refine .ite (fun _ => broken_ok _) fun _ => ?_
  refine .ite (fun _ => broken_ok _) fun _ => ?_
  refine .ite (fun _ => broken_doubled _ (by decide)) fun _ => ?_
  refine .ite (fun _ => broken_ok _) fun _ => ?_
  refine .ite (fun _ => broken_ok _) fun _ => ?_
  refine .ite (fun _ => broken_doubled _ (by decide)) fun _ => ?_
  refine .ite (fun _ => broken_doubled _ (by decide)) fun _ => ?_
  cases punctuation c with
  | none => exact fun t e _ => ⟨_, rfl⟩
  | some token => exact broken_ok _

theorem stops_rparen (t : Text) : Stops (')' :: t) := by
  have h : identPart ')' = false ∧ numeric ')' = false ∧ ')' ≠ quote ∧ ')' ≠ '=' ∧ ')' ≠ '&' ∧
      ')' ≠ '|' := by
    decide
  intro c hc
  cases hc
  exact h

theorem whitespace_range {c : Char} (hc : Text.isWhitespace c = true) :
    c.toNat ≤ 32 ∨ 133 ≤ c.toNat := by
  simp only [Text.isWhitespace, Bool.or_eq_true, Bool.and_eq_true, decide_eq_true_eq] at hc
  omega

theorem alphanum_range {c : Char} (h : c.isAlphanum = true) : 32 < c.toNat ∧ c.toNat < 133 := by
  have hnat : c.toNat = c.val.toNat := rfl
  simp only [Char.isAlphanum, Char.isAlpha, Char.isUpper, Char.isLower, Char.isDigit,
    Bool.or_eq_true, Bool.and_eq_true, decide_eq_true_eq, ge_iff_le, UInt32.le_iff_toNat_le] at h
  simp at h
  omega

/-- White space belongs to no token. -/
theorem stops_whitespace {c : Char} (hc : Text.isWhitespace c = true) (t : Text) :
    Stops (c :: t) := by
  have hrange := whitespace_range hc
  have hne : ∀ d : Char, 32 < d.toNat ∧ d.toNat < 133 → c ≠ d := by
    rintro d hd rfl
    omega
  have halnum : c.isAlphanum = false := by
    by_contra h
    have := alphanum_range (Bool.not_eq_false _ ▸ h)
    omega
  have hdigit : c.isDigit = false := by
    simp only [Char.isAlphanum, Bool.or_eq_false_iff] at halnum
    exact halnum.2
  intro d hd
  cases hd
  refine ⟨?_, ?_, hne _ (by decide), hne _ (by decide), hne _ (by decide), hne _ (by decide)⟩
  · simp [identPart, halnum, hne '_' (by decide), hne '-' (by decide)]
  · simp [numeric, hdigit, hne '.' (by decide)]

theorem lex_append_error_of_length (n : Nat) : ∀ {t : Text} {e : ExpressionError}, t.length ≤ n →
    lex t = .error e → ∃ e', lex (t ++ [')']) = .error e' := by
  induction n with
  | zero =>
      intro t e hn h
      rw [List.length_eq_zero_iff.mp (Nat.le_zero.mp hn), lex_nil] at h
      cases h
  | succ n ih =>
      intro t e hn h
      cases t with
      | nil => cases h
      | cons c t =>
          rw [lex_cons] at h
          rw [List.cons_append, lex_cons]
          cases hstep : lexStep c t with
          | error e' =>
              obtain ⟨e'', he''⟩ := broken_lexStep c t e' hstep
              exact ⟨e'', by rw [he'']; rfl⟩
          | ok p =>
              -- the first token is read; the rest is where it breaks
              obtain ⟨happ, hlen⟩ := local_lexStep c t p.1 p.2 hstep
              simp only [List.length_cons, Nat.add_le_add_iff_right] at hn
              cases hrest : lex p.2 with
              | ok ts =>
                  rw [hstep] at h
                  have h' : (lex p.2 >>= fun tokens => pure (p.1.toList ++ tokens)) =
                    Except.error e := h
                  rw [hrest] at h'
                  cases h'
              | error e' =>
                  obtain ⟨e'', he''⟩ := ih (by omega) hrest
                  refine ⟨e'', ?_⟩
                  rw [happ _ (stops_rparen _)]
                  show (lex (p.2 ++ [')']) >>= _) = _
                  rw [he'']
                  rfl

theorem lex_append_error {t : Text} {e : ExpressionError} (h : lex t = .error e) :
    ∃ e', lex (t ++ [')']) = .error e' :=
  lex_append_error_of_length t.length (Nat.le_refl _) h

/-! ## Quotes -/

/-- What is read of a text, and the character before it, has an even number of
    quotes. -/
def Balanced (c : Char) (f : Text → Result (Option Token × Text)) : Prop :=
  ∀ t tok r, f t = .ok (tok, r) → (c :: t).count quote % 2 = r.count quote % 2

theorem Balanced.ite {c : Char} {p : Prop} [Decidable p]
    {f g : Text → Result (Option Token × Text)} (hf : p → Balanced c f) (hg : ¬ p → Balanced c g) :
    Balanced c fun t => if p then f t else g t := by
  by_cases hp : p
  · simpa only [if_pos hp] using hf hp
  · simpa only [if_neg hp] using hg hp

theorem balanced_const {c : Char} (hc : c ≠ quote) (tok : Option Token) :
    Balanced c fun t => .ok (tok, t) := by
  intro t tok' r h
  cases h
  rw [List.count_cons_of_ne hc]

theorem lexString_count {t s r : Text} (h : lexString t = .ok (s, r)) :
    (t.count quote + 1) % 2 = r.count quote % 2 := by
  induction t using lexString.induct generalizing s r with
  | case1 => cases h
  | case2 =>
      simp only [lexString, if_pos] at h
      cases h
      rfl
  | case3 t ih =>
      simp only [lexString, if_pos] at h
      obtain ⟨p, hp, hq⟩ := map_eq_ok h
      cases hq
      have := ih hp
      simp only [List.count_cons_self]
      omega
  | case4 c t hc =>
      simp only [lexString, if_pos, if_neg hc] at h
      cases h
      simp only [List.count_cons_self]
      omega
  | case5 c t hc ih =>
      unfold lexString at h
      rw [if_neg hc] at h
      obtain ⟨p, hp, hq⟩ := map_eq_ok h
      cases hq
      rw [List.count_cons_of_ne hc]
      exact ih hp

theorem balanced_word {p : Char → Bool} (hp : p quote = false) (c : Char) (token : Text → Token) :
    Balanced c fun t => .ok (some (token ((c :: t).takeWhile p)), (c :: t).dropWhile p) := by
  intro t tok r h
  cases h
  have hzero : ((c :: t).takeWhile p).count quote = 0 := by
    refine List.count_eq_zero.mpr fun hq => ?_
    have := List.mem_takeWhile_imp hq
    rw [hp] at this
    cases this
  have hsplit := List.takeWhile_append_dropWhile (p := p) (l := c :: t)
  have hcount : (c :: t).count quote = ((c :: t).dropWhile p).count quote := by
    conv_lhs => rw [← hsplit, List.count_append, hzero, Nat.zero_add]
  rw [hcount]

theorem balanced_twoChar {c next : Char} (hc : c ≠ quote) (hn : next ≠ quote)
    (long short : Token) :
    Balanced c fun t =>
      .ok (some (twoChar next long short t).1, (twoChar next long short t).2) := by
  intro t tok r h
  cases h
  rw [List.count_cons_of_ne hc]
  cases t with
  | nil => rfl
  | cons d t =>
      by_cases hd : d = next
      · simp [twoChar, hd, List.count_cons_of_ne hn]
      · simp [twoChar, hd]

theorem balanced_doubled {c d : Char} (hc : c ≠ quote) (hd : d ≠ quote) (token : Token) :
    Balanced c (doubled d token) := by
  intro t tok r h
  rw [List.count_cons_of_ne hc]
  cases t with
  | nil => cases h
  | cons e t =>
      by_cases he : e = d
      · simp only [doubled, if_pos he] at h
        cases h
        rw [List.count_cons_of_ne (he ▸ hd)]
      · simp [doubled, he] at h

theorem balanced_lexStep (c : Char) : Balanced c (lexStep c) := by
  unfold lexStep
  refine .ite (fun hw => balanced_const ?_ none) fun _ => ?_
  · rintro rfl
    revert hw
    decide
  refine .ite (fun hc => ?_) fun hc => ?_
  · intro t tok r h
    obtain ⟨p, hp, hq⟩ := map_eq_ok h
    cases hq
    rw [hc, List.count_cons_self]
    exact lexString_count hp
  refine .ite (fun _ => balanced_word (by decide) c _) fun _ => ?_
  refine .ite (fun _ => balanced_word (by decide) c _) fun _ => ?_
  refine .ite (fun _ => balanced_twoChar hc (by decide) _ _) fun _ => ?_
  refine .ite (fun _ => balanced_doubled hc (by decide) _) fun _ => ?_
  refine .ite (fun _ => balanced_twoChar hc (by decide) _ _) fun _ => ?_
  refine .ite (fun _ => balanced_twoChar hc (by decide) _ _) fun _ => ?_
  refine .ite (fun _ => balanced_doubled hc (by decide) _) fun _ => ?_
  refine .ite (fun _ => balanced_doubled hc (by decide) _) fun _ => ?_
  cases punctuation c with
  | none =>
      intro t tok r h
      cases h
  | some token => exact balanced_const hc (some token)

theorem even_quotes_of_length (n : Nat) : ∀ {t : Text} {tokens : List Token}, t.length ≤ n →
    lex t = .ok tokens → t.count quote % 2 = 0 := by
  induction n with
  | zero =>
      intro t tokens hn h
      rw [List.length_eq_zero_iff.mp (Nat.le_zero.mp hn)]
      rfl
  | succ n ih =>
      intro t tokens hn h
      cases t with
      | nil => rfl
      | cons c t =>
          rw [lex_cons] at h
          obtain ⟨p, hstep, h⟩ := bind_eq_ok h
          obtain ⟨rest, hrest, h⟩ := bind_eq_ok h
          have hlen := (local_lexStep c t p.1 p.2 hstep).2
          simp only [List.length_cons, Nat.add_le_add_iff_right] at hn
          rw [balanced_lexStep c t p.1 p.2 hstep]
          exact ih (by omega) hrest

/-- A text that lexes has an even number of quotes. -/
theorem even_quotes_of_lex {t : Text} {tokens : List Token} (h : lex t = .ok tokens) :
    t.count quote % 2 = 0 :=
  even_quotes_of_length t.length (Nat.le_refl _) h

end Expressions

end Preloop
