import PreloopControl.Expressions.Grammar
import PreloopControl.Expressions.Lexing

/-!
# Nested Expressions

A condition without a status check is evaluated as `success() && (condition)`, two
conditions are put together as `(outer) && (inner)`, and the expressions of a template
become the arguments of one call. The texts are put together before they are parsed, so
that they mean what they say is a property of the lexer and the parser: an expression
that parses keeps its tree in front of a parenthesis or a comma.

The parser is run on the expression alone and again nested. The nested runs see a stop
and more where the first one sees the end, and they have fewer levels of recursion. The
runs stay together (`Follow`), whatever the stop is, until the nested ones refuse for
depth, or nothing can come of the first. The first one failing does not stop the others:
a malformed member suffix is given up and reread, and the stop may close or continue a
call that is cut off in the first. But what is given up then starts with an operand,
which nothing reads.

## Main definitions

* `Stop`: A closing parenthesis or a comma, and what follows it.
* `Follow`: A result in front of the end, and one in front of every stop.
* `Follows`: Two parsers with such results everywhere.
* `Doomed`: A result nothing can come of.
* `LeavesRoom`: A condition with room for the gate around it.

## Theorems

* `Follow.bind`: The rule of sequencing.
* `parseUnary_follows`: The parser follows itself with fewer levels.
* `parse_nested`: The tree of an expression in front of a stop.
* `parse_conjunction`: Two operands with a conjunction between them.
* `parse_gated`, `parse_gated_iff`: The tree of a gated condition.
-/

namespace Preloop

namespace Expressions

open Fallible

variable {N α β : Type}

/-! ## Two runs -/

/-- The tokens `b`, then the end. -/
def ending (b : List Token) : List Token := b ++ [.eof]

/-- The tokens `b`, then a closing parenthesis and what follows it. -/
def closing (tail b : List Token) : List Token := b ++ .rparen :: tail

/-- Where a nested condition stops: a closing parenthesis or a comma, and what follows
    it. -/
structure Stop where
  token : Token
  tail : List Token
  closes : token = .rparen ∨ token = .comma

/-- The tokens `b`, then the stop. -/
def stopping (s : Stop) (b : List Token) : List Token := b ++ s.token :: s.tail

/-- The tokens an operand starts with. -/
def starts : Token → Bool
  | .string _ => true
  | .number _ => true
  | .bool _ => true
  | .null => true
  | .ident _ => true
  | .lparen => true
  | .bang => true
  | _ => false

/-- The run failed, or it stopped in front of an operand, which nothing reads. -/
def Doomed (r : Result (α × List Token)) : Prop :=
  (∃ e, r = .error e) ∨ ∃ a t b, starts t = true ∧ r = .ok (a, ending (t :: b))

/-- A computation with an outcome for each stop, refused for depth in front of all of
    them. -/
def RefusedDeep (r : Stop → Result α) : Prop := ∀ s, ∃ l, r s = .error (.tooDeep l)

/-- The nested runs refused for depth, or all runs returned the same in front of the
    same tokens, or nothing can come of the first. -/
def Follow (k : Nat) (r : Result (α × List Token)) (r' : Stop → Result (α × List Token)) : Prop :=
  RefusedDeep r' ∨
    (∃ a b, b.length ≤ k ∧ r = .ok (a, ending b) ∧ ∀ s, r' s = .ok (a, stopping s b)) ∨ Doomed r

/-- The second parser, nested, follows the first one. -/
def Follows (f g : List Token → Result (α × List Token)) : Prop :=
  ∀ b, Follow b.length (f (ending b)) fun s => g (stopping s b)

theorem Follow.mono {k k' : Nat} {r : Result (α × List Token)}
    {r' : Stop → Result (α × List Token)} (h : Follow k r r') (hk : k ≤ k') : Follow k' r r' := by
  rcases h with h | ⟨a, b, hb, hr⟩ | h
  · exact .inl h
  · exact .inr (.inl ⟨a, b, hb.trans hk, hr⟩)
  · exact .inr (.inr h)

theorem follow_ok {k : Nat} (a : α) {b : List Token} (hb : b.length ≤ k) :
    Follow k (.ok (a, ending b)) fun s => .ok (a, stopping s b) :=
  .inr (.inl ⟨a, b, hb, rfl, fun _ => rfl⟩)

theorem Follow.doomed {k : Nat} {r : Result (α × List Token)} (h : Doomed r)
    (r' : Stop → Result (α × List Token)) : Follow k r r' := .inr (.inr h)

theorem doomed_error (e : ExpressionError) : Doomed (.error e : Result (α × List Token)) :=
  .inl ⟨e, rfl⟩

theorem doomed_ok (a : α) {t : Token} (ht : starts t = true) (b : List Token) :
    Doomed (.ok (a, ending (t :: b))) := .inr ⟨a, t, b, ht, rfl⟩

theorem follow_error {k : Nat} (e : ExpressionError) (r' : Stop → Result (α × List Token)) :
    Follow k (.error e) r' := .doomed (doomed_error e) r'

theorem RefusedDeep.bind {r : Stop → Result α} (h : RefusedDeep r) (g : Stop → α → Result β) :
    RefusedDeep fun s => r s >>= g s := by
  intro s
  obtain ⟨l, hl⟩ := h s
  refine ⟨l, ?_⟩
  show (r s >>= g s) = _
  rw [hl]
  rfl

theorem Doomed.bind {r : Result (α × List Token)} {f : α × List Token → Result (β × List Token)}
    (h : Doomed r) (hf : ∀ a t b, starts t = true → Doomed (f (a, ending (t :: b)))) :
    Doomed (r >>= f) := by
  obtain ⟨e, rfl⟩ | ⟨a, t, b, ht, rfl⟩ := h
  · exact doomed_error e
  · exact hf a t b ht

/-- Runs that follow each other are continued by runs that do, if nothing comes of the
    first one in front of an operand. -/
theorem Follow.bind {k k' : Nat} {r : Result (α × List Token)}
    {r' : Stop → Result (α × List Token)} {f : α × List Token → Result (β × List Token)}
    {g : Stop → α × List Token → Result (β × List Token)} (h : Follow k r r')
    (hf : ∀ a b, b.length ≤ k → Follow k' (f (a, ending b)) fun s => g s (a, stopping s b))
    (hg : ∀ a t b, starts t = true → Doomed (f (a, ending (t :: b)))) :
    Follow k' (r >>= f) fun s => r' s >>= g s := by
  obtain h | ⟨a, b, hb, rfl, h⟩ | h := h
  · exact .inl (h.bind g)
  · simp only [h]
    exact hf a b hb
  · exact .doomed (h.bind hg) _

theorem Follows.deep (f : List Token → Result (α × List Token)) :
    Follows f fun _ => .error tooDeep := fun _ => .inl fun _ => ⟨maxExpressionDepth, rfl⟩

/-! ## Small steps of the parser -/

theorem ending_cons (t : Token) (b : List Token) : ending (t :: b) = t :: ending b := rfl

theorem stopping_cons (s : Stop) (t : Token) (b : List Token) :
    stopping s (t :: b) = t :: stopping s b := rfl

theorem length_le_stopping (s : Stop) (b : List Token) : b.length ≤ (stopping s b).length := by
  simp [stopping]

theorem expect_error {expected : Token} {ts : List Token} (h : current ts ≠ expected) :
    expect expected ts = .error (.unexpectedToken (current ts)) := if_neg h

/-- A token that starts no operand is not there in front of one. -/
theorem doomed_expect {expected t : Token} (he : starts expected = false) (ht : starts t = true)
    (b : List Token) (f : List Token → Result (β × List Token)) :
    Doomed (expect expected (ending (t :: b)) >>= f) := by
  have hne : current (ending (t :: b)) ≠ expected := by
    rintro rfl
    rw [show starts (current (ending (t :: b))) = true from ht] at he
    cases he
  rw [expect_error hne]
  exact doomed_error _

/-- All runs meet the same token, or the first the end. -/
theorem expect_follow {k : Nat} {expected : Token} (he : expected ≠ .eof) {b : List Token}
    {f : List Token → Result (β × List Token)} {g : Stop → List Token → Result (β × List Token)}
    (hf : ∀ b', b'.length < b.length → Follow k (f (ending b')) fun s => g s (stopping s b')) :
    Follow k (expect expected (ending b) >>= f)
      fun s => expect expected (stopping s b) >>= g s := by
  cases b with
  | nil =>
      have h1 : expect expected (ending []) = .error (.unexpectedToken .eof) := if_neg (Ne.symm he)
      rw [h1]
      exact follow_error _ _
  | cons t b =>
      by_cases ht : t = expected
      · have h1 : expect expected (ending (t :: b)) = .ok (ending b) := if_pos ht
        have h2 : ∀ s, expect expected (stopping s (t :: b)) = .ok (stopping s b) :=
          fun s => if_pos ht
        simp only [h1, h2]
        exact hf b (by simp)
      · have h1 : expect expected (ending (t :: b)) = .error (.unexpectedToken t) := if_neg ht
        rw [h1]
        exact follow_error _ _

/-- A computation that refuses at most for depth. -/
def OnlyDeep (x : Result α) : Prop := ∀ e, x = .error e → ∃ l, e = .tooDeep l

theorem onlyDeep_nodeDepth (d : Nat) : OnlyDeep (nodeDepth d) := by
  intro e h
  unfold nodeDepth at h
  split at h
  · cases h
    exact ⟨maxExpressionDepth, rfl⟩
  · cases h

theorem onlyDeep_nodeDepth_bind (d : Nat) (f : Nat → α) :
    OnlyDeep (nodeDepth d >>= fun depth => pure (f depth)) := by
  intro e h
  cases hd : nodeDepth d with
  | error e' =>
      obtain ⟨l, rfl⟩ := onlyDeep_nodeDepth d e' hd
      rw [hd] at h
      cases h
      exact ⟨l, rfl⟩
  | ok depth => rw [hd] at h; cases h

theorem onlyDeep_binary (op : BinaryOp) (l r : ParsedExpr N) : OnlyDeep (l.binary op r) :=
  onlyDeep_nodeDepth_bind _ _

theorem onlyDeep_index (base key : ParsedExpr N) : OnlyDeep (base.index key) :=
  onlyDeep_nodeDepth_bind _ _

theorem onlyDeep_pushPathSegment (base : ParsedExpr N) (segment : Text) :
    OnlyDeep (base.pushPathSegment segment) := by
  unfold ParsedExpr.pushPathSegment
  split
  · intro e h; cases h
  · intro e h; cases h
  · exact onlyDeep_nodeDepth_bind _ _

/-- A step that reads no token and refuses at most for depth. -/
theorem OnlyDeep.follow {k : Nat} {x : Result α} {f : α → Result (β × List Token)}
    {g : Stop → α → Result (β × List Token)} (hx : OnlyDeep x)
    (hf : ∀ a, Follow k (f a) fun s => g s a) : Follow k (x >>= f) fun s => x >>= g s := by
  cases x with
  | error e =>
      obtain ⟨l, rfl⟩ := hx e rfl
      exact .inl fun s => ⟨l, rfl⟩
  | ok a => exact hf a

theorem Doomed.step {x : Result α} {g : α → Result (β × List Token)} (hg : ∀ a, Doomed (g a)) :
    Doomed (x >>= g) := by
  cases x with
  | error e => exact doomed_error e
  | ok a => exact hg a

/-- A bracket is there in all runs or in none. -/
theorem current_rbracket (b : List Token) :
    (current (ending b) = .rbracket ↔ current b = .rbracket) ∧
      ∀ s, current (stopping s b) = .rbracket ↔ current b = .rbracket := by
  cases b with
  | nil =>
      refine ⟨Iff.rfl, fun s => ?_⟩
      show s.token = .rbracket ↔ Token.eof = .rbracket
      rcases s.closes with h | h <;> simp [h]
  | cons t b => exact ⟨Iff.rfl, fun _ => Iff.rfl⟩

/-- The keys all runs find in a bracket. -/
theorem literalKey_follow (b : List Token) :
    (literalKey (ending b) = none ∧ ∀ s, literalKey (stopping s b) = none) ∨
      ∃ key b', b'.length < b.length ∧ literalKey (ending b) = some (key, ending b') ∧
        ∀ s, literalKey (stopping s b) = some (key, stopping s b') := by
  cases b with
  | nil =>
      refine .inl ⟨rfl, fun s => ?_⟩
      show literalKey (s.token :: s.tail) = none
      rcases s.closes with h | h <;> rw [h] <;> rfl
  | cons t b =>
      cases t with
      | string key => exact .inr ⟨key, b, by simp, rfl, fun _ => rfl⟩
      | number n => exact .inr ⟨n, b, by simp, rfl, fun _ => rfl⟩
      | ident key =>
          obtain ⟨he, hs⟩ := current_rbracket b
          by_cases hb : current b = .rbracket
          · exact .inr ⟨key, b, by simp, if_pos (he.mpr hb), fun s => if_pos ((hs s).mpr hb)⟩
          · exact .inl ⟨if_neg (mt he.mp hb), fun s => if_neg (mt (hs s).mp hb)⟩
      | _ => exact .inl ⟨rfl, fun _ => rfl⟩

/-- The segments all runs find after a dot. -/
theorem dotSegment_follow (b : List Token) :
    (dotSegment (ending b) = none ∧ ∀ s, dotSegment (stopping s b) = none) ∨
      ∃ segment b', b'.length < b.length ∧ dotSegment (ending b) = some (segment, ending b') ∧
        ∀ s, dotSegment (stopping s b) = some (segment, stopping s b') := by
  cases b with
  | nil =>
      refine .inl ⟨rfl, fun s => ?_⟩
      show dotSegment (s.token :: s.tail) = none
      rcases s.closes with h | h <;> rw [h] <;> rfl
  | cons t b =>
      cases t with
      | ident segment => exact .inr ⟨segment, b, by simp, rfl, fun _ => rfl⟩
      | star => exact .inr ⟨"*".toList, b, by simp, rfl, fun _ => rfl⟩
      | _ => exact .inl ⟨rfl, fun _ => rfl⟩

/-- No stop starts an operand. -/
theorem starts_stopping {b : List Token} (h : starts (current b) = false) (s : Stop) :
    starts (current (stopping s b)) = false := by
  cases b with
  | nil =>
      show starts s.token = false
      rcases s.closes with hs | hs <;> rw [hs] <;> rfl
  | cons t b => exact h

/-! ## The loops -/

section Loops

variable {rec rec' : List Token → Result (Parsed N)}

/-- A parser that refuses everything no operand starts with: always for depth, or never. -/
def Refuses (f : List Token → Result (Parsed N)) : Prop :=
  (∀ ts, starts (current ts) = false → ∃ l, f ts = .error (.tooDeep l)) ∨
    ∀ ts, starts (current ts) = false → ∃ e, f ts = .error e ∧ ∀ l, e ≠ .tooDeep l

theorem Refuses.error {f : List Token → Result (Parsed N)} (h : Refuses f) {ts : List Token}
    (hts : starts (current ts) = false) : ∃ e, f ts = .error e := by
  obtain h | h := h
  · obtain ⟨l, hl⟩ := h ts hts
    exact ⟨_, hl⟩
  · obtain ⟨e, he, _⟩ := h ts hts
    exact ⟨e, he⟩

/-- A key of a bracket is the same in all runs, if it ends in the first. -/
theorem computedKey_follow (h : Follows rec rec') (b : List Token) :
    (RefusedDeep fun s => computedKey rec' (stopping s b)) ∨
      (∃ key b', b'.length ≤ b.length ∧ computedKey rec (ending b) = .ok (key, ending b') ∧
        ∀ s, computedKey rec' (stopping s b) = .ok (key, stopping s b')) ∨
      ∃ e, computedKey rec (ending b) = .error e := by
  unfold computedKey
  -- what the first run does inside the brackets, the nested runs do as well
  obtain h' | ⟨key, b', hb', h1, h2⟩ | ⟨e, h1⟩ | ⟨key, t, b', ht, h1⟩ := h b
  · exact .inl (h'.bind _)
  · simp only [h1, h2]
    cases b' with
    | nil => exact .inr (.inr ⟨_, rfl⟩)
    -- the bracket is closed by the next token in every run, or in none
    | cons t b' =>
        by_cases ht : t = .rbracket
        · subst ht
          exact .inr (.inl ⟨key, b', by simp only [List.length_cons] at hb'; omega, rfl,
            fun _ => rfl⟩)
        · have h3 : expect .rbracket (ending (t :: b')) = .error (.unexpectedToken t) :=
            expect_error ht
          refine .inr (.inr ⟨.unexpectedToken t, ?_⟩)
          show (expect .rbracket (ending (t :: b')) >>= _) = _
          rw [h3]
          rfl
  · rw [h1]
    exact .inr (.inr ⟨e, rfl⟩)
  · rw [h1]
    have hne : t ≠ .rbracket := by
      rintro rfl
      cases ht
    have h3 : expect .rbracket (ending (t :: b')) = .error (.unexpectedToken t) := expect_error hne
    refine .inr (.inr ⟨.unexpectedToken t, ?_⟩)
    show (expect .rbracket (ending (t :: b')) >>= _) = _
    rw [h3]
    rfl

/-- Fuel for a token more. -/
theorem exists_fuel {n' : Stop → Nat} (h : ∀ s, 0 < n' s) :
    ∃ j : Stop → Nat, n' = fun s => j s + 1 :=
  ⟨fun s => n' s - 1, funext fun s => (Nat.succ_pred_eq_of_pos (h s)).symm⟩

/-- A loop that returns at the stop, from one step of it: what is left after a step is shorter,
    so the fuel suffices. -/
theorem loop_follow {f f' : Nat → ParsedExpr N → List Token → Result (Parsed N)}
    (hend : ∀ n base, f n base (ending []) = .ok (base, ending []))
    (hstop : ∀ n base s, f' n base (stopping s []) = .ok (base, stopping s []))
    (hstep : ∀ n (n' : Stop → Nat) base t b,
      (∀ base b', b'.length ≤ b.length → Follow (t :: b).length (f n base (ending b'))
        fun s => f' (n' s) base (stopping s b')) →
      Follow (t :: b).length (f (n + 1) base (ending (t :: b)))
        fun s => f' (n' s + 1) base (stopping s (t :: b))) (n : Nat) :
    ∀ (n' : Stop → Nat) (base : ParsedExpr N) (b : List Token), b.length ≤ n →
      (∀ s, b.length ≤ n' s) → Follow b.length (f n base (ending b))
        fun s => f' (n' s) base (stopping s b) := by
  -- at the end of the tokens both loops have returned
  have hnil : ∀ n (n' : Stop → Nat) base, Follow 0 (f n base (ending []))
      fun s => f' (n' s) base (stopping s []) := by
    intro n n' base
    simp only [hend, hstop]
    exact follow_ok base (Nat.le_refl _)
  -- the induction is on the fuel, and every step leaves fewer tokens
  induction n with
  | zero =>
      intro n' base b hn hn'
      obtain rfl : b = [] := List.length_eq_zero_iff.mp (Nat.le_zero.mp hn)
      exact hnil 0 n' base
  | succ n ih =>
      intro n' base b hn hn'
      cases b with
      | nil => exact hnil (n + 1) n' base
      | cons t b =>
          obtain ⟨n', rfl⟩ := exists_fuel fun s => lt_of_lt_of_le (by simp) (hn' s)
          simp only [List.length_cons, Nat.add_le_add_iff_right] at hn hn'
          refine hstep n n' base t b fun base b' hb' => ?_
          exact (ih n' base b' (by omega) fun s => hb'.trans (hn' s)).mono
            (by simp only [List.length_cons]; omega)

/-- A loop that is at the stop returns. -/
theorem pathLoop_stop (n : Nat) (base : ParsedExpr N) (s : Stop) :
    pathLoop rec n base (stopping s []) = .ok (base, stopping s []) := by
  show pathLoop rec n base (s.token :: s.tail) = .ok (base, s.token :: s.tail)
  cases n with
  | zero => rfl
  | succ n => rcases s.closes with h | h <;> rw [h] <;> rfl

theorem pathLoop_follow (h : Follows rec rec') (n : Nat) :
    ∀ (n' : Stop → Nat) (base : ParsedExpr N) (b : List Token), b.length ≤ n →
      (∀ s, b.length ≤ n' s) → Follow b.length (pathLoop rec n base (ending b))
        fun s => pathLoop rec' (n' s) base (stopping s b) := by
  refine loop_follow (fun n base => by cases n <;> rfl) pathLoop_stop ?_ n
  intro n n' base t b hstep
  -- a dot, a bracket, or the end of the path
  cases t with
  | dot =>
      simp only [ending_cons, stopping_cons, pathLoop]
      obtain ⟨h1, h2⟩ | ⟨segment, b', hb', h1, h2⟩ := dotSegment_follow b
      · simp only [h1, h2]
        exact follow_error _ _
      · simp only [h1, h2]
        exact (onlyDeep_pushPathSegment base segment).follow fun base =>
          hstep base b' (by omega)
  | lbracket =>
      simp only [ending_cons, stopping_cons, pathLoop]
      obtain ⟨h1, h2⟩ | ⟨segment, b', hb', h1, h2⟩ := literalKey_follow b
      · simp only [h1, h2]
        obtain hk | ⟨key, b', hb', hk, hk'⟩ | ⟨e, hk⟩ := computedKey_follow h b
        · exact .inl (hk.bind _)
        · simp only [hk, hk']
          exact (onlyDeep_index base key).follow fun base => hstep base b' hb'
        · rw [hk]
          exact follow_error _ _
      · simp only [h1, h2]
        have hbracket : Token.rbracket ≠ .eof := by simp
        refine expect_follow hbracket fun b'' hb'' => ?_
        exact (onlyDeep_pushPathSegment base segment).follow fun base =>
          hstep base b'' (by omega)
  | _ => exact follow_ok base (Nat.le_refl _)

theorem orGiveUp_error {e : ExpressionError} (he : ∀ l, e ≠ .tooDeep l)
    (f : Parsed N → Result (Parsed N)) (before : Parsed N) :
    orGiveUp (.error e) f before = .ok before := by
  cases e with
  | tooDeep l => exact absurd rfl (he l)
  | _ => rfl

/-- A computed suffix. If the key fails alone, it is given up; that is the end of it if
    an operand stands there, and otherwise it fails in the nested runs as well. -/
theorem orGiveUp_follow (h : Follows rec rec') (hrec' : Refuses rec') (base : ParsedExpr N)
    (b : List Token) {k : Nat} (hk : b.length ≤ k) {f : Parsed N → Result (Parsed N)}
    {g : Stop → Parsed N → Result (Parsed N)}
    (hf : ∀ key b', b'.length ≤ b.length →
      Follow k (f (key, ending b')) fun s => g s (key, stopping s b')) :
    Follow k (orGiveUp (computedKey rec (ending b)) f (base, ending b))
      fun s => orGiveUp (computedKey rec' (stopping s b)) (g s) (base, stopping s b) := by
  -- the key fails for depth inside, or it is read by both runs, or it fails outside
  obtain hdeep | ⟨key, b', hb', h1, h2⟩ | ⟨e, h1⟩ := computedKey_follow h b
  · refine .inl fun s => ?_
    obtain ⟨l, hl⟩ := hdeep s
    refine ⟨l, ?_⟩
    show orGiveUp (computedKey rec' (stopping s b)) (g s) _ = _
    rw [show computedKey rec' (stopping s b) = _ from hl]
    rfl
  · simp only [h1, h2]
    exact hf key b' hb'
  · rw [h1]
    by_cases he : ∃ l, e = .tooDeep l
    · obtain ⟨l, rfl⟩ := he
      exact follow_error _ _
    · rw [orGiveUp_error fun l hl => he ⟨l, hl⟩]
      by_cases hstart : starts (current b) = true
      · cases b with
        | nil => cases hstart
        | cons t b => exact .doomed (doomed_ok base hstart b) _
      -- the nested run stops where the outer one stands, so it fails or gives up there
      · have hcurrent := starts_stopping (Bool.eq_false_iff.mpr hstart)
        obtain hrec' | hrec' := hrec'
        · refine .inl fun s => ?_
          obtain ⟨l, hl⟩ := hrec' _ (hcurrent s)
          refine ⟨l, ?_⟩
          show orGiveUp (rec' (stopping s b) >>= _) (g s) _ = _
          rw [hl]
          rfl
        · have hgiven : ∀ s, orGiveUp (computedKey rec' (stopping s b)) (g s) (base, stopping s b) =
              .ok (base, stopping s b) := by
            intro s
            obtain ⟨e', he', hshallow⟩ := hrec' _ (hcurrent s)
            have hkey : computedKey rec' (stopping s b) = .error e' := by
              unfold computedKey
              rw [he']
              rfl
            rw [hkey, orGiveUp_error hshallow]
          simp only [hgiven]
          exact follow_ok base hk

theorem parseMemberSuffix_stop (n : Nat) (base : ParsedExpr N) (s : Stop) :
    parseMemberSuffix rec n base (stopping s []) = .ok (base, stopping s []) := by
  show parseMemberSuffix rec n base (s.token :: s.tail) = .ok (base, s.token :: s.tail)
  cases n with
  | zero => rfl
  | succ n => rcases s.closes with h | h <;> rw [h] <;> rfl

theorem parseMemberSuffix_follow (h : Follows rec rec') (hrec' : Refuses rec') (n : Nat) :
    ∀ (n' : Stop → Nat) (base : ParsedExpr N) (b : List Token), b.length ≤ n →
      (∀ s, b.length ≤ n' s) → Follow b.length (parseMemberSuffix rec n base (ending b))
        fun s => parseMemberSuffix rec' (n' s) base (stopping s b) := by
  refine loop_follow (fun n base => by cases n <;> rfl) parseMemberSuffix_stop ?_ n
  intro n n' base t b hstep
  -- a dot, a bracket, or no suffix; what cannot be read is given up
  cases t with
  | dot =>
      simp only [ending_cons, stopping_cons, parseMemberSuffix]
      obtain ⟨h1, h2⟩ | ⟨segment, b', hb', h1, h2⟩ := dotSegment_follow b
      · simp only [h1, h2]
        exact follow_ok base (by simp)
      · simp only [h1, h2]
        exact (onlyDeep_pushPathSegment base segment).follow fun base =>
          hstep base b' (by omega)
  | lbracket =>
      simp only [ending_cons, stopping_cons, parseMemberSuffix]
      obtain ⟨h1, h2⟩ | ⟨segment, b', hb', h1, h2⟩ := literalKey_follow b
      · simp only [h1, h2]
        refine orGiveUp_follow h hrec' base b (by simp) fun key b' hb' => ?_
        exact (onlyDeep_index base key).follow fun base => hstep base b' hb'
      · simp only [h1, h2]
        obtain ⟨he, hs⟩ := current_rbracket b'
        by_cases hb : current b' = .rbracket
        · simp only [he, hs, hb, ↓reduceIte]
          cases b' with
          | nil => cases hb
          | cons u b' =>
              simp only [List.length_cons] at hb'
              exact (onlyDeep_pushPathSegment base segment).follow fun base =>
                hstep base b' (by omega)
        · simp only [he, hs, hb, ↓reduceIte]
          exact follow_ok base (by simp only [List.length_cons]; omega)
  | _ => exact follow_ok base (Nat.le_refl _)

/-- The arguments of a call and what follows them. A call is not over at the end, and
    not in front of an operand. -/
theorem callArgs_follow (h : Follows rec rec') {k : Nat} (n : Nat) :
    ∀ (n' : Stop → Nat) (b : List Token)
      {f : (List (Expr N) × Nat) × List Token → Result (β × List Token)}
      {g : Stop → (List (Expr N) × Nat) × List Token → Result (β × List Token)},
      b.length < n → (∀ s, b.length < n' s) →
      (∀ args b', b'.length ≤ b.length → b' ≠ [] →
        Follow k (f (args, ending b')) fun s => g s (args, stopping s b')) →
      (∀ args, Doomed (f (args, ending []))) →
      (∀ args t b', starts t = true → Doomed (f (args, ending (t :: b')))) →
      Follow k (callArgs rec n (ending b) >>= f) fun s => callArgs rec' (n' s) (stopping s b) >>=
        g s := by
  induction n with
  | zero =>
      intro n' b f g hn hn'
      omega
  | succ n ih =>
      intro n' b f g hn hn' hf hend hstart
      -- fuel is a bound on the tokens: both runs have enough for what is left
      obtain ⟨n', rfl⟩ := exists_fuel fun s => lt_of_le_of_lt (Nat.zero_le _) (hn' s)
      simp only [callArgs, bind_assoc]
      refine (h b).bind (fun arg b' hb' => ?_) fun arg t b' ht => ?_
      · cases b' with
        -- nothing is left: the list of arguments stays open, which ends in an error
        | nil =>
            have hb : ¬ current (ending []) = .comma := by simp [ending, current]
            simp only [if_neg hb]
            exact .doomed (hend _) _
        | cons t b' =>
            simp only [List.length_cons] at hb'
            by_cases ht : t = .comma
            · subst ht
              have h1 : current (ending (.comma :: b')) = .comma := rfl
              have h2 : ∀ s, current (stopping s (.comma :: b')) = .comma := fun _ => rfl
              simp only [if_pos h1, if_pos (h2 _), bind_assoc]
              have hfuel : ∀ s, b'.length < n' s := fun s =>
                Nat.lt_of_succ_lt_succ (lt_of_le_of_lt hb' (hn' s))
              exact ih n' b' (by omega) hfuel (fun args b'' hb'' => hf _ b'' (by omega))
                (fun args => hend _) fun args t b'' ht => hstart _ t b'' ht
            · have h1 : ¬ current (ending (t :: b')) = .comma := ht
              -- no comma: what follows belongs to the caller
              have h2 : ∀ s, ¬ current (stopping s (t :: b')) = .comma := fun _ => ht
              simp only [if_neg h1, if_neg (h2 _)]
              exact hf _ (t :: b') (by simp only [List.length_cons]; omega) (by simp)
      · -- an operand is no comma
        have hne : ¬ current (ending (t :: b')) = .comma := by
          intro hcomma
          rw [show t = .comma from hcomma] at ht
          cases ht
        simp only [if_neg hne]
        exact hstart _ t b' ht

theorem parseIdentOrCall_follow (h : Follows rec rec') (hrec : Refuses rec)
    (hrec' : Refuses rec') (name : Text) (b : List Token) :
    Follow b.length (parseIdentOrCall rec name (ending b))
      fun s => parseIdentOrCall rec' name (stopping s b) := by
  have hpath : Follow b.length
      (pathLoop rec (ending b).length (.leaf (.path [name])) (ending b))
      fun s => pathLoop rec' (stopping s b).length (.leaf (.path [name])) (stopping s b) :=
    pathLoop_follow h _ _ _ b (by simp [ending]) fun s => length_le_stopping s b
  cases b with
  | nil =>
      have hcall : ∀ s, parseIdentOrCall rec' name (stopping s []) =
          pathLoop rec' (stopping s []).length (.leaf (.path [name])) (stopping s []) := by
        intro s
        show parseIdentOrCall rec' name (s.token :: s.tail) =
          pathLoop rec' (s.token :: s.tail).length (.leaf (.path [name])) (s.token :: s.tail)
        rcases s.closes with hs | hs <;> rw [hs] <;> rfl
      simp only [hcall]
      exact hpath
  | cons t b =>
      cases t with
      | lparen =>
          have htail : ∀ (args : List (Expr N) × Nat) (b' : List Token), b'.length ≤ b.length →
              Follow (Token.lparen :: b).length
                (do
                  let depth ← nodeDepth args.2
                  parseMemberSuffix rec (ending b').length ⟨.call name args.1, depth⟩ (ending b'))
                fun s => (do
                  let depth ← nodeDepth args.2
                  parseMemberSuffix rec' (stopping s b').length ⟨.call name args.1, depth⟩
                    (stopping s b')) := by
            intro args b' hb'
            refine (onlyDeep_nodeDepth args.2).follow fun depth => ?_
            refine (parseMemberSuffix_follow h hrec' _ _ _ b' (by simp [ending])
              fun s => length_le_stopping s b').mono ?_
            simp only [List.length_cons]
            omega
          -- the parenthesis that ends the arguments, and what follows the call
          have hclose : ∀ (args : List (Expr N) × Nat) (b' : List Token), b'.length ≤ b.length →
              Follow (Token.lparen :: b).length
                (do
                  let ts ← expect .rparen (ending b')
                  let depth ← nodeDepth args.2
                  parseMemberSuffix rec ts.length ⟨.call name args.1, depth⟩ ts)
                fun s => (do
                  let ts ← expect .rparen (stopping s b')
                  let depth ← nodeDepth args.2
                  parseMemberSuffix rec' ts.length ⟨.call name args.1, depth⟩ ts) := by
            intro args b' hb'
            have hparen : Token.rparen ≠ .eof := by simp
            exact expect_follow hparen fun b'' hb'' => htail args b'' (by omega)
          show Follow _ (parseArgs rec (ending b) >>= _) fun s =>
            parseArgs rec' (stopping s b) >>= _
          cases b with
          | nil =>
              -- the call is cut off; nested, a parenthesis closes it and a comma goes on
              obtain ⟨e, he⟩ := @Refuses.error _ rec hrec [.eof] rfl
              have h1 : parseArgs rec (ending []) = .error e := by
                show (rec [.eof] >>= _) = _
                rw [he]
                rfl
              rw [h1]
              exact follow_error _ _
          | cons u b =>
              unfold parseArgs
              by_cases hu : u = .rparen
              · subst hu
                exact hclose ([], 0) (.rparen :: b) (Nat.le_refl _)
              · have h1 : ¬ current (ending (u :: b)) = .rparen := hu
                have h2 : ∀ s, ¬ current (stopping s (u :: b)) = .rparen := fun _ => hu
                simp only [if_neg h1, if_neg (h2 _)]
                refine callArgs_follow h _ _ (u :: b) (by simp [ending])
                  (fun s => by simp [stopping]) (fun args b' hb' _ => hclose args b' hb')
                  (fun args => doomed_error _) fun args t b' ht => doomed_expect rfl ht b' _
      | _ => exact hpath

theorem parsePrimary_follow (num : Text → Option N) (h : Follows rec rec') (hrec : Refuses rec)
    (hrec' : Refuses rec') : Follows (parsePrimary num rec) (parsePrimary num rec') := by
  intro b
  cases b with
  | nil => exact follow_error _ _
  | cons t b =>
      cases t with
      | string s => exact follow_ok _ (by simp)
      | number digits => exact follow_ok _ (by simp)
      | bool v => exact follow_ok _ (by simp)
      | null => exact follow_ok _ (by simp)
      | ident name => exact (parseIdentOrCall_follow h hrec hrec' name b).mono (by simp)
      | lparen =>
          refine (h b).bind (fun e b' hb' => ?_) fun e t b' ht => ?_
          · have hparen : Token.rparen ≠ .eof := by simp
            refine expect_follow hparen fun b'' hb'' => ?_
            exact follow_ok e (by simp only [List.length_cons]; omega)
          · exact doomed_expect rfl ht b' _
      | _ => exact follow_error _ _

/-- The operator is no end, no stop and no operand. -/
def IsOperator (op : Token → Option BinaryOp) : Prop :=
  op .eof = none ∧ (op .rparen = none ∧ op .comma = none) ∧ ∀ t, starts t = true → op t = none

theorem IsOperator.stop {op : Token → Option BinaryOp} (hop : IsOperator op) (s : Stop) :
    op s.token = none := by
  rcases s.closes with hs | hs
  · rw [hs]
    exact hop.2.1.1
  · rw [hs]
    exact hop.2.1.2

/-- A loop over operators stops where there is none. -/
theorem binaryLoop_stop {op : Token → Option BinaryOp} {ts : List Token}
    (h : op (current ts) = none) (n : Nat) (e : ParsedExpr N) :
    binaryLoop op rec n e ts = .ok (e, ts) := by
  cases n with
  | zero => rfl
  | succ n =>
      unfold binaryLoop
      simp only [h]

theorem binaryLoop_follow {op : Token → Option BinaryOp} (hop : IsOperator op)
    (h : Follows rec rec') (n : Nat) :
    ∀ (n' : Stop → Nat) (e : ParsedExpr N) (b : List Token), b.length ≤ n →
      (∀ s, b.length ≤ n' s) → Follow b.length (binaryLoop op rec n e (ending b))
        fun s => binaryLoop op rec' (n' s) e (stopping s b) := by
  have hnil : ∀ n (n' : Stop → Nat) (e : ParsedExpr N),
      Follow 0 (binaryLoop op rec n e (ending []))
        fun s => binaryLoop op rec' (n' s) e (stopping s []) := by
    intro n n' e
    have h1 : binaryLoop op rec n e (ending []) = .ok (e, ending []) := binaryLoop_stop hop.1 n e
    have h2 : ∀ s, binaryLoop op rec' (n' s) e (stopping s []) = .ok (e, stopping s []) :=
      fun s => binaryLoop_stop (hop.stop s) (n' s) e
    simp only [h1, h2]
    exact follow_ok e (Nat.le_refl _)
  induction n with
  | zero =>
      intro n' e b hn hn'
      obtain rfl : b = [] := List.length_eq_zero_iff.mp (Nat.le_zero.mp hn)
      exact hnil 0 n' e
  | succ n ih =>
      intro n' e b hn hn'
      cases b with
      | nil => exact hnil (n + 1) n' e
      | cons t b =>
          obtain ⟨n', rfl⟩ := exists_fuel fun s => lt_of_lt_of_le (by simp) (hn' s)
          simp only [List.length_cons, Nat.add_le_add_iff_right] at hn hn'
          simp only [ending_cons, stopping_cons, binaryLoop, current, List.tail_cons]
          -- no operator of this level stands here
          cases op t with
          | none => exact follow_ok (b := t :: b) e (Nat.le_refl _)
          | some o =>
              refine (h b).bind (fun right b' hb' => ?_) fun right t b' ht => ?_
              · refine (onlyDeep_binary o e right).follow fun e => ?_
                exact (ih n' e b' (by omega) fun s => hb'.trans (hn' s)).mono
                  -- an operand may be missing at the end only
                  (by simp only [List.length_cons]; omega)
              · refine Doomed.step fun e => ?_
                rw [binaryLoop_stop (hop.2.2 t ht)]
                exact doomed_ok e ht b'

theorem parseBinary_follow {op : Token → Option BinaryOp} (hop : IsOperator op)
    (h : Follows rec rec') : Follows (parseBinary op rec) (parseBinary op rec') := by
  intro b
  refine (h b).bind (fun e b' hb' => ?_) fun e t b' ht => ?_
  · exact (binaryLoop_follow hop h _ _ e b' (by simp [ending])
      fun s => length_le_stopping s b').mono hb'
  · show Doomed (binaryLoop op rec _ e (ending (t :: b')))
    rw [binaryLoop_stop (hop.2.2 t ht)]
    exact doomed_ok e ht b'

theorem isOperator_comparison : IsOperator comparison :=
  ⟨rfl, ⟨rfl, rfl⟩, fun t ht => by cases t <;> first | rfl | cases ht⟩
theorem isOperator_conjunction : IsOperator conjunction :=
  ⟨rfl, ⟨rfl, rfl⟩, fun t ht => by cases t <;> first | rfl | cases ht⟩
theorem isOperator_disjunction : IsOperator disjunction :=
  ⟨rfl, ⟨rfl, rfl⟩, fun t ht => by cases t <;> first | rfl | cases ht⟩

theorem parseOr_follow (h : Follows rec rec') : Follows (parseOr rec) (parseOr rec') :=
  parseBinary_follow isOperator_disjunction
    (parseBinary_follow isOperator_conjunction (parseBinary_follow isOperator_comparison h))

theorem unaryWith_follow (num : Text → Option N) {deeper deeper' : List Token → Result (Parsed N)}
    (hd : Follows deeper deeper') (h : Follows rec rec') (hrec : Refuses rec)
    (hrec' : Refuses rec') : Follows (unaryWith num deeper rec) (unaryWith num deeper' rec') := by
  intro b
  have hprimary := parsePrimary_follow num h hrec hrec' b
  cases b with
  | nil => exact follow_error _ _
  | cons t b =>
      cases t with
      | bang =>
          refine (hd b).bind (fun inner b' hb' => ?_) fun inner t b' ht => ?_
          · refine (onlyDeep_nodeDepth inner.depth).follow fun depth => ?_
            exact follow_ok _ (by simp only [List.length_cons]; omega)
          · exact Doomed.step fun depth => doomed_ok _ ht b'
      | _ => exact hprimary

/-! ## What is refused -/

theorem refuses_error (e : ExpressionError) :
    Refuses (fun _ => .error e : List Token → Result (Parsed N)) := by
  by_cases he : ∃ l, e = .tooDeep l
  · obtain ⟨l, rfl⟩ := he
    exact .inl fun _ _ => ⟨l, rfl⟩
  · exact .inr fun _ _ => ⟨e, rfl, fun l hl => he ⟨l, hl⟩⟩

theorem refuses_unaryWith (num : Text → Option N) (deeper rec : List Token → Result (Parsed N)) :
    Refuses (unaryWith num deeper rec) := by
  refine .inr fun ts hts => ?_
  cases ts with
  | nil => exact ⟨.eof, rfl, fun _ => by simp⟩
  | cons t ts => cases t <;> first | exact ⟨_, rfl, fun _ => by simp⟩ | cases hts

theorem refuses_parseBinary {op : Token → Option BinaryOp}
    {operand : List Token → Result (Parsed N)}
    (h : Refuses operand) : Refuses (parseBinary op operand) := by
  have hbinary : ∀ ts e, operand ts = .error e → parseBinary op operand ts = .error e := by
    intro ts e he
    unfold parseBinary
    rw [he]
    rfl
  obtain h | h := h
  · refine .inl fun ts hts => ?_
    obtain ⟨l, hl⟩ := h ts hts
    exact ⟨l, hbinary ts _ hl⟩
  · refine .inr fun ts hts => ?_
    obtain ⟨e, he, hshallow⟩ := h ts hts
    exact ⟨e, hbinary ts e he, hshallow⟩

theorem refuses_parseUnary (num : Text → Option N) (left : Nat) :
    Refuses (parseUnary num left) := by
  cases left with
  | zero => exact refuses_unaryWith num _ _
  | succ left => exact refuses_unaryWith num _ _

theorem refuses_parseOr {unary : List Token → Result (Parsed N)} (h : Refuses unary) :
    Refuses (parseOr unary) :=
  refuses_parseBinary (refuses_parseBinary (refuses_parseBinary h))

end Loops

/-! ## Nested conditions -/

section Nested

variable {num : Text → Option N}

/-- The parser follows itself with fewer levels. -/
theorem parseUnary_follows (num : Text → Option N) {left : Nat} :
    ∀ {left' : Nat}, left < left' → Follows (parseUnary num left') (parseUnary num left) := by
  induction left with
  | zero =>
      intro left' h
      obtain ⟨more, rfl⟩ := Nat.exists_eq_add_of_lt h
      exact unaryWith_follow num (.deep _) (.deep _) (refuses_parseOr (refuses_parseUnary num _))
        (refuses_error _)
  | succ left ih =>
      intro left' h
      obtain ⟨left', rfl⟩ : ∃ j, left' = j + 1 := ⟨left' - 1, by omega⟩
      have hless := ih (Nat.lt_of_succ_lt_succ h)
      exact unaryWith_follow num hless (parseOr_follow hless)
        (refuses_parseOr (refuses_parseUnary num left'))
        (refuses_parseOr (refuses_parseUnary num left))

theorem parseTrackedExpr_follows (num : Text → Option N) {left left' : Nat} (h : left < left') :
    Follows (parseTrackedExpr num left') (parseTrackedExpr num left) := by
  cases left with
  | zero => exact .deep _
  | succ left =>
      obtain ⟨left', rfl⟩ : ∃ j, left' = j + 1 := ⟨left' - 1, by omega⟩
      exact parseOr_follow (parseUnary_follows num (Nat.lt_of_succ_lt_succ h))

/-- A parse that ends at the end has read everything before it. -/
theorem parse_whole {left : Nat} {body rest : List Token} {p : ParsedExpr N}
    (h : parseTrackedExpr num left (ending body) = .ok (p, rest)) (hrest : current rest = .eof)
    (hbody : Token.eof ∉ body) : rest = [.eof] := by
  cases left with
  | zero => cases h
  | succ left =>
      obtain ⟨used, hused, hend, _⟩ :=
        parses_consumes (parseOr_parses (parseUnary_parses left) _ _ _ h)
      have hbefore : beforeEnd (ending body) = used := by
        rw [hused, beforeEnd_append hend hrest]
      rw [ending, beforeEnd_append hbody rfl] at hbefore
      rw [← hbefore, ending, List.append_cancel_left_eq] at hused
      exact hused.symm

/-- A condition in front of a stop, with fewer levels left: it keeps its tree, or it is
    refused for depth, whatever the stop is. -/
theorem parse_nested {left left' : Nat} {body : List Token} {p : ParsedExpr N}
    (h : parseTrackedExpr num left' (ending body) = .ok (p, [.eof])) (hleft : left < left') :
    (∀ s, parseTrackedExpr num left (stopping s body) = .ok (p, stopping s [])) ∨
      RefusedDeep fun s => parseTrackedExpr num left (stopping s body) := by
  have hfollow := parseTrackedExpr_follows num hleft body
  rw [h] at hfollow
  obtain hl | ⟨q, b, _, hq, hl⟩ | ⟨e, he⟩ | ⟨q, t, b, _, hq⟩ := hfollow
  · exact .inr hl
  · cases b with
    | nil =>
        cases hq
        exact .inl hl
    | cons t b => simp [ending] at hq
  · cases he
  · simp [ending] at hq

/-- A condition between parentheses, with fewer levels left: it keeps its tree, or it is
    refused for depth. -/
theorem parse_enclosed {left left' : Nat} {body : List Token} {p : ParsedExpr N}
    (h : parseTrackedExpr num left' (ending body) = .ok (p, [.eof])) (hleft : left < left')
    (tail : List Token) :
    parseTrackedExpr num left (closing tail body) = .ok (p, .rparen :: tail) ∨
      ∃ l, parseTrackedExpr num left (closing tail body) = .error (.tooDeep l) := by
  obtain hp | hp := parse_nested h hleft
  · exact .inl (hp ⟨.rparen, tail, .inl rfl⟩)
  · exact .inr (hp ⟨.rparen, tail, .inl rfl⟩)

/-- The parenthesised condition as an operand. -/
theorem parseUnary_enclosed {left left' : Nat} {body : List Token} {p : ParsedExpr N}
    (h : parseTrackedExpr num left' (ending body) = .ok (p, [.eof])) (hleft : left + 1 < left')
    (tail : List Token) :
    parseUnary num (left + 1) (.lparen :: closing tail body) = .ok (p, tail) ∨
      ∃ l, parseUnary num (left + 1) (.lparen :: closing tail body) = .error (.tooDeep l) := by
  have hunfold : parseUnary num (left + 1) (.lparen :: closing tail body) = (do
      let p ← parseTrackedExpr num (left + 1) (closing tail body)
      let rest ← expect .rparen p.2
      return (p.1, rest)) := rfl
  rw [hunfold]
  obtain hp | ⟨l, hp⟩ := parse_enclosed h hleft tail
  · exact .inl (by rw [hp]; rfl)
  · exact .inr ⟨l, by rw [hp]; rfl⟩

/-! ## Conjunctions -/

/-- Two operands and a conjunction between them. -/
theorem parseOr_conjunction {unary : List Token → Result (Parsed N)} {ts ts' rest : List Token}
    {p q : ParsedExpr N} (hp : unary ts = .ok (p, .and :: ts')) (hq : unary ts' = .ok (q, rest))
    (hrest : current rest = .eof ∨ current rest = .rparen) :
    parseOr unary ts = (ParsedExpr.binary .and p q).map fun e => (e, rest) := by
  -- in front of the end and of a closing parenthesis no level goes on
  have hstop {op : Token → Option BinaryOp} (hop : IsOperator op) : op (current rest) = none := by
    rcases hrest with hrest | hrest
    · rw [hrest]
      exact hop.1
    · rw [hrest]
      exact hop.2.1.1
  have hleft : parseEq unary ts = .ok (p, .and :: ts') := by
    unfold parseEq parseBinary
    rw [hp]
    exact binaryLoop_stop rfl _ p
  have hright : parseEq unary ts' = .ok (q, rest) := by
    unfold parseEq parseBinary
    rw [hq]
    exact binaryLoop_stop (hstop isOperator_comparison) _ q
  have hand : parseAnd unary ts = (ParsedExpr.binary .and p q).map fun e => (e, rest) := by
    unfold parseAnd parseBinary
    rw [hleft]
    show (parseEq unary ts' >>= _) = _
    rw [hright]
    show (ParsedExpr.binary .and p q >>= _) = _
    cases ParsedExpr.binary .and p q with
    | error e => rfl
    | ok e => exact binaryLoop_stop (hstop isOperator_conjunction) _ e
  unfold parseOr parseBinary
  rw [hand]
  cases ParsedExpr.binary .and p q with
  | error e => rfl
  | ok e => exact binaryLoop_stop (hstop isOperator_disjunction) _ e

theorem parseOr_error {unary : List Token → Result (Parsed N)} {ts : List Token}
    {e : ExpressionError} (h : unary ts = .error e) : parseOr unary ts = .error e := by
  unfold parseOr parseAnd parseEq parseBinary
  rw [h]
  rfl

/-- The right operand fails. -/
theorem parseOr_conjunction_error {unary : List Token → Result (Parsed N)} {ts ts' : List Token}
    {p : ParsedExpr N} {e : ExpressionError} (hp : unary ts = .ok (p, .and :: ts'))
    (hq : unary ts' = .error e) : parseOr unary ts = .error e := by
  have hleft : parseEq unary ts = .ok (p, .and :: ts') := by
    unfold parseEq parseBinary
    rw [hp]
    exact binaryLoop_stop rfl _ p
  unfold parseOr parseBinary
  have hand : parseAnd unary ts = .error e := by
    unfold parseAnd parseBinary
    rw [hleft]
    show (parseEq unary ts' >>= _) = _
    unfold parseEq parseBinary
    rw [hq]
    rfl
  rw [hand]
  rfl

/-- Two operands, the second one up to the end. -/
theorem parse_conjunction {left : Nat} {ts ts' rest : List Token} {p q : ParsedExpr N}
    (hp : parseUnary num left ts = .ok (p, .and :: ts'))
    (hq : parseUnary num left ts' = .ok (q, rest) ∨
      ∃ l, parseUnary num left ts' = .error (.tooDeep l))
    (hrest : current rest = .eof ∨ current rest = .rparen) :
    (∃ d, parseTrackedExpr num (left + 1) ts = .ok (⟨.binary .and p.expr q.expr, d⟩, rest)) ∨
      ∃ l, parseTrackedExpr num (left + 1) ts = .error (.tooDeep l) := by
  show (∃ d, parseOr (parseUnary num left) ts = _) ∨ ∃ l, parseOr (parseUnary num left) ts = _
  obtain hq | ⟨l, hq⟩ := hq
  · rw [parseOr_conjunction hp hq hrest]
    unfold ParsedExpr.binary nodeDepth
    split
    · exact .inr ⟨_, rfl⟩
    · exact .inl ⟨_, rfl⟩
  · exact .inr ⟨l, parseOr_conjunction_error hp hq⟩

/-- Two conditions between parentheses, with a conjunction between them. -/
theorem parse_pair {left : Nat} (hleft : left + 1 < maxExpressionDepth) {a b : List Token}
    {p q : ParsedExpr N}
    (hp : parseTrackedExpr num maxExpressionDepth (ending a) = .ok (p, [.eof]))
    (hq : parseTrackedExpr num maxExpressionDepth (ending b) = .ok (q, [.eof]))
    {tail : List Token} (htail : current tail = .eof ∨ current tail = .rparen) :
    (∃ d, parseTrackedExpr num (left + 2)
      (.lparen :: closing (.and :: .lparen :: closing tail b) a) =
        .ok (⟨.binary .and p.expr q.expr, d⟩, tail)) ∨
      ∃ l, parseTrackedExpr num (left + 2)
        (.lparen :: closing (.and :: .lparen :: closing tail b) a) = .error (.tooDeep l) := by
  obtain hfirst | ⟨l, hfirst⟩ :=
    parseUnary_enclosed hp hleft (.and :: .lparen :: closing tail b)
  · exact parse_conjunction hfirst (parseUnary_enclosed hq hleft tail) htail
  · exact .inr ⟨l, parseOr_error hfirst⟩

/-- A condition that parses has read all its tokens. -/
theorem parseTracked_of_parseTokens {body : List Token} {e : Expr N} (hbody : Token.eof ∉ body)
    (h : parseTokens num (ending body) = .ok e) :
    ∃ p, parseTrackedExpr num maxExpressionDepth (ending body) = .ok (p, [.eof]) ∧ p.expr = e := by
  obtain ⟨⟨p, rest⟩, hp, h⟩ := bind_eq_ok h
  have hrest : current rest = .eof := by
    by_contra hne
    simp only [if_neg hne] at h
    cases h
  simp only [if_pos hrest] at h
  cases h
  rw [parse_whole hp hrest hbody] at hp
  exact ⟨p, hp, rfl⟩

/-- The end check on a parse of all tokens, or on one that is too deep. -/
theorem parseTokens_cases {ts : List Token} {e : Expr N}
    (h : (∃ d, parseTrackedExpr num maxExpressionDepth ts = .ok (⟨e, d⟩, [.eof])) ∨
      ∃ l, parseTrackedExpr num maxExpressionDepth ts = .error (.tooDeep l)) :
    parseTokens num ts = .ok e ∨ ∃ l, parseTokens num ts = .error (.tooDeep l) := by
  unfold parseTokens
  obtain ⟨d, hd⟩ | ⟨l, hl⟩ := h
  · exact .inl (by rw [hd]; rfl)
  · exact .inr ⟨l, by rw [hl]; rfl⟩

/-- Two conditions put together keep their trees, unless that is too deep. -/
theorem parseTokens_pair {a b : List Token} {l r : Expr N} (ha : Token.eof ∉ a)
    (hb : Token.eof ∉ b) (hl : parseTokens num (ending a) = .ok l)
    (hr : parseTokens num (ending b) = .ok r) :
    parseTokens num (.lparen :: closing (.and :: .lparen :: closing [.eof] b) a) =
        .ok (.binary .and l r) ∨
      ∃ d, parseTokens num (.lparen :: closing (.and :: .lparen :: closing [.eof] b) a) =
        .error (.tooDeep d) := by
  obtain ⟨p, hp, rfl⟩ := parseTracked_of_parseTokens ha hl
  obtain ⟨q, hq, rfl⟩ := parseTracked_of_parseTokens hb hr
  have hleft : 126 + 1 < maxExpressionDepth := by decide
  exact parseTokens_cases (parse_pair hleft hp hq (.inl rfl))

end Nested

/-! ## The gate -/

/-- The tokens of `success() && (`. -/
def gateTokens : List Token := [.ident "success".toList, .lparen, .rparen, .and, .lparen]

/-- The tree of `success()`. -/
def successCall : Expr N := .call "success".toList []

theorem parseUnary_success (num : Text → Option N) (left : Nat) (ts : List Token) :
    parseUnary num (left + 1) (gateTokens ++ ts) =
      .ok (⟨successCall, 1⟩, .and :: .lparen :: ts) := by
  rfl

/-- In front of a condition that parses, the gate parses to a conjunction, unless
    that is too deep. -/
theorem parseTokens_gated {num : Text → Option N} {body : List Token} {e : Expr N}
    (hbody : Token.eof ∉ body) (h : parseTokens num (ending body) = .ok e) :
    parseTokens num (gateTokens ++ closing [.eof] body) = .ok (.binary .and successCall e) ∨
      ∃ l, parseTokens num (gateTokens ++ closing [.eof] body) = .error (.tooDeep l) := by
  obtain ⟨p, hp, rfl⟩ := parseTracked_of_parseTokens hbody h
  have hleft : 126 + 1 < maxExpressionDepth := by decide
  exact parseTokens_cases (parse_conjunction (parseUnary_success num 126 (closing [.eof] body))
    (parseUnary_enclosed hp hleft [.eof]) (.inl rfl))

/-- The right operand of the gate. -/
theorem parseUnary_gated (num : Text → Option N) (ts : List Token) :
    parseUnary num 127 (.lparen :: ts) = (do
      let p ← parseTrackedExpr num 127 ts
      let rest ← expect .rparen p.2
      return (p.1, rest)) := rfl

/-- So it does in front of two conditions put together. -/
theorem parseTokens_gated_pair {num : Text → Option N} {a b : List Token} {l r : Expr N}
    (ha : Token.eof ∉ a) (hb : Token.eof ∉ b) (hl : parseTokens num (ending a) = .ok l)
    (hr : parseTokens num (ending b) = .ok r) :
    parseTokens num (gateTokens ++ .lparen ::
        closing (.and :: .lparen :: closing [.rparen, .eof] b) a) =
          .ok (.binary .and successCall (.binary .and l r)) ∨
      ∃ d, parseTokens num (gateTokens ++ .lparen ::
        closing (.and :: .lparen :: closing [.rparen, .eof] b) a) = .error (.tooDeep d) := by
  obtain ⟨p, hp, rfl⟩ := parseTracked_of_parseTokens ha hl
  obtain ⟨q, hq, rfl⟩ := parseTracked_of_parseTokens hb hr
  have hleft : 125 + 1 < maxExpressionDepth := by decide
  have htail : current [.rparen, .eof] = .eof ∨ current [.rparen, .eof] = .rparen := .inr rfl
  -- the pair is within the ceiling, or it is too deep inside the parentheses
  obtain ⟨d, hd⟩ | ⟨d, hd⟩ := parse_pair hleft hp hq htail
  · have hright : parseUnary num 127
        (.lparen :: .lparen :: closing (.and :: .lparen :: closing [.rparen, .eof] b) a) =
          .ok (⟨.binary .and p.expr q.expr, d⟩, [.eof]) := by
      rw [parseUnary_gated, hd]
      rfl
    exact parseTokens_cases
      (parse_conjunction (parseUnary_success num 126 _) (.inl hright) (.inl rfl))
  · refine .inr ⟨d, ?_⟩
    have hright : parseUnary num 127
        (.lparen :: .lparen :: closing (.and :: .lparen :: closing [.rparen, .eof] b) a) =
          .error (.tooDeep d) := by
      rw [parseUnary_gated, hd]
      rfl
    unfold parseTokens
    show (parseOr (parseUnary num 127) _ >>= _) = _
    rw [parseOr_conjunction_error (parseUnary_success num 126 _) hright]
    rfl

/-- The text of the gate before the condition. -/
def gateText : Text := "success() && (".toList

theorem lex_of_step {c : Char} {t r : Text} {tok : Option Token}
    (h : lexStep c t = .ok (tok, r)) : lex (c :: t) = (lex r).map (tok.toList ++ ·) := by
  rw [lex_cons, h]
  show (lex r >>= _) = _
  cases lex r with
  | error e => rfl
  | ok tokens => rfl

theorem lex_gateText (t : Text) : lex (gateText ++ t) = (lex t).map (gateTokens ++ ·) := by
  have h : lex (gateText ++ t) = lex ('s' :: ("uccess() && (".toList ++ t)) := rfl
  have hword : lexStep 's' ("uccess() && (".toList ++ t) =
      .ok (some (.ident "success".toList), "() && (".toList ++ t) := rfl
  have hopen : lexStep '(' (") && (".toList ++ t) = .ok (some .lparen, ") && (".toList ++ t) := rfl
  have hclose : lexStep ')' (" && (".toList ++ t) = .ok (some .rparen, " && (".toList ++ t) := rfl
  have hspace : lexStep ' ' ("&& (".toList ++ t) = .ok (none, "&& (".toList ++ t) := rfl
  have hand : lexStep '&' ("& (".toList ++ t) = .ok (some .and, " (".toList ++ t) := rfl
  have hspace' : lexStep ' ' ("(".toList ++ t) = .ok (none, "(".toList ++ t) := rfl
  have hopen' : lexStep '(' t = .ok (some .lparen, t) := rfl
  rw [h, lex_of_step hword]
  show (lex ('(' :: (") && (".toList ++ t))).map _ = _
  rw [lex_of_step hopen]
  show ((lex (')' :: (" && (".toList ++ t))).map _).map _ = _
  rw [lex_of_step hclose]
  show (((lex (' ' :: ("&& (".toList ++ t))).map _).map _).map _ = _
  rw [lex_of_step hspace]
  show ((((lex ('&' :: ("& (".toList ++ t))).map _).map _).map _).map _ = _
  rw [lex_of_step hand]
  show (((((lex (' ' :: ("(".toList ++ t))).map _).map _).map _).map _).map _ = _
  rw [lex_of_step hspace']
  show ((((((lex ('(' :: t)).map _).map _).map _).map _).map _).map _ = _
  rw [lex_of_step hopen']
  cases lex t with
  | error e => rfl
  | ok tokens => rfl

theorem lex_gated {t : Text} {tokens : List Token} (h : lex t = .ok tokens) :
    ∃ body, tokens = ending body ∧
      lex (gateText ++ (t ++ [')'])) = .ok (gateTokens ++ closing [.eof] body) := by
  obtain ⟨body, rfl, happ⟩ := lex_append h
  refine ⟨body, rfl, ?_⟩
  rw [lex_gateText, happ [')'] (stops_rparen _)]
  rfl

/-- A condition that parses keeps its tree inside the gate. -/
theorem parse_gated {num : Text → Option N} {t : Text} {e : Expr N}
    (h : parseExpression num t = .ok e) :
    parseExpression num (gateText ++ (t ++ [')'])) = .ok (.binary .and successCall e) ∨
      ∃ l, parseExpression num (gateText ++ (t ++ [')'])) = .error (.tooDeep l) := by
  obtain ⟨tokens, htokens, h⟩ := bind_eq_ok h
  obtain ⟨body, rfl, hlex⟩ := lex_gated htokens
  unfold parseExpression
  rw [hlex]
  exact parseTokens_gated (eof_notMem_of_lex htokens) h

/-- The text parses one level down, between the parentheses of the gate, and is left room
    for one more node. -/
def LeavesRoom (num : Text → Option N) (t : Text) : Prop :=
  ∃ body p, lex t = .ok (ending body) ∧
    parseTrackedExpr num (maxExpressionDepth - 1) (closing [.eof] body) =
      .ok (p, [.rparen, .eof]) ∧ p.depth < maxExpressionDepth

theorem leavesRoom_iff {num : Text → Option N} {t : Text} {body : List Token}
    (h : lex t = .ok (ending body)) : LeavesRoom num t ↔
      ∃ p, parseTrackedExpr num 127 (closing [.eof] body) = .ok (p, [.rparen, .eof]) ∧
        p.depth < maxExpressionDepth := by
  constructor
  · rintro ⟨body', p, hlex, hp⟩
    rw [h, Except.ok.injEq, ending, ending, List.append_cancel_right_eq] at hlex
    subst hlex
    exact ⟨p, hp⟩
  · rintro ⟨p, hp⟩
    exact ⟨body, p, h, hp⟩

/-- In front of a condition that parses, the gate parses to a conjunction exactly if the
    condition leaves room for it. -/
theorem parse_gated_iff {num : Text → Option N} {t : Text} {e : Expr N}
    (h : parseExpression num t = .ok e) :
    parseExpression num (gateText ++ (t ++ [')'])) = .ok (.binary .and successCall e) ↔
      LeavesRoom num t := by
  obtain ⟨tokens, htokens, htree⟩ := bind_eq_ok h
  obtain ⟨body, rfl, hlex⟩ := lex_gated htokens
  have hleft : 127 < maxExpressionDepth := by decide
  -- the condition is parsed alone and inside the parenthesis with the same depth
  obtain ⟨p, hp, rfl⟩ := parseTracked_of_parseTokens (eof_notMem_of_lex htokens) htree
  have hparse : parseExpression num (gateText ++ (t ++ [')'])) = (do
      let q ← parseOr (parseUnary num 127) (gateTokens ++ closing [.eof] body)
      if current q.2 = .eof then return q.1.expr else .error (.unexpectedToken (current q.2))) := by
    unfold parseExpression
    rw [hlex]
    rfl
  have hsuccess := parseUnary_success num 126 (closing [.eof] body)
  rw [hparse, leavesRoom_iff htokens]
  obtain hq | ⟨l, hq⟩ := parse_enclosed hp hleft [.eof]
  · -- the condition parses inside: what is left is the node of the conjunction
    have hright : parseUnary num 127 (.lparen :: closing [.eof] body) = .ok (p, [.eof]) := by
      rw [parseUnary_gated, hq]
      rfl
    rw [parseOr_conjunction hsuccess hright (.inl rfl)]
    have hnode : ParsedExpr.binary .and ⟨successCall, 1⟩ p =
        (nodeDepth (max 1 p.depth)).map fun d => ⟨.binary .and successCall p.expr, d⟩ := by
      unfold ParsedExpr.binary
      cases nodeDepth (max 1 p.depth) with
      | error e => rfl
      | ok d => rfl
    rw [hnode]
    unfold nodeDepth
    by_cases hroom : maxExpressionDepth < max 1 p.depth + 1
    · rw [if_pos hroom]
      refine ⟨fun hok => (by cases hok), ?_⟩
      rintro ⟨q, hq', hdepth⟩
      rw [hq] at hq'
      cases hq'
      rw [maxExpressionDepth] at hroom hdepth
      omega
    · rw [if_neg hroom]
      exact ⟨fun _ => ⟨p, hq, by omega⟩, fun _ => rfl⟩
  · -- it is refused for depth inside
    have hright : parseUnary num 127 (.lparen :: closing [.eof] body) = .error (.tooDeep l) := by
      rw [parseUnary_gated, hq]
      rfl
    rw [parseOr_conjunction_error hsuccess hright]
    refine ⟨fun hok => (by cases hok), ?_⟩
    rintro ⟨q, hq', _⟩
    rw [hq] at hq'
    cases hq'

end Expressions

end Preloop
