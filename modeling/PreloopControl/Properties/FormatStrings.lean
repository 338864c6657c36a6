import PreloopControl.Expressions.Formatting
import PreloopControl.Lib.Slices
import PreloopControl.Properties.SecretReads

/-!
# Format Strings and Their Outputs

What a format string stands for is said without a loop: doubled braces for braces, a number
in braces for an argument. `format` returns exactly that text, if it is within the caps, and
nothing else. A format string that is put together from literals and numbers therefore gives
them back.

The output is within the cap whenever it is measured, so that the space left of it can be
taken by a subtraction that wraps around below zero.

## Main definitions

* `Formats`: A format string stands for a text.
* `Fits`: A text is within the caps.
* `formatTemplate`, `formatResult`: Literals and numbers of arguments, and what they stand for.
* `formatArgsChecked`: The function with a subtraction that fails below zero.

## Theorems

* `formatArgs_iff`: What `format` returns.
* `formatLoopChecked_eq`: No subtraction fails.
* `format_law`: The round trip, the cap, and the subtraction.
-/

namespace Preloop

namespace Expressions

open Fallible

variable {N F : Type} {engine : Engine N F}

/-! ## Format strings -/

/-- A format string stands for a text. -/
inductive Formats (engine : Engine N F) (values : List (Value N)) : Text → Text → Prop
  | nil : Formats engine values [] []
  | char {c : Char} {t x : Text} (hl : c ≠ lbrace) (hr : c ≠ rbrace)
      (h : Formats engine values t x) : Formats engine values (c :: t) (c :: x)
  | opening {t x : Text} (h : Formats engine values t x) :
      Formats engine values (lbrace :: lbrace :: t) (lbrace :: x)
  | closing {t x : Text} (h : Formats engine values t x) :
      Formats engine values (rbrace :: rbrace :: t) (rbrace :: x)
  | item {t rest x : Text} {v : Value N} (hhead : t.head? ≠ some lbrace)
      (hitem : placeholder values t = some (v, rest)) (h : Formats engine values rest x) :
      Formats engine values (lbrace :: t) (stringValue engine v ++ x)

/-- A text is within the cap of the output and what is left of the budget. -/
def Fits (remaining : Nat) (x : Text) : Prop :=
  Text.utf8Len x ≤ maxFormatOutputBytes ∧ Text.utf8Len x ≤ remaining

instance (remaining : Nat) (x : Text) : Decidable (Fits remaining x) :=
  inferInstanceAs (Decidable (_ ∧ _))

section Loop

variable {values : List (Value N)} {remaining n : Nat} {format output segment text x y : Text}

theorem Fits.left (h : Fits remaining (x ++ y)) : Fits remaining x := by
  unfold Fits at h ⊢
  rw [Text.utf8Len_append] at h
  omega

theorem fits_nil : Fits remaining [] := ⟨Nat.zero_le _, Nat.zero_le _⟩

theorem pushFormat_of_fits (h : Fits remaining (output ++ segment)) :
    pushFormatCapped remaining output segment = .ok (output ++ segment) := by
  unfold Fits at h
  rw [Text.utf8Len_append] at h
  unfold pushFormatCapped pushEvaluationCapped
  rw [if_neg (by omega), if_neg (by omega)]

theorem fits_of_pushFormat (houtput : Fits remaining output)
    (h : pushFormatCapped remaining output segment = .ok y) :
    y = output ++ segment ∧ Fits remaining (output ++ segment) := by
  unfold pushFormatCapped pushEvaluationCapped at h
  split at h
  · cases h
  · split at h
    · cases h
    · cases h
      refine ⟨rfl, ?_⟩
      unfold Fits at houtput ⊢
      rw [Text.utf8Len_append]
      omega

/-- The text of an argument that fits behind the output is not too long for it. -/
theorem stringValueBounded_of_fits {v : Value N}
    (h : Fits remaining (output ++ stringValue engine v)) :
    stringValueBounded engine v (maxFormatOutputBytes - Text.utf8Len output) formatTooLarge =
      .ok (stringValue engine v) := by
  unfold Fits at h
  rw [Text.utf8Len_append] at h
  unfold stringValueBounded
  cases v with
  | array items =>
      have hlen : Text.utf8Len (engine.jsonText (.array items)) ≤
          maxFormatOutputBytes - Text.utf8Len output := by
        simp only [stringValue] at h
        omega
      exact if_pos hlen
  | object fields =>
      have hlen : Text.utf8Len (engine.jsonText (.object fields)) ≤
          maxFormatOutputBytes - Text.utf8Len output := by
        simp only [stringValue] at h
        omega
      exact if_pos hlen
  | _ => rfl

theorem placeholder_length {t rest : Text} {v : Value N}
    (h : placeholder values t = some (v, rest)) : rest.length ≤ t.length := by
  unfold placeholder at h
  have hlen := (List.dropWhile_suffix Char.isDigit (l := t)).length_le
  split at h
  · cases h
  · next c r hdrop =>
      rw [hdrop, List.length_cons] at hlen
      split at h
      · rcases Option.bind_eq_some_iff.mp h with ⟨i, -, hv⟩
        rcases Option.map_eq_some_iff.mp hv with ⟨w, -, heq⟩
        cases heq
        omega
      · cases h

/-- The loop returns what the rest of the format string stands for, if it fits. -/
theorem formatLoop_of_formats (h : Formats engine values text x) :
    ∀ {n : Nat} {output segment : Text}, text.length ≤ n →
      Fits remaining (output ++ segment ++ x) →
        formatLoop engine format values remaining n output segment text =
          .ok (output ++ segment ++ x) := by
  have hbraces : rbrace ≠ lbrace := by decide
  -- the induction is on the reading of the format string; every push fits since the whole does
  induction h with
  | nil =>
      intro n output segment _ hfits
      rw [List.append_nil] at hfits ⊢
      cases n <;> exact pushFormat_of_fits hfits
  | char hl hr _ ih =>
      intro n output segment hn hfits
      cases n with
      | zero => cases hn
      | succ n =>
          rw [formatLoop, if_neg hl, if_neg hr, ih (Nat.le_of_succ_le_succ hn)]
          · simp
          · simpa using hfits
  | @opening t x _ ih =>
      intro n output segment hn hfits
      simp only [List.length_cons] at hn
      cases n with
      | zero => cases hn
      | succ n =>
          -- the brace is pushed with what stood before it
          have hwhole : output ++ segment ++ lbrace :: x =
              output ++ segment ++ [lbrace] ++ [] ++ x := by simp
          rw [hwhole] at hfits ⊢
          have hpushed : Fits remaining (output ++ segment ++ [lbrace]) := by
            rw [List.append_nil] at hfits
            exact hfits.left
          rw [formatLoop, if_pos rfl, pushFormat_of_fits hpushed.left]
          change (pushFormatCapped remaining (output ++ segment) [lbrace] >>= _) = _
          rw [pushFormat_of_fits hpushed]
          exact ih (by omega) hfits
  | @closing t x _ ih =>
      intro n output segment hn hfits
      simp only [List.length_cons] at hn
      cases n with
      | zero => cases hn
      | succ n =>
          have hwhole : output ++ segment ++ rbrace :: x =
              output ++ segment ++ [rbrace] ++ [] ++ x := by simp
          rw [hwhole] at hfits ⊢
          have hpushed : Fits remaining (output ++ segment ++ [rbrace]) := by
            rw [List.append_nil] at hfits
            exact hfits.left
          rw [formatLoop, if_neg hbraces, if_pos rfl, pushFormat_of_fits hpushed.left]
          change (pushFormatCapped remaining (output ++ segment) [rbrace] >>= _) = _
          rw [pushFormat_of_fits hpushed]
          exact ih (by omega) hfits
  | @item t rest x v hhead hitem _ ih =>
      intro n output segment hn hfits
      simp only [List.length_cons] at hn
      cases n with
      | zero => cases hn
      | succ n =>
          -- the rendered argument is pushed with what stood before it
          have hwhole : output ++ segment ++ (stringValue engine v ++ x) =
              output ++ segment ++ stringValue engine v ++ [] ++ x := by simp
          rw [hwhole] at hfits ⊢
          have hpushed : Fits remaining (output ++ segment ++ stringValue engine v) := by
            rw [List.append_nil] at hfits
            exact hfits.left
          rw [formatLoop, if_pos rfl, pushFormat_of_fits hpushed.left]
          change (if t.head? = some lbrace then _ else _) = _
          rw [if_neg hhead, hitem]
          change (stringValueBounded engine v _ _ >>= _) = _
          rw [stringValueBounded_of_fits hpushed]
          change (pushFormatCapped remaining (output ++ segment) _ >>= _) = _
          rw [pushFormat_of_fits hpushed]
          exact ih (by have := placeholder_length hitem; omega) hfits

/-- Whatever the loop returns the rest of the format string stands for, and it fits. -/
theorem formats_of_formatLoop (n : Nat) : ∀ {output segment text y : Text}, text.length ≤ n →
    Fits remaining output →
      formatLoop engine format values remaining n output segment text = .ok y →
        ∃ x, Formats engine values text x ∧ y = output ++ segment ++ x ∧ Fits remaining y := by
  -- the induction is on the fuel; what was pushed fits, so the output is known
  induction n with
  | zero =>
      intro output segment text y hn houtput h
      rw [List.length_eq_zero_iff.mp (Nat.le_zero.mp hn)] at h ⊢
      rcases fits_of_pushFormat houtput h with ⟨rfl, hfits⟩
      exact ⟨[], .nil, (List.append_nil _).symm, hfits⟩
  | succ n ih =>
      intro output segment text y hn houtput h
      cases text with
      | nil =>
          rcases fits_of_pushFormat houtput h with ⟨rfl, hfits⟩
          exact ⟨[], .nil, (List.append_nil _).symm, hfits⟩
      | cons c t =>
          simp only [List.length_cons, Nat.add_le_add_iff_right] at hn
          -- a doubled brace is read in front of what follows it
          have htail : ∀ b : Char, t.head? = some b → t = b :: t.tail := fun b hb =>
            (List.cons_head?_tail hb).symm
          have hshort : t.tail.length ≤ n := by
            rw [List.length_tail]
            omega
          rw [formatLoop] at h
          by_cases hl : c = lbrace
          · subst hl
            rw [if_pos rfl] at h
            rcases bind_eq_ok h with ⟨out, hout, h⟩
            rcases fits_of_pushFormat houtput hout with ⟨rfl, hfits⟩
            -- a doubled brace
            by_cases hhead : t.head? = some lbrace
            · rw [if_pos hhead] at h
              rcases bind_eq_ok h with ⟨out, hout, h⟩
              rcases fits_of_pushFormat hfits hout with ⟨rfl, hfits⟩
              rcases ih hshort hfits h with ⟨x, hx, rfl, hy⟩
              rw [htail lbrace hhead]
              exact ⟨lbrace :: x, .opening hx, by simp, hy⟩
            · rw [if_neg hhead] at h
              cases hitem : placeholder values t with
              | none =>
                  rw [hitem] at h
                  cases h
              -- an argument
              | some p =>
                  rcases p with ⟨v, rest⟩
                  rw [hitem] at h
                  rcases bind_eq_ok h with ⟨rendered, hrendered, h⟩
                  obtain rfl := (limited_stringValue v _).eq_of_ok hrendered
                  rcases bind_eq_ok h with ⟨out, hout, h⟩
                  rcases fits_of_pushFormat hfits hout with ⟨rfl, hfits⟩
                  rcases ih ((placeholder_length hitem).trans hn) hfits h with ⟨x, hx, rfl, hy⟩
                  exact ⟨_, .item hhead hitem hx, by simp, hy⟩
          · by_cases hr : c = rbrace
            · subst hr
              rw [if_neg hl, if_pos rfl] at h
              rcases bind_eq_ok h with ⟨out, hout, h⟩
              rcases fits_of_pushFormat houtput hout with ⟨rfl, hfits⟩
              by_cases hhead : t.head? = some rbrace
              · rw [if_pos hhead] at h
                rcases bind_eq_ok h with ⟨out, hout, h⟩
                rcases fits_of_pushFormat hfits hout with ⟨rfl, hfits⟩
                rcases ih hshort hfits h with ⟨x, hx, rfl, hy⟩
                rw [htail rbrace hhead]
                exact ⟨rbrace :: x, .closing hx, by simp, hy⟩
              · rw [if_neg hhead] at h
                cases h
            · rw [if_neg hl, if_neg hr] at h
              rcases ih hn houtput h with ⟨x, hx, rfl, hy⟩
              exact ⟨c :: x, .char hl hr hx, by simp, hy⟩

end Loop

/-- `format` returns the text its format string stands for, if it fits, and no other. -/
theorem formatArgs_iff {format y : Text} {args : List (Value N)} {remaining : Nat} :
    formatArgs engine (.string format :: args) remaining = .ok y ↔
      Formats engine (.string format :: args) format y ∧ Fits remaining y := by
  refine ⟨fun h => ?_, fun ⟨h, hfits⟩ => formatLoop_of_formats h (Nat.le_refl _) hfits⟩
  rcases formats_of_formatLoop format.length (Nat.le_refl _) fits_nil h with ⟨x, hx, rfl, hy⟩
  exact ⟨hx, hy⟩

/-- No output is above the cap, whatever the arguments. -/
theorem formatArgs_fits {values : List (Value N)} {remaining : Nat} {y : Text}
    (h : formatArgs engine values remaining = .ok y) : Fits remaining y := by
  rcases bind_eq_ok h with ⟨format, -, hloop⟩
  rcases formats_of_formatLoop format.length (Nat.le_refl _) fits_nil hloop with ⟨x, -, -, hy⟩
  exact hy

/-! ## Pieces -/

/-- Literals and numbers of arguments, as a format string. -/
def formatTemplate : List (Text × Nat) → Text → Text
  | [], last => last.flatMap escapeBrace
  | (literal, i) :: pieces, last =>
    literal.flatMap escapeBrace ++ (formatItem i ++ formatTemplate pieces last)

/-- Literals, and the arguments' texts between them. -/
def formatResult (engine : Engine N F) (args : List (Value N)) : List (Text × Nat) → Text → Text
  | [], last => last
  | (literal, i) :: pieces, last =>
    literal ++ (stringValue engine (args.getD i .null) ++ formatResult engine args pieces last)

theorem Formats.escaped {values : List (Value N)} {t x : Text} (h : Formats engine values t x)
    (c : Char) : Formats engine values (escapeBrace c ++ t) (c :: x) := by
  unfold escapeBrace
  by_cases hl : c = lbrace
  · rw [if_pos hl, hl]
    exact .opening h
  · rw [if_neg hl]
    by_cases hr : c = rbrace
    · rw [if_pos hr, hr]
      exact .closing h
    · rw [if_neg hr]
      exact .char hl hr h

theorem Formats.literal {values : List (Value N)} {t x : Text} (h : Formats engine values t x)
    (literal : Text) :
    Formats engine values (literal.flatMap escapeBrace ++ t) (literal ++ x) := by
  induction literal with
  | nil => exact h
  | cons c literal ih =>
      rw [List.flatMap_cons, List.append_assoc]
      exact ih.escaped c

theorem head_toDigits (i : Nat) (t : Text) : (Nat.toDigits 10 i ++ t).head? ≠ some lbrace := by
  cases hdigits : Nat.toDigits 10 i with
  | nil => exact absurd hdigits Nat.toDigits_ne_nil
  | cons c ds =>
      have hc : c.isDigit = true :=
        Nat.isDigit_of_mem_toDigits (by decide) (by decide) (hdigits ▸ List.mem_cons_self)
      rintro heq
      cases heq
      exact absurd hc (by decide)

theorem Formats.number {values : List (Value N)} {t x : Text} (h : Formats engine values t x)
    {i : Nat} {v : Value N} (hi : i < 256) (hv : values[i + 1]? = some v) :
    Formats engine values (formatItem i ++ t) (stringValue engine v ++ x) := by
  have htext : formatItem i ++ t = lbrace :: (Nat.toDigits 10 i ++ rbrace :: t) := by
    simp [formatItem]
  rw [htext]
  exact .item (head_toDigits i _) (placeholder_item hi hv t) h

theorem getElem_argument {format : Value N} {args : List (Value N)} {i : Nat}
    (hi : i < args.length) : (format :: args)[i + 1]? = some (args.getD i .null) := by
  rw [List.getElem?_cons_succ, List.getD_eq_getElem?_getD, List.getElem?_eq_getElem hi]
  rfl

/-- What holds of nothing, and on behind literals and numbers, holds of a template. -/
theorem template_induction {R : Text → Text → Prop} (format : Value N) {args : List (Value N)}
    (hlen : args.length < 255) (hnil : R [] [])
    (hliteral : ∀ {t x : Text}, R t x → ∀ literal : Text,
      R (literal.flatMap escapeBrace ++ t) (literal ++ x))
    (hitem : ∀ {t x : Text} {i : Nat} {v : Value N}, R t x → i < 256 →
      (format :: args)[i + 1]? = some v → R (formatItem i ++ t) (stringValue engine v ++ x))
    (pieces : List (Text × Nat)) (last : Text) (hpieces : ∀ p ∈ pieces, p.2 < args.length) :
    R (formatTemplate pieces last) (formatResult engine args pieces last) := by
  induction pieces with
  | nil =>
      have hlast := hliteral hnil last
      rwa [List.append_nil, List.append_nil] at hlast
  | cons p pieces ih =>
      rcases p with ⟨literal, i⟩
      rw [List.forall_mem_cons] at hpieces
      have hi : i < args.length := hpieces.1
      exact hliteral (hitem (ih hpieces.2) (by omega) (getElem_argument hi)) literal

/-! ## The subtraction -/

/-- `push_format_capped`, with a subtraction that fails below zero. -/
def pushFormatChecked (remaining : Nat) (output segment : Text) :
    ExceptT ExpressionError Option Text :=
  if maxFormatOutputBytes < Text.utf8Len output then none
  else some (pushFormatCapped remaining output segment)

/-- The loop of `format_args`, with that subtraction. -/
def formatLoopChecked (engine : Engine N F) (format : Text) (values : List (Value N))
    (remaining : Nat) : Nat → Text → Text → Text → ExceptT ExpressionError Option Text
  | 0, output, segment, _ => pushFormatChecked remaining output segment
  | _, output, segment, [] => pushFormatChecked remaining output segment
  | n + 1, output, segment, c :: t =>
    if c = lbrace then do
      let output ← pushFormatChecked remaining output segment
      if t.head? = some lbrace then
        let output ← pushFormatChecked remaining output [lbrace]
        formatLoopChecked engine format values remaining n output [] t.tail
      else match placeholder values t with
        | none => throw (.invalidFormat format)
        | some (value, rest) =>
          let rendered ← stringValueBounded engine value
            (maxFormatOutputBytes - Text.utf8Len output) formatTooLarge
          let output ← pushFormatChecked remaining output rendered
          formatLoopChecked engine format values remaining n output [] rest
    else if c = rbrace then do
      let output ← pushFormatChecked remaining output segment
      if t.head? = some rbrace then
        let output ← pushFormatChecked remaining output [rbrace]
        formatLoopChecked engine format values remaining n output [] t.tail
      else throw (.invalidFormat format)
    else formatLoopChecked engine format values remaining n output (segment ++ [c]) t

/-- `format_args`, with that subtraction. -/
def formatArgsChecked (engine : Engine N F) (values : List (Value N)) (remaining : Nat) :
    ExceptT ExpressionError Option Text := do
  let format ← stringValueBounded engine (values.headD .null) maxFormatOutputBytes formatTooLarge
  formatLoopChecked engine format values remaining format.length [] [] format

section Checked

variable {α β : Type} {values : List (Value N)} {remaining : Nat}

/-- A step that does not fail, and then one that does not fail. -/
theorem checked_bind {x : ExceptT ExpressionError Option α} {r : Result α}
    {f : α → ExceptT ExpressionError Option β} {g : α → Result β} (hx : x = some r)
    (hf : ∀ a, r = .ok a → f a = some (g a)) : (x >>= f) = some (r >>= g) := by
  subst hx
  cases r with
  | error e => rfl
  | ok a => exact hf a rfl

/-- Within the cap the subtraction does not fail, and what is pushed is within the cap. -/
theorem checked_push {output segment : Text} (h : Fits remaining output)
    {f : Text → ExceptT ExpressionError Option β} {g : Text → Result β}
    (hf : ∀ out, Fits remaining out → f out = some (g out)) :
    (pushFormatChecked remaining output segment >>= f) =
      some (pushFormatCapped remaining output segment >>= g) := by
  refine checked_bind (if_neg (Nat.not_lt.mpr h.1)) fun out hout => hf out ?_
  rcases fits_of_pushFormat h hout with ⟨rfl, hfits⟩
  exact hfits

/-- The subtraction does not fail in the loop. -/
theorem formatLoopChecked_eq (format : Text) (n : Nat) : ∀ {output segment text : Text},
    Fits remaining output →
      formatLoopChecked engine format values remaining n output segment text =
        some (formatLoop engine format values remaining n output segment text) := by
  -- the induction is on the rounds; before each the output is within its limits
  induction n with
  | zero =>
      intro output segment text h
      exact if_neg (Nat.not_lt.mpr h.1)
  | succ n ih =>
      intro output segment text h
      cases text with
      | nil => exact if_neg (Nat.not_lt.mpr h.1)
      | cons c t =>
          rw [formatLoopChecked, formatLoop]
          by_cases hl : c = lbrace
          · rw [if_pos hl, if_pos hl]
            refine checked_push h fun out hout => ?_
            by_cases hhead : t.head? = some lbrace
            · rw [if_pos hhead, if_pos hhead]
              exact checked_push hout fun out hout => ih hout
            · rw [if_neg hhead, if_neg hhead]
              cases placeholder values t with
              | none => rfl
              | some p =>
                  refine checked_bind rfl fun rendered _ => ?_
                  exact checked_push hout fun out hout => ih hout
          · rw [if_neg hl, if_neg hl]
            by_cases hr : c = rbrace
            · rw [if_pos hr, if_pos hr]
              refine checked_push h fun out hout => ?_
              by_cases hhead : t.head? = some rbrace
              · rw [if_pos hhead, if_pos hhead]
                exact checked_push hout fun out hout => ih hout
              · rw [if_neg hhead, if_neg hhead]
                rfl
            · rw [if_neg hr, if_neg hr]
              exact ih h

/-- Nor in the function. -/
theorem formatArgsChecked_eq (values : List (Value N)) (remaining : Nat) :
    formatArgsChecked engine values remaining = some (formatArgs engine values remaining) :=
  checked_bind rfl fun _ _ => formatLoopChecked_eq _ _ fits_nil

end Checked

/-! ## The law -/

/-- As many arguments as `format` takes have numbers that are read. -/
theorem length_of_arity {args : List (Value N)}
    (h : validateFunctionArity formatName (args.length + 1) = .ok ()) : args.length < 255 := by
  rw [arity_format] at h
  by_contra hlen
  rw [if_neg hlen] at h
  cases h

/-- Of literals and numbers of its arguments `format` makes the literals and the arguments'
    texts, or the result is above a limit. It returns nothing above its cap, whatever it is
    given, and never subtracts more than there is. -/
theorem format_law (engine : Engine N F) (remaining : Nat) :
    (∀ (pieces : List (Text × Nat)) (last : Text) (args : List (Value N)),
      validateFunctionArity formatName (args.length + 1) = .ok () →
        (∀ p ∈ pieces, p.2 < args.length) →
          (Fits remaining (formatResult engine args pieces last) →
            formatArgs engine (.string (formatTemplate pieces last) :: args) remaining =
              .ok (formatResult engine args pieces last)) ∧
          (¬ Fits remaining (formatResult engine args pieces last) →
            ∃ e, IsLimit e ∧
              formatArgs engine (.string (formatTemplate pieces last) :: args) remaining =
                .error e)) ∧
      (∀ (values : List (Value N)) (output : Text),
        formatArgs engine values remaining = .ok output →
          Text.utf8Len output ≤ maxFormatOutputBytes) ∧
      ∀ values : List (Value N),
        formatArgsChecked engine values remaining = some (formatArgs engine values remaining) := by
  refine ⟨fun pieces last args harity hpieces => ?_, fun values output h => (formatArgs_fits h).1,
    fun values => formatArgsChecked_eq values remaining⟩
  have hlen := length_of_arity harity
  -- the template is built piece by piece, and so is what is shown of it
  have hformats : Formats engine _ _ _ :=
    template_induction (.string (formatTemplate pieces last)) hlen .nil (·.literal) (·.number)
      pieces last hpieces
  refine ⟨fun hfits => formatArgs_iff.mpr ⟨hformats, hfits⟩, fun hlarge => ?_⟩
  have hrenders : Renders engine _ _ _ :=
    template_induction (.string (formatTemplate pieces last)) hlen renders_nil
      (renders_literal ·) (renders_item · · ·) pieces last hpieces
  rcases limited_formatArgs hrenders remaining with hok | hlimit
  · exact absurd (formatArgs_fits hok) hlarge
  · exact hlimit

/-- A literal with a brace, and the same argument twice. -/
def bracedPieces : List (Text × Nat) := [([lbrace], 0), (['-'], 0)]

/-- What they make. -/
theorem format_law_of_braces :
    formatArgs integerEngine (.string (formatTemplate bracedPieces [rbrace]) ::
        [.string "ab".toList]) 100 =
      .ok (formatResult integerEngine [.string "ab".toList] bracedPieces [rbrace]) :=
  ((format_law integerEngine 100).1 bracedPieces [rbrace] [.string "ab".toList] rfl
    (by decide)).1 (by decide)

end Expressions

end Preloop
