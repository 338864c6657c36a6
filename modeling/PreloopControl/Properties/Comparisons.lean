import PreloopControl.Lib.Utf16
import PreloopControl.Properties.SecretReads

/-!
# Comparisons

How expressions order texts and values. Texts are ordered by the scalar values of their
upper-cased characters, which the source takes for the order of their UTF-16 units.
Values are equal by one set of rules and ordered by another.

Upper-casing is the engine's. All that is taken for granted of it is that it knows the
ASCII letters, so that the shortcuts for ASCII texts are shortcuts.

## Main definitions

* `upper`: A text in simple upper case.
* `Engine.UppercasesAscii`, `Engine.OrdersFloats`: What the comparisons need.

## Theorems

* `compareOrdinalIgnoreCase_eq`: The comparison, without its shortcut.
* `ordinal_order_iff`: When the order of texts is that of their UTF-16 units.
* `comparison_coherent_iff`: When the orders of two values agree with their equality.
-/

namespace Preloop

namespace Expressions

variable {N F : Type} {engine : Engine N F}

/-! ## Texts -/

/-- `eq_ordinal_ignore_case`. -/
def eqOrdinalIgnoreCase (engine : Engine N F) (left right : Text) : Bool :=
  compareOrdinalIgnoreCase engine left right == .eq

/-- A text in simple upper case. -/
def upper (engine : Engine N F) (t : Text) : Text := t.map (toSimpleUpper engine)

/-- Unicode agrees with ASCII on the case of its letters. -/
def Engine.UppercasesAscii (engine : Engine N F) : Prop :=
  ∀ c : Char, c.toNat < 128 → engine.toUppercase c = [c.toUpper]

theorem upper_of_isAscii (h : engine.UppercasesAscii) {t : Text} (ht : isAscii t = true) :
    t.map Char.toUpper = upper engine t := by
  unfold upper
  refine List.map_congr_left fun c hc => ?_
  have hlow : c.toNat < 128 := of_decide_eq_true (List.all_eq_true.mp ht c hc)
  unfold toSimpleUpper
  rw [h c hlow]

/-- The shortcut reads the texts as the long way does. -/
theorem upperPair_eq (h : engine.UppercasesAscii) (left right : Text) :
    upperPair engine left right = (upper engine left, upper engine right) := by
  unfold upperPair
  by_cases hascii : (isAscii left && isAscii right) = true
  · rw [if_pos hascii]
    rw [Bool.and_eq_true] at hascii
    rw [upper_of_isAscii h hascii.1, upper_of_isAscii h hascii.2]
  · rw [if_neg hascii]
    rfl

theorem compareTexts_eq (s t : Text) :
    compareTexts s t = compare (Utf16.codes s) (Utf16.codes t) := by
  induction s generalizing t with
  | nil =>
      cases t with
      | nil => rfl
      | cons b t => rfl
  | cons a s ih =>
      cases t with
      | nil => rfl
      | cons b t =>
        rw [compareTexts, ih, Utf16.codes_cons, Utf16.codes_cons, List.compare_cons_cons]

/-- The comparison is that of the scalar values of the upper-cased texts. -/
theorem compareOrdinalIgnoreCase_eq (h : engine.UppercasesAscii) (left right : Text) :
    compareOrdinalIgnoreCase engine left right =
      compare (Utf16.codes (upper engine left)) (Utf16.codes (upper engine right)) := by
  unfold compareOrdinalIgnoreCase
  rw [upperPair_eq h, compareTexts_eq]

theorem codes_injective {s t : Text} (h : Utf16.codes s = Utf16.codes t) : s = t :=
  List.map_injective_iff.mpr (fun _ _ => Char.toNat_inj.mp) h

/-- Texts compare as equal if they are the same in upper case. -/
theorem compareOrdinalIgnoreCase_eq_eq (h : engine.UppercasesAscii) {left right : Text} :
    compareOrdinalIgnoreCase engine left right = .eq ↔ upper engine left = upper engine right := by
  rw [compareOrdinalIgnoreCase_eq h, Std.LawfulEqCmp.compare_eq_iff_eq]
  exact ⟨codes_injective, fun heq => by rw [heq]⟩

/-- A split of an upper-cased text is a split of the text. -/
theorem upper_eq_append {t a b : Text} (h : upper engine t = a ++ b) :
    ∃ x y, t = x ++ y ∧ upper engine x = a ∧ upper engine y = b :=
  List.map_eq_append_iff.mp h

theorem startsWith_iff (h : engine.UppercasesAscii) {haystack needle : Text} :
    startsWithOrdinalIgnoreCase engine haystack needle = true ↔
      ∃ front rest, haystack = front ++ rest ∧
        compareOrdinalIgnoreCase engine front needle = .eq := by
  unfold startsWithOrdinalIgnoreCase
  rw [upperPair_eq h, List.isPrefixOf_iff_prefix]
  constructor
  · rintro ⟨rest, hrest⟩
    rcases upper_eq_append hrest.symm with ⟨x, y, hxy, hx, -⟩
    exact ⟨x, y, hxy, (compareOrdinalIgnoreCase_eq_eq h).mpr hx⟩
  · rintro ⟨front, rest, rfl, heq⟩
    refine ⟨upper engine rest, ?_⟩
    rw [← (compareOrdinalIgnoreCase_eq_eq h).mp heq]
    exact List.map_append.symm

theorem endsWith_iff (h : engine.UppercasesAscii) {haystack needle : Text} :
    endsWithOrdinalIgnoreCase engine haystack needle = true ↔
      ∃ rest back, haystack = rest ++ back ∧
        compareOrdinalIgnoreCase engine back needle = .eq := by
  unfold endsWithOrdinalIgnoreCase
  rw [upperPair_eq h, List.isSuffixOf_iff_suffix]
  constructor
  · rintro ⟨rest, hrest⟩
    rcases upper_eq_append hrest.symm with ⟨x, y, hxy, -, hy⟩
    exact ⟨x, y, hxy, (compareOrdinalIgnoreCase_eq_eq h).mpr hy⟩
  · rintro ⟨rest, back, rfl, heq⟩
    refine ⟨upper engine rest, ?_⟩
    rw [← (compareOrdinalIgnoreCase_eq_eq h).mp heq]
    exact List.map_append.symm

theorem contains_iff (h : engine.UppercasesAscii) {haystack needle : Text} :
    containsOrdinalIgnoreCase engine haystack needle = true ↔
      ∃ before middle after, haystack = before ++ middle ++ after ∧
        compareOrdinalIgnoreCase engine middle needle = .eq := by
  unfold containsOrdinalIgnoreCase Text.contains
  rw [upperPair_eq h]
  constructor
  · intro hsome
    rcases Option.isSome_iff_exists.mp hsome with ⟨⟨before, after⟩, hcut⟩
    rcases upper_eq_append (Text.cut_eq hcut) with ⟨x, y, hxy, hx, -⟩
    rcases upper_eq_append hx with ⟨x', m, rfl, -, hm⟩
    exact ⟨x', m, y, hxy, (compareOrdinalIgnoreCase_eq_eq h).mpr hm⟩
  · rintro ⟨before, middle, after, rfl, heq⟩
    have hsplit : upper engine (before ++ middle ++ after) =
        upper engine before ++ upper engine needle ++ upper engine after := by
      rw [← (compareOrdinalIgnoreCase_eq_eq h).mp heq]
      simp only [upper, List.map_append]
    rcases Text.cut_of_occurs (upper engine needle) (upper engine before) (upper engine after) with
      ⟨x, y, hcut, -⟩
    dsimp only
    rw [hsplit, List.append_assoc, hcut]
    rfl

/-- For all texts, the comparison is that of the UTF-16 units of the upper-cased texts, and
the tests for equality, for the start, the end and a part are coherent with it, exactly if the
first upper-cased characters in which they differ are not one from the end of the basic plane
and one of another plane. -/
theorem ordinal_order_iff (h : engine.UppercasesAscii) (left right : Text) :
    (compareOrdinalIgnoreCase engine left right =
        compare (Utf16.encode (upper engine left)) (Utf16.encode (upper engine right)) ∧
      (eqOrdinalIgnoreCase engine left right = true ↔
        compareOrdinalIgnoreCase engine left right = .eq) ∧
      (startsWithOrdinalIgnoreCase engine left right = true ↔
        ∃ front rest, left = front ++ rest ∧ eqOrdinalIgnoreCase engine front right = true) ∧
      (endsWithOrdinalIgnoreCase engine left right = true ↔
        ∃ rest back, left = rest ++ back ∧ eqOrdinalIgnoreCase engine back right = true) ∧
      (containsOrdinalIgnoreCase engine left right = true ↔
        ∃ before middle after, left = before ++ middle ++ after ∧
          eqOrdinalIgnoreCase engine middle right = true)) ↔
      ¬ Utf16.Crossed (upper engine left) (upper engine right) := by
  have heq : ∀ l r : Text, eqOrdinalIgnoreCase engine l r = true ↔
      compareOrdinalIgnoreCase engine l r = .eq := fun _ _ => beq_iff_eq
  simp only [heq]
  rw [← Utf16.compare_encode_iff, ← compareOrdinalIgnoreCase_eq h]
  constructor
  · exact fun hall => hall.1.symm
  · -- the tests are coherent whatever the order is
    exact fun horder =>
      ⟨horder.symm, trivial, startsWith_iff h, endsWith_iff h, contains_iff h⟩

theorem integerEngine_uppercasesAscii : integerEngine.UppercasesAscii := fun _ _ => rfl

/-- A prefix in the other case. -/
theorem ordinal_order_iff_of_prefix :
    compareOrdinalIgnoreCase integerEngine "Refs/x".toList "rEFS".toList =
        compare (Utf16.encode (upper integerEngine "Refs/x".toList))
          (Utf16.encode (upper integerEngine "rEFS".toList)) ∧
      startsWithOrdinalIgnoreCase integerEngine "Refs/x".toList "rEFS".toList = true := by
  have hall := (ordinal_order_iff integerEngine_uppercasesAscii "Refs/x".toList
    "rEFS".toList).mpr (by decide)
  exact ⟨hall.1, hall.2.2.1.mpr ⟨"Refs".toList, "/x".toList, rfl, by decide⟩⟩

/-- A fullwidth tilde is before an emoji here, and behind it in UTF-16. -/
theorem fullwidth_before_emoji :
    compareOrdinalIgnoreCase integerEngine "\uff5e".toList "😀".toList = .lt ∧
      compare (Utf16.encode (upper integerEngine "\uff5e".toList))
        (Utf16.encode (upper integerEngine "😀".toList)) = .gt := by
  decide

/-! ## Values -/

/-- Every JSON number is a float. Floats are ordered as far as they are numbers, equality is
    the equality of that order, and zero and one are two of them. -/
structure Engine.OrdersFloats (engine : Engine N F) : Prop where
  asF64 : ∀ n, ∃ f, engine.asF64 n = some f
  floatEq : ∀ a b, engine.floatEq a b = true ↔ engine.partialCmp a b = some .eq
  nan : ∀ a b, engine.isNan a = true ∨ engine.isNan b = true → engine.partialCmp a b = none
  zero_zero : engine.partialCmp engine.zero engine.zero = some .eq
  one_one : engine.partialCmp engine.one engine.one = some .eq
  zero_one : engine.partialCmp engine.zero engine.one = some .lt
  one_zero : engine.partialCmp engine.one engine.zero = some .gt

/-- The orders and the equality of two values agree. -/
def Coherent (engine : Engine N F) (left right : Value N) : Prop :=
  (compareValues engine left right (· != .lt) = true ↔
      compareValues engine left right (· == .gt) = true ∨
        abstractEqual engine left right = true) ∧
    (compareValues engine left right (· != .gt) = true ↔
      compareValues engine left right (· == .lt) = true ∨
        abstractEqual engine left right = true)

/-- A comparison whose outcome is an ordering, or nothing, is coherent with an equality that
    holds for that outcome only. -/
theorem coherent_of_outcome {left right : Value N} (o : Option Ordering)
    (hcompare : ∀ p, compareValues engine left right p = o.any p)
    (hequal : abstractEqual engine left right = true ↔ o = some .eq) :
    Coherent engine left right := by
  unfold Coherent
  rw [hcompare, hcompare, hcompare, hcompare, hequal]
  cases o with
  | none => decide
  | some o => cases o <;> decide

/-- Where both values have texts that decide and neither is equal to the other. -/
theorem coherent_of_texts {left right : Value N} (o : Ordering)
    (hcompare : ∀ p, compareValues engine left right p = p o)
    (hequal : abstractEqual engine left right = false) :
    Coherent engine left right ↔ o ≠ .eq := by
  unfold Coherent
  rw [hcompare, hcompare, hcompare, hcompare, hequal]
  cases o <;> decide

theorem numericValue_of_primitive (h : engine.OrdersFloats) {v : Value N}
    (hv : isPrimitive v = true) : ∃ f, numericValue engine v = some f := by
  cases v with
  | null => exact ⟨_, rfl⟩
  | bool b => cases b <;> exact ⟨_, rfl⟩
  | number n => exact h.asF64 n
  | string s => exact ⟨_, rfl⟩
  | array items => cases hv
  | object fields => cases hv

theorem numericValue_of_container {v : Value N} (hv : isPrimitive v = false) :
    numericValue engine v = none := by
  cases v with
  | array items => rfl
  | object fields => rfl
  | null => cases hv
  | bool b => cases hv
  | number n => cases hv
  | string s => cases hv

/-- The test behind the mixed equality is that of the order: what is equal is no NaN. -/
theorem mixed_equal_iff (h : engine.OrdersFloats) (x y : F) :
    (!engine.isNan x && !engine.isNan y && engine.floatEq x y) = true ↔
      engine.partialCmp x y = some .eq := by
  rw [Bool.and_eq_true, Bool.and_eq_true, Bool.not_eq_true', Bool.not_eq_true', h.floatEq]
  refine ⟨fun hall => hall.2, fun heq => ⟨?_, heq⟩⟩
  by_contra hnan
  have hsome : engine.isNan x = true ∨ engine.isNan y = true := by
    rwa [← Bool.not_eq_false, ← Bool.not_eq_false, ← not_and_or]
  rw [h.nan x y hsome] at heq
  cases heq

/-- Two primitive values that are not both texts are equal if their numbers are. -/
theorem abstractEqual_numeric (h : engine.OrdersFloats) {left right : Value N} {x y : F}
    (hx : numericValue engine left = some x) (hy : numericValue engine right = some y)
    (hstrings : ∀ s t, left = .string s → right ≠ .string t) :
    abstractEqual engine left right = true ↔ engine.partialCmp x y = some .eq := by
  have hmixed : abstractEqual engine left right =
      (!engine.isNan x && !engine.isNan y && engine.floatEq x y) →
        (abstractEqual engine left right = true ↔ engine.partialCmp x y = some .eq) := by
    intro heq
    rw [heq]
    exact mixed_equal_iff h x y
  cases left with
  | null =>
      cases right with
      | null =>
          cases hx
          cases hy
          exact iff_of_true rfl h.zero_zero
      | bool b => exact hmixed (by simp only [abstractEqual, hx, hy])
      | number n => exact hmixed (by simp only [abstractEqual, hx, hy])
      | string s => exact hmixed (by simp only [abstractEqual, hx, hy])
      | array items => cases hy
      | object fields => cases hy
  | bool b =>
      cases right with
      | bool c =>
          -- the booleans are zero and one
          cases b <;> cases c <;> cases hx <;> cases hy
          · exact iff_of_true rfl h.zero_zero
          · exact iff_of_false (show ¬ (false == true) = true by decide)
              (by rw [h.zero_one]; decide)
          · exact iff_of_false (show ¬ (true == false) = true by decide)
              (by rw [h.one_zero]; decide)
          · exact iff_of_true rfl h.one_one
      | null => exact hmixed (by simp only [abstractEqual, hx, hy])
      | number n => exact hmixed (by simp only [abstractEqual, hx, hy])
      | string s => exact hmixed (by simp only [abstractEqual, hx, hy])
      | array items => cases hy
      | object fields => cases hy
  | number n =>
      cases right with
      | number m =>
          rw [abstractEqual, show engine.asF64 n = some x from hx,
            show engine.asF64 m = some y from hy]
          exact h.floatEq x y
      | null => exact hmixed (by simp only [abstractEqual, hx, hy])
      | bool b => exact hmixed (by simp only [abstractEqual, hx, hy])
      | string s => exact hmixed (by simp only [abstractEqual, hx, hy])
      | array items => cases hy
      | object fields => cases hy
  | string s =>
      cases right with
      | string t => exact absurd rfl (hstrings s t rfl)
      | null => exact hmixed (by simp only [abstractEqual, hx, hy])
      | bool b => exact hmixed (by simp only [abstractEqual, hx, hy])
      | number n => exact hmixed (by simp only [abstractEqual, hx, hy])
      | array items => cases hy
      | object fields => cases hy
  | array items => cases hx
  | object fields => cases hx

theorem abstractEqual_container {left right : Value N}
    (hboth : ¬ (isPrimitive left = true ∧ isPrimitive right = true)) :
    abstractEqual engine left right = false := by
  cases left <;> cases right <;> first
    | rfl
    | exact absurd ⟨rfl, rfl⟩ hboth

theorem compareValues_numeric {left right : Value N} {x y : F}
    (hx : numericValue engine left = some x) (hy : numericValue engine right = some y)
    (hstrings : ∀ s t, left = .string s → right ≠ .string t) (p : Ordering → Bool) :
    compareValues engine left right p = (engine.partialCmp x y).any p := by
  unfold compareValues
  split
  · exact absurd rfl (hstrings _ _ rfl)
  · rw [hx, hy]

/-- A container is ordered by its text. -/
theorem compareValues_container {left right : Value N}
    (hboth : ¬ (isPrimitive left = true ∧ isPrimitive right = true)) (p : Ordering → Bool) :
    compareValues engine left right p =
      p (compareOrdinalIgnoreCase engine (stringValue engine left) (stringValue engine right)) := by
  unfold compareValues
  split
  · exact absurd ⟨rfl, rfl⟩ hboth
  · rw [not_and_or, Bool.not_eq_true, Bool.not_eq_true] at hboth
    rcases hboth with hl | hr
    · rw [numericValue_of_container hl]
    · rw [numericValue_of_container hr]
      cases numericValue engine left <;> rfl

/-- For all values, `>=` holds exactly if `>` or `==` does, and `<=` exactly if `<` or `==`
does, exactly if neither value is an array or an object, or the two have different texts. -/
theorem comparison_coherent_iff (h : engine.OrdersFloats) (left right : Value N) :
    ((combineBinary engine .ge left right = .bool true ↔
        combineBinary engine .gt left right = .bool true ∨
          combineBinary engine .eq left right = .bool true) ∧
      (combineBinary engine .le left right = .bool true ↔
        combineBinary engine .lt left right = .bool true ∨
          combineBinary engine .eq left right = .bool true)) ↔
      isPrimitive left = true ∧ isPrimitive right = true ∨
        compareOrdinalIgnoreCase engine (stringValue engine left) (stringValue engine right) ≠
          .eq := by
  have hcoherent : Coherent engine left right ↔
      isPrimitive left = true ∧ isPrimitive right = true ∨
        compareOrdinalIgnoreCase engine (stringValue engine left) (stringValue engine right) ≠
          .eq := by
    by_cases hboth : isPrimitive left = true ∧ isPrimitive right = true
    -- two texts are compared as texts, all other plain values as numbers
    · refine iff_of_true ?_ (.inl hboth)
      by_cases hstrings : ∃ s t, left = .string s ∧ right = .string t
      · -- the same comparison decides both
        rcases hstrings with ⟨s, t, rfl, rfl⟩
        refine coherent_of_outcome (some (compareOrdinalIgnoreCase engine s t)) (fun _ => rfl) ?_
        rw [abstractEqual, beq_iff_eq, Option.some.injEq]
      · have hne : ∀ s t, left = .string s → right ≠ .string t :=
          fun s t hl hr => hstrings ⟨s, t, hl, hr⟩
        rcases numericValue_of_primitive h hboth.1 with ⟨x, hx⟩
        rcases numericValue_of_primitive h hboth.2 with ⟨y, hy⟩
        exact coherent_of_outcome _ (compareValues_numeric hx hy hne)
          (abstractEqual_numeric h hx hy hne)
    -- an array or an object is equal to nothing, and is ordered by its text
    · rw [coherent_of_texts _ (compareValues_container hboth) (abstractEqual_container hboth)]
      exact ⟨.inr, fun hor => hor.resolve_left hboth⟩
  rw [← hcoherent]
  simp only [combineBinary, Value.bool.injEq]
  rfl

theorem integerEngine_ordersFloats : integerEngine.OrdersFloats where
  asF64 n := ⟨n, rfl⟩
  floatEq a b := by
    show (a == b) = true ↔ some (compare a b) = some .eq
    rw [beq_iff_eq, Option.some.injEq, compare_eq_iff_eq]
  nan a b hnan := by
    rcases hnan with hnan | hnan <;> cases hnan
  zero_zero := rfl
  one_one := rfl
  zero_one := rfl
  one_zero := rfl

/-- A boolean and the number it stands for. -/
theorem comparison_coherent_iff_of_bool :
    combineBinary integerEngine .ge (.bool true) (.number 1) = .bool true ↔
      combineBinary integerEngine .gt (.bool true) (.number 1) = .bool true ∨
        combineBinary integerEngine .eq (.bool true) (.number 1) = .bool true :=
  ((comparison_coherent_iff integerEngine_ordersFloats (.bool true) (.number 1)).mpr
    (.inl ⟨rfl, rfl⟩)).1

/-- The engine, with the JSON text of an empty array. -/
def arrayEngine : Engine Int Int := { integerEngine with jsonText := fun _ => "[]".toList }

/-- Two empty arrays are at least each other, but neither is greater, nor are they equal. -/
theorem empty_arrays_incoherent :
    ¬ (combineBinary arrayEngine .ge (.array []) (.array []) = .bool true ↔
      combineBinary arrayEngine .gt (.array []) (.array []) = .bool true ∨
        combineBinary arrayEngine .eq (.array []) (.array []) = .bool true) := by
  have hge : combineBinary arrayEngine .ge (.array []) (.array []) = .bool true := rfl
  have hgt : combineBinary arrayEngine .gt (.array []) (.array []) = .bool false := rfl
  have heq : combineBinary arrayEngine .eq (.array []) (.array []) = .bool false := rfl
  rw [hge, hgt, heq]
  simp

end Expressions

end Preloop
