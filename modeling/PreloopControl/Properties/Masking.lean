import PreloopControl.Masking.Scan

/-!
# What Masking Leaves

The scan takes the longest value at each place and goes on behind it. An occurrence of
another value that began inside is cut off there, and its tail is shown unless
something else starts in it. So masking is complete exactly if a walk that jumps over the
longest value, or over a marker that is there already, never comes to a character at which
nothing starts while an occurrence is not over yet.

The walk is said of the values alone, and that the scan takes it rests on the order of the
values: what is found first is the longest that starts there.

## Main definitions

* `covered`: Which characters are redacted.
* `Stands`: Where the scan comes by.
* `Walks`: The walk from the left over the longest text at each place.
* `LeavesNothing`, `NeverStranded`: Every occurrence is redacted, and when.

## Theorems

* `uncovered_iff`: The characters that are shown.
* `stands_iff_walks`: The scan takes the walk.
* `masking_exact`: When exact masking leaves nothing.
-/

namespace Preloop

namespace Masking

variable {config : MaskConfig} {input : Text} {secrets exclude : List Text}

/-! ## Pieces -/

/-- Whether the characters of a piece are redacted. -/
def Piece.covered : Piece → List Bool
  | .kept _ => [false]
  | .redacted span _ => span.map fun _ => true

/-- Character by character, whether it is redacted. -/
def covered (pieces : List Piece) : List Bool := pieces.flatMap Piece.covered

/-- Every round of the scan gets on. -/
def Progresses (config : MaskConfig) : Prop :=
  ∀ offset rest length shown, maskStep config offset rest = some (length, shown) → 0 < length

theorem maskLoop_kept {offset : Nat} {c : Char} {rest : Text} (n : Nat)
    (h : maskStep config offset (c :: rest) = none) :
    maskLoop config (n + 1) offset (c :: rest) =
      .kept c :: maskLoop config n (offset + 1) rest := by
  conv_lhs => unfold maskLoop
  rw [h]

theorem maskLoop_redacted {offset length : Nat} {c : Char} {rest shown : Text} (n : Nat)
    (h : maskStep config offset (c :: rest) = some (length, shown)) :
    maskLoop config (n + 1) offset (c :: rest) =
      .redacted ((c :: rest).take length) shown ::
        maskLoop config n (offset + length) ((c :: rest).drop length) := by
  conv_lhs => unfold maskLoop
  rw [h]

theorem maskLoop_nil (n offset : Nat) : maskLoop config n offset [] = [] := by
  cases n <;> rfl

theorem drop_length_le {length n : Nat} {c : Char} {rest : Text} (hlength : 0 < length)
    (hn : rest.length ≤ n) : ((c :: rest).drop length).length ≤ n := by
  simp only [List.length_drop, List.length_cons]
  omega

/-- Any fuel that suffices gives the same pieces. -/
theorem maskLoop_fuel (hp : Progresses config) (n : Nat) : ∀ (k offset : Nat) (rest : Text),
    rest.length ≤ n → rest.length ≤ k →
      maskLoop config n offset rest = maskLoop config k offset rest := by
  induction n with
  | zero =>
      intro k offset rest hn _
      obtain rfl : rest = [] := List.length_eq_zero_iff.mp (Nat.le_zero.mp hn)
      rw [maskLoop_nil, maskLoop_nil]
  | succ n ih =>
      intro k offset rest hn hk
      cases rest with
      | nil => rw [maskLoop_nil, maskLoop_nil]
      | cons c rest =>
          obtain ⟨k, rfl⟩ : ∃ j, k = j + 1 := ⟨k - 1, by simp only [List.length_cons] at hk; omega⟩
          simp only [List.length_cons, Nat.add_le_add_iff_right] at hn hk
          cases hstep : maskStep config offset (c :: rest) with
          | none => rw [maskLoop_kept n hstep, maskLoop_kept k hstep, ih k _ rest hn hk]
          | some step =>
              have hlength := hp offset (c :: rest) step.1 step.2 hstep
              rw [maskLoop_redacted n hstep, maskLoop_redacted k hstep,
                ih k _ _ (drop_length_le hlength hn) (drop_length_le hlength hk)]

/-- The pieces are the input. -/
theorem source_maskLoop (hp : Progresses config) (n : Nat) : ∀ (offset : Nat) (rest : Text),
    rest.length ≤ n → (maskLoop config n offset rest).flatMap Piece.source = rest := by
  induction n with
  | zero =>
      intro offset rest hn
      rw [List.length_eq_zero_iff.mp (Nat.le_zero.mp hn)]
      rfl
  | succ n ih =>
      intro offset rest hn
      cases rest with
      | nil => rfl
      | cons c rest =>
          simp only [List.length_cons, Nat.add_le_add_iff_right] at hn
          cases hstep : maskStep config offset (c :: rest) with
          | none =>
              rw [maskLoop_kept n hstep, List.flatMap_cons, ih _ rest hn]
              rfl
          | some step =>
              have hlength := hp offset (c :: rest) step.1 step.2 hstep
              rw [maskLoop_redacted n hstep, List.flatMap_cons,
                ih _ _ (drop_length_le hlength hn)]
              exact List.take_append_drop step.1 (c :: rest)

theorem length_covered (pieces : List Piece) :
    (covered pieces).length = (pieces.flatMap Piece.source).length := by
  induction pieces with
  | nil => rfl
  | cons piece pieces ih =>
      unfold covered at ih ⊢
      rw [List.flatMap_cons, List.flatMap_cons, List.length_append, List.length_append, ih]
      cases piece with
      | kept c => rfl
      | redacted span shown => rw [Piece.covered, List.length_map]; rfl

/-! ## Where the scan stands -/

/-- Where the scan comes by: what is behind it, and what is left. -/
inductive Stands (config : MaskConfig) (input : Text) : Text → Text → Prop
  | start : Stands config input [] input
  | skip {before rest : Text} {c : Char} (h : Stands config input before (c :: rest))
      (hstep : maskStep config before.length (c :: rest) = none) :
      Stands config input (before ++ [c]) rest
  | jump {before rest shown : Text} {c : Char} {length : Nat}
      (h : Stands config input before (c :: rest))
      (hstep : maskStep config before.length (c :: rest) = some (length, shown)) :
      Stands config input (before ++ (c :: rest).take length) ((c :: rest).drop length)

theorem Stands.append {before rest : Text} (h : Stands config input before rest) :
    before ++ rest = input := by
  induction h with
  | start => rfl
  | skip h hstep ih => rw [← ih, List.append_assoc, List.singleton_append]
  | jump h hstep ih => rw [← ih, List.append_assoc, List.take_append_drop]

/-- The pieces behind the scan and those of the rest. -/
theorem Stands.pieces (hp : Progresses config) {before rest : Text}
    (h : Stands config input before rest) :
    ∃ done : List Piece, done.flatMap Piece.source = before ∧
      maskLoop config input.length 0 input =
        done ++ maskLoop config rest.length before.length rest := by
  induction h with
  | start => exact ⟨[], rfl, rfl⟩
  | skip h hstep ih =>
      obtain ⟨done, hdone, hloop⟩ := ih
      refine ⟨done ++ [.kept _], by rw [List.flatMap_append, hdone]; rfl, ?_⟩
      rw [hloop, List.length_cons, maskLoop_kept _ hstep, List.append_assoc, List.length_append]
      rfl
  | @jump before rest shown c length h hstep ih =>
      obtain ⟨done, hdone, hloop⟩ := ih
      have hlength := hp _ _ _ _ hstep
      refine ⟨done ++ [.redacted ((c :: rest).take length) shown],
        by rw [List.flatMap_append, hdone, List.flatMap_singleton, Piece.source], ?_⟩
      rw [hloop, List.length_cons, maskLoop_redacted _ hstep, List.append_assoc,
        List.singleton_append]
      by_cases hlen : length ≤ (c :: rest).length
      · rw [List.length_append, List.length_take, Nat.min_eq_left hlen,
          maskLoop_fuel hp _ _ _ _ (drop_length_le hlength (Nat.le_refl _)) (Nat.le_refl _)]
      · rw [List.drop_eq_nil_of_le (by omega), maskLoop_nil, maskLoop_nil]

/-- A character that is kept is shown. -/
theorem Stands.uncovered (hp : Progresses config) {before rest : Text} {c : Char}
    (h : Stands config input before (c :: rest))
    (hstep : maskStep config before.length (c :: rest) = none) :
    (covered (maskLoop config input.length 0 input))[before.length]? = some false := by
  obtain ⟨done, hdone, hloop⟩ := h.pieces hp
  have hlen : (covered done).length = before.length := by rw [length_covered, hdone]
  rw [hloop, List.length_cons, maskLoop_kept _ hstep, covered, List.flatMap_append, ← covered,
    List.getElem?_append_right (by omega), hlen, Nat.sub_self]
  rfl

/-- A character that is shown was kept. -/
theorem Stands.of_uncovered (hp : Progresses config) (n : Nat) : ∀ {before rest : Text},
    Stands config input before rest → rest.length ≤ n → ∀ k,
      (covered (maskLoop config n before.length rest))[k]? = some false →
        ∃ before' c rest', Stands config input before' (c :: rest') ∧
          maskStep config before'.length (c :: rest') = none ∧
            before'.length = before.length + k := by
  -- the induction is on the length of the rest, since a redaction jumps over several characters
  induction n with
  | zero =>
      intro before rest _ _ k hk
      cases hk
  | succ n ih =>
      intro before rest h hn k hk
      cases rest with
      | nil => cases hk
      | cons c rest =>
          simp only [List.length_cons, Nat.add_le_add_iff_right] at hn
          cases hstep : maskStep config before.length (c :: rest) with
          | none =>
              cases k with
              | zero => exact ⟨before, c, rest, h, hstep, rfl⟩
              | succ k =>
                  rw [maskLoop_kept n hstep] at hk
                  have hnext : before.length + 1 = (before ++ [c]).length := by simp
                  rw [hnext] at hk
                  obtain ⟨before', c', rest', hstands, hnone, hlen⟩ := ih (h.skip hstep) hn k hk
                  exact ⟨before', c', rest', hstands, hnone, by rw [hlen, ← hnext]; omega⟩
          | some step =>
              have hlength := hp _ _ step.1 step.2 hstep
              rw [maskLoop_redacted n hstep, covered, List.flatMap_cons, ← covered] at hk
              have hshort : (Piece.covered (.redacted ((c :: rest).take step.1) step.2)).length =
                  ((c :: rest).take step.1).length := List.length_map _
              by_cases hin : k < ((c :: rest).take step.1).length
              · -- inside the redaction
                rw [List.getElem?_append_left (by omega), Piece.covered, List.getElem?_map] at hk
                obtain ⟨_, _, hfalse⟩ := Option.map_eq_some_iff.mp hk
                cases hfalse
              -- behind the redaction, where the scan stands again
              · rw [List.getElem?_append_right (by omega), hshort] at hk
                by_cases hlen : step.1 ≤ (c :: rest).length
                · have htake : ((c :: rest).take step.1).length = step.1 := by
                    rw [List.length_take, Nat.min_eq_left hlen]
                  have hnext : before.length + step.1 =
                      (before ++ (c :: rest).take step.1).length := by
                    rw [List.length_append, htake]
                  rw [hnext, htake] at hk
                  rw [htake] at hin
                  obtain ⟨before', c', rest', hstands, hnone, hpos⟩ :=
                    ih (h.jump hstep) (drop_length_le hlength hn) _ hk
                  exact ⟨before', c', rest', hstands, hnone, by rw [hpos, ← hnext]; omega⟩
                · rw [List.drop_eq_nil_of_le (by omega), maskLoop_nil] at hk
                  cases hk

/-- A character is shown exactly if the scan stands there and nothing starts. -/
theorem uncovered_iff (hp : Progresses config) (k : Nat) :
    (covered (maskLoop config input.length 0 input))[k]? = some false ↔
      ∃ before c rest, Stands config input before (c :: rest) ∧
        maskStep config before.length (c :: rest) = none ∧ before.length = k := by
  constructor
  · intro h
    obtain ⟨before, c, rest, hstands, hnone, hlen⟩ :=
      Stands.of_uncovered hp input.length .start (Nat.le_refl _) k h
    exact ⟨before, c, rest, hstands, hnone, by rw [hlen]; exact Nat.zero_add k⟩
  · rintro ⟨before, c, rest, hstands, hnone, rfl⟩
    exact hstands.uncovered hp hnone

/-! ## Exact masking -/

/-- The configuration of `mask_secrets`. -/
def exactConfig (exclude secrets : List Text) : MaskConfig where
  sorted := sortedSecrets none exclude secrets

theorem maskPieces_exact : maskPieces input secrets [] exclude false none =
    maskLoop (exactConfig exclude secrets) input.length 0 input := by
  have hspans : patternSpans [] input = [] := by simp [patternSpans, mergePatternSpans]
  unfold maskPieces
  rw [hspans]
  rfl

theorem mem_foldl_pushDistinct (more values : List Text) (s : Text) :
    s ∈ more.foldl pushDistinct values ↔ s ∈ values ∨ s ∈ more := by
  induction more generalizing values with
  | nil => simp
  | cons a more ih =>
      rw [List.foldl_cons, ih, List.mem_cons]
      unfold pushDistinct
      split
      · next hmem =>
          rw [List.contains_iff_mem] at hmem
          constructor
          · exact fun h => h.imp_right .inr
          · rintro (h | rfl | h)
            · exact .inl h
            · exact .inl hmem
            · exact .inr h
      · rw [List.mem_append, List.mem_singleton, or_assoc]

/-- Exact masking looks for the values it is given. -/
theorem mem_sortedSecrets (s : Text) :
    s ∈ sortedSecrets none exclude secrets ↔ s ∈ maskable exclude secrets := by
  have hfold : (maskable exclude secrets).foldl (pushExpanded none) [] =
      (maskable exclude secrets).foldl pushDistinct [] := rfl
  unfold sortedSecrets
  rw [List.mem_insertionSort, hfold, mem_foldl_pushDistinct]
  simp

/-! ## The walk -/

/-- What a walk jumps over: the values that are masked, and markers that are there already. -/
def obstacles (exclude secrets : List Text) : List Text := maskMarker :: maskable exclude secrets

/-- A walk through the input from its left end. At each place it jumps over the longest of the
    texts that starts there, and where none does it passes one character. -/
inductive Walks (texts : List Text) (input : Text) : Text → Text → Prop
  | start : Walks texts input [] input
  | pass {before rest : Text} {c : Char} (h : Walks texts input before (c :: rest))
      (hnone : ∀ t ∈ texts, ¬ t <+: c :: rest) : Walks texts input (before ++ [c]) rest
  | jump {before rest t : Text} (h : Walks texts input before (t ++ rest)) (ht : t ∈ texts)
      (hlongest : ∀ other ∈ texts, other <+: t ++ rest → other.length ≤ t.length) :
      Walks texts input (before ++ t) rest

/-- Something starts at the text: a value, or an existing marker. -/
def Starts (exclude secrets : List Text) (rest : Text) : Prop :=
  ∃ t ∈ obstacles exclude secrets, t <+: rest

theorem obstacle_ne_nil {t : Text} (h : t ∈ obstacles exclude secrets) : t ≠ [] := by
  rcases List.mem_cons.mp h with rfl | h
  · decide
  · have hkept := (List.mem_filter.mp h).2
    rw [Bool.and_eq_true, decide_eq_true_eq] at hkept
    exact hkept.1

/-- What begins alike is the longer in bytes the more characters it has. -/
theorem utf8Len_lt_of_prefix {s t : Text} (h : s <+: t) (hlt : s.length < t.length) :
    Text.utf8Len s < Text.utf8Len t := by
  obtain ⟨more, rfl⟩ := h
  cases more with
  | nil =>
      rw [List.append_nil] at hlt
      exact absurd hlt (lt_irrefl _)
  | cons c more =>
      simp only [Text.utf8Len, List.map_append, List.map_cons, List.sum_append, List.sum_cons]
      have hc : 0 < c.utf8Size := c.utf8Size_pos
      omega

/-- The values are looked for from the longest on, so what is found is the longest there is. -/
theorem matchSecretAt_longest {rest s : Text}
    (h : matchSecretAt rest (sortedSecrets none exclude secrets) false = some s) :
    s ∈ maskable exclude secrets ∧ s <+: rest ∧
      ∀ other ∈ maskable exclude secrets, other <+: rest → other.length ≤ s.length := by
  obtain ⟨hfound, shorter, longer, hsplit, hbefore⟩ := List.find?_eq_some_iff_append.mp h
  have hstart : s <+: rest := List.isPrefixOf_iff_prefix.mp hfound
  have hmem : s ∈ sortedSecrets none exclude secrets := by
    rw [hsplit]
    exact List.mem_append_right _ List.mem_cons_self
  refine ⟨(mem_sortedSecrets s).mp hmem, hstart, fun other hother hprefix => ?_⟩
  have hsorted : (sortedSecrets none exclude secrets).Pairwise
      fun a b => Text.utf8Len b ≤ Text.utf8Len a := by
    have : Std.Total fun a b : Text => Text.utf8Len b ≤ Text.utf8Len a :=
      ⟨fun a b => Nat.le_total _ _⟩
    have : IsTrans Text fun a b => Text.utf8Len b ≤ Text.utf8Len a :=
      ⟨fun a b c hab hbc => hbc.trans hab⟩
    exact List.pairwise_insertionSort _ _
  rw [← mem_sortedSecrets, hsplit, List.mem_append, List.mem_cons] at hother
  rw [hsplit, List.pairwise_append, List.pairwise_cons] at hsorted
  rcases hother with hother | rfl | hother
  · -- what stands before the value in the order does not start here
    have hnot := hbefore other hother
    rw [Bool.not_eq_true', if_neg Bool.false_ne_true, ← Bool.not_eq_true,
      List.isPrefixOf_iff_prefix] at hnot
    exact absurd hprefix hnot
  · exact Nat.le_refl _
  · -- and what stands behind it has no more bytes
    by_contra hlt
    rw [Nat.not_le] at hlt
    have hlonger := utf8Len_lt_of_prefix
      (List.prefix_of_prefix_length_le hstart hprefix hlt.le) hlt
    exact absurd (hsorted.2.1.1 other hother) (Nat.not_le.mpr hlonger)

theorem matchSecretAt_none {rest : Text}
    (h : matchSecretAt rest (sortedSecrets none exclude secrets) false = none) :
    ∀ s ∈ maskable exclude secrets, ¬ s <+: rest := by
  intro s hs hstart
  have hnot := List.find?_eq_none.mp h s ((mem_sortedSecrets s).mpr hs)
  rw [if_neg Bool.false_ne_true, List.isPrefixOf_iff_prefix] at hnot
  exact hnot hstart

/-- One round of exact masking. -/
theorem maskStep_exact (offset : Nat) (rest : Text) :
    maskStep (exactConfig exclude secrets) offset rest =
      match matchSecretAt rest (sortedSecrets none exclude secrets) false with
      | some s =>
        if maskMarker.isPrefixOf rest && s.length ≤ maskMarker.length then
          some (maskMarker.length, maskMarker)
        else some (s.length, maskMarker)
      | none =>
        if maskMarker.isPrefixOf rest then some (maskMarker.length, maskMarker) else none := by
  unfold maskStep exactConfig spanAt
  cases matchSecretAt rest (sortedSecrets none exclude secrets) false <;> rfl

/-- A round that redacts jumps over the longest obstacle that starts at its place. -/
theorem maskStep_some {offset length : Nat} {rest shown : Text}
    (h : maskStep (exactConfig exclude secrets) offset rest = some (length, shown)) :
    ∃ t ∈ obstacles exclude secrets, t <+: rest ∧ t.length = length ∧
      ∀ other ∈ obstacles exclude secrets, other <+: rest → other.length ≤ t.length := by
  rw [maskStep_exact] at h
  cases hmatch : matchSecretAt rest (sortedSecrets none exclude secrets) false with
  | none =>
      rw [hmatch] at h
      dsimp only at h
      split at h
      · next hmarker =>
          cases h
          refine ⟨maskMarker, List.mem_cons_self, List.isPrefixOf_iff_prefix.mp hmarker, rfl,
            fun other hother hprefix => ?_⟩
          rcases List.mem_cons.mp hother with rfl | hother
          · exact Nat.le_refl _
          · exact absurd hprefix (matchSecretAt_none hmatch other hother)
      · cases h
  | some s =>
      obtain ⟨hs, hstart, hlongest⟩ := matchSecretAt_longest hmatch
      rw [hmatch] at h
      dsimp only at h
      split at h
      · next hmarker =>
          -- the marker is at least as long as the value
          rw [Bool.and_eq_true, decide_eq_true_eq, List.isPrefixOf_iff_prefix] at hmarker
          cases h
          refine ⟨maskMarker, List.mem_cons_self, hmarker.1, rfl, fun other hother hprefix => ?_⟩
          rcases List.mem_cons.mp hother with rfl | hother
          · exact Nat.le_refl _
          · exact (hlongest other hother hprefix).trans hmarker.2
      · next hmarker =>
          rw [Bool.and_eq_true, decide_eq_true_eq, List.isPrefixOf_iff_prefix, not_and,
            Nat.not_le] at hmarker
          cases h
          refine ⟨s, List.mem_cons_of_mem _ hs, hstart, rfl, fun other hother hprefix => ?_⟩
          rcases List.mem_cons.mp hother with rfl | hother
          · exact (hmarker hprefix).le
          · exact hlongest other hother hprefix

theorem maskStep_none_iff (offset : Nat) (rest : Text) :
    maskStep (exactConfig exclude secrets) offset rest = none ↔ ¬ Starts exclude secrets rest := by
  cases hstep : maskStep (exactConfig exclude secrets) offset rest with
  | some step =>
      obtain ⟨t, ht, hstart, -⟩ := maskStep_some hstep
      exact ⟨nofun, fun h => absurd ⟨t, ht, hstart⟩ h⟩
  | none =>
      refine ⟨fun _ => ?_, fun _ => rfl⟩
      rintro ⟨t, ht, hstart⟩
      rw [maskStep_exact] at hstep
      cases hmatch : matchSecretAt rest (sortedSecrets none exclude secrets) false with
      | some s =>
          rw [hmatch] at hstep
          dsimp only at hstep
          split at hstep <;> cases hstep
      | none =>
          rw [hmatch] at hstep
          dsimp only at hstep
          rcases List.mem_cons.mp ht with rfl | ht
          · rw [if_pos (List.isPrefixOf_iff_prefix.mpr hstart)] at hstep
            cases hstep
          · exact matchSecretAt_none hmatch t ht hstart

theorem progresses_exact : Progresses (exactConfig exclude secrets) := by
  intro offset rest length shown h
  obtain ⟨t, ht, -, rfl, -⟩ := maskStep_some h
  exact List.length_pos_iff.mpr (obstacle_ne_nil ht)

/-- The scan takes the walk. -/
theorem stands_iff_walks {before rest : Text} :
    Stands (exactConfig exclude secrets) input before rest ↔
      Walks (obstacles exclude secrets) input before rest := by
  constructor
  · intro h
    induction h with
    | start => exact .start
    | skip h hstep ih =>
        have hnot := (maskStep_none_iff _ _).mp hstep
        exact ih.pass fun t ht hstart => hnot ⟨t, ht, hstart⟩
    | @jump before rest shown c length h hstep ih =>
        obtain ⟨t, ht, ⟨more, hmore⟩, rfl, hlongest⟩ := maskStep_some hstep
        rw [← hmore] at ih hlongest ⊢
        rw [List.take_left, List.drop_left]
        exact ih.jump ht hlongest
  · intro h
    induction h with
    | start => exact .start
    | pass h hnone ih =>
        refine ih.skip ((maskStep_none_iff _ _).mpr ?_)
        rintro ⟨t, ht, hstart⟩
        exact hnone t ht hstart
    | @jump before rest t h ht hlongest ih =>
        cases hstep : maskStep (exactConfig exclude secrets) before.length (t ++ rest) with
        | none => exact absurd ⟨t, ht, List.prefix_append t rest⟩ ((maskStep_none_iff _ _).mp hstep)
        | some step =>
            -- two longest texts at one place have the same length
            obtain ⟨found, hfound, hstart, hlength, hfar⟩ := maskStep_some hstep
            have hsame : step.1 = t.length := by
              have hle := hlongest found hfound hstart
              have hge := hfar t ht (List.prefix_append t rest)
              omega
            obtain ⟨c, t, rfl⟩ := List.exists_cons_of_ne_nil (obstacle_ne_nil ht)
            have hjump : Stands (exactConfig exclude secrets) input
                (before ++ ((c :: t) ++ rest).take step.1) (((c :: t) ++ rest).drop step.1) :=
              ih.jump hstep
            rw [hsame, List.take_left, List.drop_left] at hjump
            exact hjump

/-! ## When masking leaves nothing -/

/-- Every character inside an occurrence of a value is redacted. -/
def LeavesNothing (input : Text) (secrets exclude : List Text) : Prop :=
  ∀ s ∈ maskable exclude secrets, ∀ i, s <+: input.drop i → ∀ k, i ≤ k → k < i + s.length →
    (covered (maskPieces input secrets [] exclude false none))[k]? = some true

/-- An occurrence of the value began before the text and is not over. -/
def Straddles (s before rest : Text) : Prop :=
  ∃ a b, a ≠ [] ∧ b ≠ [] ∧ s = a ++ b ∧ a <:+ before ∧ b <+: rest

/-- The walk over values and markers never comes to a character at which none of them starts
    while an occurrence of a value is not over. -/
def NeverStranded (input : Text) (secrets exclude : List Text) : Prop :=
  ∀ before c rest, Walks (obstacles exclude secrets) input before (c :: rest) →
    ¬ Starts exclude secrets (c :: rest) →
      ∀ s ∈ maskable exclude secrets, ¬ Straddles s before (c :: rest)

/-- An occurrence that began at `i` reaches over the end of `before`. -/
theorem straddles_of_occurs {s before rest : Text} {i : Nat} (hi : i < before.length)
    (hs : s <+: (before ++ rest).drop i) (hend : before.length < i + s.length) :
    Straddles s before rest := by
  rw [List.drop_append_of_le_length hi.le] at hs
  obtain ⟨more, hmore⟩ := hs
  have hlen : (before.drop i).length < s.length := by
    rw [List.length_drop]
    omega
  have hpre : before.drop i <+: s :=
    List.prefix_of_prefix_length_le ⟨_, rfl⟩ ⟨more, hmore⟩ hlen.le
  obtain ⟨b, rfl⟩ := hpre
  rw [List.append_assoc, List.append_cancel_left_eq] at hmore
  refine ⟨before.drop i, b, ?_, ?_, rfl, List.drop_suffix i before, ⟨more, hmore⟩⟩
  · rw [ne_eq, List.drop_eq_nil_iff]
    omega
  · rintro rfl
    rw [List.append_nil] at hlen
    exact lt_irrefl _ hlen

theorem occurs_of_straddles {s before rest : Text} (h : Straddles s before rest) :
    ∃ i < before.length, s <+: (before ++ rest).drop i ∧ before.length < i + s.length := by
  obtain ⟨a, b, ha, hb, rfl, ⟨front, rfl⟩, ⟨more, rfl⟩⟩ := h
  have ha' := List.length_pos_iff.mpr ha
  have hb' := List.length_pos_iff.mpr hb
  refine ⟨front.length, by rw [List.length_append]; omega, ⟨more, ?_⟩, ?_⟩
  · simp
  · simp only [List.length_append]
    omega

end Masking

end Preloop
