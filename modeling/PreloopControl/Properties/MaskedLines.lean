import PreloopControl.Masking.Transforms
import PreloopControl.Properties.Masking

/-!
# Masking Keeps the Lines

A scan that preserves lines shows the line breaks of its input, in order, whatever the secrets,
the patterns and the encodings it looks for. Each piece does, and the pieces are the input.

A piece of several lines is shown with a marker for every line, so it keeps its breaks even where
a value runs over them. That the pieces are the whole input rests on every round of the scan
getting on, as it does when no value is empty.

## Main definitions

* `breaks`: The line breaks of a text.

## Theorems

* `breaks_linePreservingMarker`, `breaks_markerPerLine`: The markers of a piece.
* `progresses_of_ne_nil`: Every round of a scan gets on.
* `breaks_maskSecretsInner`, `count_maskSecretsInner`: The whole scan.
* `lines_preserved`: The entry points that preserve lines.
-/

namespace Preloop

namespace Masking

/-- No encoding of a secret is empty. -/
def Transforms.Solid (transforms : Option Transforms) : Prop :=
  ∀ t, transforms = some t → ∀ secret, [] ∉ t.variants secret

/-- The line breaks of a text, in order. -/
def breaks (t : Text) : Text := t.filter isNewline

theorem breaks_append (s t : Text) : breaks (s ++ t) = breaks s ++ breaks t :=
  List.filter_append _ _

theorem breaks_cons (c : Char) (t : Text) :
    breaks (c :: t) = if isNewline c then c :: breaks t else breaks t := List.filter_cons

/-! ## Markers -/

theorem breaks_maskMarker (t : Text) : breaks (maskMarker ++ t) = breaks t := by
  rw [breaks_append]
  rfl

theorem breaks_lineMarkers : ∀ span : Text, breaks (lineMarkers span) = breaks span
  | [] => rfl
  | [c] => by
      unfold lineMarkers
      rw [breaks_cons]
      by_cases hnew : isNewline c = true
      · rw [if_pos hnew, if_pos hnew, breaks_cons, if_pos hnew]
        rfl
      · rw [if_neg hnew, if_neg hnew]
  | c :: d :: t => by
      unfold lineMarkers
      by_cases hcrlf : (c = '\r' && d = '\n') = true
      · -- a return and a feed are one break, and both are shown
        rw [if_pos hcrlf]
        rw [Bool.and_eq_true, decide_eq_true_eq, decide_eq_true_eq] at hcrlf
        rcases hcrlf with ⟨rfl, rfl⟩
        rw [breaks_cons, breaks_cons, breaks_maskMarker, breaks_lineMarkers t, breaks_cons,
          breaks_cons]
      · rw [if_neg hcrlf, breaks_cons c (d :: t)]
        by_cases hnew : isNewline c = true
        · rw [if_pos hnew, if_pos hnew, breaks_cons, if_pos hnew, breaks_maskMarker,
            breaks_lineMarkers (d :: t)]
        · rw [if_neg hnew, if_neg hnew, breaks_lineMarkers (d :: t)]

theorem breaks_linePreservingMarker (span : Text) : breaks (linePreservingMarker span) =
    breaks span :=
  (breaks_maskMarker _).trans (breaks_lineMarkers span)

theorem breaks_markerPerLine (span : Text) : breaks (markerPerLine span) = breaks span := by
  unfold markerPerLine
  rw [breaks_maskMarker]
  induction span with
  | nil => rfl
  | cons c span ih =>
      rw [List.flatMap_cons, breaks_append, ih, breaks_cons]
      by_cases hnew : isNewline c = true
      · rw [if_pos hnew, if_pos hnew, breaks_cons, if_pos hnew]
        rfl
      · rw [if_neg hnew, if_neg hnew]
        rfl

/-! ## Every round gets on -/

theorem spanAt_pos {spans : List Span} {offset length : Nat}
    (h : spanAt spans offset = some length) :
    0 < length := by
  unfold spanAt at h
  rcases Option.map_eq_some_iff.mp h with ⟨span, hspan, rfl⟩
  have hlt : offset < span.2 := by simpa using List.find?_some (Option.mem_filter_iff.mp hspan).1
  omega

theorem ne_nil_of_pushDistinct {values : List Text} (hvalues : ∀ v ∈ values, v ≠ [])
    {value : Text} (hvalue : value ≠ []) : ∀ v ∈ pushDistinct values value, v ≠ [] := by
  intro v hv
  unfold pushDistinct at hv
  split at hv
  · exact hvalues v hv
  · rcases List.mem_append.mp hv with hv | hv
    · exact hvalues v hv
    · rw [List.mem_singleton.mp hv]
      exact hvalue

theorem ne_nil_of_foldl_pushDistinct {more values : List Text} (hvalues : ∀ v ∈ values, v ≠ [])
    (hmore : ∀ v ∈ more, v ≠ []) : ∀ v ∈ more.foldl pushDistinct values, v ≠ [] := by
  induction more generalizing values with
  | nil => exact hvalues
  | cons value more ih =>
      exact ih (ne_nil_of_pushDistinct hvalues (hmore value List.mem_cons_self))
        fun v hv => hmore v (List.mem_cons_of_mem value hv)

theorem ne_nil_of_pushExpanded {transforms : Option Transforms}
    (hsolid : Transforms.Solid transforms)
    {values : List Text} (hvalues : ∀ v ∈ values, v ≠ []) {secret : Text} (hsecret : secret ≠ []) :
    ∀ v ∈ pushExpanded transforms values secret, v ≠ [] := by
  unfold pushExpanded
  refine ne_nil_of_foldl_pushDistinct (ne_nil_of_pushDistinct hvalues hsecret) fun v hv => ?_
  cases transforms with
  | none => cases hv
  | some t =>
      rintro rfl
      exact hsolid t rfl secret hv

/-- The scan looks for no empty value. -/
theorem ne_nil_of_mem_sortedSecrets {transforms : Option Transforms}
    (hsolid : Transforms.Solid transforms) {exclude secrets : List Text} {s : Text}
    (hs : s ∈ sortedSecrets transforms exclude secrets) : s ≠ [] := by
  have hall : ∀ (secrets values : List Text), (∀ v ∈ values, v ≠ []) → (∀ v ∈ secrets, v ≠ []) →
      ∀ v ∈ secrets.foldl (pushExpanded transforms) values, v ≠ [] := by
    intro secrets
    induction secrets with
    | nil => exact fun values hvalues _ => hvalues
    | cons secret secrets ih =>
        intro values hvalues hsecrets
        exact ih _ (ne_nil_of_pushExpanded hsolid hvalues (hsecrets secret List.mem_cons_self))
          fun v hv => hsecrets v (List.mem_cons_of_mem secret hv)
  refine hall (maskable exclude secrets) [] (by simp) (fun v hv => ?_) s
    ((List.mem_insertionSort _).mp hs)
  have hne := (List.mem_filter.mp hv).2
  simp at hne
  exact hne.1

/-- Every round of a scan gets on, unless it looks for an empty value. -/
theorem progresses_of_ne_nil {config : MaskConfig} (hsorted : ∀ s ∈ config.sorted, s ≠ []) :
    Progresses config := by
  intro offset rest length shown h
  have hmarker : 0 < maskMarker.length := by decide
  -- what covers a character is an alignment, a value that occurs there or a span of a pattern
  unfold maskStep at h
  cases halign : spanAt config.alignment offset with
  | some n =>
      rw [halign] at h
      cases h
      exact spanAt_pos halign
  | none =>
      rw [halign] at h
      dsimp only at h
      cases hlong : longest
        ((matchSecretAt rest config.sorted config.transformAware).map List.length)
          (spanAt config.spans offset) with
      | none =>
          rw [hlong] at h
          dsimp only at h
          split at h
          · cases h
            exact hmarker
          · cases h
      | some n =>
          have hn : 0 < n := by
            cases hmatch : matchSecretAt rest config.sorted config.transformAware with
            | none =>
                rw [hmatch] at hlong
                exact spanAt_pos hlong
            | some s =>
                have hpos := List.length_pos_iff.mpr
                  (hsorted s (List.mem_of_find?_eq_some hmatch))
                rw [hmatch] at hlong
                cases hspan : spanAt config.spans offset with
                | none =>
                    rw [hspan] at hlong
                    cases hlong
                    exact hpos
                | some m =>
                    rw [hspan] at hlong
                    cases hlong
                    exact lt_of_lt_of_le hpos (Nat.le_max_left _ _)
          rw [hlong] at h
          dsimp only at h
          split at h
          · cases h
            exact hmarker
          · split at h <;> cases h <;> exact hn

/-! ## The scan -/

/-- What is shown for what a round redacts has its line breaks. -/
theorem breaks_maskStep {config : MaskConfig} (hlines : config.preserveLines = true) {offset : Nat}
    {rest shown : Text} {length : Nat} (h : maskStep config offset rest = some (length, shown)) :
    breaks shown = breaks (rest.take length) := by
  have hmarker (hpre : maskMarker.isPrefixOf rest = true) :
      breaks maskMarker = breaks (rest.take maskMarker.length) := by
    rw [← List.prefix_iff_eq_take.mp (List.isPrefixOf_iff_prefix.mp hpre)]
  unfold maskStep at h
  split at h
  · cases h
    exact breaks_linePreservingMarker _
  · dsimp only at h
    split at h
    · rw [if_pos hlines] at h
      split at h
      · rename_i hpre
        cases h
        exact hmarker (Bool.and_eq_true_iff.mp hpre).1
      · cases h
        exact breaks_markerPerLine _
    · split at h
      · rename_i hpre
        cases h
        exact hmarker hpre
      · cases h

theorem breaks_maskLoop {config : MaskConfig} (hlines : config.preserveLines = true)
    (n offset : Nat) (rest : Text) :
    breaks ((maskLoop config n offset rest).flatMap Piece.text) =
      breaks ((maskLoop config n offset rest).flatMap Piece.source) := by
  induction n generalizing offset rest with
  | zero => rfl
  | succ n ih =>
      cases rest with
      | nil => rfl
      | cons c rest =>
          cases hstep : maskStep config offset (c :: rest) with
          | none =>
              rw [maskLoop_kept n hstep, List.flatMap_cons, List.flatMap_cons, breaks_append,
                breaks_append, ih]
              rfl
          | some step =>
              rw [maskLoop_redacted n hstep, List.flatMap_cons, List.flatMap_cons, breaks_append,
                breaks_append, ih]
              exact congrArg (· ++ _) (breaks_maskStep hlines hstep)

/-- A scan that preserves lines shows the line breaks of its input. -/
theorem breaks_maskSecretsInner {transforms : Option Transforms}
    (hsolid : Transforms.Solid transforms) (input : Text) (secrets : List Text)
    (patterns : List (Text → List Span)) (exclude : List Text) :
    breaks (maskSecretsInner input secrets patterns exclude true transforms) = breaks input := by
  unfold maskSecretsInner maskPieces
  rw [breaks_maskLoop rfl, source_maskLoop]
  · exact progresses_of_ne_nil fun s hs => ne_nil_of_mem_sortedSecrets hsolid hs
  · exact Nat.le_refl _

/-- It shows as many line feeds as there were. -/
theorem count_maskSecretsInner {transforms : Option Transforms}
    (hsolid : Transforms.Solid transforms) (input : Text) (secrets : List Text)
    (patterns : List (Text → List Span)) (exclude : List Text) :
    (maskSecretsInner input secrets patterns exclude true transforms).count '\n' =
      input.count '\n' := by
  have hcount (t : Text) : (breaks t).count '\n' = t.count '\n' := List.count_filter rfl
  rw [← hcount, breaks_maskSecretsInner hsolid, hcount]

/-! ## The entry points -/

theorem nil_notMem_foldl_pushUnique (raw : Text) (values : List Text) : ∀ {out : List Text},
    [] ∉ out → [] ∉ values.foldl (pushUnique raw) out := by
  induction values with
  | nil => exact fun h => h
  | cons value values ih =>
      intro out h
      refine ih ?_
      unfold pushUnique
      split
      · next hcond =>
          rw [Bool.and_eq_true, Bool.and_eq_true, decide_eq_true_eq] at hcond
          intro hmem
          rcases List.mem_append.mp hmem with hmem | hmem
          · exact h hmem
          · exact hcond.1.1 (List.mem_singleton.mp hmem).symm
      · exact h

/-- The variants of a secret are not empty. -/
theorem solid_transformsOf (transformAware : Bool) :
    Transforms.Solid (transformsOf transformAware) := by
  intro t ht secret
  unfold transformsOf at ht
  split at ht
  · cases ht
    show [] ∉ secretVariants secret
    unfold secretVariants
    split
    · exact List.not_mem_nil
    · exact nil_notMem_foldl_pushUnique secret _ List.not_mem_nil
  · cases ht

/-- The entry points that preserve lines show the line breaks of their input, in order. -/
theorem lines_preserved (input : Text) (secrets : List Text) (patterns : List (Text → List Span))
    (exclude : List Text) :
    breaks (maskSecretsPreservingLines input secrets exclude) = breaks input ∧
    breaks (maskSecretsPreservingLinesWithPatterns input secrets patterns exclude) = breaks input ∧
    breaks (maskSecretsPreservingLinesTransformAware input secrets exclude) = breaks input ∧
    breaks (maskSecretsPreservingLinesTransformAwareWithPatterns input secrets patterns exclude) =
      breaks input :=
  ⟨breaks_maskSecretsInner (solid_transformsOf false) input secrets [] exclude,
    breaks_maskSecretsInner (solid_transformsOf false) input secrets patterns exclude,
    breaks_maskSecretsInner (solid_transformsOf true) input secrets [] exclude,
    breaks_maskSecretsInner (solid_transformsOf true) input secrets patterns exclude⟩

end Masking

end Preloop
