import PreloopControl.Lib.Text

/-!
# Masking

The redaction of secrets in texts (`masking.rs`): one scan over the input that replaces
what it finds at each place by a marker.

The scan is modelled as the list of its pieces, each with the span of the input it
stands for, so that what is redacted can be told from what is shown. Positions are
counted in characters; the source counts bytes and never stops inside a character.

What transform-aware masking adds to the values is a parameter of the scan: further
texts to look for, and spans that are redacted as a whole. So are the spans of the
regular expressions of a job.

## Main definitions

* `Piece`: A piece of the input and what is shown for it.
* `sortedSecrets`: The values the scan looks for, longest first.
* `maskStep`, `maskLoop`: One round of the scan, and the scan.
* `maskSecretsInner`, `maskSecrets`: The scan of `mask_secrets_inner`, and the exact one.
-/

namespace Preloop

namespace Masking

/-- A range of positions, without its end. -/
abbrev Span := Nat × Nat

/-- `MASK_MARKER`. -/
def maskMarker : Text := "***".toList

/-- A piece of the input, with the text that is shown for it. -/
inductive Piece
  | kept (c : Char)
  | redacted (span shown : Text)
deriving DecidableEq, Repr

/-- What the piece stands for. -/
def Piece.source : Piece → Text
  | .kept c => [c]
  | .redacted span _ => span

/-- What is shown. -/
def Piece.text : Piece → Text
  | .kept c => [c]
  | .redacted _ shown => shown

/-! ## The values -/

/-- A value is added once. -/
def pushDistinct (values : List Text) (value : Text) : List Text :=
  if values.contains value then values else values ++ [value]

/-- Transform-aware masking: the variants of a value, and the spans that decode to one. -/
structure Transforms where
  variants : Text → List Text
  alignmentSpans : Text → List Text → List Span

/-- The values that are masked: not empty and not excluded. -/
def maskable (exclude secrets : List Text) : List Text :=
  secrets.filter fun s => s ≠ [] && !exclude.contains s

/-- A value and its variants. -/
def pushExpanded (transforms : Option Transforms) (values : List Text) (secret : Text) :
    List Text :=
  (transforms.elim [] fun t => t.variants secret).foldl pushDistinct (pushDistinct values secret)

/-- The values the scan looks for, longest first. -/
def sortedSecrets (transforms : Option Transforms) (exclude secrets : List Text) : List Text :=
  ((maskable exclude secrets).foldl (pushExpanded transforms) []).insertionSort
    fun a b => Text.utf8Len b ≤ Text.utf8Len a

/-- `match_secret_at`. -/
def matchSecretAt (remaining : Text) (secrets : List Text) (caseInsensitive : Bool) :
    Option Text :=
  secrets.find? fun secret =>
    if caseInsensitive then
      secret.length ≤ remaining.length &&
        Text.eqIgnoreAsciiCase (remaining.take secret.length) secret
    else secret.isPrefixOf remaining

/-! ## Spans -/

/-- Sorted spans, overlapping or touching ones as one. -/
def mergeSorted : Span → List Span → List Span
  | last, [] => [last]
  | last, span :: spans =>
    if span.1 ≤ last.2 then mergeSorted (last.1, max last.2 span.2) spans
    else last :: mergeSorted span spans

/-- `merge_pattern_spans`. -/
def mergePatternSpans (spans : List Span) : List Span :=
  match spans.insertionSort fun a b => a.1 < b.1 ∨ a.1 = b.1 ∧ a.2 ≤ b.2 with
  | [] => []
  | span :: spans => mergeSorted span spans

/-- The spans of all patterns over the input, without empty ones and those that leave
    it. -/
def patternSpans (patterns : List (Text → List Span)) (input : Text) : List Span :=
  mergePatternSpans <| (patterns.flatMap fun find => find input).filter fun span =>
    span.1 < span.2 && span.2 ≤ input.length

/-- The first span that is not behind the position, if it covers it: how much is left. -/
def spanAt (spans : List Span) (offset : Nat) : Option Nat :=
  ((spans.find? fun span => offset < span.2).filter fun span => span.1 ≤ offset).map
    fun span => span.2 - offset

/-! ## What is shown -/

/-- A line break. -/
def isNewline (c : Char) : Bool := c = '\n' || c = '\r'

/-- One marker for each physical line; every line break ends one. -/
def markerPerLine (span : Text) : Text :=
  maskMarker ++ span.flatMap fun c => if isNewline c then c :: maskMarker else []

/-- The lines of `push_line_preserving_marker` after the first marker. -/
def lineMarkers : Text → Text
  | [] => []
  | [c] => if isNewline c then c :: maskMarker else []
  | c :: d :: t =>
    if c = '\r' && d = '\n' then c :: d :: (maskMarker ++ lineMarkers t)
    else if isNewline c then c :: (maskMarker ++ lineMarkers (d :: t))
    else lineMarkers (d :: t)

/-- `push_line_preserving_marker`: a carriage return and a line feed are one break. -/
def linePreservingMarker (span : Text) : Text := maskMarker ++ lineMarkers span

/-! ## The scan -/

/-- What the scan is set up with. -/
structure MaskConfig where
  sorted : List Text
  transformAware : Bool := false
  preserveLines : Bool := false
  alignment : List Span := []
  spans : List Span := []

/-- The longer of two matches. -/
def longest : Option Nat → Option Nat → Option Nat
  | some value, some pattern => some (max value pattern)
  | some length, none => some length
  | none, other => other

/-- One round of the scan: the number of characters that are redacted and what is shown
    for them, or nothing if the first one is kept. -/
def maskStep (config : MaskConfig) (offset : Nat) (remaining : Text) : Option (Nat × Text) :=
  match spanAt config.alignment offset with
  | some length => some (length, linePreservingMarker (remaining.take length))
  | none =>
    let value := (matchSecretAt remaining config.sorted config.transformAware).map List.length
    match longest value (spanAt config.spans offset) with
    | some length =>
      -- a value within an existing marker takes the whole marker
      if maskMarker.isPrefixOf remaining && length ≤ maskMarker.length then
        some (maskMarker.length, maskMarker)
      else if config.preserveLines then some (length, markerPerLine (remaining.take length))
      else some (length, maskMarker)
    | none =>
      if maskMarker.isPrefixOf remaining then some (maskMarker.length, maskMarker) else none

/-- The loop of `mask_secrets_inner`. -/
def maskLoop (config : MaskConfig) : Nat → Nat → Text → List Piece
  | 0, _, _ => []
  | _, _, [] => []
  | n + 1, offset, c :: t =>
    match maskStep config offset (c :: t) with
    | some (length, shown) =>
      .redacted ((c :: t).take length) shown ::
        maskLoop config n (offset + length) ((c :: t).drop length)
    | none => .kept c :: maskLoop config n (offset + 1) t

/-- The pieces of `mask_secrets_inner`. -/
def maskPieces (input : Text) (secrets : List Text) (patterns : List (Text → List Span))
    (exclude : List Text) (preserveLines : Bool) (transforms : Option Transforms) : List Piece :=
  maskLoop
    { sorted := sortedSecrets transforms exclude secrets
      transformAware := transforms.isSome
      preserveLines := preserveLines
      alignment := transforms.elim [] fun t =>
        t.alignmentSpans input ((maskable exclude secrets).foldl pushDistinct [])
      spans := patternSpans patterns input }
    input.length 0 input

/-- `mask_secrets_inner`. -/
def maskSecretsInner (input : Text) (secrets : List Text) (patterns : List (Text → List Span))
    (exclude : List Text) (preserveLines : Bool) (transforms : Option Transforms) : Text :=
  (maskPieces input secrets patterns exclude preserveLines transforms).flatMap Piece.text

/-- `mask_secrets`. -/
def maskSecrets (input : Text) (secrets exclude : List Text) : Text :=
  maskSecretsInner input secrets [] exclude false none

end Masking

end Preloop
