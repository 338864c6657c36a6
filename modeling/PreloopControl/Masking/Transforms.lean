import PreloopControl.Lib.Base64
import PreloopControl.Lib.Bytes
import PreloopControl.Masking.Scan

/-!
# What Transform-Aware Masking Looks For

The encodings of a secret (`secret_variants`), and the segments of an input that decode to bytes
with a secret in them (`base64_alignment_spans`). A segment is decoded at the four places in which
its groups can begin, so that what stands before a secret in the encoded bytes does not hide it.
Segments end at `=` and, in a run that mixes the two alphabets, at the characters of the other
alphabet; lines of wrapped base64 are joined.

Positions are counted in characters. The characters of a segment have one byte each.

## Main definitions

* `secretVariants`: The encodings of a secret.
* `AlignmentScanner`, `segmentTainted`: The secrets to look for, and the test of a segment.
* `candidates`: The segments of an input.
* `base64AlignmentSpans`: The spans to redact.
* `maskSecretsPreservingLines` and its variants: The entry points of `masking.rs` that keep lines.
-/

namespace Preloop

namespace Masking

open Base64 (Alphabet)

/-! ## Variants -/

/-- `push_unique`. -/
def pushUnique (raw : Text) (out : List Text) (value : Text) : List Text :=
  if value ≠ [] && value ≠ raw && !out.contains value then out ++ [value] else out

/-- `{b:02x}`. -/
def lowerHex (bytes : List UInt8) : Text := Bytes.hex bytes

/-- `{b:02X}`. -/
def upperHex (bytes : List UInt8) : Text := (Bytes.hex bytes).map Char.toUpper

/-- A byte that stays literal in a URL. -/
def isUnreserved (b : UInt8) : Bool :=
  (Char.ofNat b.toNat).isAlphanum || "-_.~".toList.contains (Char.ofNat b.toNat)

/-- Percent-encoding. -/
def percentEncode (bytes : List UInt8) : Text :=
  bytes.flatMap fun b => if isUnreserved b then [Char.ofNat b.toNat] else '%' :: upperHex [b]

/-- `secret_variants`. -/
def secretVariants (secret : Text) : List Text :=
  if secret = [] then []
  else
    let bytes := Bytes.utf8 secret
    [Base64.encodePadded .standard bytes, Base64.encode .standard bytes,
      Base64.encodePadded .urlSafe bytes, Base64.encode .urlSafe bytes, percentEncode bytes,
      lowerHex bytes, upperHex bytes].foldl (pushUnique secret) []

/-! ## The scanner -/

/-- `MIN_ELIGIBLE_SECRET_LEN`. -/
def minEligibleSecretLen : Nat := 4

/-- `encoded_len`. -/
def encodedLen (byteLen : Nat) : Nat := (4 * byteLen + 2) / 3

/-- `u8::to_ascii_lowercase`. -/
def asciiLower (b : UInt8) : UInt8 := if 65 ≤ b && b ≤ 90 then b + 32 else b

/-- `AlignmentScanner`. -/
structure AlignmentScanner where
  needles : List (List UInt8)
  minLen : Nat

/-- `AlignmentScanner::new`. -/
def AlignmentScanner.new (rawSecrets : List Text) : Option AlignmentScanner :=
  let eligible := (rawSecrets.filter fun s => minEligibleSecretLen ≤ Text.utf8Len s).map fun s =>
    (Bytes.utf8 s).map asciiLower
  let needles := (eligible.insertionSort fun a b => b.length ≤ a.length).destutter (· ≠ ·)
  if needles.isEmpty then none
  else some { needles := needles, minLen := encodedLen minEligibleSecretLen }

/-- The needle stands at the front, in any case. -/
def startsIgnoringCase (haystack needle : List UInt8) : Bool :=
  needle.length ≤ haystack.length && (haystack.take needle.length).map asciiLower == needle

/-- `contains_subslice`; the needle is in lower case. -/
def containsSubslice : List UInt8 → List UInt8 → Bool
  | [], _ => false
  | b :: haystack, needle =>
    needle ≠ [] && startsIgnoringCase (b :: haystack) needle || containsSubslice haystack needle

/-- `decode_lenient`. -/
def decodeLenient (alphabet : Alphabet) (input : Text) : Option (List UInt8) :=
  Base64.decode alphabet
    (if input.length % 4 = 1 then input.take (input.length - 1) else input)

/-- A candidate decodes to bytes with a secret. -/
def AlignmentScanner.decodesToSecret (scanner : AlignmentScanner) (alphabet : Alphabet)
    (candidate : Text) : Bool :=
  (decodeLenient alphabet candidate).any fun decoded =>
    scanner.needles.any fun needle => containsSubslice decoded needle

/-- The loop over the places in which the groups can begin. -/
def AlignmentScanner.taintedAt (scanner : AlignmentScanner) (alphabet : Alphabet) (segment : Text) :
    List Nat → Bool
  | [] => false
  | trim :: trims =>
    if (segment.drop trim).length < scanner.minLen then false
    else scanner.decodesToSecret alphabet (segment.drop trim) ||
      scanner.taintedAt alphabet segment trims

/-- The characters that only the standard alphabet has. -/
def isStandardOnly (c : Char) : Bool := c = '+' || c = '/'

/-- The characters that only the URL-safe alphabet has. -/
def isUrlSafeOnly (c : Char) : Bool := c = '-' || c = '_'

/-- `AlignmentScanner::segment_tainted`. -/
def AlignmentScanner.segmentTainted (scanner : AlignmentScanner) (segment : Text) : Bool :=
  if segment.length < scanner.minLen then false
  else match segment.any isStandardOnly, segment.any isUrlSafeOnly with
    | true, true => false
    | false, true => scanner.taintedAt .urlSafe segment [0, 1, 2, 3]
    | _, false => scanner.taintedAt .standard segment [0, 1, 2, 3]

/-! ## Segments -/

/-- `is_base64_byte`. -/
def isBase64 (c : Char) : Bool := c.isAlphanum || isStandardOnly c || isUrlSafeOnly c || c = '='

/-- `AlphabetFamily::contains`. -/
def familyContains : Alphabet → Char → Bool
  | .standard, c => c.isAlphanum || isStandardOnly c
  | .urlSafe, c => c.isAlphanum || isUrlSafeOnly c

/-- The part of a text from one position to another. -/
def slice (input : Text) (span : Span) : Text := (input.drop span.1).take (span.2 - span.1)

/-- A span, unless it is empty. -/
def nonEmptySpan (start stop : Nat) : List Span := if start < stop then [(start, stop)] else []

/-- The spans between the boundaries of a text that begins at a position, the open one begun
    before. -/
def spansBetween (boundary : Char → Bool) : Nat → Nat → Text → List Span
  | start, pos, [] => nonEmptySpan start pos
  | start, pos, c :: t =>
    if boundary c then nonEmptySpan start pos ++ spansBetween boundary (pos + 1) (pos + 1) t
    else spansBetween boundary start (pos + 1) t

/-- `Base64Runs`. -/
def base64Runs (input : Text) : List Span := spansBetween (fun c => !isBase64 c) 0 0 input

/-- A segment that is offered: the span to redact, and what is decoded. -/
abbrev Candidate := Span × Text

/-- `trailing_padding_end`. -/
def trailingPaddingEnd (input : Text) (stop runEnd : Nat) : Nat :=
  if stop < runEnd && (slice input (stop, runEnd)).all (· = '=') then runEnd else stop

/-- The characters at which the segments of a run end. -/
def isSegmentBoundary (family : Option Alphabet) (c : Char) : Bool :=
  c = '=' || family.any fun family => !familyContains family c

/-- `visit_run_segments`. -/
def runSegments (input : Text) (run : Span) (family : Option Alphabet) : List Candidate :=
  (spansBetween (isSegmentBoundary family) run.1 run.1 (slice input run)).map fun segment =>
    ((segment.1, trailingPaddingEnd input segment.2 run.2), slice input segment)

/-- The segments of a run; one that mixes the alphabets is gone through for each of them. -/
def segmentsOfRun (input : Text) (run : Span) : List Candidate :=
  if (slice input run).any isStandardOnly && (slice input run).any isUrlSafeOnly then
    runSegments input run (some .standard) ++ runSegments input run (some .urlSafe)
  else runSegments input run none

/-! ## Wrapped lines -/

/-- `newline_len_at`. -/
def newlineLenAt (input : Text) (position : Nat) : Nat :=
  match input.drop position with
  | '\n' :: _ => 1
  | '\r' :: '\n' :: _ => 2
  | _ => 0

/-- `MIN_WRAPPED_LINE`. -/
def minWrappedLine : Nat := 8

/-- `wrapped_line_continues`. -/
def wrappedLineContinues (input : Text) (line : Span) : Option Nat :=
  if line.2 - line.1 < minWrappedLine || (line.2 - line.1) % 4 ≠ 0 then none
  else if (slice input line).any fun c => !isBase64 c || c = '=' then none
  else
    let newline := newlineLenAt input line.2
    if newline = 0 then none
    else if (input[line.2 + newline]?).any isBase64 then some newline else none

/-- `payload_segment`. -/
def payloadSegment (input : Text) (run : Span) : Span :=
  let payload := (slice input run).rdropWhile (· = '=')
  let stop := run.1 + payload.length
  (stop - (payload.rtakeWhile (· ≠ '=')).length, stop)

/-- The chain of wrapped lines that is open. -/
structure WrapChain where
  start : Nat
  decode : Text
  stop : Nat
  runEnd : Nat

/-- The loop variables of `visit_wrap_chains`, and the segments so far. -/
structure WrapState where
  chain : Option WrapChain := none
  previous : Option Span := none
  visited : List Candidate := []

/-- The segment of a chain. -/
def WrapChain.candidate (chain : WrapChain) (input : Text) : Candidate :=
  ((chain.start, trailingPaddingEnd input chain.stop chain.runEnd), chain.decode)

/-- A line that is wrapped. -/
def isWrapLine (input : Text) (line : Span) : Bool :=
  line.1 ≠ line.2 && (wrappedLineContinues input line).isSome

/-- One run of `visit_wrap_chains`. -/
def wrapStep (input : Text) (state : WrapState) (run : Span) : WrapState :=
  let segment := payloadSegment input run
  match state.chain with
  | some chain =>
    let newline := newlineLenAt input chain.stop
    if newline ≠ 0 && segment.1 < segment.2 && segment.1 = chain.stop + newline then
      let longer : WrapChain :=
        { chain with
          decode := chain.decode ++ slice input segment, stop := segment.2, runEnd := run.2 }
      if isWrapLine input segment then
        { state with chain := some longer, previous := some segment }
      else
        { chain := none, previous := some segment
          visited := state.visited ++ [longer.candidate input] }
    else
      { chain := none, previous := some segment
        visited := state.visited ++ [chain.candidate input] }
  | none =>
    if isWrapLine input segment && !state.previous.any (isWrapLine input) then
      { state with
        chain := some ⟨segment.1, slice input segment, segment.2, run.2⟩, previous := some segment }
    else { state with previous := some segment }

/-- `visit_wrap_chains`. -/
def wrapChains (input : Text) : List Candidate :=
  let state := (base64Runs input).foldl (wrapStep input) {}
  state.visited ++ (state.chain.map fun chain => chain.candidate input).toList

/-- `for_each_candidate`. -/
def candidates (input : Text) (joinWraps : Bool) : List Candidate :=
  (base64Runs input).flatMap (segmentsOfRun input) ++ (if joinWraps then wrapChains input else [])

/-! ## Spans -/

/-- Sorted spans, overlapping ones as one. -/
def mergeOverlapping : Span → List Span → List Span
  | last, [] => [last]
  | last, span :: spans =>
    if span.1 < last.2 then mergeOverlapping (last.1, max last.2 span.2) spans
    else last :: mergeOverlapping span spans

/-- The order of `sort_unstable` on spans. -/
def spanLe (a b : Span) : Prop := a.1 < b.1 ∨ a.1 = b.1 ∧ a.2 ≤ b.2

instance : DecidableRel spanLe := fun a b =>
  inferInstanceAs (Decidable (a.1 < b.1 ∨ a.1 = b.1 ∧ a.2 ≤ b.2))

/-- The spans of a list, sorted and merged. -/
def mergedSpans (spans : List Span) : List Span :=
  match spans.insertionSort spanLe with
  | [] => []
  | span :: spans => mergeOverlapping span spans

/-- `tainted_segment_ranges`. -/
def taintedSegmentRanges (input : Text) (scanner : AlignmentScanner) (joinWraps : Bool) :
    List Span :=
  mergedSpans (((candidates input joinWraps).filter fun candidate =>
    scanner.segmentTainted candidate.2).map (·.1))

/-- `base64_alignment_spans`. -/
def base64AlignmentSpans (input : Text) (rawSecrets : List Text) : List Span :=
  match AlignmentScanner.new rawSecrets with
  | none => []
  | some scanner => taintedSegmentRanges input scanner true

/-! ## The entry points -/

/-- What transform-aware masking looks for. -/
def secretTransforms : Transforms where
  variants := secretVariants
  alignmentSpans := base64AlignmentSpans

/-- The transforms of a scan, if it is transform-aware. -/
def transformsOf (transformAware : Bool) : Option Transforms :=
  if transformAware then some secretTransforms else none

variable (input : Text) (secrets : List Text) (patterns : List (Text → List Span))
  (exclude : List Text)

/-- `mask_secrets_preserving_lines_with_patterns`. -/
def maskSecretsPreservingLinesWithPatterns : Text :=
  maskSecretsInner input secrets patterns exclude true none

/-- `mask_secrets_preserving_lines`. -/
def maskSecretsPreservingLines : Text :=
  maskSecretsPreservingLinesWithPatterns input secrets [] exclude

/-- `mask_secrets_preserving_lines_transform_aware_with_patterns`. -/
def maskSecretsPreservingLinesTransformAwareWithPatterns : Text :=
  maskSecretsInner input secrets patterns exclude true (transformsOf true)

/-- `mask_secrets_preserving_lines_transform_aware`. -/
def maskSecretsPreservingLinesTransformAware : Text :=
  maskSecretsPreservingLinesTransformAwareWithPatterns input secrets [] exclude

end Masking

end Preloop
