import PreloopControl.Properties.SecretReads
import PreloopControl.Workflow.Conditions

/-!
# Secret Coverage of a Job

The collector reads the texts of a job with its own scanner. Here the scanner is
held against the two readers that evaluate them: the template reader, and the
conditions behind the success gate.

A span ends for the collector at the first closing marker, for the template
reader at the first one outside a string literal. Where they differ, the collector
is left with an odd number of quotes, which no expression has
(`even_quotes_of_lex`), and reports the job as dynamic.

A condition is one expression, but it is scanned like a template as soon as it
contains an opening marker. Around a wrapped condition the two readings agree. A
marker inside a string literal of an unwrapped condition makes the collector
overlook everything outside the marked span; such conditions are set apart by
`HidesMarkers`.

## Main definitions

* `HidesMarkers`: An unwrapped condition with a marker in a string literal.
* `JobPlan.conditions`, `JobPlan.templates`: What is evaluated of a job.

## Theorems

* `resolveString_alike`: Templates.
* `condition_alike`: Conditions.
* `job_secrets_covered`: The whole job.
-/

namespace Preloop

namespace Workflow

open Expressions Budget Fallible

variable {N F : Type} {engine : Engine N F} {c c' : Context N} {m m' : List (Text × Value N)}
  {same : Prop}

/-! ## One expression -/

/-- No piece of the text is an expression that indexes the whole `secrets` object. -/
def Unindexed (engine : Engine N F) (t : Text) : Prop :=
  ∀ piece, piece <:+: t → ∀ e, parseExpression engine.parseNumber piece = .ok e →
    indexesSecrets e = false

theorem Unindexed.mono {piece t : Text} (h : Unindexed engine t) (hp : piece <:+: t) :
    Unindexed engine piece := by
  intro part hpart
  exact h part (hpart.trans hp)

/-- Both evaluations of a tree, at the level of results. -/
theorem evalFresh_alike (hd : DifferInSecrets c c' m m') (e : Expr N)
    (hc : Covers (collectSecretReadsFromExpr e {}) m m')
    (hs : same → fieldsSize m = fieldsSize m' ∨ indexesSecrets e = false) :
    Alike tooLarge same (evalFresh engine c e) (evalFresh engine c' e) := by
  have h : Agree tooLarge same (eval engine c 0 e) (eval engine c' 0 e) :=
    eval_agree hd e {} hc hs 0
  exact h.alike 0

/-- The report of one expression is covered by the report it was added to. -/
theorem covers_expression {t : Text} {reads : SecretReads}
    (hc : Covers (collectReadsFromExpression engine t reads) m m') :
    ∃ e, parseExpression engine.parseNumber (trimExpressionMarkers t) = .ok e ∧
      Covers (collectSecretReadsFromExpr e {}) m m' := by
  unfold collectReadsFromExpression collectSecretReads at hc
  cases he : parseExpression engine.parseNumber (trimExpressionMarkers t) with
  | error err =>
      rw [he] at hc
      exact absurd hc.1 (by simp [bind, Except.bind])
  | ok e =>
      rw [he] at hc
      refine ⟨e, rfl, hc.mono ⟨Finset.subset_union_right, ?_⟩⟩
      intro hdyn
      exact (Bool.or_eq_false_iff.mp hdyn).2

/-- An expression is evaluated alike if the reads of the tree it may parse to are
    covered. -/
theorem evalExpression_alike_of_parse (hd : DifferInSecrets c c' m m') {t : Text}
    (hc : ∀ e, parseExpression engine.parseNumber (trimExpressionMarkers t) = .ok e →
      Covers (collectSecretReadsFromExpr e {}) m m' ∧
        (same → fieldsSize m = fieldsSize m' ∨ indexesSecrets e = false)) :
    Alike tooLarge same (evalExpression engine t c) (evalExpression engine t c') := by
  unfold evalExpression
  cases he : parseExpression engine.parseNumber (trimExpressionMarkers t) with
  | error err => exact .refl _
  | ok e => exact evalFresh_alike hd e (hc e he).1 (hc e he).2

theorem evalExpression_alike (hd : DifferInSecrets c c' m m') {t : Text} {reads : SecretReads}
    (hc : Covers (collectReadsFromExpression engine t reads) m m')
    (hs : same → fieldsSize m = fieldsSize m' ∨ Unindexed engine t) :
    Alike tooLarge same (evalExpression engine t c) (evalExpression engine t c') := by
  obtain ⟨tree, htree, hcov⟩ := covers_expression hc
  apply evalExpression_alike_of_parse hd
  intro e he
  rw [htree] at he
  cases he
  exact ⟨hcov, fun h => (hs h).imp_right fun hu => hu _ (isInfix_trimExpressionMarkers t) _ htree⟩

theorem collectReadsFromExpression_within (t : Text) (reads : SecretReads) :
    reads.Within (collectReadsFromExpression engine t reads) := by
  unfold collectReadsFromExpression
  cases collectSecretReads engine t with
  | error e => exact .dynamic reads
  | ok found =>
      exact ⟨Finset.subset_union_left, fun h => (Bool.or_eq_false_iff.mp h).1⟩

theorem collectTextLoop_within (n : Nat) (t : Text) (reads : SecretReads) :
    reads.Within (collectTextLoop engine n t reads) := by
  induction n generalizing t reads with
  | zero => exact .refl reads
  | succ n ih =>
      unfold collectTextLoop
      cases Text.cut openMark t with
      | none => exact .refl reads
      | some p =>
          simp only []
          cases Text.cut closeMark p.2 with
          | none => exact .refl reads
          | some q => exact (collectReadsFromExpression_within q.1 reads).trans (ih q.2 _)

/-! ## Templates -/

/-- The template reader trims what it passes on, which the evaluator does anyway. -/
theorem evalExpression_trim (t : Text) (ctx : Context N) :
    evalExpression engine (Text.trim t) ctx = evalExpression engine t ctx := by
  unfold evalExpression
  rw [trimExpressionMarkers_trim]

/-- A report that covers an expression comes from one with balanced quotes. -/
theorem even_quotes_of_covers {t : Text} {reads : SecretReads}
    (hc : Covers (collectReadsFromExpression engine t reads) m m') : t.count quote % 2 = 0 := by
  obtain ⟨e, he, _⟩ := covers_expression hc
  obtain ⟨tokens, hlex, _⟩ := bind_eq_ok he
  rw [← count_trimExpressionMarkers]
  exact even_quotes_of_lex hlex

/-- A template is resolved alike if the collector's report on it is covered. -/
theorem resolveLoop_alike (hd : DifferInSecrets c c' m m') (n : Nat) :
    ∀ (k : Nat) (t : Text) (reads : SecretReads), t.length ≤ n → t.length ≤ k →
      Covers (collectTextLoop engine k t reads) m m' →
      (same → fieldsSize m = fieldsSize m' ∨ Unindexed engine t) →
      Alike (.expression tooLarge) same (resolveLoop engine c n t) (resolveLoop engine c' n t) := by
  -- the induction is on the length: an expression that is resolved leaves a shorter text
  induction n with
  | zero =>
      intro k t reads _ _ _ _
      exact .refl _
  | succ n ih =>
      intro k t reads hn hk hc hs
      unfold resolveLoop
      cases hcut : Text.cut openMark t with
      | none => exact .refl _
      | some p =>
          have hlen : p.2.length < t.length := Text.cut_length hcut openMark_ne_nil
          simp only []
          cases hend : findExpressionEnd false p.2 with
          | none => exact .refl _
          | some q =>
              obtain ⟨k, rfl⟩ : ∃ j, k = j + 1 := ⟨k - 1, by omega⟩
              -- resolution and collector cut the same spans, as long as no literal is open
              obtain ⟨e', rest', hclose, hcase⟩ := cut_of_findExpressionEnd hend
              unfold collectTextLoop at hc
              simp only [hcut, hclose] at hc
              have hexp := hc.mono (collectTextLoop_within k rest' _)
              obtain ⟨rfl, rfl, hrest⟩ | hodd := hcase
              · simp only []
                have ht : t = p.1 ++ openMark ++ (q.1 ++ closeMark ++ q.2) := by
                  rw [← Text.cut_eq hclose, ← Text.cut_eq hcut]
                have hspan : q.1 <:+: t :=
                  ⟨p.1 ++ openMark, closeMark ++ q.2, by rw [ht]; simp only [List.append_assoc]⟩
                have hafter : q.2 <:+: t :=
                  ⟨p.1 ++ openMark ++ (q.1 ++ closeMark), [], by
                    rw [ht]; simp only [List.append_assoc, List.append_nil]⟩
                refine .bind ?_ fun value => ?_
                · rw [evalExpression_trim, evalExpression_trim]
                  exact (evalExpression_alike hd hexp fun h =>
                    (hs h).imp_right fun hu => hu.mono hspan).mapError _
                · exact .bind (ih k _ _ (by omega) (by omega) hc fun h =>
                    (hs h).imp_right fun hu => hu.mono hafter) fun result => .refl _
              · -- the collector was inside a literal, so it reported the job as dynamic
                have heven := even_quotes_of_covers hexp
                simp only [Bool.false_eq_true, if_false] at hodd
                omega

/-- Templates: if the collector's report is covered, `resolve_string` returns the
    same under both contexts. -/
theorem resolveString_alike (hd : DifferInSecrets c c' m m') {t : Text} {reads : SecretReads}
    (hc : Covers (collectReadsFromText engine t reads) m m')
    (hs : same → fieldsSize m = fieldsSize m' ∨ Unindexed engine t) :
    Alike (.expression tooLarge) same (resolveString engine t c) (resolveString engine t c') :=
  resolveLoop_alike hd t.length t.length t reads (Nat.le_refl _) (Nat.le_refl _) hc hs

/-! ## Conditions -/

/-- What a condition stands for before the gate is put around it: it parses and its
    reads are covered, or it does not even lex. -/
structure Settled (engine : Engine N F) (m m' : List (Text × Value N)) (s : Text) : Prop where
  markers : trimExpressionMarkers s = s
  parse : (∃ e, parseExpression engine.parseNumber s = .ok e ∧
      Covers (collectSecretReadsFromExpr e {}) m m') ∨ ∃ err, lex s = .error err

/-- The gate's own call reads no secret. -/
theorem covers_gated {e : Expr N} (hc : Covers (collectSecretReadsFromExpr e {}) m m') :
    Covers (collectSecretReadsFromExpr (.binary .and successCall e) {}) m m' := by
  exact hc

theorem indexesSecrets_gated (e : Expr N) :
    indexesSecrets (.binary .and successCall e) = indexesSecrets e := rfl

/-- A settled text is evaluated alike, with the gate and without it. -/
theorem Settled.alike {s : Text} (h : Settled engine m m' s) (hd : DifferInSecrets c c' m m')
    (hs : same → fieldsSize m = fieldsSize m' ∨ Unindexed engine s) (gated : Bool) :
    let text := if gated then gateText ++ (s ++ [')']) else s
    Alike tooLarge same (evalExpression engine text c) (evalExpression engine text c') := by
  apply evalExpression_alike_of_parse hd
  intro e he
  cases gated with
  -- without the gate the text is what was scanned
  | false =>
      simp only [Bool.false_eq_true, if_false, h.markers] at he
      obtain ⟨e', he', hc⟩ | ⟨err, herr⟩ := h.parse
      · rw [he'] at he
        cases he
        exact ⟨hc, fun h => (hs h).imp_right fun hu => hu s (List.infix_refl s) _ he'⟩
      · rw [parse_of_lex_error herr] at he
        cases he
  -- with the gate it is parsed inside the parentheses
  | true =>
      simp only [if_true, trimExpressionMarkers_gate] at he
      obtain ⟨e', he', hc⟩ | ⟨err, herr⟩ := h.parse
      · obtain hg | ⟨err, hg⟩ := parse_gated he'
        · rw [hg] at he
          cases he
          exact ⟨covers_gated hc, fun h => (hs h).imp_right fun hu =>
            (indexesSecrets_gated e').trans (hu s (List.infix_refl s) _ he')⟩
        · rw [hg] at he
          cases he
      -- a text that has no tokens has none behind the gate either
      · obtain ⟨err', herr'⟩ := lex_append_error herr
        have hgate : lex (gateText ++ (s ++ [')'])) = .error err' := by
          rw [lex_gateText, herr']
          rfl
        rw [parse_of_lex_error hgate] at he
        cases he

/-- An expression the collector parsed is settled. -/
theorem settled_of_lex {s : Text} (ht : Text.trim s = s) {e : Expr N}
    (he : parseExpression engine.parseNumber s = .ok e)
    (hc : Covers (collectSecretReadsFromExpr e {}) m m') : Settled engine m m' s := by
  obtain ⟨tokens, hlex, _⟩ := bind_eq_ok he
  exact ⟨trimExpressionMarkers_self ht (not_openMark_of_lex hlex), .inl ⟨e, he, hc⟩⟩

/-- A wrapped condition: the collector's span is the whole condition, or what follows
    the span cannot be lexed. -/
theorem settled_of_span {inner w e rest : Text} {reads : SecretReads}
    (hcut : Text.cut closeMark (inner ++ (closeMark ++ w)) = some (e, rest))
    (hc : Covers (collectReadsFromExpression engine e reads) m m') :
    Settled engine m m' (Text.trim inner) := by
  obtain ⟨tree, htree, hcov⟩ := covers_expression hc
  rw [trimExpressionMarkers_of_cut hcut] at htree
  have hle : e.length ≤ inner.length := by
    obtain ⟨e', rest', h', hlen⟩ := Text.cut_of_occurs closeMark inner w
    rw [hcut] at h'
    cases h'
    exact hlen
  have heq : inner ++ (closeMark ++ w) = e ++ (closeMark ++ rest) := by
    rw [Text.cut_eq hcut, List.append_assoc]
  obtain ⟨more, hmore⟩ : e <+: inner :=
    List.prefix_of_prefix_length_le ⟨_, heq.symm⟩ (List.prefix_append _ _) hle
  cases more with
  | nil =>
      rw [List.append_nil] at hmore
      rw [← hmore]
      exact settled_of_lex (Text.trim_trim e) htree hcov
  | cons d more =>
      -- the span ended inside the condition, at a brace
      rw [← hmore, List.append_assoc, List.append_cancel_left_eq, closeMark_eq] at heq
      have hd : d = rbrace := (List.cons.inj heq).1
      subst hd
      obtain ⟨tokens, hlex, _⟩ := bind_eq_ok htree
      obtain ⟨herr, htrim⟩ := lex_error_of_more hlex hmore.symm
      exact ⟨htrim, .inr herr⟩

/-- A condition whose report is covered is settled, unless its markers are hidden in
    a literal. -/
theorem settled_of_condition {condition : Text} {reads : SecretReads}
    (hc : Covers (collectReadsFromCondition engine condition reads) m m')
    -- the collector reads a condition with a marker as a template, any other as an expression
    (hh : ¬ HidesMarkers condition) :
    Settled engine m m' (trimExpressionMarkers condition) := by
  unfold collectReadsFromCondition at hc
  by_cases hopen : Text.contains openMark condition = true
  · rw [if_pos hopen] at hc
    by_cases hpre : openMark <+: Text.trim condition
    · obtain ⟨inner, hinner, hs⟩ | ⟨hno, hs⟩ := trimExpressionMarkers_cases condition
      · -- wrapped: the first span is cut out of the condition itself
        rw [hs]
        obtain ⟨w, hw, _⟩ := Text.dropWhile_eq_trim_append condition
        rw [hinner, List.append_assoc, List.append_assoc] at hw
        have hcut := Text.cut_dropWhile openMark_eq (by decide) condition
        rw [hw, Text.cut_append openMark_ne_nil] at hcut
        obtain ⟨e, rest, hclose, _⟩ := Text.cut_of_occurs closeMark inner w
        unfold collectReadsFromText at hc
        cases hlen : condition.length with
        | zero =>
            rw [List.length_eq_zero_iff.mp hlen] at hpre
            exact absurd (List.prefix_nil.mp hpre) openMark_ne_nil
        | succ n =>
            rw [hlen] at hc
            unfold collectTextLoop at hc
            simp only [hcut, Option.map_some, hclose] at hc
            exact settled_of_span hclose (hc.mono (collectTextLoop_within n rest _))
      · -- the opening marker stays, and no expression has one
        rw [hs]
        obtain ⟨r, hr⟩ := hpre
        obtain ⟨err, herr⟩ := lex_dollar ([lbrace, lbrace] ++ r)
        refine ⟨by rw [trimExpressionMarkers_trim, hs], .inr ⟨err, ?_⟩⟩
        rw [← hr, openMark_eq]
        exact herr
    · -- a marker in the middle: hidden in a literal, or no expression at all
      have hs : trimExpressionMarkers condition = Text.trim condition := by
        rw [← trimExpressionMarkers_trim, trimExpressionMarkers_self (Text.trim_trim _) hpre]
      cases hlex : lex (Text.trim condition) with
      | ok tokens => exact absurd ⟨hopen, hpre, tokens, hlex⟩ hh
      | error err => exact ⟨by rw [hs, trimExpressionMarkers_trim, hs], .inr ⟨err, hs ▸ hlex⟩⟩
  · rw [if_neg hopen] at hc
    obtain ⟨e, he, hcov⟩ := covers_expression hc
    exact settled_of_lex (trim_trimExpressionMarkers condition) he hcov

/-- The default condition reads no secret. -/
theorem success_alike (hd : DifferInSecrets c c' m m') :
    Alike tooLarge same
      (evalExpression engine "success()".toList c)
        (evalExpression engine "success()".toList c') := by
  apply evalExpression_alike_of_parse hd
  intro e he
  rw [parse_success] at he
  cases he
  refine ⟨⟨rfl, ?_⟩, fun _ => .inr rfl⟩
  rintro k ⟨n, hn, _⟩
  exact absurd hn (Finset.notMem_empty n)

/-- Conditions: if the collector's report is covered, the effective condition is
    evaluated alike. -/
theorem condition_alike (hd : DifferInSecrets c c' m m') {condition : Text} {reads : SecretReads}
    (hc : Covers (collectReadsFromCondition engine condition reads) m m')
    (hh : ¬ HidesMarkers condition)
    (hs : same → fieldsSize m = fieldsSize m' ∨ Unindexed engine condition) :
    Alike tooLarge same
      (evalExpression engine (effectiveCondition (some condition)) c)
      (evalExpression engine (effectiveCondition (some condition)) c') := by
  have hset := settled_of_condition hc hh
  have hs' : same → fieldsSize m = fieldsSize m' ∨
      Unindexed engine (trimExpressionMarkers condition) := by
    intro h
    exact (hs h).imp_right fun hu => hu.mono (isInfix_trimExpressionMarkers condition)
  unfold effectiveCondition
  simp only []
  split
  · exact success_alike hd
  · split
    · exact hset.alike hd hs' false
    · exact hset.alike hd hs' true

/-! ## Jobs -/

/-- The conditions of a job and its steps. -/
def JobPlan.conditions (job : JobPlan N) : List (Option Text) :=
  job.ifCondition :: job.steps.map StepPlan.ifCondition

/-- The texts of a job that are resolved as templates: `env`, and `run`, `env` and
    `with` of its steps. -/
def JobPlan.templates (job : JobPlan N) : List Text :=
  job.env.values ++ job.steps.flatMap fun step =>
    step.run.toList ++ step.env.values ++ step.with_.values.flatMap jsonTexts

theorem collect_site_within (site : ReadSite) (reads : SecretReads) :
    reads.Within (site.collect engine reads) := by
  cases site with
  | text t => exact collectTextLoop_within _ t reads
  | condition t =>
      show reads.Within (collectReadsFromCondition engine t reads)
      unfold collectReadsFromCondition
      split
      · exact collectTextLoop_within _ t reads
      · exact collectReadsFromExpression_within t reads
  | action uses =>
      show reads.Within (if "docker://".toList.isPrefixOf uses then reads
        else { reads with dynamic := true })
      split
      · exact .refl reads
      · exact .dynamic reads

theorem collect_sites_within (sites : List ReadSite) (reads : SecretReads) :
    reads.Within (sites.foldl (ReadSite.collect engine) reads) := by
  induction sites generalizing reads with
  | nil => exact .refl reads
  | cons site sites ih => exact (collect_site_within site reads).trans (ih _)

/-- The final report covers what was taken from each place. -/
theorem covers_site {sites : List ReadSite} {site : ReadSite} (hsite : site ∈ sites)
    {reads : SecretReads} (hc : Covers (sites.foldl (ReadSite.collect engine) reads) m m') :
    ∃ before, Covers (site.collect engine before) m m' := by
  induction sites generalizing reads with
  | nil => cases hsite
  | cons first sites ih =>
      cases hsite with
      | head => exact ⟨reads, hc.mono (collect_sites_within sites _)⟩
      | tail _ hmem => exact ih hmem hc

theorem isEngineProvided_of_eq {k n : Text} (h : Text.eqIgnoreAsciiCase k n = true) :
    isEngineProvided k = isEngineProvided n := by
  have hlower : k.map Char.toLower = n.map Char.toLower := of_decide_eq_true h
  have hupper : k.map Char.toUpper = n.map Char.toUpper := by
    have := congrArg (List.map Char.toUpper) hlower
    simpa only [List.map_map, Function.comp_def, Char.toUpper_toLower_eq_toUpper] using this
  unfold isEngineProvided
  rw [hupper]

/-- Without the tokens the engine provides, the report covers what it covered with
    them, as long as the two contexts agree on those too. -/
theorem covers_reads {job : JobPlan N} (hdyn : (collectJobSecretReads engine job).dynamic = false)
    (hagree : ∀ k, (isEngineProvided k = true ∨
      ∃ n ∈ (collectJobSecretReads engine job).names, Text.eqIgnoreAsciiCase k n = true) →
      getField m k = getField m' k) :
    Covers (job.readSites.foldl (ReadSite.collect engine) {}) m m' := by
  refine ⟨hdyn, ?_⟩
  rintro k ⟨n, hn, hkn⟩
  apply hagree
  by_cases hp : isEngineProvided n = true
  · exact .inl ((isEngineProvided_of_eq hkn).trans hp)
  · refine .inr ⟨n, Finset.mem_filter.mpr ⟨hn, ?_⟩, hkn⟩
    simpa using hp

theorem condition_mem_sites {job : JobPlan N} {condition : Text}
    (h : some condition ∈ job.conditions) : .condition condition ∈ job.readSites := by
  unfold JobPlan.conditions at h
  rw [List.mem_cons, List.mem_map] at h
  unfold JobPlan.readSites
  simp only [List.mem_append]
  obtain h | ⟨step, hstep, h⟩ := h
  · simp [← h]
  · right
    refine List.mem_flatMap.mpr ⟨step, hstep, ?_⟩
    simp [StepPlan.readSites, h]

theorem template_mem_sites {job : JobPlan N} {t : Text} (h : t ∈ job.templates) :
    .text t ∈ job.readSites := by
  unfold JobPlan.templates at h
  unfold JobPlan.readSites
  simp only [List.mem_append, List.mem_flatMap] at h ⊢
  obtain h | ⟨step, hstep, h⟩ := h
  · simp [h]
  · right
    refine ⟨step, hstep, ?_⟩
    simp only [StepPlan.readSites, List.mem_append, List.mem_map, ReadSite.text.injEq,
      exists_eq_right, List.mem_flatMap]
    obtain (h | h) | h := h
    · simp [h]
    · simp [h]
    · exact .inl (.inl (.inl (.inr h)))

/-- Secrets of a job: if the collector does not report it as dynamic and two contexts
    agree on the names it collected and on the tokens the engine provides, every
    condition and every template of the job gives the same result in both. One of
    the two may be stopped by the evaluation budget, but only where the whole
    `secrets` object is indexed and its size differs. Conditions with a marker
    hidden in a literal are left out. -/
theorem job_secrets_covered (engine : Engine N F) (job : JobPlan N)
    (hd : DifferInSecrets c c' m m')
    (hdyn : (collectJobSecretReads engine job).dynamic = false)
    (hagree : ∀ k, (isEngineProvided k = true ∨
      ∃ n ∈ (collectJobSecretReads engine job).names, Text.eqIgnoreAsciiCase k n = true) →
      getField m k = getField m' k) :
    (∀ condition ∈ job.conditions, (∀ t, condition = some t → ¬ HidesMarkers t) →
      Alike tooLarge
        (fieldsSize m = fieldsSize m' ∨ ∀ t, condition = some t → Unindexed engine t)
        (evalExpression engine (effectiveCondition condition) c)
        (evalExpression engine (effectiveCondition condition) c')) ∧
    (∀ t ∈ job.templates,
      Alike (.expression tooLarge) (fieldsSize m = fieldsSize m' ∨ Unindexed engine t)
        (resolveString engine t c) (resolveString engine t c')) := by
  have hc := covers_reads hdyn hagree
  constructor
  · intro condition hmem hh
    cases condition with
    | none => exact success_alike hd
    | some t =>
        obtain ⟨before, hb⟩ := covers_site (condition_mem_sites hmem) hc
        exact condition_alike hd hb (hh t rfl) fun h => h.imp_right fun hu => hu t rfl
  · intro t hmem
    obtain ⟨before, hb⟩ := covers_site (template_mem_sites hmem) hc
    exact resolveString_alike hd hb id

/-! ## Two jobs -/

/-- A text with one marked span is read like that span. -/
theorem collectReadsFromText_span {t before after e rest : Text} (reads : SecretReads)
    (hopen : Text.cut openMark t = some (before, after))
    (hclose : Text.cut closeMark after = some (e, rest)) (hrest : Text.cut openMark rest = none) :
    collectReadsFromText engine t reads = collectReadsFromExpression engine e reads := by
  have hlen := Text.cut_length hopen openMark_ne_nil
  have hnone : ∀ n reads, collectTextLoop engine n rest reads = reads := by
    intro n reads
    cases n with
    | zero => rfl
    | succ n => simp only [collectTextLoop, hrest]
  unfold collectReadsFromText
  cases hn : t.length with
  | zero => omega
  | succ n => simp only [collectTextLoop, hopen, hclose, hnone]

/-- A text without markers reads nothing. -/
theorem collectReadsFromText_plain {t : Text} (reads : SecretReads)
    (hopen : Text.cut openMark t = none) : collectReadsFromText engine t reads = reads := by
  unfold collectReadsFromText
  cases t.length with
  | zero => rfl
  | succ n => simp only [collectTextLoop, hopen]

/-- The span of `secrets.FOO` in a text. -/
def fooSpan : Text := "t-$\x7b\x7b secrets.FOO \x7d\x7d".toList

/-- A job that reads one secret, in its environment and in the condition of a step. -/
def fooJob : JobPlan Int where
  id := "build".toList
  baseId := "build".toList
  name := "build".toList
  env := Dict.ofList [("TOKEN".toList, fooSpan)]
  steps := [{ ifCondition := some "secrets.FOO".toList }]

theorem lex_secrets :
    lex "secrets.FOO".toList = .ok [.ident secretsRoot, .dot, .ident "FOO".toList, .eof] ∧
    lex "secrets.GITHUB_TOKEN".toList =
      .ok [.ident secretsRoot, .dot, .ident "GITHUB_TOKEN".toList, .eof] := by
  constructor <;> decide

theorem isEngineProvided_names : isEngineProvided "FOO".toList = false ∧
    isEngineProvided "BIG".toList = false ∧ isEngineProvided "GITHUB_TOKEN".toList = true := by
  refine ⟨?_, ?_, ?_⟩ <;> decide

theorem collect_foo {t : Text} (ht : trimExpressionMarkers t = "secrets.FOO".toList) :
    collectSecretReads integerEngine t = .ok { names := {"FOO".toList} } := by
  unfold collectSecretReads parseExpression
  rw [ht, lex_secrets.1]
  rfl

theorem fooJob_reads :
    collectJobSecretReads integerEngine fooJob = { names := {"FOO".toList} } := by
  -- the places of the job that may read secrets
  have hsites : fooJob.readSites = [.text fooSpan, .text "build".toList,
    .condition "secrets.FOO".toList] := rfl
  have htext : collectReadsFromText integerEngine fooSpan {} = { names := {"FOO".toList} } := by
    have hopen : Text.cut openMark fooSpan =
        some ("t-".toList, " secrets.FOO \x7d\x7d".toList) := by
      decide
    have hclose : Text.cut closeMark " secrets.FOO \x7d\x7d".toList =
        some (" secrets.FOO ".toList, []) := by
      decide
    rw [collectReadsFromText_span {} hopen hclose (by decide)]
    unfold collectReadsFromExpression
    rw [collect_foo (by decide)]
    simp
  -- the name reads none, and the condition reads the same one
  have hname (reads : SecretReads) :
      collectReadsFromText integerEngine "build".toList reads = reads :=
    collectReadsFromText_plain reads (by decide)
  have hcondition : collectReadsFromCondition integerEngine "secrets.FOO".toList
      { names := {"FOO".toList} } = { names := {"FOO".toList} } := by
    have hplain : Text.contains openMark "secrets.FOO".toList = false := by decide
    unfold collectReadsFromCondition collectReadsFromExpression
    rw [hplain, if_neg Bool.false_ne_true, collect_foo (by decide)]
    simp
  -- the name is not one that the engine provides
  have hown : isEngineProvided "FOO".toList = false := isEngineProvided_names.1
  unfold collectJobSecretReads
  rw [hsites]
  simp only [List.foldl_cons, List.foldl_nil, ReadSite.collect, htext, hname, hcondition,
    Finset.filter_singleton, hown, Bool.not_false, if_true]

/-- Another secret may change without the job noticing. -/
theorem fooJob_covered :
    resolveString integerEngine fooSpan (secretsOnly (twoSecrets "y".toList)) =
      resolveString integerEngine fooSpan (secretsOnly (twoSecrets "z".toList)) := by
  have hagree : ∀ k, (isEngineProvided k = true ∨
      ∃ n ∈ (collectJobSecretReads integerEngine fooJob).names,
        Text.eqIgnoreAsciiCase k n = true) →
      getField (twoSecrets "y".toList) k = getField (twoSecrets "z".toList) k := by
    intro k hk
    have hbig : k ≠ "BIG".toList := by
      rintro rfl
      have hown : isEngineProvided "BIG".toList = false := isEngineProvided_names.2.1
      have hother : Text.eqIgnoreAsciiCase "BIG".toList "FOO".toList = false := by decide
      rw [fooJob_reads, hown] at hk
      obtain h | ⟨n, hn, h⟩ := hk
      · cases h
      · rw [Finset.mem_singleton.mp hn, hother] at h
        cases h
    rw [← getField_twoSecrets _ k hbig, ← getField_twoSecrets _ k hbig]
  have hmem : fooSpan ∈ fooJob.templates := List.mem_cons_self
  exact ((job_secrets_covered integerEngine fooJob (secretsOnly_differ _ _) (by rw [fooJob_reads])
    hagree).2 fooSpan hmem).1 (.inl rfl)

/-- The span of the engine's token. -/
def tokenSpan : Text := "$\x7b\x7b secrets.GITHUB_TOKEN \x7d\x7d".toList

/-- A job that reads the token of the engine. -/
def tokenJob : JobPlan Int where
  id := "build".toList
  baseId := "build".toList
  name := "build".toList
  env := Dict.ofList [("TOKEN".toList, tokenSpan)]

/-- The token of the engine, as a secret. -/
def engineToken (value : Text) : List (Text × Value Int) :=
  [("GITHUB_TOKEN".toList, .string value)]

theorem parse_token : parseExpression integerEngine.parseNumber "secrets.GITHUB_TOKEN".toList =
    .ok (.path [secretsRoot, "GITHUB_TOKEN".toList]) := by
  unfold parseExpression
  rw [lex_secrets.2]
  rfl

theorem tokenJob_reads : collectJobSecretReads integerEngine tokenJob = {} := by
  have hsites : tokenJob.readSites = [.text tokenSpan, .text "build".toList] := rfl
  have htext : collectReadsFromText integerEngine tokenSpan {} =
      { names := {"GITHUB_TOKEN".toList} } := by
    have hopen : Text.cut openMark tokenSpan =
        some ([], " secrets.GITHUB_TOKEN \x7d\x7d".toList) := by
      decide
    have hclose : Text.cut closeMark " secrets.GITHUB_TOKEN \x7d\x7d".toList =
        some (" secrets.GITHUB_TOKEN ".toList, []) := by
      decide
    have htrim : trimExpressionMarkers " secrets.GITHUB_TOKEN ".toList =
        "secrets.GITHUB_TOKEN".toList := by
      decide
    rw [collectReadsFromText_span {} hopen hclose (by decide)]
    unfold collectReadsFromExpression collectSecretReads
    rw [htrim, parse_token]
    rfl
  have hname (reads : SecretReads) :
      collectReadsFromText integerEngine "build".toList reads = reads :=
    collectReadsFromText_plain reads (by decide)
  have hown : isEngineProvided "GITHUB_TOKEN".toList = true := isEngineProvided_names.2.2
  unfold collectJobSecretReads
  rw [hsites]
  simp only [List.foldl_cons, List.foldl_nil, ReadSite.collect, htext, hname,
    Finset.filter_singleton, hown, Bool.not_true, Bool.false_eq_true, if_false]

theorem resolve_token {value : Text}
    (hvalue : evalFresh integerEngine (secretsOnly (engineToken value))
      (.path [secretsRoot, "GITHUB_TOKEN".toList]) = .ok (.string value)) :
    resolveString integerEngine tokenSpan (secretsOnly (engineToken value)) = .ok value := by
  have hopen : Text.cut openMark tokenSpan =
      some ([], " secrets.GITHUB_TOKEN \x7d\x7d".toList) := by
    decide
  have hend : findExpressionEnd false " secrets.GITHUB_TOKEN \x7d\x7d".toList =
      some (" secrets.GITHUB_TOKEN ".toList, []) := by
    decide
  have htrim : trimExpressionMarkers " secrets.GITHUB_TOKEN ".toList =
      "secrets.GITHUB_TOKEN".toList := by
    decide
  have heval : evalExpression integerEngine (Text.trim " secrets.GITHUB_TOKEN ".toList)
      (secretsOnly (engineToken value)) = .ok (.string value) := by
    rw [evalExpression_trim]
    unfold evalExpression
    rw [htrim, parse_token]
    exact hvalue
  have hlen : tokenSpan.length = 26 + 1 := by decide
  unfold resolveString
  rw [hlen]
  unfold resolveLoop
  simp only [hopen, hend, heval]
  show Except.ok ([] ++ value ++ []) = _
  simp

/-- The token of the engine is read but not collected. -/
theorem engine_token_not_collected :
    ¬ ∀ (job : JobPlan Int) (c c' : Context Int) (m m' : List (Text × Value Int)),
      DifferInSecrets c c' m m' → Covers (collectJobSecretReads integerEngine job) m m' →
      (∀ condition ∈ job.conditions,
        evalExpression integerEngine (effectiveCondition condition) c =
          evalExpression integerEngine (effectiveCondition condition) c') ∧
      ∀ t ∈ job.templates, resolveString integerEngine t c = resolveString integerEngine t c' := by
  intro h
  have hcovers : Covers (collectJobSecretReads integerEngine tokenJob) (engineToken "x".toList)
      (engineToken "y".toList) := by
    rw [tokenJob_reads]
    refine ⟨rfl, ?_⟩
    rintro k ⟨n, hn, _⟩
    cases hn
  have hmem : tokenSpan ∈ tokenJob.templates := List.mem_cons_self
  have heq := (h tokenJob _ _ _ _ (secretsOnly_differ _ _) hcovers).2 tokenSpan hmem
  rw [resolve_token rfl, resolve_token rfl] at heq
  have hxy : "x".toList = "y".toList := Except.ok.inj heq
  revert hxy
  decide

end Workflow

end Preloop
