import PreloopControl.Properties.ScopedReferences
import PreloopControl.Workflow.TriggerFilters

/-!
# Globs and Filters

The set of live positions stands for the texts that the rest of the pattern matches from one of
them. It is closed: from a star the position behind it is live too, so that at the end only the
last position has to be asked for. A round replaces it by the positions behind one character.

The marks say in which round a position was added last, so that no position is in the set twice.
They are never taken back; a later round has a larger number, and old marks say nothing of it.

## Main definitions

* `Built`: A set of positions with its marks.

## Theorems

* `addState_spec`: A position is added with those behind the stars it begins with.
* `advance_spec`, `matchLoop_iff`: One character, and the whole text.
* `globMatch_iff`: A glob matches what its items stand for.
* `filter_verdict`: The last pattern that matches decides.
-/

namespace Preloop

namespace Workflow

open Expressions Globs

variable {N : Type} {tokens : List (Token Char)}

/-! ## Live positions -/

/-- The text is matched from a position on. -/
def From (tokens : List (Token Char)) (index : Nat) (value : Text) : Prop :=
  Matches '/' (tokens.drop index) value

/-- A set with the marks of a round. Positions behind stars are in it, up to one that is still to
    be added. -/
structure Built (tokens : List (Token Char)) (generation : Nat) (pending : Option Nat)
    (live : LiveSet) : Prop where
  length : live.seen.length = tokens.length + 1
  mark : ∀ i, live.seen[i]? = some generation ↔ i ∈ live.set
  old : ∀ g ∈ live.seen, g ≤ generation
  closed : ∀ i ∈ live.set, (tokens[i]?).any Token.skippable = true →
    i + 1 ∈ live.set ∨ pending = some (i + 1)

theorem Built.le_length {generation : Nat} {pending : Option Nat} {live : LiveSet}
    (h : Built tokens generation pending live) {i : Nat} (hi : i ∈ live.set) :
    i ≤ tokens.length := by
  have hlt := (List.getElem?_eq_some_iff.mp ((h.mark i).mpr hi)).1
  rw [h.length] at hlt
  omega

theorem skippable_lt {i : Nat} (h : (tokens[i]?).any Token.skippable = true) :
    i < tokens.length := by
  by_contra hlt
  rw [List.getElem?_eq_none (Nat.le_of_not_lt hlt)] at h
  cases h

/-- A star may be passed over. -/
theorem From.skip {i : Nat} {value : Text} (hi : (tokens[i]?).any Token.skippable = true)
    (h : From tokens (i + 1) value) : From tokens i value := by
  have hlt := skippable_lt hi
  unfold From at h ⊢
  rw [List.drop_eq_getElem_cons hlt]
  rw [List.getElem?_eq_getElem hlt] at hi
  exact h.skip hi

/-- A position is added with those behind the stars it begins with. -/
theorem addState_spec {generation : Nat} (n : Nat) : ∀ (index : Nat) (live : LiveSet),
    Built tokens generation (some index) live → index ≤ tokens.length →
      tokens.length + 1 ≤ n + index →
      Built tokens generation none (addState tokens generation n index live) ∧
      (∀ i ∈ live.set, i ∈ (addState tokens generation n index live).set) ∧
      index ∈ (addState tokens generation n index live).set ∧
      ∀ value, ∀ i ∈ (addState tokens generation n index live).set, From tokens i value →
        i ∈ live.set ∨ From tokens index value := by
  -- the induction is on the steps that are left; the position moves up with each
  induction n with
  | zero =>
      intro index live _ hle hfuel
      omega
  | succ n ih =>
      intro index live h hle hfuel
      unfold addState
      by_cases hseen : live.seen[index]? = some generation
      · -- a position in the set has brought those behind it
        have hin : index ∈ live.set := (h.mark index).mp hseen
        rw [if_pos hseen]
        refine ⟨⟨h.length, h.mark, h.old, fun i hi hskip => Or.inl ?_⟩, fun i hi => hi, hin,
          fun value i hi _ => Or.inl hi⟩
        rcases h.closed i hi hskip with hnext | hpending
        · exact hnext
        · cases hpending
          exact hin
      · rw [if_neg hseen]
        have hnew : index ∉ live.set := fun hin => hseen ((h.mark index).mpr hin)
        -- the marks and the set with the position in it; what is pending is the one behind a star
        have hadded : ∀ pending, (∀ i, i = index → (tokens[i]?).any Token.skippable = true →
            pending = some (i + 1)) → Built tokens generation pending
              ⟨live.seen.set index generation, live.set ++ [index]⟩ := by
          intro pending hpending
          refine ⟨by rw [List.length_set]; exact h.length, fun i => ?_, fun g hg => ?_,
            fun i hi hskip => ?_⟩
          · rw [List.mem_append, List.mem_singleton, List.getElem?_set]
            by_cases heq : index = i
            · subst heq
              rw [if_pos rfl, if_pos (by rw [h.length]; omega)]
              exact iff_of_true rfl (Or.inr rfl)
            · rw [if_neg heq, h.mark]
              exact ⟨Or.inl, fun hin => hin.resolve_right (Ne.symm heq)⟩
          · rcases List.mem_or_eq_of_mem_set hg with hold | rfl
            · exact h.old g hold
            · exact Nat.le_refl _
          · rcases List.mem_append.mp hi with hi | hi
            · rcases h.closed i hi hskip with hnext | hnext
              · exact Or.inl (List.mem_append_left _ hnext)
              · cases hnext
                exact Or.inl (List.mem_append_right _ List.mem_cons_self)
            · exact Or.inr (hpending i (List.mem_singleton.mp hi) hskip)
        -- a star brings the position behind it
        by_cases hskip : (tokens[index]?).any Token.skippable = true
        · dsimp only
          rw [if_pos hskip]
          have hlt := skippable_lt hskip
          rcases ih (index + 1) _ (hadded (some (index + 1)) fun i hi _ => by rw [hi]) hlt
            (by omega) with ⟨hbuilt, hkept, -, hfrom⟩
          refine ⟨hbuilt, fun i hi => hkept i (List.mem_append_left _ hi),
            hkept index (List.mem_append_right _ List.mem_cons_self), fun value i hi hvalue => ?_⟩
          rcases hfrom value i hi hvalue with hin | hnext
          · rcases List.mem_append.mp hin with hin | hin
            · exact Or.inl hin
            · rw [List.mem_singleton.mp hin] at hvalue
              exact Or.inr hvalue
          · exact Or.inr (hnext.skip hskip)
        · dsimp only
          rw [if_neg hskip]
          refine ⟨hadded none fun i hi hany => absurd (hi ▸ hany) hskip,
            fun i hi => List.mem_append_left _ hi, List.mem_append_right _ List.mem_cons_self,
            fun value i hi hvalue => ?_⟩
          rcases List.mem_append.mp hi with hin | hin
          · exact Or.inl hin
          · rw [List.mem_singleton.mp hin] at hvalue
            exact Or.inr hvalue

/-! ## One character -/

/-- A text that begins with a character is matched from a position that may be passed over, or
    goes on with the character. -/
theorem from_cons {i : Nat} {c : Char} {value : Text} : From tokens i (c :: value) ↔
    ((tokens[i]?).any Token.skippable = true ∧ From tokens (i + 1) (c :: value)) ∨
      ∃ target, targetOf tokens i c = some target ∧ From tokens target value := by
  unfold From targetOf
  by_cases hlt : i < tokens.length
  · rw [List.drop_eq_getElem_cons hlt, List.getElem?_eq_getElem hlt]
    have hstay := List.drop_eq_getElem_cons hlt
    cases htoken : tokens[i] with
    | literal a =>
        rw [matches_literal]
        by_cases hc : a = c <;> simp [hc, Token.skippable]
    | anyChar =>
        rw [matches_anyChar]
        by_cases hc : c = '/' <;> simp [hc, Token.skippable]
    | star =>
        rw [matches_star]
        rw [htoken] at hstay
        by_cases hc : c = '/' <;> simp [hc, Token.skippable, hstay]
    | doubleStar =>
        rw [matches_doubleStar]
        rw [htoken] at hstay
        simp [Token.skippable, hstay]
  · rw [List.drop_eq_nil_of_le (Nat.le_of_not_lt hlt),
      List.getElem?_eq_none (Nat.le_of_not_lt hlt), matches_nil]
    simp

/-- From a closed set a text is matched exactly if it is from behind a character. -/
theorem exists_from_cons {generation : Nat} {live : LiveSet}
    (h : Built tokens generation none live) {c : Char} {value : Text} :
    (∃ i ∈ live.set, From tokens i (c :: value)) ↔
      ∃ i ∈ live.set, ∃ target, targetOf tokens i c = some target ∧ From tokens target value := by
  constructor
  · rintro ⟨i, hi, hfrom⟩
    -- stars that are passed over lead to positions in the set, up to the end of the pattern
    have hwalk : ∀ n i, i ∈ live.set → tokens.length ≤ n + i → From tokens i (c :: value) →
        ∃ i ∈ live.set, ∃ target, targetOf tokens i c = some target ∧
          From tokens target value := by
      intro n
      induction n with
      | zero =>
          intro i hi hend hfrom
          rcases from_cons.mp hfrom with ⟨hskip, -⟩ | htarget
          · have hlt := skippable_lt hskip
            omega
          · exact ⟨i, hi, htarget⟩
      | succ n ih =>
          intro i hi hend hfrom
          rcases from_cons.mp hfrom with ⟨hskip, hnext⟩ | htarget
          · rcases h.closed i hi hskip with hin | hpending
            · exact ih (i + 1) hin (by omega) hnext
            · cases hpending
          · exact ⟨i, hi, htarget⟩
    exact hwalk tokens.length i hi (Nat.le_add_right _ _) hfrom
  · rintro ⟨i, hi, htarget⟩
    exact ⟨i, hi, from_cons.mpr (Or.inr htarget)⟩

theorem targetOf_le {i target : Nat} {c : Char} (h : targetOf tokens i c = some target) :
    target ≤ tokens.length := by
  unfold targetOf at h
  by_cases hlt : i < tokens.length
  · rw [List.getElem?_eq_getElem hlt] at h
    cases htoken : tokens[i] with
    | literal a =>
        rw [htoken] at h
        dsimp only at h
        split at h <;> cases h
        omega
    | anyChar =>
        rw [htoken] at h
        dsimp only at h
        split at h <;> cases h
        omega
    | star =>
        rw [htoken] at h
        dsimp only at h
        split at h <;> cases h
        omega
    | doubleStar =>
        rw [htoken] at h
        cases h
        omega
  · rw [List.getElem?_eq_none (Nat.le_of_not_lt hlt)] at h
    cases h

theorem Built.weaken {generation : Nat} {live : LiveSet} (h : Built tokens generation none live)
    (pending : Option Nat) : Built tokens generation pending live :=
  ⟨h.length, h.mark, h.old, fun i hi hskip => (h.closed i hi hskip).imp_right fun hnone =>
    by cases hnone⟩

/-- A set with no position in it. -/
theorem built_empty {generation : Nat} {seen : List Nat} (hlength : seen.length = tokens.length + 1)
    (hold : ∀ g ∈ seen, g < generation) : Built tokens generation none ⟨seen, []⟩ := by
  refine ⟨hlength, fun i => iff_of_false (fun hi => ?_) List.not_mem_nil,
    fun g hg => Nat.le_of_lt (hold g hg), fun i hi => absurd hi List.not_mem_nil⟩
  exact Nat.lt_irrefl _ (hold generation (List.mem_of_getElem? hi))

/-- The set of the next round. -/
theorem advance_spec {generation : Nat} {c : Char} (active : List Nat) {seen : List Nat}
    (hlength : seen.length = tokens.length + 1) (hold : ∀ g ∈ seen, g < generation) :
    Built tokens generation none (advance tokens generation c active seen) ∧
      ∀ value, (∃ i ∈ (advance tokens generation c active seen).set, From tokens i value) ↔
        ∃ i ∈ active, ∃ target, targetOf tokens i c = some target ∧ From tokens target value := by
  -- the fold of `advanceOne` adds the targets of one active position after the other
  have hloop : ∀ live, Built tokens generation none live →
      Built tokens generation none (active.foldl (advanceOne tokens generation c) live) ∧
      ∀ value, (∃ i ∈ (active.foldl (advanceOne tokens generation c) live).set,
        From tokens i value) ↔ (∃ i ∈ live.set, From tokens i value) ∨
          ∃ i ∈ active, ∃ target, targetOf tokens i c = some target ∧
            From tokens target value := by
    induction active with
    | nil =>
        intro live h
        exact ⟨h, fun value => ⟨Or.inl, fun hor => hor.resolve_right fun ⟨_, hi, _⟩ =>
          List.not_mem_nil hi⟩⟩
    | cons state active ih =>
        intro live h
        rw [List.foldl_cons]
        unfold advanceOne
        cases htarget : targetOf tokens state c with
        | none =>
            rcases ih live h with ⟨hbuilt, hiff⟩
            refine ⟨hbuilt, fun value => (hiff value).trans (or_congr_right ?_)⟩
            simp [htarget]
        | some target =>
            rcases addState_spec (tokens.length + 1) target live (h.weaken _) (targetOf_le htarget)
              (by omega) with ⟨hadded, hkept, hin, hfrom⟩
            rcases ih _ hadded with ⟨hbuilt, hiff⟩
            refine ⟨hbuilt, fun value => (hiff value).trans ?_⟩
            constructor
            · rintro (⟨i, hi, hvalue⟩ | ⟨i, hi, hmoved⟩)
              · rcases hfrom value i hi hvalue with hlive | htail
                · exact Or.inl ⟨i, hlive, hvalue⟩
                · exact Or.inr ⟨state, List.mem_cons_self, target, htarget, htail⟩
              · exact Or.inr ⟨i, List.mem_cons_of_mem _ hi, hmoved⟩
            · rintro (⟨i, hi, hvalue⟩ | ⟨i, hi, target', htarget', hvalue⟩)
              · exact Or.inl ⟨i, hkept i hi, hvalue⟩
              · rcases List.mem_cons.mp hi with rfl | hi
                · rw [htarget] at htarget'
                  cases htarget'
                  exact Or.inl ⟨target, hin, hvalue⟩
                · exact Or.inr ⟨i, hi, target', htarget', hvalue⟩
  -- it starts from the empty set
  rcases hloop _ (built_empty hlength hold) with ⟨hbuilt, hiff⟩
  refine ⟨hbuilt, fun value => (hiff value).trans ⟨fun hor => hor.resolve_left ?_, Or.inr⟩⟩
  rintro ⟨i, hi, -⟩
  cases hi

/-- At the end of the text the last position is asked for. -/
theorem exists_from_nil {generation : Nat} {live : LiveSet}
    (h : Built tokens generation none live) :
    (∃ i ∈ live.set, From tokens i []) ↔ tokens.length ∈ live.set := by
  constructor
  · rintro ⟨i, hi, hfrom⟩
    -- from a position that is asked for the walk goes on over items that match nothing
    have hwalk : ∀ n i, i ∈ live.set → tokens.length ≤ n + i → From tokens i [] →
        tokens.length ∈ live.set := by
      intro n
      induction n with
      | zero =>
          intro i hi hend _
          have hle := h.le_length hi
          have heq : i = tokens.length := by omega
          exact heq ▸ hi
      | succ n ih =>
          intro i hi hend hfrom
          by_cases hlt : i < tokens.length
          · unfold From at hfrom
            rw [List.drop_eq_getElem_cons hlt, matches_empty_iff] at hfrom
            have hskip : (tokens[i]?).any Token.skippable = true := by
              rw [List.getElem?_eq_getElem hlt]
              exact hfrom.1
            -- the next position is asked for as well, since nothing is pending at the end
            rcases h.closed i hi hskip with hin | hpending
            · exact ih (i + 1) hin (by omega) hfrom.2
            · cases hpending
          · have hle := h.le_length hi
            have heq : i = tokens.length := by omega
            exact heq ▸ hi
    exact hwalk tokens.length i hi (Nat.le_add_right _ _) hfrom
  · intro hin
    refine ⟨tokens.length, hin, ?_⟩
    unfold From
    rw [List.drop_length]
    exact Matches.nil

/-- The loop finds out whether the text is matched from a live position. -/
theorem matchLoop_iff (value : Text) : ∀ {generation : Nat} {live : LiveSet},
    Built tokens generation none live →
      (matchLoop tokens value generation live = true ↔ ∃ i ∈ live.set, From tokens i value) := by
  induction value with
  | nil =>
      intro generation live h
      rw [exists_from_nil h]
      exact List.contains_iff_mem
  | cons c value ih =>
      intro generation live h
      rcases advance_spec live.set (c := c) h.length
        (fun g hg => Nat.lt_succ_of_le (h.old g hg)) with ⟨hbuilt, hnext⟩
      rw [exists_from_cons h, ← hnext, ← ih hbuilt]
      show (if (advance tokens (generation + 1) c live.set live.seen).set.isEmpty = true then false
        else matchLoop tokens value (generation + 1)
          (advance tokens (generation + 1) c live.set live.seen)) = true ↔ _
      by_cases hempty : (advance tokens (generation + 1) c live.set live.seen).set.isEmpty = true
      · rw [if_pos hempty]
        refine iff_of_false Bool.false_ne_true fun hloop => ?_
        rcases (ih hbuilt).mp hloop with ⟨i, hi, -⟩
        rw [List.isEmpty_iff.mp hempty] at hi
        cases hi
      · rw [if_neg hempty]

/-! ## Globs -/

theorem tokenize_plain {c : Char} (hc : isPlain c = true) (t : Text) :
    tokenize (c :: t) = .literal c :: tokenize t := by
  unfold isPlain at hc
  rw [Bool.and_eq_true, decide_eq_true_eq, decide_eq_true_eq] at hc
  have htoken : tokenOf c = .literal c := by
    unfold tokenOf
    rw [if_neg hc.1, if_neg hc.2]
  cases t with
  | nil =>
      unfold tokenize
      rw [htoken]
  | cons d t =>
      rw [tokenize, if_neg fun h => hc.1 h.1, htoken]

theorem tokenize_front (front t : Text) (h : ∀ c ∈ front, isPlain c = true) :
    tokenize (front ++ t) = front.map Token.literal ++ tokenize t := by
  induction front with
  | nil => rfl
  | cons c front ih =>
      rw [List.forall_mem_cons] at h
      rw [List.cons_append, tokenize_plain h.1, ih h.2]
      rfl

theorem matchWildcards_iff (pattern value : Text) :
    matchWildcards pattern value = true ↔ Matches '/' (tokenize pattern) value := by
  have hempty : Built (tokenize pattern) 1 none
      ⟨List.replicate ((tokenize pattern).length + 1) 0, []⟩ :=
    built_empty List.length_replicate fun g hg => by
      rw [List.eq_of_mem_replicate hg]
      exact Nat.one_pos
  rcases addState_spec ((tokenize pattern).length + 1) 0 _ (hempty.weaken (some 0))
    (Nat.zero_le _) (Nat.le_refl _) with ⟨hbuilt, -, hstart, hfrom⟩
  unfold matchWildcards
  dsimp only
  rw [matchLoop_iff value hbuilt]
  constructor
  · rintro ⟨i, hi, hvalue⟩
    rcases hfrom value i hi hvalue with hin | hzero
    · cases hin
    · exact hzero
  · intro h
    exact ⟨0, hstart, h⟩

/-- A glob matches what its items stand for. -/
theorem globMatch_iff (pattern value : Text) :
    globMatch pattern value = true ↔ Matches '/' (tokenize pattern) value := by
  have hplain : ∀ c ∈ pattern.takeWhile isPlain, isPlain c = true :=
    fun c hc => List.mem_takeWhile_imp hc
  -- the plain characters in front are literals, and only the rest is searched
  have hsplit : tokenize pattern = (pattern.takeWhile isPlain).map Token.literal ++
      tokenize (pattern.dropWhile isPlain) := by
    rw [← tokenize_front _ _ hplain, List.takeWhile_append_dropWhile]
  rw [hsplit, matches_literals]
  unfold globMatch
  cases hrest : value.dropPrefix? (pattern.takeWhile isPlain) with
  | none =>
      refine iff_of_false Bool.false_ne_true ?_
      rintro ⟨rest, hvalue, -⟩
      rw [dropPrefix?_eq_some.mpr hvalue] at hrest
      cases hrest
  | some rest =>
      have hvalue := dropPrefix?_eq_some.mp hrest
      -- the plain front can be taken off in one way only
      have hunique : (∃ rest', value = pattern.takeWhile isPlain ++ rest' ∧
          Matches '/' (tokenize (pattern.dropWhile isPlain)) rest') ↔
            Matches '/' (tokenize (pattern.dropWhile isPlain)) rest := by
        constructor
        · rintro ⟨rest', hvalue', h⟩
          rw [hvalue] at hvalue'
          rwa [List.append_cancel_left hvalue']
        · intro h
          exact ⟨rest, hvalue, h⟩
      rw [hunique]
      cases hwild : pattern.dropWhile isPlain with
      | nil =>
          show rest.isEmpty = true ↔ Matches '/' [] rest
          rw [matches_nil]
          exact List.isEmpty_iff
      | cons c t => exact matchWildcards_iff (c :: t) rest

/-! ## Filters -/

theorem foldl_last {A : Type} (p : A → Bool) (verdict : A → Bool) (l : List A) : ∀ start : Bool,
    l.foldl (fun matched a => if p a then verdict a else matched) start =
      (((l.filter p).getLast?).map verdict).getD start := by
  induction l using List.reverseRecOn with
  | nil => exact fun _ => rfl
  | append_singleton l a ih =>
      intro start
      rw [List.foldl_append, ih, List.filter_append]
      cases ha : p a <;> simp [ha]

/-- A pattern of the filter matches. -/
def patternMatches (value pattern : Text) : Bool := globMatch (stripNegation pattern).2 value

/-- What a pattern decides. -/
def patternVerdict (pattern : Text) : Bool := !(stripNegation pattern).1

/-- The last pattern that matches decides. -/
theorem filter_verdict (filter : Value N) (value : Text) : matchesFilter filter value =
    (((((patternsOf filter).getD []).filter (patternMatches value)).getLast?).map
      patternVerdict).getD false := by
  unfold matchesFilter matchesFilterWithDefault
  cases patternsOf filter with
  | none => rfl
  | some patterns =>
      cases patterns with
      | nil => rfl
      | cons pattern patterns =>
          exact foldl_last (patternMatches value) patternVerdict (pattern :: patterns) false

/-- Globs match what their items stand for, and in a filter the last pattern that matches
    decides. -/
theorem trigger_filters : (∀ pattern value : Text,
      globMatch pattern value = true ↔ Matches '/' (tokenize pattern) value) ∧
    ∀ (filter : Value N) (value : Text), matchesFilter filter value =
      (((((patternsOf filter).getD []).filter (patternMatches value)).getLast?).map
        patternVerdict).getD false :=
  ⟨globMatch_iff, filter_verdict⟩

/-- A `+` is no quantifier, nor is a `?`. -/
theorem quantifiers_are_not_read :
    ("aa".toList ∈ ({['a']} : Language Char) * KStar.kstar {['a']} ∧
      globMatch "a+".toList "aa".toList = false) ∧
    ([] ∈ ({[], ['a']} : Language Char) ∧ globMatch "a?".toList [] = false) := by
  have hmore : ['a'] ∈ KStar.kstar ({['a']} : Language Char) :=
    Language.mem_kstar.mpr ⟨[['a']], rfl, fun y hy => List.mem_singleton.mp hy⟩
  exact ⟨⟨Language.mem_mul.mpr ⟨['a'], rfl, ['a'], hmore, rfl⟩, by decide⟩,
    Or.inl rfl, by decide⟩

end Workflow

end Preloop
