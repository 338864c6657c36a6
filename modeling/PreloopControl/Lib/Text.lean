import Mathlib

/-!
# Texts and Dictionaries

Strings as lists of characters, with the scanning operations a hand-written
lexer or template reader uses, and dictionaries keyed by text.

Positions never appear. Where a program finds a pattern and slices around it,
`cut` returns the text before and after the first occurrence, so a scanning loop
is a recursion on what is left.

Dictionaries are Mathlib's association lists with distinct keys; what a lookup
sees after a merge is `lookup_extend`.

## Main definitions

* `Text`, `Text.utf8Len`: Characters and their encoded length.
* `Text.isWhitespace`, `Text.trim`: Unicode white space.
* `Text.cut`: The text before and after the first occurrence of a pattern.
* `Dict`, `Dict.extend`: Dictionaries and their merge.

## Theorems

* `Text.cut_eq`, `Text.cut_first`: A cut puts the text together again, and there is
  no earlier one.
* `Text.trim_trim`: Trimming once is enough.
* `Dict.lookup_extend`: The merged-in dictionary wins.
-/

/-- A text, character by character. -/
abbrev Text := List Char

namespace Text

/-- The length in bytes of the UTF-8 encoding. -/
def utf8Len (t : Text) : Nat := (t.map Char.utf8Size).sum

/-- The Unicode property `White_Space`. -/
def isWhitespace (c : Char) : Bool :=
  let n := c.toNat
  (9 ≤ n && n ≤ 13) || n = 0x20 || n = 0x85 || n = 0xA0 || n = 0x1680 ||
    (0x2000 ≤ n && n ≤ 0x200A) || n = 0x2028 || n = 0x2029 || n = 0x202F || n = 0x205F ||
    n = 0x3000

/-- Without the white space at both ends. -/
def trim (t : Text) : Text := (t.dropWhile isWhitespace).rdropWhile isWhitespace

/-- Equality up to the case of ASCII letters. -/
def eqIgnoreAsciiCase (a b : Text) : Bool := a.map Char.toLower = b.map Char.toLower

/-- The text before and after the first occurrence of a pattern. -/
def cut (pat : Text) : Text → Option (Text × Text)
  | [] => if pat = [] then some ([], []) else none
  | c :: t =>
    if pat.isPrefixOf (c :: t) then some ([], (c :: t).drop pat.length)
    else (cut pat t).map fun p => (c :: p.1, p.2)

/-- The pattern occurs somewhere. -/
def contains (pat t : Text) : Bool := (cut pat t).isSome

/-! ## Cutting -/

section Cut

variable {pat t before after : Text}

theorem cut_eq (h : cut pat t = some (before, after)) : t = before ++ pat ++ after := by
  induction t generalizing before with
  | nil =>
      by_cases hp : pat = []
      · simp_all [cut]
      · simp [cut, hp] at h
  | cons c t ih =>
      unfold cut at h
      split at h
      · -- the pattern starts here
        rename_i hp
        obtain ⟨rest, hrest⟩ := List.isPrefixOf_iff_prefix.mp hp
        simp only [Option.some.injEq, Prod.mk.injEq] at h
        rw [← hrest, List.drop_left] at h
        simp [← h.1, ← h.2, hrest]
      · obtain ⟨p, hp, hpq⟩ := Option.map_eq_some_iff.mp h
        simp only [Prod.mk.injEq] at hpq
        have hrest : cut pat t = some (p.1, after) := by rw [hp, ← hpq.2]
        rw [← hpq.1, ih hrest]
        simp

theorem cut_length (h : cut pat t = some (before, after)) (hp : pat ≠ []) :
    after.length < t.length := by
  have hlen : 0 < pat.length := List.length_pos_iff.mpr hp
  rw [cut_eq h]
  simp only [List.length_append]
  omega

/-- A pattern at the start is found there. -/
theorem cut_append (hp : pat ≠ []) (t : Text) : cut pat (pat ++ t) = some ([], t) := by
  cases pat with
  | nil => exact absurd rfl hp
  | cons c pat =>
      have hpre : (c :: pat).isPrefixOf (c :: pat ++ t) = true :=
        List.isPrefixOf_iff_prefix.mpr (List.prefix_append _ _)
      rw [List.cons_append] at hpre ⊢
      unfold cut
      rw [if_pos hpre]
      simp

/-- The first occurrence is not after any other. -/
theorem cut_of_occurs (pat a b : Text) :
    ∃ before after, cut pat (a ++ (pat ++ b)) = some (before, after) ∧
      before.length ≤ a.length := by
  induction a with
  | nil =>
      by_cases hp : pat = []
      · subst hp
        cases b with
        | nil => exact ⟨[], [], rfl, Nat.le_refl _⟩
        | cons c b => exact ⟨[], c :: b, rfl, Nat.le_refl _⟩
      · exact ⟨[], b, cut_append hp b, Nat.le_refl _⟩
  | cons c a ih =>
      obtain ⟨before, after, h, hlen⟩ := ih
      rw [List.cons_append]
      unfold cut
      split
      · exact ⟨[], _, rfl, Nat.zero_le _⟩
      · refine ⟨c :: before, after, by rw [h]; rfl, ?_⟩
        simp only [List.length_cons]
        omega

/-- The pattern does not occur before its first occurrence. -/
theorem cut_first (h : cut pat t = some (before, after)) (hp : pat ≠ []) (a b : Text) :
    before ≠ a ++ (pat ++ b) := by
  intro hb
  have ht : t = a ++ (pat ++ (b ++ (pat ++ after))) := by
    rw [cut_eq h, hb]
    simp only [List.append_assoc]
  obtain ⟨before', after', h', hlen⟩ := cut_of_occurs pat a (b ++ (pat ++ after))
  rw [← ht, h] at h'
  cases h'
  have hlen' : 0 < pat.length := List.length_pos_iff.mpr hp
  rw [hb] at hlen
  simp only [List.length_append] at hlen
  omega

end Cut

/-! ## White space -/

theorem dropWhile_append_cons {p : Char → Bool} {c : Char} (hc : p c = false) (a b : Text) :
    (a ++ c :: b).dropWhile p = a.dropWhile p ++ c :: b := by
  induction a with
  | nil => simp [hc]
  | cons d a ih =>
      by_cases hd : p d = true
      · rw [List.cons_append, List.dropWhile_cons_of_pos hd, List.dropWhile_cons_of_pos hd, ih]
      · rw [List.cons_append, List.dropWhile_cons_of_neg hd, List.dropWhile_cons_of_neg hd,
          List.cons_append]

/-- Trimming removes nothing around a character in the middle. -/
theorem trim_append_cons {c : Char} (hc : isWhitespace c = false) (a b : Text) :
    trim (a ++ c :: b) = a.dropWhile isWhitespace ++ c :: b.rdropWhile isWhitespace := by
  have hrev : (a.dropWhile isWhitespace ++ c :: b).reverse =
      b.reverse ++ c :: (a.dropWhile isWhitespace).reverse := by
    simp
  rw [trim, dropWhile_append_cons hc, List.rdropWhile, hrev, dropWhile_append_cons hc]
  simp [List.rdropWhile]

/-- What is trimmed at the end is white space. -/
theorem dropWhile_eq_trim_append (t : Text) :
    ∃ w, t.dropWhile isWhitespace = trim t ++ w ∧ ∀ c ∈ w, isWhitespace c = true := by
  refine ⟨(t.dropWhile isWhitespace).rtakeWhile isWhitespace, ?_, ?_⟩
  · exact List.rdropWhile_append_rtakeWhile.symm
  · intro c hc
    exact List.mem_rtakeWhile_imp hc

/-- White space before a pattern is part of what stands before it. -/
theorem cut_dropWhile {pat : Text} {d : Char} {ds : Text} (hpat : pat = d :: ds)
    (hd : isWhitespace d = false) (t : Text) :
    cut pat t = (cut pat (t.dropWhile isWhitespace)).map
      fun p => (t.takeWhile isWhitespace ++ p.1, p.2) := by
  induction t with
  | nil => simp [cut, hpat]
  | cons c t ih =>
      by_cases hc : isWhitespace c = true
      · -- the pattern cannot start at white space
        have hpre : pat.isPrefixOf (c :: t) = false := by
          rw [hpat, List.isPrefixOf, Bool.and_eq_false_iff]
          left
          simp only [beq_eq_false_iff_ne, ne_eq]
          rintro rfl
          rw [hd] at hc
          cases hc
        rw [List.dropWhile_cons_of_pos hc, List.takeWhile_cons_of_pos hc]
        have hcut : cut pat (c :: t) = (cut pat t).map fun p => (c :: p.1, p.2) := by
          rw [cut, hpre, if_neg Bool.false_ne_true]
        rw [hcut, ih, Option.map_map]
        rfl
      · rw [List.dropWhile_cons_of_neg hc, List.takeWhile_cons_of_neg hc]
        simp

theorem dropWhile_trim (t : Text) : (trim t).dropWhile isWhitespace = trim t := by
  rw [List.dropWhile_eq_self_iff]
  intro hl
  -- the first character of what is left is the first one that is no white space
  have hpre : trim t <+: t.dropWhile isWhitespace := List.rdropWhile_prefix ..
  have hl' : 0 < (t.dropWhile isWhitespace).length := Nat.lt_of_lt_of_le hl hpre.length_le
  have hself := List.dropWhile_eq_self_iff.mp
    (List.dropWhile_idempotent (p := isWhitespace) (l := t)) hl'
  rwa [hpre.getElem hl]

theorem trim_trim (t : Text) : trim (trim t) = trim t := by
  have h : trim (trim t) = (trim t).rdropWhile isWhitespace := by
    rw [trim, dropWhile_trim]
  rw [h, trim, List.rdropWhile_idempotent]

theorem count_dropWhile {c : Char} {p : Char → Bool} (hc : p c = false) (t : Text) :
    (t.dropWhile p).count c = t.count c := by
  induction t with
  | nil => rfl
  | cons d t ih =>
      by_cases hd : p d = true
      · have hne : d ≠ c := by
          rintro rfl
          rw [hc] at hd
          cases hd
        rw [List.dropWhile_cons_of_pos hd, ih, List.count_cons_of_ne hne]
      · rw [List.dropWhile_cons_of_neg hd]

/-- Trimming removes white space only. -/
theorem count_trim {c : Char} (hc : isWhitespace c = false) (t : Text) :
    (trim t).count c = t.count c := by
  rw [trim, List.rdropWhile, List.count_reverse, count_dropWhile hc, List.count_reverse,
    count_dropWhile hc]

end Text

/-! ## Dictionaries -/

/-- A dictionary: association list with distinct keys. -/
abbrev Dict (V : Type) := AList fun _ : Text => V

namespace Dict

variable {V : Type}

/-- The entries of a list, the last one under a key winning. -/
def ofList (entries : List (Text × V)) : Dict V :=
  entries.foldl (fun m e => m.insert e.1 e.2) ∅

/-- `m` with the entries of `other` added, replacing those under the same key. -/
def extend (m other : Dict V) : Dict V := other ∪ m

/-- The values, in storage order. -/
def values (m : Dict V) : List V := m.entries.map (·.2)

theorem lookup_extend (m other : Dict V) (k : Text) :
    (m.extend other).lookup k = (other.lookup k).or (m.lookup k) := by
  unfold extend
  by_cases hk : k ∈ other
  · rw [AList.lookup_union_left hk]
    obtain ⟨v, hv⟩ := Option.isSome_iff_exists.mp (AList.lookup_isSome.mpr hk)
    simp [hv]
  · rw [AList.lookup_union_right hk, AList.lookup_eq_none.mpr hk, Option.none_or]

theorem lookup_foldl_insert (l : List (Text × V)) (hl : (l.map (·.1)).Nodup) (k : Text) :
    ∀ m : Dict V, (l.foldl (fun m e => m.insert e.1 e.2) m).lookup k =
      ((l.find? fun e => e.1 = k).map (·.2)).or (m.lookup k) := by
  induction l with
  | nil => exact fun m => rfl
  | cons e l ih =>
      intro m
      rw [List.map_cons, List.nodup_cons] at hl
      rw [List.foldl_cons, ih hl.2, List.find?_cons]
      by_cases hk : e.1 = k
      · subst hk
        have hnone : (l.find? fun e' => e'.1 = e.1) = none := by
          refine List.find?_eq_none.mpr fun e' he' h => hl.1 ?_
          exact List.mem_map.mpr ⟨e', he', of_decide_eq_true h⟩
        rw [hnone, AList.lookup_insert, decide_eq_true rfl]
        rfl
      · rw [AList.lookup_insert_ne (Ne.symm hk), decide_eq_false hk]

/-- With distinct keys, an entry is found as it was put in. -/
theorem lookup_ofList {l : List (Text × V)} (hl : (l.map (·.1)).Nodup) (k : Text) :
    (ofList l).lookup k = (l.find? fun e => e.1 = k).map (·.2) := by
  rw [ofList, lookup_foldl_insert l hl]
  exact Option.or_none

/-- Entries of a list with distinct keys, each changed or left out. -/
theorem lookup_ofList_filterMap {E : Type} {key : E → Text} {l : List E} (hl : (l.map key).Nodup)
    (f : E → Option V) (k : Text) :
    (ofList (l.filterMap fun e => (f e).map fun v => (key e, v))).lookup k =
      (l.find? fun e => key e = k).bind f := by
  -- the keys of what is left are keys of the list, so they are distinct too
  have hsub : ((l.filterMap fun e => (f e).map fun v => (key e, v)).map (·.1)).Sublist
      (l.map key) := by
    clear hl
    induction l with
    | nil => exact List.Sublist.refl _
    | cons e l ih =>
        rw [List.filterMap_cons]
        cases f e with
        | none => exact ih.cons _
        | some v => exact ih.cons_cons _
  rw [lookup_ofList (hl.sublist hsub)]
  clear hsub
  induction l with
  | nil => rfl
  | cons e l ih =>
      rw [List.map_cons, List.nodup_cons] at hl
      rw [List.filterMap_cons, List.find?_cons]
      -- under this key the first entry decides, as the key comes only once
      by_cases hk : key e = k
      · rw [decide_eq_true hk]
        cases hf : f e with
        | some v =>
            simp [hk, hf]
        | none =>
            have hnone : (l.find? fun e' => key e' = k) = none := by
              refine List.find?_eq_none.mpr fun e' he' h => hl.1 ?_
              exact List.mem_map.mpr ⟨e', he', (of_decide_eq_true h).trans hk.symm⟩
            rw [Option.map_none]
            simp only [ih hl.2, hnone, Option.bind_none, Option.bind_some, hf]
      · rw [decide_eq_false hk]
        cases hf : f e with
        | none => exact ih hl.2
        | some v =>
            show ((List.find? _ ((key e, v) :: _)).map _) = _
            rw [List.find?_cons, decide_eq_false hk]
            exact ih hl.2

/-- An entry is found where the lookup finds it. -/
theorem find?_entries (m : Dict V) (k : Text) :
    (m.entries.find? fun e => e.1 = k) = (m.lookup k).map fun v => ⟨k, v⟩ := by
  refine Eq.trans ?_ (List.map_dlookup_eq_find k m.entries).symm
  congr 1
  funext e
  exact decide_eq_decide.mpr eq_comm

end Dict