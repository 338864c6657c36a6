import PreloopControl.Lib.Text

/-!
# Lines

A text read line by line. A line ends with a line feed, or with a carriage return and a
line feed, and the last one may end where the text does. A return in front of the feed
belongs to the end and not to the line, so a line with its end is a pair that only one
text is written as: `Line` carries what makes it so.

## Main definitions

* `Line`, `Line.written`: A line and its end, and the text of both.
* `Lines.written`, `Lines.joined`: Many lines, with the end of the last one or without.
* `read`: The next line of a text, its end, and what follows.
* `lines`: All lines of a text.
* `joinFeed`, `splitFeed`: Texts with line feeds between them, put together and taken apart.

## Theorems

* `read_written`, `read_open`: What was written is read.
* `read_cases`: What is read was written.
* `lines_of_read`: The lines of a text, one by one.
* `exists_read_of_mem`: A text in front of the first line with some text.
* `length_splitFeed`, `count_joinFeed`: Texts and line feeds are counted alike.
* `Text.cut_exact`, `Text.cut_char`: Where a pattern, and a character, first occur.
-/

namespace Text

variable {pat a b t : Text}

theorem contains_iff : contains pat t = true ↔ ∃ x y, t = x ++ (pat ++ y) := by
  constructor
  · intro h
    rcases Option.isSome_iff_exists.mp h with ⟨p, hp⟩
    exact ⟨p.1, p.2, by rw [cut_eq hp, List.append_assoc]⟩
  · rintro ⟨x, y, rfl⟩
    rcases cut_of_occurs pat x y with ⟨before, after, h, -⟩
    exact Option.isSome_iff_exists.mpr ⟨_, h⟩

theorem cut_eq_none (h : contains pat t = false) : cut pat t = none :=
  Option.not_isSome_iff_eq_none.mp (Bool.eq_false_iff.mp h)

/-- A pattern is first found behind a text if it does not start inside. -/
theorem cut_exact (hp : pat ≠ []) (h : contains pat (a ++ pat.dropLast) = false) (b : Text) :
    cut pat (a ++ (pat ++ b)) = some (a, b) := by
  rcases cut_of_occurs pat a b with ⟨before, after, hcut, hlen⟩
  have heq : a ++ (pat ++ b) = before ++ pat ++ after := cut_eq hcut
  have hpat : 0 < pat.length := List.length_pos_iff.mpr hp
  rcases Nat.lt_or_eq_of_le hlen with hlt | hlen
  · -- an earlier occurrence would lie inside `a ++ pat.dropLast`
    have hshort : before ++ pat <+: a ++ (pat ++ b) := ⟨after, heq.symm⟩
    have hlong : a ++ pat.dropLast <+: a ++ (pat ++ b) := by
      have hdrop : pat.dropLast <+: pat ++ b :=
        (List.dropLast_prefix pat).trans (List.prefix_append _ _)
      exact (List.prefix_append_right_inj a).mpr hdrop
    have hle : (before ++ pat).length ≤ (a ++ pat.dropLast).length := by
      simp only [List.length_append, List.length_dropLast]
      omega
    rcases List.prefix_of_prefix_length_le hshort hlong hle with ⟨y, hy⟩
    have hocc : contains pat (a ++ pat.dropLast) = true :=
      contains_iff.mpr ⟨before, y, by rw [← hy, List.append_assoc]⟩
    rw [h] at hocc
    cases hocc
  · have hsplit := List.append_inj (heq.trans (List.append_assoc _ _ _)) hlen.symm
    rw [hcut, hsplit.1, List.append_cancel_left hsplit.2]

/-- A character is first found behind a text without it. -/
theorem cut_char {c : Char} (h : c ∉ a) (b : Text) : cut [c] (a ++ c :: b) = some (a, b) := by
  refine cut_exact (List.cons_ne_nil c []) ?_ b
  rw [Bool.eq_false_iff, Ne, contains_iff]
  rintro ⟨x, y, hxy⟩
  rw [List.dropLast_singleton, List.append_nil] at hxy
  exact h (by rw [hxy]; simp)

theorem cut_char_none {c : Char} (h : c ∉ a) : cut [c] a = none := by
  refine cut_eq_none ?_
  rw [Bool.eq_false_iff, Ne, contains_iff]
  rintro ⟨x, y, rfl⟩
  exact h (by simp)

theorem contains_of_cut (hp : pat ≠ []) (h : cut pat t = some (a, b)) :
    contains pat (a ++ pat.dropLast) = false := by
  rw [Bool.eq_false_iff]
  intro hocc
  rcases contains_iff.mp hocc with ⟨x, y, hxy⟩
  have hpat : 0 < pat.length := List.length_pos_iff.mpr hp
  have ht : t = x ++ (pat ++ (y ++ ([pat.getLast hp] ++ b))) := by
    have hlast : pat = pat.dropLast ++ [pat.getLast hp] := (List.dropLast_append_getLast hp).symm
    calc t = a ++ pat ++ b := cut_eq h
      _ = a ++ pat.dropLast ++ [pat.getLast hp] ++ b := by
          conv_lhs => rw [hlast]
          simp only [List.append_assoc]
      _ = x ++ (pat ++ (y ++ ([pat.getLast hp] ++ b))) := by
          rw [hxy]
          simp only [List.append_assoc]
  -- the occurrence at `x` starts before the end of `a`, where the first one is found
  rcases cut_of_occurs pat x (y ++ ([pat.getLast hp] ++ b)) with ⟨before, after, hcut, hlen⟩
  rw [← ht, h] at hcut
  cases hcut
  have hcount := congrArg List.length hxy
  simp only [List.length_append, List.length_dropLast] at hcount
  omega

end Text

namespace Lines

/-- How a line ends. -/
inductive LineEnd
  | lf
  | crlf
deriving DecidableEq, Repr

def LineEnd.text : LineEnd → Text
  | .lf => ['\n']
  | .crlf => ['\r', '\n']

/-- A line with its end. -/
structure Line where
  text : Text
  ending : LineEnd
  noFeed : '\n' ∉ text
  noReturn : ending = .lf → text.getLast? ≠ some '\r'

def Line.written (l : Line) : Text := l.text ++ l.ending.text

/-- Many lines with their ends. -/
def written (ls : List Line) : Text := ls.flatMap Line.written

/-- Many lines, the last one without its end. -/
def joined : List Line → Text
  | [] => []
  | [l] => l.text
  | l :: l' :: ls => l.written ++ joined (l' :: ls)

/-- The next line, how it ends unless the text does, and what follows. -/
def read (t : Text) : Option (Text × Option LineEnd × Text) :=
  if t = [] then none
  else
    match Text.cut ['\n'] t with
    | none => some (t, none, [])
    | some (before, rest) =>
      if before.getLast? = some '\r' then some (before.dropLast, some .crlf, rest)
      else some (before, some .lf, rest)

/-- The lines of a text, as many as there is fuel for. -/
def linesFrom : Nat → Text → List Text
  | 0, _ => []
  | n + 1, t =>
    match read t with
    | none => []
    | some (line, _, rest) => line :: linesFrom n rest

/-- The lines of a text. -/
def lines (t : Text) : List Text := linesFrom t.length t

/-! ## Feeds -/

theorem contains_feed {t : Text} : Text.contains ['\n'] t = true ↔ '\n' ∈ t := by
  rw [Text.contains_iff]
  constructor
  · rintro ⟨x, y, rfl⟩
    simp
  · intro h
    rcases List.append_of_mem h with ⟨x, y, rfl⟩
    exact ⟨x, y, by simp⟩

theorem cut_feed {a : Text} (h : '\n' ∉ a) (b : Text) :
    Text.cut ['\n'] (a ++ '\n' :: b) = some (a, b) := Text.cut_char h b

theorem cut_feed_none {t : Text} (h : '\n' ∉ t) : Text.cut ['\n'] t = none := Text.cut_char_none h

theorem not_mem_of_cut {t before rest : Text} (h : Text.cut ['\n'] t = some (before, rest)) :
    '\n' ∉ before := by
  intro hmem
  have hno := Text.contains_of_cut (by simp) h
  rw [contains_feed.mpr (by simpa using hmem)] at hno
  cases hno

theorem not_mem_of_cut_none {t : Text} (h : Text.cut ['\n'] t = none) : '\n' ∉ t := by
  intro hmem
  have hsome := contains_feed.mpr hmem
  rw [Text.contains, h] at hsome
  cases hsome

/-! ## Reading -/

/-- A written line is read. -/
theorem read_written (l : Line) (rest : Text) :
    read (l.written ++ rest) = some (l.text, some l.ending, rest) := by
  have hne : l.written ++ rest ≠ [] := by
    unfold Line.written
    cases l.ending <;> simp [LineEnd.text]
  unfold read
  rw [if_neg hne]
  cases hend : l.ending with
  | lf =>
      have ht : l.written ++ rest = l.text ++ '\n' :: rest := by
        simp [Line.written, hend, LineEnd.text]
      rw [ht, cut_feed l.noFeed]
      simp only
      rw [if_neg (l.noReturn hend)]
  | crlf =>
      -- the return in front of the feed is cut off
      have ht : l.written ++ rest = (l.text ++ ['\r']) ++ '\n' :: rest := by
        simp [Line.written, hend, LineEnd.text]
      have hfeed : '\n' ∉ l.text ++ ['\r'] := by
        have := l.noFeed
        simp_all
      rw [ht, cut_feed hfeed]
      simp only
      rw [if_pos (by simp), List.dropLast_concat]

/-- The last line may have no end. -/
theorem read_open {t : Text} (hne : t ≠ []) (h : '\n' ∉ t) : read t = some (t, none, []) := by
  unfold read
  rw [if_neg hne, cut_feed_none h]

/-- What is read was written, or is all there is. -/
theorem read_cases {t line rest : Text} {ending : Option LineEnd}
    (h : read t = some (line, ending, rest)) :
    (ending = none ∧ line = t ∧ t ≠ [] ∧ '\n' ∉ t ∧ rest = []) ∨
      ∃ l : Line, line = l.text ∧ ending = some l.ending ∧ t = l.written ++ rest := by
  unfold read at h
  -- up to the next line feed, which a carriage return in front of it belongs to
  by_cases hne : t = []
  · rw [if_pos hne] at h
    cases h
  · rw [if_neg hne] at h
    cases hcut : Text.cut ['\n'] t with
    | none =>
        rw [hcut] at h
        cases h
        exact .inl ⟨rfl, rfl, hne, not_mem_of_cut_none hcut, rfl⟩
    | some p =>
        rcases p with ⟨before, after⟩
        have hfeed := not_mem_of_cut hcut
        have ht := Text.cut_eq hcut
        rw [hcut] at h
        simp only at h
        right
        by_cases hcr : before.getLast? = some '\r'
        · rw [if_pos hcr] at h
          cases h
          rcases List.getLast?_eq_some_iff.mp hcr with ⟨init, rfl⟩
          rw [List.dropLast_concat]
          refine ⟨⟨init, .crlf, ?_, fun hlf => nomatch hlf⟩, rfl, rfl, ?_⟩
          · exact fun hmem => hfeed (List.mem_append_left _ hmem)
          · rw [ht]
            simp [Line.written, LineEnd.text]
        · rw [if_neg hcr] at h
          cases h
          refine ⟨⟨_, .lf, hfeed, fun _ => hcr⟩, rfl, rfl, ?_⟩
          rw [ht]
          simp [Line.written, LineEnd.text]

theorem read_eq_none {t : Text} (h : read t = none) : t = [] := by
  unfold read at h
  by_cases hne : t = []
  · exact hne
  · rw [if_neg hne] at h
    cases hcut : Text.cut ['\n'] t with
    | none =>
        rw [hcut] at h
        cases h
    | some p =>
        rw [hcut] at h
        simp only at h
        split at h <;> cases h

/-- The end of a line has characters. -/
theorem Line.written_length (l : Line) : l.text.length < l.written.length := by
  unfold Line.written
  cases l.ending <;> simp [LineEnd.text]

theorem read_length {t line rest : Text} {ending : Option LineEnd}
    (h : read t = some (line, ending, rest)) : rest.length < t.length := by
  rcases read_cases h with ⟨-, -, hne, -, rfl⟩ | ⟨l, -, -, rfl⟩
  · exact List.length_pos_iff.mpr hne
  · have := l.written_length
    rw [List.length_append]
    omega

theorem joined_isPrefix (ls : List Line) : joined ls <+: written ls := by
  induction ls with
  | nil => exact List.prefix_refl _
  | cons l ls ih =>
      unfold written
      rw [List.flatMap_cons]
      cases ls with
      | nil => exact ⟨l.ending.text, by simp [joined, Line.written]⟩
      | cons l' ls => exact (List.prefix_append_right_inj l.written).mpr ih

/-! ## All lines -/

theorem linesFrom_enough {n : Nat} {t : Text} (h : t.length ≤ n) : linesFrom n t = lines t := by
  unfold lines
  -- by strong induction on the text, what fuel is left over is not asked for
  induction hk : t.length using Nat.strong_induction_on generalizing n t with
  | h k ih =>
      subst hk
      cases hread : read t with
      | none =>
          rw [read_eq_none hread]
          cases n <;> rfl
      | some p =>
          rcases p with ⟨line, ending, rest⟩
          have hlen := read_length hread
          cases n with
          | zero => omega
          | succ n =>
              cases hm : t.length with
              | zero => omega
              | succ m =>
                  simp only [linesFrom, hread]
                  have hn := ih rest.length hlen (n := n) (by omega) rfl
                  have hm' := ih rest.length hlen (n := m) (by omega) rfl
                  rw [hn, hm']

theorem lines_of_read {t line rest : Text} {ending : Option LineEnd}
    (h : read t = some (line, ending, rest)) : lines t = line :: lines rest := by
  have hlen := read_length h
  unfold lines
  cases hn : t.length with
  | zero => omega
  | succ n =>
      simp only [linesFrom, h]
      rw [linesFrom_enough (by omega)]
      rfl

/-- Where a line with some text occurs, the text in front of the first such line is made of
    other lines. -/
theorem exists_read_of_mem {d t : Text} (h : d ∈ lines t) :
    ∃ (front : List Line) (tail : Text) (ending : Option LineEnd) (rest : Text),
      (∀ l ∈ front, l.text ≠ d) ∧ t = written front ++ tail ∧
        read tail = some (d, ending, rest) := by
  -- the induction is on the length of the text, a line shorter each time
  induction hk : t.length using Nat.strong_induction_on generalizing t with
  | h k ih =>
      subst hk
      cases hread : read t with
      | none =>
          rw [read_eq_none hread] at h
          cases h
      | some p =>
          rcases p with ⟨line, ending, rest⟩
          rw [lines_of_read hread] at h
          by_cases hd : line = d
          · exact ⟨[], t, ending, rest, by simp, rfl, hd ▸ hread⟩
          · have hrest : d ∈ lines rest := by
              rcases List.mem_cons.mp h with h | h
              · exact absurd h.symm hd
              · exact h
            rcases ih rest.length (read_length hread) hrest rfl with
              ⟨front, tail, ending', rest', hfront, ht, hread'⟩
            rcases read_cases hread with ⟨-, -, -, -, rfl⟩ | ⟨l, rfl, -, rfl⟩
            · cases hrest
            · refine ⟨l :: front, tail, ending', rest', ?_, ?_, hread'⟩
              · exact List.forall_mem_cons.mpr ⟨hd, hfront⟩
              · rw [ht]
                simp only [written, List.flatMap_cons, List.append_assoc]

/-! ## Line feeds only -/

/-- The texts, with line feeds between them. -/
def joinFeed : List Text → Text
  | [] => []
  | [l] => l
  | l :: m :: ls => l ++ '\n' :: joinFeed (m :: ls)

/-- The texts between the line feeds. -/
def splitFeed : Text → List Text
  | [] => [[]]
  | c :: t =>
    if c = '\n' then [] :: splitFeed t
    else
      match splitFeed t with
      | [] => [[c]]
      | l :: ls => (c :: l) :: ls

theorem splitFeed_ne_nil (t : Text) : splitFeed t ≠ [] := by
  cases t with
  | nil => exact List.cons_ne_nil _ _
  | cons c t =>
      unfold splitFeed
      by_cases hc : c = '\n'
      · rw [if_pos hc]
        exact List.cons_ne_nil _ _
      · rw [if_neg hc]
        cases splitFeed t <;> exact List.cons_ne_nil _ _

/-- There is one text more than there are line feeds. -/
theorem length_splitFeed (t : Text) : (splitFeed t).length = t.count '\n' + 1 := by
  induction t with
  | nil => rfl
  | cons c t ih =>
      unfold splitFeed
      by_cases hc : c = '\n'
      · rw [if_pos hc, List.length_cons, ih, hc, List.count_cons_self]
      · rw [if_neg hc, List.count_cons_of_ne hc, ← ih]
        cases h : splitFeed t with
        | nil => exact absurd h (splitFeed_ne_nil t)
        | cons l ls => rfl

theorem joinFeed_eq_nil {ls : List Text} : joinFeed ls = [] ↔ ls = [] ∨ ls = [[]] := by
  match ls with
  | [] => simp [joinFeed]
  | [l] => simp [joinFeed]
  | l :: m :: ls => simp [joinFeed]

/-- The line feeds of texts put together: those between them, and their own. -/
theorem count_joinFeed {ls : List Text} (h : ls ≠ []) :
    (joinFeed ls).count '\n' + 1 = ls.length + (ls.map fun l => l.count '\n').sum := by
  match ls with
  | [] => exact absurd rfl h
  | [l] => simp [joinFeed, Nat.add_comm]
  | l :: m :: ls =>
      have ih := count_joinFeed (List.cons_ne_nil m ls)
      simp only [joinFeed, List.count_append, List.count_cons_self, List.length_cons,
        List.map_cons, List.sum_cons] at ih ⊢
      omega

end Lines
