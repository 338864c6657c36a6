import PreloopControl.Worker.FileCommands

/-!
# What File Commands Hold

The grammar of a file of entries, on its lines, and that the reader accepts exactly this
grammar and returns the values that were written. A line is read up to a line feed, and a
return in front of the feed belongs to the end of the line.

The two forms exclude each other by their keys: a key has no `=` and no `<<`, and in front
of a heredoc's mark it does not end in `<` either, since the mark would then be found one
character early.

## Main definitions

* `AssignmentForm`, `HeredocForm`: The two forms of a line.
* `FileItem`, `FileEnd`: A piece of a file, and the piece that ends without a line end.
* `Malformed`: A text that starts with a piece of neither kind.

## Theorems

* `lineForm_assignment`, `lineForm_heredoc`: The two tests decide the form.
* `heredocLoop_closed`, `heredocLoop_unclosed`: The inner loop, up to the delimiter or not.
* `parseLoop_item`: One piece of a file.
* `kv_file_exact`: What is accepted, and as what.
-/

namespace Preloop

namespace Worker

open Lines

/-! ## The form of a line -/

/-- The line is `KEY=VALUE`. -/
structure AssignmentForm (line key value : Text) : Prop where
  text : line = key ++ '=' :: value
  named : key ≠ []
  equals : '=' ∉ key
  marks : Text.contains heredocMark key = false

/-- The line is `KEY<<DELIMITER`. -/
structure HeredocForm (line key delimiter : Text) : Prop where
  text : line = key ++ (heredocMark ++ delimiter)
  named : key ≠ []
  delimited : delimiter ≠ []
  equals : '=' ∉ key
  marks : Text.contains heredocMark (key ++ ['<']) = false

/-- The line has neither form. -/
def NeitherForm (line : Text) : Prop :=
  (∀ key value, ¬ AssignmentForm line key value) ∧
    ∀ key delimiter, ¬ HeredocForm line key delimiter

theorem contains_equals {t : Text} : Text.contains equalsMark t = true ↔ '=' ∈ t := by
  rw [Text.contains_iff]
  constructor
  · rintro ⟨x, y, rfl⟩
    simp [equalsMark]
  · intro h
    rcases List.append_of_mem h with ⟨x, y, rfl⟩
    exact ⟨x, y, by simp [equalsMark]⟩

theorem not_contains_mono {pat a t : Text} (h : Text.contains pat t = false)
    (ha : a <+: t) : Text.contains pat a = false := by
  rw [Bool.eq_false_iff] at h ⊢
  intro hocc
  rcases Text.contains_iff.mp hocc with ⟨x, y, rfl⟩
  rcases ha with ⟨b, rfl⟩
  exact h (Text.contains_iff.mpr ⟨x, y ++ b, by simp⟩)

theorem not_mem_of_cut_equals {line key value : Text}
    (h : Text.cut equalsMark line = some (key, value)) : '=' ∉ key := by
  intro hmem
  have hno := Text.contains_of_cut (by simp [equalsMark]) h
  rw [contains_equals.mpr (List.mem_append_left _ hmem)] at hno
  cases hno

section Forms

variable {line key value delimiter : Text}

/-- Behind the key of an assignment, a heredoc's mark comes too late. -/
theorem AssignmentForm.mark_behind (h : AssignmentForm line key value) {key' delimiter' : Text}
    (hcut : Text.cut heredocMark line = some (key', delimiter')) : key.length < key'.length := by
  have heq : key ++ '=' :: value = key' ++ '<' :: '<' :: delimiter' := by
    rw [← h.text, Text.cut_eq hcut]
    simp [heredocMark]
  rcases List.append_eq_append_iff.mp heq with ⟨c, hk, hc⟩ | ⟨c, hk, hc⟩
  · cases c with
    | nil => exact absurd (List.cons.inj hc).1 (by decide)
    | cons d c =>
        rw [hk, List.length_append, List.length_cons]
        omega
  · -- the mark would lie in the key, or end with the equals sign
    match c, hc with
    | [], hc => exact absurd (List.cons.inj hc).1 (by decide)
    | [_], hc => exact absurd (List.cons.inj (List.cons.inj hc).2).1 (by decide)
    | _ :: _ :: c, hc =>
        have h1 := (List.cons.inj hc).1
        have h2 := (List.cons.inj (List.cons.inj hc).2).1
        have hocc : Text.contains heredocMark key = true :=
          Text.contains_iff.mpr ⟨key', c, by rw [hk, ← h1, ← h2]; rfl⟩
        rw [h.marks] at hocc
        cases hocc

theorem lineForm_assignment (h : AssignmentForm line key value) :
    lineForm line = .assignment key value := by
  have hcut : Text.cut equalsMark (key ++ '=' :: value) = _ := Text.cut_char h.equals value
  rw [← h.text] at hcut
  unfold lineForm
  rw [hcut]
  cases hmark : Text.cut heredocMark line with
  | none => rfl
  | some p =>
      have hlt := h.mark_behind hmark
      simp only
      rw [if_pos hlt]

/-- Behind the key of a heredoc, an equals sign comes too late. -/
theorem HeredocForm.equals_behind (h : HeredocForm line key delimiter) {key' value' : Text}
    (hcut : Text.cut equalsMark line = some (key', value')) : key.length < key'.length := by
  have heq : key ++ '<' :: '<' :: delimiter = key' ++ '=' :: value' := by
    have := h.text
    rw [Text.cut_eq hcut] at this
    simpa [heredocMark, equalsMark] using this.symm
  rcases List.append_eq_append_iff.mp heq with ⟨c, hk, hc⟩ | ⟨c, hk, hc⟩
  · cases c with
    | nil => exact absurd (List.cons.inj hc).1 (by decide)
    | cons d c =>
        rw [hk, List.length_append, List.length_cons]
        omega
  · cases c with
    | nil => exact absurd (List.cons.inj hc).1 (by decide)
    | cons d c =>
        have hd := (List.cons.inj hc).1
        exact absurd (by rw [hk, ← hd]; simp) h.equals

theorem lineForm_heredoc (h : HeredocForm line key delimiter) :
    lineForm line = .heredoc key delimiter := by
  have hcut : Text.cut heredocMark line = some (key, delimiter) := by
    rw [h.text]
    exact Text.cut_exact (by simp [heredocMark]) h.marks delimiter
  unfold lineForm
  rw [hcut]
  cases heq : Text.cut equalsMark line with
  | none => rfl
  | some p =>
      have hlt := h.equals_behind heq
      simp only
      rw [if_neg (by omega), if_pos hlt]

/-- Two texts cut off one line are one in the other. -/
theorem prefix_of_cuts {pat pat' a b a' b' : Text} (h : Text.cut pat line = some (a, b))
    (h' : Text.cut pat' line = some (a', b')) (hlen : a.length ≤ a'.length) : a <+: a' := by
  have ha : a <+: line := ⟨pat ++ b, by rw [Text.cut_eq h, List.append_assoc]⟩
  have ha' : a' <+: line := ⟨pat' ++ b', by rw [Text.cut_eq h', List.append_assoc]⟩
  exact List.prefix_of_prefix_length_le ha ha' hlen

theorem assignmentForm_of_lineForm (h : lineForm line = .assignment key value)
    (hk : key ≠ []) : AssignmentForm line key value := by
  unfold lineForm at h
  cases heq : Text.cut equalsMark line with
  | none =>
      rw [heq] at h
      cases hmark : Text.cut heredocMark line <;> rw [hmark] at h <;> cases h
  | some p =>
      rcases p with ⟨key', value'⟩
      have htext : line = key' ++ '=' :: value' := by
        simpa [equalsMark] using Text.cut_eq heq
      rw [heq] at h
      cases hmark : Text.cut heredocMark line with
      | none =>
          rw [hmark] at h
          cases h
          have hno : Text.contains heredocMark line = false := by
            rw [Text.contains, hmark]
            rfl
          exact ⟨htext, hk, not_mem_of_cut_equals heq,
            not_contains_mono hno ⟨_, htext.symm⟩⟩
      | some q =>
          rw [hmark] at h
          simp only at h
          by_cases hlt : key'.length < q.1.length
          · rw [if_pos hlt] at h
            cases h
            -- the key lies in what stands before the mark
            have hno := Text.contains_of_cut (by simp [heredocMark]) hmark
            have hpre := prefix_of_cuts heq hmark (Nat.le_of_lt hlt)
            exact ⟨htext, hk, not_mem_of_cut_equals heq,
              not_contains_mono hno (hpre.trans (List.prefix_append _ _))⟩
          · rw [if_neg hlt] at h
            split at h <;> cases h

theorem heredocForm_of_lineForm (h : lineForm line = .heredoc key delimiter)
    (hk : key ≠ []) (hd : delimiter ≠ []) : HeredocForm line key delimiter := by
  unfold lineForm at h
  -- the mark of a heredoc is there, with the equals sign behind it or nowhere
  cases hmark : Text.cut heredocMark line with
  | none =>
      rw [hmark] at h
      cases heq : Text.cut equalsMark line <;> rw [heq] at h <;> cases h
  | some p =>
      rcases p with ⟨key', delimiter'⟩
      have htext : line = key' ++ (heredocMark ++ delimiter') := by
        rw [← List.append_assoc]
        exact Text.cut_eq hmark
      have hno := Text.contains_of_cut (by simp [heredocMark]) hmark
      rw [hmark] at h
      cases heq : Text.cut equalsMark line with
      | none =>
          rw [heq] at h
          cases h
          have hnone : Text.contains equalsMark line = false := by
            rw [Text.contains, heq]
            rfl
          refine ⟨htext, hk, hd, fun hmem => ?_, hno⟩
          have hsome := contains_equals.mpr hmem
          rw [not_contains_mono hnone ⟨_, htext.symm⟩] at hsome
          cases hsome
      -- an equals sign in front of the mark would have made it an assignment
      | some q =>
          rw [heq] at h
          simp only at h
          split at h
          · cases h
          · split at h
            · rename_i hlt
              cases h
              have hpre := prefix_of_cuts hmark heq (Nat.le_of_lt hlt)
              exact ⟨htext, hk, hd, fun hmem => not_mem_of_cut_equals heq (hpre.mem hmem), hno⟩
            · cases h

end Forms

/-! ## The inner loop -/

/-- The text from the header on ends the value at the first line that is the delimiter. -/
theorem heredocLoop_closed {delimiter tail rest : Text} {ending : Option LineEnd}
    (hread : read tail = some (delimiter, ending, rest)) {value : List Line}
    (hfree : ∀ l ∈ value, l.text ≠ delimiter) (done : Text) {stop n : Nat}
    (hn : (written value ++ tail).length ≤ n) :
    heredocLoop delimiter (done ++ (written value ++ tail)) n stop (written value ++ tail) =
      .ok (let last := if value = [] then stop else (done ++ joined value).length
        if 0 < last then (done ++ (written value ++ tail)).take last else [], rest) := by
  induction value generalizing done stop n with
  | nil =>
      have hlen := read_length hread
      cases n with
      | zero =>
          rw [List.length_append] at hn
          omega
      | succ n =>
          simp only [written, List.flatMap_nil, List.nil_append, heredocLoop, hread]
          rw [if_pos trivial, if_pos trivial]
  | cons l ls ih =>
      rcases List.forall_mem_cons.mp hfree with ⟨hl, hls⟩
      have hsplit : written (l :: ls) ++ tail = l.written ++ (written ls ++ tail) := by
        simp only [written, List.flatMap_cons, List.append_assoc]
      have hlen := l.written_length
      rw [hsplit, List.length_append] at hn
      rw [hsplit]
      cases n with
      | zero => omega
      | succ n =>
          simp only [heredocLoop, read_written]
          rw [if_neg hl]
          -- the loop goes on behind `l`, with the end of `l` as the end of the value
          have hdone : done ++ (l.written ++ (written ls ++ tail)) =
              done ++ l.written ++ (written ls ++ tail) := (List.append_assoc _ _ _).symm
          have hstop : (done ++ l.written ++ (written ls ++ tail)).length -
              (written ls ++ tail).length - l.ending.text.length = (done ++ l.text).length := by
            simp only [List.length_append, Line.written]
            omega
          rw [hdone, ih hls (done ++ l.written) (by omega), hstop]
          cases ls with
          | nil => simp [joined]
          | cons l' ls => simp [joined]

/-- A value that the text ends within is refused. -/
theorem heredocLoop_unclosed {delimiter : Text} (start : Text) (n : Nat) (stop : Nat) {text : Text}
    (h : delimiter ∉ lines text) :
    ∃ e, heredocLoop delimiter start n stop text = .error e := by
  induction n generalizing stop text with
  | zero => exact ⟨_, rfl⟩
  | succ n ih =>
      cases hread : read text with
      | none =>
          simp only [heredocLoop, hread]
          exact ⟨_, rfl⟩
      | some p =>
          rcases p with ⟨line, ending, rest⟩
          rw [lines_of_read hread, List.mem_cons, not_or] at h
          simp only [heredocLoop, hread]
          rw [if_neg (fun heq => h.1 heq.symm)]
          cases ending with
          | none => exact ⟨_, rfl⟩
          | some ending => exact ih _ h.2

/-- From the header on, the value is what stands in front of the end of its last line. -/
theorem heredocLoop_value {delimiter tail rest : Text} {ending : Option LineEnd}
    (hread : read tail = some (delimiter, ending, rest)) {value : List Line}
    (hfree : ∀ l ∈ value, l.text ≠ delimiter) :
    heredocLoop delimiter (written value ++ tail) (written value ++ tail).length 0
      (written value ++ tail) = .ok (joined value, rest) := by
  have h : heredocLoop delimiter ([] ++ (written value ++ tail)) (written value ++ tail).length 0
      (written value ++ tail) = _ := heredocLoop_closed hread hfree [] (Nat.le_refl _)
  simp only [List.nil_append] at h
  rw [h]
  congr 2
  cases value with
  | nil => rfl
  | cons l ls =>
      rw [if_neg (List.cons_ne_nil l ls)]
      have hpre : joined (l :: ls) <+: written (l :: ls) ++ tail :=
        (joined_isPrefix (l :: ls)).trans (List.prefix_append _ _)
      by_cases hnil : 0 < (joined (l :: ls)).length
      · rw [if_pos hnil]
        exact (List.prefix_iff_eq_take.mp hpre).symm
      · rw [if_neg hnil]
        exact (List.length_eq_zero_iff.mp (by omega)).symm

/-! ## One round of the loop -/

theorem parseLoop_nil (n : Nat) (result : SortedMap Text Text) :
    parseLoop n [] result = .ok result := by
  cases n <;> rfl

section Rounds

variable {n : Nat} {text line rest key value delimiter : Text} {ending : Option LineEnd}
  {result : SortedMap Text Text}

theorem parseLoop_blank (hread : read text = some ([], ending, rest)) :
    parseLoop (n + 1) text result = parseLoop n rest result := by
  simp only [parseLoop, hread]
  rw [if_pos trivial]

theorem AssignmentForm.ne_nil (h : AssignmentForm line key value) : line ≠ [] := by
  rw [h.text]
  simp

theorem HeredocForm.ne_nil (h : HeredocForm line key delimiter) : line ≠ [] := by
  rw [h.text]
  simp [h.named]

theorem parseLoop_assignment (hread : read text = some (line, ending, rest))
    (h : AssignmentForm line key value) :
    parseLoop (n + 1) text result = parseLoop n rest (result.insert key value) := by
  simp only [parseLoop, hread]
  rw [if_neg h.ne_nil, lineForm_assignment h]
  simp only
  rw [if_neg h.named]

theorem parseLoop_heredoc (hread : read text = some (line, ending, rest))
    (h : HeredocForm line key delimiter) :
    parseLoop (n + 1) text result =
      match heredocLoop delimiter rest rest.length 0 rest with
      | .error e => .error e
      | .ok (value, rest) => parseLoop n rest (result.insert key value) := by
  simp only [parseLoop, hread]
  rw [if_neg h.ne_nil, lineForm_heredoc h]
  simp only
  refine (if_neg ?_).trans rfl
  simp [h.named, h.delimited]

theorem parseLoop_neither (hread : read text = some (line, ending, rest)) (hne : line ≠ [])
    (h : NeitherForm line) : ∃ e, parseLoop (n + 1) text result = .error e := by
  simp only [parseLoop, hread]
  rw [if_neg hne]
  cases hform : lineForm line with
  | assignment key value =>
      simp only
      by_cases hk : key = []
      · rw [if_pos hk]
        exact ⟨_, rfl⟩
      · exact absurd (assignmentForm_of_lineForm hform hk) (h.1 key value)
  | heredoc key delimiter =>
      simp only
      by_cases hk : key = [] ∨ delimiter = []
      · rw [if_pos (by simpa using hk)]
        exact ⟨_, rfl⟩
      · rcases not_or.mp hk with ⟨hk, hd⟩
        exact absurd (heredocForm_of_lineForm hform hk hd) (h.2 key delimiter)
  | other => exact ⟨_, rfl⟩

end Rounds

/-! ## The pieces of a file -/

/-- A header, and the lines of its value. -/
structure Heredoc where
  head : Line
  key : Text
  delimiter : Text
  form : HeredocForm head.text key delimiter
  value : List Line
  free : ∀ l ∈ value, l.text ≠ delimiter

def Heredoc.opened (h : Heredoc) : Text := h.head.written ++ written h.value

/-- A piece of a file that ends with a line end. -/
inductive FileItem
  | blank (line : Line) (h : line.text = [])
  | assignment (line : Line) (key value : Text) (h : AssignmentForm line.text key value)
  | heredoc (block : Heredoc) (closing : Line) (h : closing.text = block.delimiter)

/-- The last piece of a file, without a line end. -/
inductive FileEnd
  | nothing
  | assignment (line key value : Text) (h : AssignmentForm line key value) (noFeed : '\n' ∉ line)
  | heredoc (block : Heredoc)

def FileItem.written : FileItem → Text
  | .blank line _ => line.written
  | .assignment line _ _ _ => line.written
  | .heredoc block closing _ => block.opened ++ closing.written

def FileEnd.written : FileEnd → Text
  | .nothing => []
  | .assignment line _ _ _ _ => line
  | .heredoc block => block.opened ++ block.delimiter

/-- The entry a piece stands for. -/
def FileItem.entry : FileItem → Option (Text × Text)
  | .blank _ _ => none
  | .assignment _ key value _ => some (key, value)
  | .heredoc block _ _ => some (block.key, joined block.value)

def FileEnd.entry : FileEnd → Option (Text × Text)
  | .nothing => none
  | .assignment _ key value _ _ => some (key, value)
  | .heredoc block => some (block.key, joined block.value)

/-- The text of a file. -/
def fileText (items : List FileItem) (last : FileEnd) : Text :=
  items.flatMap FileItem.written ++ last.written

/-- The entries of a file, in order. -/
def fileEntries (items : List FileItem) (last : FileEnd) : List (Text × Text) :=
  items.filterMap FileItem.entry ++ last.entry.toList

/-- A text that starts with a line of neither form, or with a header whose delimiter is no
    line of what follows. -/
def Malformed (text : Text) : Prop :=
  ∃ line ending rest, read text = some (line, ending, rest) ∧ line ≠ [] ∧
    (NeitherForm line ∨ ∃ key delimiter, HeredocForm line key delimiter ∧ delimiter ∉ lines rest)

theorem HeredocForm.delimiter_feed {line key delimiter : Text}
    (h : HeredocForm line key delimiter) (hline : '\n' ∉ line) : '\n' ∉ delimiter := by
  intro hmem
  rw [h.text] at hline
  exact hline (by simp [hmem])

/-- A heredoc with its delimiter, whatever ends the line of that. -/
theorem parseLoop_block (block : Heredoc) {tail rest : Text} {ending : Option LineEnd}
    (hread : read tail = some (block.delimiter, ending, rest)) (n : Nat)
    (result : SortedMap Text Text) :
    parseLoop (n + 1) (block.opened ++ tail) result =
      parseLoop n rest (result.insert block.key (joined block.value)) := by
  have hhead : read (block.opened ++ tail) =
      some (block.head.text, some block.head.ending, Lines.written block.value ++ tail) := by
    unfold Heredoc.opened
    rw [List.append_assoc]
    exact read_written block.head _
  rw [parseLoop_heredoc hhead block.form, heredocLoop_value hread block.free]

/-- A piece of a file is read as its entry. -/
theorem parseLoop_item (item : FileItem) (rest : Text) (n : Nat) (result : SortedMap Text Text) :
    parseLoop (n + 1) (item.written ++ rest) result =
      parseLoop n rest (item.entry.toList.foldl (fun m e => m.insert e.1 e.2) result) := by
  cases item with
  | blank line h =>
      have hread := read_written line rest
      rw [h] at hread
      exact parseLoop_blank hread
  | assignment line key value h => exact parseLoop_assignment (read_written line rest) h
  | heredoc block closing h =>
      have hread := read_written closing rest
      rw [h] at hread
      simp only [FileItem.written, List.append_assoc]
      exact parseLoop_block block hread n result

theorem parseLoop_end (last : FileEnd) {n : Nat} (hn : last.written.length ≤ n)
    (result : SortedMap Text Text) :
    parseLoop n last.written result =
      .ok (last.entry.toList.foldl (fun m e => m.insert e.1 e.2) result) := by
  cases last with
  | nothing => exact parseLoop_nil n result
  | assignment line key value h noFeed =>
      cases n with
      | zero => exact absurd (List.length_eq_zero_iff.mp (Nat.le_zero.mp hn)) h.ne_nil
      | succ n =>
          exact (parseLoop_assignment (read_open h.ne_nil noFeed) h).trans (parseLoop_nil n _)
  | heredoc block =>
      have hfeed := block.form.delimiter_feed block.head.noFeed
      cases n with
      | zero =>
          have := block.head.written_length
          simp only [FileEnd.written, Heredoc.opened, List.length_append] at hn
          omega
      | succ n =>
          exact (parseLoop_block block (read_open block.form.delimited hfeed) n result).trans
            (parseLoop_nil n _)

theorem FileItem.written_length (item : FileItem) : 0 < item.written.length := by
  cases item with
  | blank line h =>
      have := line.written_length
      simp only [FileItem.written]
      omega
  | assignment line key value h =>
      have := line.written_length
      simp only [FileItem.written]
      omega
  | heredoc block closing h =>
      have := closing.written_length
      simp only [FileItem.written, List.length_append]
      omega

/-! ## Whole files -/

/-- What was written is returned, entry by entry. -/
theorem parseLoop_fileText (items : List FileItem) (last : FileEnd) {n : Nat}
    (hn : (fileText items last).length ≤ n) (result : SortedMap Text Text) :
    parseLoop n (fileText items last) result =
      .ok ((fileEntries items last).foldl (fun m e => m.insert e.1 e.2) result) := by
  induction items generalizing n result with
  | nil => exact parseLoop_end last hn result
  | cons item items ih =>
      have hsplit : fileText (item :: items) last = item.written ++ fileText items last := by
        simp only [fileText, List.flatMap_cons, List.append_assoc]
      have hpos := item.written_length
      rw [hsplit, List.length_append] at hn
      rw [hsplit]
      cases n with
      | zero => omega
      | succ n =>
          rw [parseLoop_item, ih (by omega)]
          cases hentry : item.entry <;> simp [fileEntries, hentry]

/-- What follows a file's pieces is refused if it is malformed. -/
theorem parseLoop_malformed (items : List FileItem) {rest : Text} (hbad : Malformed rest) {n : Nat}
    (hn : (items.flatMap FileItem.written ++ rest).length ≤ n) (result : SortedMap Text Text) :
    ∃ e, parseLoop n (items.flatMap FileItem.written ++ rest) result = .error e := by
  induction items generalizing n result with
  | nil =>
      rcases hbad with ⟨line, ending, after, hread, hne, hform⟩
      have hlen := read_length hread
      cases n with
      | zero =>
          simp only [List.flatMap_nil, List.nil_append] at hn
          omega
      | succ n =>
          rcases hform with hform | ⟨key, delimiter, hform, hopen⟩
          · exact parseLoop_neither hread hne hform
          · rcases heredocLoop_unclosed after after.length 0 hopen with ⟨e, he⟩
            rw [List.flatMap_nil, List.nil_append, parseLoop_heredoc hread hform, he]
            exact ⟨e, rfl⟩
  | cons item items ih =>
      have hpos := item.written_length
      rw [List.flatMap_cons, List.append_assoc] at hn ⊢
      rw [List.length_append] at hn
      cases n with
      | zero => omega
      | succ n =>
          rw [parseLoop_item]
          exact ih (by omega) _

/-- A piece in front of what is refused. -/
theorem malformed_behind {text : Text} (item : FileItem) {after : Text}
    (htext : text = item.written ++ after)
    (h : ∃ items : List FileItem, ∃ rest,
      after = items.flatMap FileItem.written ++ rest ∧ Malformed rest) :
    ∃ items : List FileItem, ∃ rest,
      text = items.flatMap FileItem.written ++ rest ∧ Malformed rest := by
  rcases h with ⟨items, rest, hafter, hbad⟩
  refine ⟨item :: items, rest, ?_, hbad⟩
  rw [htext, hafter, List.flatMap_cons, List.append_assoc]

/-- What is refused is malformed behind some pieces. -/
theorem malformed_of_error {n : Nat} {text : Text} {result : SortedMap Text Text}
    {e : FileCommandError} (h : parseLoop n text result = .error e) :
    ∃ items : List FileItem, ∃ rest,
      text = items.flatMap FileItem.written ++ rest ∧ Malformed rest := by
  -- the induction is on the rounds; a line is blank, an assignment, a heredoc or neither
  induction n generalizing text result with
  | zero => cases h
  | succ n ih =>
      cases hread : read text with
      | none =>
          rw [read_eq_none hread, parseLoop_nil] at h
          cases h
      | some p =>
          rcases p with ⟨line, ending, after⟩
          by_cases hblank : line = []
          · subst hblank
            rw [parseLoop_blank hread] at h
            rcases read_cases hread with ⟨-, heq, hne, -, -⟩ | ⟨l, hl, -, htext⟩
            · exact absurd heq.symm hne
            · exact malformed_behind (.blank l hl.symm) htext (ih h)
          by_cases hassign : ∃ key value, AssignmentForm line key value
          · rcases hassign with ⟨key, value, hform⟩
            rw [parseLoop_assignment hread hform] at h
            rcases read_cases hread with ⟨-, -, -, -, rfl⟩ | ⟨l, rfl, -, htext⟩
            · rw [parseLoop_nil] at h
              cases h
            · exact malformed_behind (.assignment l key value hform) htext (ih h)
          by_cases hheredoc : ∃ key delimiter, HeredocForm line key delimiter
          · rcases hheredoc with ⟨key, delimiter, hform⟩
            by_cases hopen : delimiter ∈ lines after
            · -- the value is closed, so what is refused comes behind the delimiter
              rcases exists_read_of_mem hopen with ⟨value, tail, ending', rest, hfree,
                htail, hclose⟩
              rw [parseLoop_heredoc hread hform, htail, heredocLoop_value hclose hfree] at h
              rcases read_cases hread with ⟨-, -, -, -, rfl⟩ | ⟨head, rfl, -, htext⟩
              · cases hopen
              rcases read_cases hclose with ⟨-, -, -, -, rfl⟩ | ⟨closing, hd, -, hrest⟩
              · simp only at h
                rw [parseLoop_nil] at h
                cases h
              · refine malformed_behind
                  (.heredoc ⟨head, key, delimiter, hform, value, hfree⟩ closing hd.symm) ?_ (ih h)
                rw [htext, htail, hrest]
                simp only [FileItem.written, Heredoc.opened, List.append_assoc]
            -- a heredoc that is never closed is itself malformed
            · exact ⟨[], text, rfl, line, ending, after, hread, hblank,
                .inr ⟨key, delimiter, hform, hopen⟩⟩
          · have hneither : NeitherForm line :=
              ⟨fun key value hf => hassign ⟨key, value, hf⟩,
                fun key delimiter hf => hheredoc ⟨key, delimiter, hf⟩⟩
            exact ⟨[], text, rfl, line, ending, after, hread, hblank, .inl hneither⟩

theorem parseKvFile_some (text : Text) : parseKvFile (some text) =
    if fileCommandMaxBytes < text.utf8Len then .error (aboveLimit text)
    else parseLoop text.length text ∅ := by
  rw [parseKvFile, readBounded]
  split <;> rfl

/-- A file of entries, each a line `KEY=VALUE` or a heredoc, with blank
    lines anywhere and any line ends, is read as the map in which the last entry of a key
    wins, unless it is too large; and what is refused otherwise is exactly a text that has,
    behind such entries, a line of neither form or a heredoc that is not closed. -/
theorem kv_file_exact :
    (∀ items last, parseKvFile (some (fileText items last)) =
      if fileCommandMaxBytes < (fileText items last).utf8Len then
        .error (aboveLimit (fileText items last))
      else .ok (SortedMap.ofList (fileEntries items last))) ∧
    (∀ items last key, (SortedMap.ofList (fileEntries items last)).lookup key =
      (LastWrite.lastWhere (fun e => decide (e.1 = key)) (fileEntries items last)).map (·.2)) ∧
    ∀ text, (∃ e, parseKvFile (some text) = .error e) ↔
      fileCommandMaxBytes < text.utf8Len ∨
        ∃ items : List FileItem, ∃ rest,
          text = items.flatMap FileItem.written ++ rest ∧ Malformed rest := by
  refine ⟨fun items last => ?_, fun items last key => ?_,
    fun text => ⟨?_, ?_⟩⟩
  -- what is within the limit is read to its end
  · rw [parseKvFile_some, parseLoop_fileText items last (Nat.le_refl _)]
    rfl
  · rw [SortedMap.lookup_ofList]
    congr!
  -- the error is that of the size, or that of the first malformed place
  · rintro ⟨e, he⟩
    rw [parseKvFile_some] at he
    by_cases hlarge : fileCommandMaxBytes < text.utf8Len
    · exact .inl hlarge
    · rw [if_neg hlarge] at he
      exact .inr (malformed_of_error he)
  · intro h
    rw [parseKvFile_some]
    by_cases hlarge : fileCommandMaxBytes < text.utf8Len
    · rw [if_pos hlarge]
      exact ⟨_, rfl⟩
    · rw [if_neg hlarge]
      rcases h with h | ⟨items, rest, rfl, hbad⟩
      · exact absurd h hlarge
      · exact parseLoop_malformed items hbad (Nat.le_refl _) ∅

/-- A key that ends in `<` is torn by the mark behind it, a delimiter that is a carriage
    return is taken for a part of the line's end, and a blank line is no error. -/
theorem kv_file_key_torn :
    (∃ key delimiter value : Text, key ≠ [] ∧ '=' ∉ key ∧ Text.contains heredocMark key = false ∧
      '\n' ∉ key ∧ delimiter ≠ [] ∧ delimiter ≠ value ∧ '\n' ∉ value ∧
      value.getLast? ≠ some '\r' ∧
      parseKvFile (some (key ++ heredocMark ++ delimiter ++ ['\n'] ++ value ++ ['\n'] ++
        delimiter ++ ['\n'])) = .error (.delimiterNotFound ('<' :: delimiter))) ∧
    parseKvFile (some "K<<\r\nv\n\r\n".toList) = .error (.emptyNameOrDelimiter "K<<".toList) ∧
    parseKvFile (some "\nK=v\n".toList) = .ok (SortedMap.ofList [("K".toList, "v".toList)]) := by
  refine ⟨⟨"a<".toList, "EOF".toList, "v".toList, ?_⟩, ?_, ?_⟩ <;> decide

end Worker

end Preloop
