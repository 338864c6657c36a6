import PreloopControl.Lib.Text

/-!
# Slices at Byte Offsets

A text cut at an offset into its UTF-8 encoding. The cut exists only where a character
begins or the text ends, so that a program that slices by offsets is partial. What a search
finds, and what begins or ends with a known text, is at such a place.

## Main definitions

* `Text.splitAtByte`, `Text.sliceFrom`, `Text.sliceTo`, `Text.slice`: The cuts.
* `Text.findBytes`: The offset of the first occurrence of a pattern.

## Theorems

* `Text.splitAtByte_append`: The place between two texts.
* `Text.sliceTo_cut`, `Text.sliceFrom_cut`: The places around a pattern that was found.
-/

namespace Text

/-- The text before and after an offset. -/
def splitAtByte : Nat → Text → Option (Text × Text)
  | 0, t => some ([], t)
  | _ + 1, [] => none
  | n + 1, c :: t =>
    if c.utf8Size ≤ n + 1 then
      (splitAtByte (n + 1 - c.utf8Size) t).map fun p => (c :: p.1, p.2)
    else none

/-- `&t[i..]`. -/
def sliceFrom (i : Nat) (t : Text) : Option Text := (splitAtByte i t).map (·.2)

/-- `&t[..i]`. -/
def sliceTo (i : Nat) (t : Text) : Option Text := (splitAtByte i t).map (·.1)

/-- `&t[i..j]`. -/
def slice (i j : Nat) (t : Text) : Option Text := (t.sliceTo j).bind (sliceFrom i)

/-- `t.find(pat)`. -/
def findBytes (pat t : Text) : Option Nat := (cut pat t).map fun p => p.1.utf8Len

@[simp] theorem utf8Len_nil : utf8Len [] = 0 := rfl

@[simp] theorem utf8Len_cons (c : Char) (t : Text) : utf8Len (c :: t) = c.utf8Size + t.utf8Len := by
  rw [utf8Len, List.map_cons, List.sum_cons, utf8Len]

@[simp] theorem utf8Len_append (a b : Text) : utf8Len (a ++ b) = a.utf8Len + b.utf8Len := by
  rw [utf8Len, List.map_append, List.sum_append, utf8Len, utf8Len]

@[simp] theorem splitAtByte_append (a b : Text) : splitAtByte a.utf8Len (a ++ b) = some (a, b) := by
  induction a with
  | nil => cases b <;> rfl
  | cons c a ih =>
      have hsize := c.utf8Size_pos
      rcases Nat.exists_eq_add_of_lt hsize with ⟨n, hn⟩
      have hlen : c.utf8Size + utf8Len a = n + utf8Len a + 1 := by omega
      have hrest : n + utf8Len a + 1 - c.utf8Size = utf8Len a := by omega
      rw [utf8Len_cons, List.cons_append, hlen, splitAtByte, if_pos (by omega), hrest, ih]
      rfl

section Cuts

variable {pat t a b : Text}

theorem sliceTo_append (a b : Text) : sliceTo a.utf8Len (a ++ b) = some a := by
  rw [sliceTo, splitAtByte_append]
  rfl

theorem sliceFrom_append (a b : Text) : sliceFrom a.utf8Len (a ++ b) = some b := by
  rw [sliceFrom, splitAtByte_append]
  rfl

theorem findBytes_cut (h : cut pat t = some (a, b)) : findBytes pat t = some a.utf8Len := by
  rw [findBytes, h]
  rfl

theorem sliceTo_cut (h : cut pat t = some (a, b)) : sliceTo a.utf8Len t = some a := by
  rw [cut_eq h, List.append_assoc, sliceTo_append]

theorem sliceFrom_cut (h : cut pat t = some (a, b)) :
    sliceFrom (a.utf8Len + pat.utf8Len) t = some b := by
  rw [cut_eq h, ← utf8Len_append, sliceFrom_append]

/-- The text between a known start and a pattern that was found behind it. -/
theorem slice_cut {front : Text} (h : cut pat t = some (front ++ a, b)) :
    slice front.utf8Len (front ++ a).utf8Len t = some a := by
  rw [slice, sliceTo_cut h, Option.bind_some, sliceFrom_append]

end Cuts

end Text
