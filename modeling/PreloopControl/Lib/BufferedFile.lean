import Mathlib.Data.List.Basic
import Mathlib.Data.List.Infix

/-!
# Files with Writes Under Way

A file that is appended to through a handle which writes in the background. What is handed
over reaches the disk later and in order; a write that fails loses what was handed over and
not written yet, and the handle reports it with its next operation.

## Main definitions

* `BufferedFile`: What is on disk, and what is still to be written.
* `write`, `settle`, `fail`, `flush`, `truncate`: What happens to it.
* `Extends`: The file holds what it had when the handle was opened and what was written since.

## Theorems

* `Extends.write`, `Extends.settle`, `Extends.fail`: What handing over and writing keep.
* `Extends.flush`: After a flush that reports no failure everything is on disk.
* `Extends.truncate`: A truncation to the old length leaves the old content.
-/

/-- A file and the writes of its handle that are not on disk. -/
structure BufferedFile (α : Type) where
  disk : List α
  unwritten : List α
  failed : Bool
deriving DecidableEq, Repr

namespace BufferedFile

variable {α : Type}

/-- A file without writes under way. -/
def opened (disk : List α) : BufferedFile α := ⟨disk, [], false⟩

/-- Hand over to the handle. -/
def write (data : List α) (f : BufferedFile α) : BufferedFile α :=
  { f with unwritten := f.unwritten ++ data }

/-- Some of what was handed over reaches the disk. -/
def settle (n : Nat) (f : BufferedFile α) : BufferedFile α :=
  { f with disk := f.disk ++ f.unwritten.take n, unwritten := f.unwritten.drop n }

/-- Some of what was handed over reaches the disk, and the rest is lost. -/
def fail (n : Nat) (f : BufferedFile α) : BufferedFile α :=
  ⟨f.disk ++ f.unwritten.take n, [], true⟩

/-- Everything handed over reaches the disk. -/
def flush (f : BufferedFile α) : BufferedFile α :=
  { f with disk := f.disk ++ f.unwritten, unwritten := [] }

/-- A list cut or filled up to a length. -/
def resize (zero : α) (n : Nat) (data : List α) : List α :=
  data.take n ++ List.replicate (n - data.length) zero

/-- The file is cut to a length, once the writes under way have ended. -/
def truncate (zero : α) (n settled : Nat) (f : BufferedFile α) : BufferedFile α :=
  opened (resize zero n (f.settle settled).disk)

/-- The file goes on from an old content with what was written since. -/
structure Extends (old written : List α) (f : BufferedFile α) : Prop where
  kept : old <+: f.disk
  complete : f.failed = false → f.disk ++ f.unwritten = old ++ written

variable {old written : List α} {f : BufferedFile α}

theorem extends_opened (old : List α) : Extends old [] (opened old) where
  kept := List.prefix_rfl
  complete _ := rfl

theorem Extends.write (h : Extends old written f) (data : List α) :
    Extends old (written ++ data) (f.write data) where
  kept := h.kept
  complete hfailed := by
    change f.disk ++ (f.unwritten ++ data) = _
    rw [← List.append_assoc, h.complete hfailed, List.append_assoc]

theorem Extends.settle (h : Extends old written f) (n : Nat) :
    Extends old written (f.settle n) where
  kept := h.kept.trans (List.prefix_append _ _)
  complete hfailed := by
    change f.disk ++ f.unwritten.take n ++ f.unwritten.drop n = _
    rw [List.append_assoc, List.take_append_drop, h.complete hfailed]

theorem Extends.fail (h : Extends old written f) (n : Nat) : Extends old written (f.fail n) where
  kept := h.kept.trans (List.prefix_append _ _)
  complete hfailed := by cases hfailed

/-- After a flush that reports no failure everything is on disk. -/
theorem Extends.flush (h : Extends old written f) (hfailed : f.failed = false) :
    f.flush.disk = old ++ written := h.complete hfailed

/-- A truncation to the old length leaves the old content. -/
theorem Extends.truncate (h : Extends old written f) (zero : α) (settled : Nat) :
    f.truncate zero old.length settled = opened old := by
  rcases (h.settle settled).kept with ⟨rest, hrest⟩
  -- what was added since is cut, and nothing is missing
  unfold BufferedFile.truncate resize
  rw [← hrest, List.take_left, List.length_append, Nat.sub_eq_zero_of_le (Nat.le_add_right _ _),
    List.replicate_zero, List.append_nil]

end BufferedFile
