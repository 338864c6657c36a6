import PreloopControl.Lib.Text

/-!
# Bytes

Texts as bytes, numbers as fixed-width big-endian words, and bytes as hexadecimal digits,
with the injectivity of each. A text behind its length in a word of fixed width is a
frame, and a frame can be told from what follows it.

## Main definitions

* `Bytes.utf8`: The UTF-8 encoding of a text.
* `Bytes.bigEndian`: The last bytes of a number, the highest first.
* `Bytes.frame`: A text behind its length.
* `Bytes.hex`: Two digits for every byte.

## Theorems

* `utf8_injective`, `bigEndian_injective`, `hex_injective`: What is encoded can be read back.
* `frame_append`: A frame and what follows it.
-/

namespace Bytes

/-- The UTF-8 encoding. -/
def utf8 (t : Text) : List UInt8 := t.flatMap String.utf8EncodeChar

/-- The last `w` bytes of a number, the highest first. -/
def bigEndian : Nat → Nat → List UInt8
  | 0, _ => []
  | w + 1, n => UInt8.ofNat (n / 256 ^ w) :: bigEndian w n

/-- A text behind its length in bytes, as a word of eight bytes. -/
def frame (t : Text) : List UInt8 := bigEndian 8 t.utf8Len ++ utf8 t

/-- A hexadecimal digit. -/
def hexDigit (n : Nat) : Char := if n < 10 then Char.ofNat (48 + n) else Char.ofNat (87 + n)

/-- Two hexadecimal digits for every byte. -/
def hex (bytes : List UInt8) : Text :=
  bytes.flatMap fun b => [hexDigit (b.toNat / 16), hexDigit (b.toNat % 16)]

/-! ## Texts -/

@[simp] theorem utf8_append (s t : Text) : utf8 (s ++ t) = utf8 s ++ utf8 t :=
  List.flatMap_append

theorem utf8_cons (c : Char) (t : Text) : utf8 (c :: t) = String.utf8EncodeChar c ++ utf8 t :=
  List.flatMap_cons

theorem length_utf8 (t : Text) : (utf8 t).length = t.utf8Len := by
  induction t with
  | nil => rfl
  | cons c t ih =>
      rw [utf8_cons, List.length_append, ih, String.length_utf8EncodeChar]
      rfl

theorem utf8_injective : Function.Injective utf8 := by
  intro s t h
  have hbytes : (String.ofList s).toByteArray = (String.ofList t).toByteArray := by
    rw [String.toByteArray_ofList, String.toByteArray_ofList]
    exact congrArg List.toByteArray h
  exact String.ofList_injective (String.toByteArray_inj.mp hbytes)

/-! ## Numbers -/

@[simp] theorem length_bigEndian (w n : Nat) : (bigEndian w n).length = w := by
  induction w with
  | zero => rfl
  | succ w ih => rw [bigEndian, List.length_cons, ih]

theorem mod_of_bigEndian {w n m : Nat} (h : bigEndian w n = bigEndian w m) :
    n % 256 ^ w = m % 256 ^ w := by
  induction w with
  | zero => rw [pow_zero, Nat.mod_one, Nat.mod_one]
  | succ w ih =>
      rcases List.cons.inj h with ⟨hhigh, hlow⟩
      have hdigit : n / 256 ^ w % 256 = m / 256 ^ w % 256 := by
        have := congrArg UInt8.toNat hhigh
        simpa using this
      rw [pow_succ, Nat.mod_mul, Nat.mod_mul, ih hlow, hdigit]

/-- A number that fits is told by its bytes. -/
theorem bigEndian_injective {w n m : Nat} (hn : n < 256 ^ w) (hm : m < 256 ^ w)
    (h : bigEndian w n = bigEndian w m) : n = m := by
  have hmod := mod_of_bigEndian h
  rwa [Nat.mod_eq_of_lt hn, Nat.mod_eq_of_lt hm] at hmod

/-! ## Frames -/

/-- A frame is told from what follows it. -/
theorem frame_append {s t : Text} (hs : s.utf8Len < 256 ^ 8) (ht : t.utf8Len < 256 ^ 8)
    {a b : List UInt8} (h : frame s ++ a = frame t ++ b) : s = t ∧ a = b := by
  unfold frame at h
  rw [List.append_assoc, List.append_assoc] at h
  rcases List.append_inj h (by simp) with ⟨hword, hrest⟩
  have hlen : s.utf8Len = t.utf8Len := bigEndian_injective hs ht hword
  rcases List.append_inj hrest (by rw [length_utf8, length_utf8, hlen]) with ⟨htext, hab⟩
  exact ⟨utf8_injective htext, hab⟩

/-! ## Digits -/

theorem hexDigit_injective : ∀ n < 16, ∀ m < 16, hexDigit n = hexDigit m → n = m := by decide

theorem hexDigit_ne_dash : ∀ n < 16, hexDigit n ≠ '-' := by decide

theorem hex_cons (b : UInt8) (bytes : List UInt8) :
    hex (b :: bytes) = hexDigit (b.toNat / 16) :: hexDigit (b.toNat % 16) :: hex bytes := by
  simp [hex]

theorem hex_injective : Function.Injective hex := by
  intro s t h
  induction s generalizing t with
  | nil =>
      cases t with
      | nil => rfl
      | cons b t =>
          rw [hex_cons] at h
          cases h
  | cons a s ih =>
      cases t with
      | nil =>
          rw [hex_cons] at h
          cases h
      | cons b t =>
          rw [hex_cons, hex_cons] at h
          rcases List.cons.inj h with ⟨hhigh, hrest⟩
          rcases List.cons.inj hrest with ⟨hlow, hrest⟩
          have ha := a.toNat_lt
          have hb := b.toNat_lt
          have h1 := hexDigit_injective _ (by omega) _ (by omega) hhigh
          have h2 := hexDigit_injective _ (by omega) _ (by omega) hlow
          have hab : a = b := UInt8.toNat_inj.mp (by omega)
          rw [hab, ih hrest]

theorem dash_not_mem_hex (bytes : List UInt8) : '-' ∉ hex bytes := by
  induction bytes with
  | nil => exact List.not_mem_nil
  | cons b bytes ih =>
      have hb := b.toNat_lt
      rw [hex_cons, List.mem_cons, List.mem_cons, not_or, not_or]
      exact ⟨(hexDigit_ne_dash _ (by omega)).symm, (hexDigit_ne_dash _ (by omega)).symm, ih⟩

end Bytes
