import ChunkStream.Bytes.LittleEndian

/-!
# Fields

A field is a number as bytes of a fixed width.  Its value is defined here by the
places of its bytes and not through the reader, so that it can be said apart
from any program what bytes mean.  Every list of bytes is the field of one
number; the reader takes a field off its input exactly when enough bytes are
left, and the writer writes the only field there is.
-/

namespace ChunkStream.Bytes

/-- The number that some bytes stand for, the lowest byte first. -/
def value : List UInt8 → Nat
  | [] => 0
  | b :: bytes => b.toNat + 256 * value bytes

/-- The bytes have a width and stand for a number. -/
structure Field (width n : Nat) (bytes : List UInt8) : Prop where
  length : bytes.length = width
  value : Bytes.value bytes = n

theorem value_lt (bytes : List UInt8) : value bytes < capacity bytes.length := by
  induction bytes with
  | nil => exact Nat.zero_lt_one
  | cons b bytes ih =>
    have hb := UInt8.toNat_lt b
    simp only [value, List.length_cons, capacity]
    omega

/-- Writing the number that some bytes stand for gives the bytes again. -/
theorem encodeNat_value (bytes : List UInt8) :
    encodeNat bytes.length (value bytes) = bytes := by
  induction bytes with
  | nil => rfl
  | cons b bytes ih =>
    have hb := UInt8.toNat_lt b
    have hlow : UInt8.ofNat (b.toNat + 256 * value bytes) = b := by
      rw [← UInt8.toNat_inj, UInt8.toNat_ofNat']
      omega
    have hhigh : (b.toNat + 256 * value bytes) / 256 = value bytes := by omega
    simp only [value, List.length_cons, encodeNat, hlow, hhigh, ih]

namespace Field

variable {width n : Nat} {bytes : List UInt8}

theorem lt (h : Field width n bytes) : n < capacity width := by
  rw [← h.length, ← h.value]
  exact value_lt bytes

/-- A number has one field of each width. -/
theorem encode_eq (h : Field width n bytes) : encodeNat width n = bytes := by
  rw [← h.length, ← h.value]
  exact encodeNat_value bytes

end Field

/-- What a reader has taken was a field. -/
theorem exists_field_of_decodeNat {width n : Nat} {bytes rest : List UInt8}
    (h : decodeNat width bytes = some (n, rest)) :
    ∃ field, Field width n field ∧ bytes = field ++ rest := by
  induction width generalizing n bytes with
  | zero =>
    simp only [decodeNat, Option.some.injEq, Prod.mk.injEq] at h
    obtain ⟨rfl, rfl⟩ := h
    exact ⟨[], ⟨rfl, rfl⟩, rfl⟩
  | succ width ih =>
    cases bytes with
    | nil => cases h
    | cons b bytes =>
      simp only [decodeNat] at h
      split at h
      · cases h
      · next m rest' hread =>
        cases h
        obtain ⟨field, hfield, rfl⟩ := ih hread
        refine ⟨b :: field, ⟨?_, ?_⟩, rfl⟩
        · rw [List.length_cons, hfield.length]
        · rw [value, hfield.value]

theorem decodeNat_of_field {width n : Nat} {field : List UInt8}
    (h : Field width n field) (rest : List UInt8) :
    decodeNat width (field ++ rest) = some (n, rest) := by
  rw [← h.encode_eq]
  exact decodeNat_encodeNat h.lt rest

theorem exists_split_of_splitExactly {n : Nat} {bytes head rest : List UInt8}
    (h : splitExactly n bytes = some (head, rest)) :
    head.length = n ∧ bytes = head ++ rest := by
  simp only [splitExactly] at h
  split at h
  · next hlength =>
    cases h
    exact ⟨hlength, (List.take_append_drop n bytes).symm⟩
  · cases h

end ChunkStream.Bytes
