/-!
# Byte strings and big-endian words

Every format of the store is a list of bytes, and every number in it is written
with its most significant byte first.  `bigEndian` and `ofBigEndian` convert
between numbers and byte strings of a given width; a number that fits its width
survives the round trip, and so does every byte string.
-/

namespace DirectoryStore

abbrev Bytes := List UInt8

namespace Bytes

/-! ## Cutting and patching -/

def zeros (count : Nat) : Bytes := List.replicate count 0

def slice (bytes : Bytes) (offset len : Nat) : Bytes :=
  (bytes.drop offset).take len

def resize (bytes : Bytes) (size : Nat) : Bytes :=
  bytes.take size ++ zeros (size - bytes.length)

def overwriteAfter (patch : Bytes) :
    (bytes : Bytes) → (count : Nat) → (before : Bytes) → Bytes
  | bytes, 0, before => before.reverseAux (patch ++ bytes.drop patch.length)
  | [], count + 1, before => overwriteAfter patch [] count (0 :: before)
  | byte :: bytes, count + 1, before =>
      overwriteAfter patch bytes count (byte :: before)

/--
Puts `patch` at `offset`, keeping all other bytes.  Bytes missing before
`offset` become zeros, and an empty patch changes nothing.
-/
def overwrite (bytes : Bytes) (offset : Nat) (patch : Bytes) : Bytes :=
  if patch.isEmpty then bytes else overwriteAfter patch bytes offset []

@[simp] theorem length_zeros (count : Nat) : (zeros count).length = count := by
  simp [zeros]

@[simp] theorem length_slice (bytes : Bytes) (offset len : Nat) :
    (bytes.slice offset len).length = min len (bytes.length - offset) := by
  simp [slice]

@[simp] theorem length_resize (bytes : Bytes) (size : Nat) :
    (bytes.resize size).length = size := by
  simp [resize]
  omega

theorem overwriteAfter_eq (patch bytes : Bytes) (count : Nat) (before : Bytes) :
    overwriteAfter patch bytes count before =
      before.reverse ++
        (bytes.resize count ++ patch ++ bytes.drop (count + patch.length)) := by
  induction count generalizing bytes before with
  | zero =>
      cases bytes <;>
        simp [overwriteAfter, List.reverseAux_eq, resize, zeros]
  | succ count ih =>
      cases bytes <;>
        simp [overwriteAfter, ih, resize, zeros, List.replicate_succ,
          Nat.add_right_comm count 1]

theorem overwrite_eq (bytes : Bytes) (offset : Nat) (patch : Bytes)
    (nonempty : patch ≠ []) :
    bytes.overwrite offset patch =
      bytes.resize offset ++ patch ++ bytes.drop (offset + patch.length) := by
  simp [overwrite, nonempty, overwriteAfter_eq]

theorem length_overwrite (bytes : Bytes) (offset : Nat) (patch : Bytes)
    (nonempty : patch ≠ []) :
    (bytes.overwrite offset patch).length =
      max bytes.length (offset + patch.length) := by
  simp [overwrite_eq, nonempty]
  omega

/-! ## Big-endian words -/

def span : (width : Nat) → Nat
  | 0 => 1
  | width + 1 => span width * 256

/-- The last `width` base-256 digits of `value`, most significant first. -/
def bigEndian : (width value : Nat) → Bytes
  | 0, _ => []
  | width + 1, value => bigEndian width (value / 256) ++ [UInt8.ofNat value]

def ofBigEndian (bytes : Bytes) : Nat :=
  bytes.foldl (fun total byte => total * 256 + byte.toNat) 0

@[simp] theorem length_bigEndian (width value : Nat) :
    (bigEndian width value).length = width := by
  induction width generalizing value with
  | zero => rfl
  | succ width ih => simp [bigEndian, ih]

theorem ofBigEndian_append_singleton (bytes : Bytes) (byte : UInt8) :
    ofBigEndian (bytes ++ [byte]) = ofBigEndian bytes * 256 + byte.toNat := by
  simp [ofBigEndian]

theorem ofBigEndian_bigEndian (width value : Nat) :
    ofBigEndian (bigEndian width value) = value % span width := by
  induction width generalizing value with
  | zero => simp [bigEndian, ofBigEndian, span, Nat.mod_one]
  | succ width ih =>
      rw [bigEndian, ofBigEndian_append_singleton, ih, span,
        Nat.mul_comm (span width), Nat.mod_mul]
      simp
      omega

theorem ofBigEndian_lt (bytes : Bytes) :
    ofBigEndian bytes < span bytes.length := by
  have bound (rest : Bytes) (total : Nat) :
      rest.foldl (fun total byte => total * 256 + byte.toNat) total <
        (total + 1) * span rest.length := by
    induction rest generalizing total with
    | nil => simp [span]
    | cons byte rest ih =>
        have digit : total * 256 + byte.toNat + 1 ≤ (total + 1) * 256 := by
          have := byte.toNat_lt
          omega
        calc _ < (total * 256 + byte.toNat + 1) * span rest.length := ih _
          _ ≤ (total + 1) * 256 * span rest.length :=
            Nat.mul_le_mul_right _ digit
          _ = _ := by
            rw [List.length_cons, span, Nat.mul_assoc, Nat.mul_comm 256]
  simpa [ofBigEndian] using bound bytes 0

theorem bigEndian_ofBigEndian (bytes : Bytes) :
    bigEndian bytes.length (ofBigEndian bytes) = bytes := by
  generalize size : bytes.length = width
  induction width generalizing bytes with
  | zero => simp_all [bigEndian]
  | succ width ih =>
      have nonempty : bytes ≠ [] := by
        intro h
        simp [h] at size
      have split := List.dropLast_concat_getLast nonempty
      have init : bytes.dropLast.length = width := by simp [size]
      generalize bytes.dropLast = front at split init
      generalize bytes.getLast nonempty = last at split
      subst split
      have small := last.toNat_lt
      rw [ofBigEndian_append_singleton, bigEndian]
      have quotient :
          (ofBigEndian front * 256 + last.toNat) / 256 = ofBigEndian front := by
        omega
      rw [quotient, ih front init]
      congr 2
      apply UInt8.toNat_inj.1
      simp

/-! ## Words at an offset -/

def ofWord16 (word : UInt16) : Bytes := bigEndian 2 word.toNat

def ofWord32 (word : UInt32) : Bytes := bigEndian 4 word.toNat

def ofWord64 (word : UInt64) : Bytes := bigEndian 8 word.toNat

def word16 (bytes : Bytes) (offset : Nat) : UInt16 :=
  UInt16.ofNat (ofBigEndian (bytes.slice offset 2))

def word32 (bytes : Bytes) (offset : Nat) : UInt32 :=
  UInt32.ofNat (ofBigEndian (bytes.slice offset 4))

def word64 (bytes : Bytes) (offset : Nat) : UInt64 :=
  UInt64.ofNat (ofBigEndian (bytes.slice offset 8))

@[simp] theorem length_ofWord16 (word : UInt16) : (ofWord16 word).length = 2 :=
  length_bigEndian 2 _

@[simp] theorem length_ofWord32 (word : UInt32) : (ofWord32 word).length = 4 :=
  length_bigEndian 4 _

@[simp] theorem length_ofWord64 (word : UInt64) : (ofWord64 word).length = 8 :=
  length_bigEndian 8 _

end Bytes

end DirectoryStore
