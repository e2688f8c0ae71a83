import Mathlib.Data.List.Basic
import Mathlib.Data.String.Basic

/-!
# Fixed-width integers in byte buffers, and Go slicing

The SSTable writes lengths, offsets and footer fields with the helpers of tektite's `encoding` package, which are
not part of the sources at hand; the spec describes them as little-endian and they are modelled from it
(`appendUint32ToBufferLE`, `readUint32FromBufferLE`, and their 64-bit versions). A read that would leave the
buffer panics in Go and is `none` here, as is a Go slice or index expression out of range (`slice`, `index`).

The lemmas say that a field written at some position is read back there (`readUint32FromBufferLE_append`) and that
slicing a buffer at the bounds of one of its parts returns that part (`slice_append`).
-/

set_option autoImplicit false

namespace Tektite

@[simp] theorem toNat_ofNat_u8 (n : Nat) : (UInt8.ofNat n).toNat = n % 2 ^ 8 := rfl
@[simp] theorem toNat_ofNat_u32 (n : Nat) : (UInt32.ofNat n).toNat = n % 2 ^ 32 := rfl
@[simp] theorem toNat_ofNat_u64 (n : Nat) : (UInt64.ofNat n).toNat = n % 2 ^ 64 := rfl

theorem u32_ofNat_mod (n : Nat) : UInt32.ofNat (n % 2 ^ 32) = UInt32.ofNat n := UInt32.ext (by simp)
theorem u64_ofNat_mod (n : Nat) : UInt64.ofNat (n % 2 ^ 64) = UInt64.ofNat n := UInt64.ext (by simp)

@[simp] theorem u32_ofNat_toNat (v : UInt32) : UInt32.ofNat v.toNat = v :=
  UInt32.ext (by simpa using Nat.mod_eq_of_lt (UInt32.toNat_lt v))

@[simp] theorem u64_ofNat_toNat (v : UInt64) : UInt64.ofNat v.toNat = v :=
  UInt64.ext (by simpa using Nat.mod_eq_of_lt (UInt64.toNat_lt v))

/-! ## Little-endian words -/

/-- The four little-endian bytes of the low 32 bits of `n`. -/
def le32 (n : Nat) : List UInt8 :=
  [UInt8.ofNat n, UInt8.ofNat (n / 2 ^ 8), UInt8.ofNat (n / 2 ^ 16), UInt8.ofNat (n / 2 ^ 24)]

/-- The eight little-endian bytes of the low 64 bits of `n`. -/
def le64 (n : Nat) : List UInt8 := le32 n ++ le32 (n / 2 ^ 32)

/-- The number that the little-endian bytes `bs` spell. -/
def leValue : List UInt8 → Nat
  | [] => 0
  | b :: bs => b.toNat + 2 ^ 8 * leValue bs

@[simp] theorem length_le32 (n : Nat) : (le32 n).length = 4 := rfl
@[simp] theorem length_le64 (n : Nat) : (le64 n).length = 8 := rfl

theorem leValue_le32 (n : Nat) : leValue (le32 n) = n % 2 ^ 32 := by
  simp [le32, leValue]; omega

theorem leValue_append_le32 (n : Nat) (ys : List UInt8) :
    leValue (le32 n ++ ys) = n % 2 ^ 32 + 2 ^ 32 * leValue ys := by
  simp [le32, leValue]; omega

theorem leValue_le64 (n : Nat) : leValue (le64 n) = n % 2 ^ 64 := by
  rw [le64, leValue_append_le32, leValue_le32]; omega

/-- Only the low 32 bits reach the bytes: a `uint32(…)` conversion before `le32` changes nothing. -/
theorem le32_mod (n : Nat) : le32 (n % 2 ^ 32) = le32 n := by
  simp only [le32, List.cons.injEq, and_true]
  refine ⟨?_, ?_, ?_, ?_⟩ <;> apply UInt8.ext <;> simp <;> omega

/-- Modelled from the spec: `encoding.AppendUint32ToBufferLE` appends the 4-byte little-endian form of `v`. -/
def appendUint32ToBufferLE (buff : List UInt8) (v : UInt32) : List UInt8 := buff ++ le32 v.toNat

/-- Modelled from the spec: `encoding.AppendUint64ToBufferLE` appends the 8-byte little-endian form of `v`. -/
def appendUint64ToBufferLE (buff : List UInt8) (v : UInt64) : List UInt8 := buff ++ le64 v.toNat

/-- Modelled from the spec: `encoding.ReadUint32FromBufferLE` reads the little-endian word at `offset` and returns
it with the offset past it; reading past the buffer panics. -/
def readUint32FromBufferLE (buff : List UInt8) (offset : Int) : Option (UInt32 × Int) :=
  if 0 ≤ offset ∧ offset + 4 ≤ buff.length then
    some (UInt32.ofNat (leValue ((buff.drop offset.toNat).take 4)), offset + 4)
  else none

/-- Modelled from the spec: `encoding.ReadUint64FromBufferLE`, the 8-byte version. -/
def readUint64FromBufferLE (buff : List UInt8) (offset : Int) : Option (UInt64 × Int) :=
  if 0 ≤ offset ∧ offset + 8 ≤ buff.length then
    some (UInt64.ofNat (leValue ((buff.drop offset.toNat).take 8)), offset + 8)
  else none

@[simp] theorem appendUint32ToBufferLE_eq (buff : List UInt8) (v : UInt32) :
    appendUint32ToBufferLE buff v = buff ++ le32 v.toNat := rfl

@[simp] theorem appendUint64ToBufferLE_eq (buff : List UInt8) (v : UInt64) :
    appendUint64ToBufferLE buff v = buff ++ le64 v.toNat := rfl

theorem readUint32FromBufferLE_append (pre rest : List UInt8) (n : Nat) :
    readUint32FromBufferLE (pre ++ le32 n ++ rest) pre.length = some (UInt32.ofNat n, (pre.length : Int) + 4) := by
  have hd : (pre ++ le32 n ++ rest).drop pre.length = le32 n ++ rest := by simp
  simp only [readUint32FromBufferLE, Int.toNat_ofNat, hd, List.take_left' (length_le32 n), leValue_le32,
    u32_ofNat_mod, List.length_append, length_le32]
  rw [if_pos (by omega)]

theorem readUint64FromBufferLE_append (pre rest : List UInt8) (n : Nat) :
    readUint64FromBufferLE (pre ++ le64 n ++ rest) pre.length = some (UInt64.ofNat n, (pre.length : Int) + 8) := by
  have hd : (pre ++ le64 n ++ rest).drop pre.length = le64 n ++ rest := by simp
  simp only [readUint64FromBufferLE, Int.toNat_ofNat, hd, List.take_left' (length_le64 n), leValue_le64,
    u64_ofNat_mod, List.length_append, length_le64]
  rw [if_pos (by omega)]

theorem readUint32FromBufferLE_of_eq {buff pre rest : List UInt8} {n : Nat} (pos : Int)
    (h : buff = pre ++ le32 n ++ rest) (hp : pos = pre.length) :
    readUint32FromBufferLE buff pos = some (UInt32.ofNat n, pos + 4) := by
  subst h hp; exact readUint32FromBufferLE_append pre rest n

theorem readUint64FromBufferLE_of_eq {buff pre rest : List UInt8} {n : Nat} (pos : Int)
    (h : buff = pre ++ le64 n ++ rest) (hp : pos = pre.length) :
    readUint64FromBufferLE buff pos = some (UInt64.ofNat n, pos + 8) := by
  subst h hp; exact readUint64FromBufferLE_append pre rest n

/-! ## Big-endian words -/

/-- Go's `binary.BigEndian.Uint64` on the eight bytes the builder passes it. -/
def bigEndianUint64 (b : List UInt8) : Nat := (b.take 8).foldl (fun acc x => acc * 2 ^ 8 + x.toNat) 0

/-! ## Go slicing -/

/-- Go's `s[lo:hi]`, reading only inside the slice's length; out of range it panics. -/
def slice (s : List UInt8) (lo hi : Int) : Option (List UInt8) :=
  if 0 ≤ lo ∧ lo ≤ hi ∧ hi ≤ s.length then some ((s.drop lo.toNat).take (hi - lo).toNat) else none

/-- Go's `s[i]`. -/
def index (s : List UInt8) (i : Int) : Option UInt8 :=
  if 0 ≤ i then s[i.toNat]? else none

theorem slice_append (pre mid rest : List UInt8) :
    slice (pre ++ mid ++ rest) pre.length (pre.length + mid.length) = some mid := by
  have hd : (pre ++ mid ++ rest).drop pre.length = mid ++ rest := by simp
  simp only [slice, Int.toNat_ofNat, hd, List.length_append]
  rw [if_pos (by omega), show ((pre.length : Int) + mid.length - pre.length).toNat = mid.length by omega,
    List.take_left' rfl]

theorem slice_of_eq {s pre mid rest : List UInt8} (lo hi : Int) (h : s = pre ++ mid ++ rest)
    (hlo : lo = pre.length) (hhi : hi = lo + mid.length) : slice s lo hi = some mid := by
  subst h hlo hhi; exact slice_append pre mid rest

theorem slice_eq_none {s : List UInt8} {lo hi : Int} (h : ¬(0 ≤ lo ∧ lo ≤ hi ∧ hi ≤ s.length)) :
    slice s lo hi = none := if_neg h

end Tektite
