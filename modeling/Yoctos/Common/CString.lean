import Yoctos.Foundation.Stores
import Mathlib.Data.UInt

/-! # C strings (`common/string.c`, `common/mem.c`) -/

namespace Yoctos.Common

open Yoctos.Stores

def ch (character : Char) : UInt8 := UInt8.ofNat character.toNat

/-- A NUL-terminated string: the bytes before its terminator. -/
structure CString where
  bytes : List UInt8
  nonzero : ∀ byte ∈ bytes, byte ≠ 0

instance : DecidableEq CString := fun left right =>
  decidable_of_iff (left.bytes = right.bytes) (by
    cases left
    cases right
    simp)

def CString.empty : CString := ⟨[], by simp⟩

def strlen (s : CString) : Nat := s.bytes.length

/-- The bytes from `address` up to the first 0, looking at no more than `fuel`
bytes. A 32-bit address space holds `2 ^ 32` of them. -/
def stringAt (memory : Nat → UInt8) (address : Nat) : (fuel : Nat) → List UInt8
  | 0 => []
  | fuel + 1 =>
      if memory address = 0 then []
      else memory address :: stringAt memory (address + 1) fuel

def addressSpace : Nat := 2 ^ 32

def strlenAt (memory : Nat → UInt8) (address : Nat) : Nat :=
  (stringAt memory address addressSpace).length

theorem stringAt_of_stored {memory : Nat → UInt8} {address fuel : Nat} {bytes : List UInt8}
    (nonzero : ∀ byte ∈ bytes, byte ≠ 0) (enough : bytes.length < fuel)
    (stored : ∀ index, (occurs : index < bytes.length) → memory (address + index) = bytes[index])
    (terminated : memory (address + bytes.length) = 0) :
    stringAt memory address fuel = bytes := by
  induction bytes generalizing address fuel with
  | nil =>
      cases fuel with
      | zero => rfl
      | succ fuel => simpa [stringAt] using terminated
  | cons byte rest induction =>
      cases fuel with
      | zero => simp at enough
      | succ fuel =>
          have first : memory address = byte := stored 0 (by simp)
          have notEnd : byte ≠ 0 := nonzero byte (by simp)
          have later : stringAt memory (address + 1) fuel = rest := by
            apply induction
            · exact fun other member => nonzero other (by simp [member])
            · simpa using enough
            · intro index occurs
              have shifted := stored (index + 1) (by simpa using occurs)
              simpa [Nat.add_assoc, Nat.add_comm 1 index] using shifted
            · simpa [Nat.add_assoc, Nat.add_comm 1 rest.length] using terminated
          rw [stringAt, first, if_neg notEnd, later]

/-- The stores of `strncpy(dest, src, count)`: at most `count` characters, then
a terminator. -/
def strncpy (dest : Nat) : (src : List UInt8) → (count : Nat) → List (Nat × UInt8)
  | c :: src, count + 1 => (dest, c) :: strncpy (dest + 1) src count
  | _, _ => [(dest, 0)]

theorem strncpy_of_length_le {dest count : Nat} {src : List UInt8}
    (fits : src.length ≤ count) : strncpy dest src count = consecutive dest (src ++ [0]) := by
  induction src generalizing dest count with
  | nil => cases count <;> rfl
  | cons c rest induction =>
      cases count with
      | zero => simp at fits
      | succ count =>
          simp only [strncpy, List.cons_append, consecutive]
          rw [induction (by simpa using fits)]

def strcmp : (s1 s2 : List UInt8) → Int
  | [], [] => 0
  | [], b :: _ => -b.toNat
  | a :: _, [] => a.toNat
  | a :: s1, b :: s2 => if a = b then strcmp s1 s2 else a.toNat - b.toNat

theorem strcmp_eq_zero_iff {s1 s2 : List UInt8} (left : ∀ byte ∈ s1, byte ≠ 0)
    (right : ∀ byte ∈ s2, byte ≠ 0) : strcmp s1 s2 = 0 ↔ s1 = s2 := by
  have positive : ∀ {byte : UInt8}, byte ≠ 0 → byte.toNat ≠ 0 := fun nonzero zero =>
    nonzero (UInt8.toNat_inj.mp zero)
  induction s1 generalizing s2 with
  | nil =>
      cases s2 with
      | nil => simp [strcmp]
      | cons b s2 => simpa [strcmp] using positive (right b (by simp))
  | cons a s1 induction =>
      cases s2 with
      | nil => simpa [strcmp] using positive (left a (by simp))
      | cons b s2 =>
          have tails : strcmp s1 s2 = 0 ↔ s1 = s2 :=
            induction (fun byte member => left byte (List.mem_cons_of_mem a member))
              fun byte member => right byte (List.mem_cons_of_mem b member)
          rw [strcmp, List.cons.injEq]
          split
          next same => exact tails.trans (and_iff_right same).symm
          next different =>
            refine ⟨fun zero => absurd (UInt8.toNat_inj.mp (by omega)) different, ?_⟩
            exact fun same => absurd same.1 different

theorem CString.strcmp_eq_zero_iff (s1 s2 : CString) :
    strcmp s1.bytes s2.bytes = 0 ↔ s1 = s2 := by
  rw [Common.strcmp_eq_zero_iff s1.nonzero s2.nonzero]
  cases s1
  cases s2
  simp

def memcpy (dst : BitVec 32) : (src : List UInt8) → List (BitVec 32 × UInt8)
  | [] => []
  | byte :: src => (dst, byte) :: memcpy (dst + 1) src

private theorem add_ofNat_succ (dst : BitVec 32) (index : Nat) :
    dst + BitVec.ofNat 32 (index + 1) = dst + 1 + BitVec.ofNat 32 index := by
  rw [Nat.add_comm, BitVec.ofNat_add, BitVec.add_assoc]
  rfl

theorem memcpy_append (dst : BitVec 32) (left right : List UInt8) :
    memcpy dst (left ++ right) =
      memcpy dst left ++ memcpy (dst + BitVec.ofNat 32 left.length) right := by
  induction left generalizing dst with
  | nil => simp [memcpy]
  | cons byte rest induction =>
      rw [List.cons_append, memcpy, induction, memcpy, List.cons_append, List.length_cons,
        add_ofNat_succ]

theorem memcpy_fst (dst : BitVec 32) (src : List UInt8) :
    (memcpy dst src).map Prod.fst =
      (List.range src.length).map fun index => dst + BitVec.ofNat 32 index := by
  induction src generalizing dst with
  | nil => rfl
  | cons byte rest induction =>
      rw [memcpy, List.map_cons, induction, List.length_cons, List.range_succ_eq_map,
        List.map_cons, List.map_map]
      congr 1
      · simp
      · exact List.map_congr_left fun index _ => (add_ofNat_succ dst index).symm

theorem mem_memcpy (dst : BitVec 32) (src : List UInt8) {index : Nat}
    (occurs : index < src.length) :
    (dst + BitVec.ofNat 32 index, src[index]) ∈ memcpy dst src := by
  induction src generalizing dst index with
  | nil => simp at occurs
  | cons byte rest induction =>
      cases index with
      | zero => simp [memcpy]
      | succ index =>
          rw [add_ofNat_succ]
          exact List.mem_cons_of_mem _ (induction (dst + 1) (Nat.lt_of_succ_lt_succ occurs))

def littleEndian (value : BitVec 32) : List UInt8 :=
  [UInt8.ofBitVec (value.extractLsb' 0 8), UInt8.ofBitVec (value.extractLsb' 8 8),
    UInt8.ofBitVec (value.extractLsb' 16 8), UInt8.ofBitVec (value.extractLsb' 24 8)]

def ofLittleEndian (b0 b1 b2 b3 : UInt8) : BitVec 32 :=
  b3.toBitVec ++ b2.toBitVec ++ b1.toBitVec ++ b0.toBitVec

theorem ofLittleEndian_littleEndian (value : BitVec 32) :
    ofLittleEndian (UInt8.ofBitVec (value.extractLsb' 0 8)) (UInt8.ofBitVec (value.extractLsb' 8 8))
      (UInt8.ofBitVec (value.extractLsb' 16 8)) (UInt8.ofBitVec (value.extractLsb' 24 8)) =
      value := by
  simp only [ofLittleEndian]
  ext index bound
  grind

end Yoctos.Common
