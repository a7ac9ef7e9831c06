import Mathlib.Data.BitVec

/-! # Words in a byte memory

Addresses wrap around at 2 ^ 32, so a distance is taken from the lower end of
the range it is compared with.
-/

namespace Yoctos.Ia32

abbrev Memory := BitVec 32 → BitVec 8

namespace Memory

def word (memory : Memory) (address : BitVec 32) : BitVec 32 :=
  memory (address + 3) ++ memory (address + 2) ++ memory (address + 1) ++ memory address

def setWord (memory : Memory) (address value : BitVec 32) : Memory := fun other =>
  if other = address then value.extractLsb' 0 8
  else if other = address + 1 then value.extractLsb' 8 8
  else if other = address + 2 then value.extractLsb' 16 8
  else if other = address + 3 then value.extractLsb' 24 8
  else memory other

theorem word_setWord (memory : Memory) (address value : BitVec 32) :
    (memory.setWord address value).word address = value := by
  have first : address + 1 ≠ address := by bv_omega
  have second : address + 2 ≠ address ∧ address + 2 ≠ address + 1 := by
    constructor <;> bv_omega
  have third : address + 3 ≠ address ∧ address + 3 ≠ address + 1 ∧ address + 3 ≠ address + 2 := by
    refine ⟨?_, ?_, ?_⟩ <;> bv_omega
  simp only [word, setWord, if_true, if_neg first, if_neg second.1, if_neg second.2,
    if_neg third.1, if_neg third.2.1, if_neg third.2.2]
  ext index bound
  grind

theorem setWord_of_far (memory : Memory) {address other : BitVec 32} (value : BitVec 32)
    (far : 4 ≤ (other - address).toNat) : memory.setWord address value other = memory other := by
  have zeroth : other ≠ address := by bv_omega
  have first : other ≠ address + 1 := by bv_omega
  have second : other ≠ address + 2 := by bv_omega
  have third : other ≠ address + 3 := by bv_omega
  simp only [setWord, if_neg zeroth, if_neg first, if_neg second, if_neg third]

/-! ## Changes confined to a range -/

/-- All changes lie in the `size` bytes from `base` on. -/
def ChangesOnly (base : BitVec 32) (size : Nat) (before after : Memory) : Prop :=
  ∀ address, size ≤ (address - base).toNat → after address = before address

namespace ChangesOnly

variable {base : BitVec 32} {size : Nat} {before middle after : Memory}

theorem refl (base : BitVec 32) (size : Nat) (memory : Memory) :
    ChangesOnly base size memory memory := fun _ _ => rfl

theorem trans (first : ChangesOnly base size before middle)
    (second : ChangesOnly base size middle after) : ChangesOnly base size before after :=
  fun address outside => (second address outside).trans (first address outside)

theorem setWord (first : ChangesOnly base size before after) {address : BitVec 32}
    (value : BitVec 32) (inside : (address - base).toNat + 4 ≤ size) :
    ChangesOnly base size before (after.setWord address value) := by
  intro other outside
  rw [setWord_of_far after value (by bv_omega), first other outside]

theorem widen {wider : BitVec 32} {larger : Nat} (first : ChangesOnly base size before after)
    (inside : (base - wider).toNat + size ≤ larger) : ChangesOnly wider larger before after := by
  intro address outside
  refine first address ?_
  bv_omega

end ChangesOnly

/-! ## Consecutive words -/

def Holds (memory : Memory) (address : BitVec 32) : (words : List (BitVec 32)) → Prop
  | [] => True
  | value :: rest => memory.word address = value ∧ memory.Holds (address + 4) rest

theorem word_congr {before after : Memory} {address : BitVec 32}
    (same : ∀ index < 4, after (address + BitVec.ofNat 32 index) =
      before (address + BitVec.ofNat 32 index)) : after.word address = before.word address := by
  have zeroth := same 0 (by decide)
  rw [show BitVec.ofNat 32 0 = 0#32 from rfl, BitVec.add_zero] at zeroth
  rw [word, word, zeroth, show (3 : BitVec 32) = BitVec.ofNat 32 3 from rfl,
    show (2 : BitVec 32) = BitVec.ofNat 32 2 from rfl,
    show (1 : BitVec 32) = BitVec.ofNat 32 1 from rfl, same 3 (by decide), same 2 (by decide),
    same 1 (by decide)]

theorem Holds.congr {before after : Memory} {address : BitVec 32} {words : List (BitVec 32)}
    (holds : before.Holds address words)
    (same : ∀ index < words.length * 4, after (address + BitVec.ofNat 32 index) =
      before (address + BitVec.ofNat 32 index)) : after.Holds address words := by
  induction words generalizing address with
  | nil => trivial
  | cons value rest induction =>
      rw [List.length_cons] at same
      refine ⟨(word_congr fun index below => same index (by omega)).trans holds.1,
        induction holds.2 fun index below => ?_⟩
      have shifted := same (index + 4) (by omega)
      rwa [show address + BitVec.ofNat 32 (index + 4) = address + 4 + BitVec.ofNat 32 index by
        rw [Nat.add_comm, BitVec.ofNat_add, BitVec.add_assoc]; rfl] at shifted

/-- A word stored right below others leaves them in place. -/
theorem Holds.setWord {memory : Memory} {address : BitVec 32} {words : List (BitVec 32)}
    (holds : memory.Holds address words) (short : words.length * 4 + 4 ≤ 2 ^ 32)
    (value : BitVec 32) :
    (memory.setWord (address - 4) value).Holds (address - 4) (value :: words) := by
  refine ⟨word_setWord memory _ value, ?_⟩
  rw [BitVec.sub_add_cancel]
  refine holds.congr fun index below => setWord_of_far memory value ?_
  have distance : (address + BitVec.ofNat 32 index - (address - 4)).toNat = index + 4 := by
    bv_omega
  omega

theorem Holds.drop_left {memory : Memory} {address : BitVec 32} {words more : List (BitVec 32)}
    (holds : memory.Holds address (words ++ more)) :
    memory.Holds (address + BitVec.ofNat 32 (4 * words.length)) more := by
  induction words generalizing address with
  | nil => simpa using holds
  | cons value rest induction =>
      have later := induction holds.2
      rwa [BitVec.add_assoc, show (4 : BitVec 32) = BitVec.ofNat 32 4 from rfl,
        ← BitVec.ofNat_add, show 4 + 4 * rest.length = 4 * (value :: rest).length by
          rw [List.length_cons]; omega] at later

theorem Holds.append {memory : Memory} {address : BitVec 32} {words more : List (BitVec 32)}
    (holds : memory.Holds address words)
    (rest : memory.Holds (address + BitVec.ofNat 32 (4 * words.length)) more) :
    memory.Holds address (words ++ more) := by
  induction words generalizing address with
  | nil => simpa using rest
  | cons value words induction =>
      refine ⟨holds.1, induction holds.2 ?_⟩
      rwa [BitVec.add_assoc, show (4 : BitVec 32) = BitVec.ofNat 32 4 from rfl,
        ← BitVec.ofNat_add, show 4 + 4 * words.length = 4 * (value :: words).length by
          rw [List.length_cons]; omega]

theorem exists_holds (memory : Memory) (address : BitVec 32) (count : Nat) :
    ∃ words, words.length = count ∧ memory.Holds address words := by
  induction count generalizing address with
  | zero => exact ⟨[], rfl, trivial⟩
  | succ count induction =>
      rcases induction (address + 4) with ⟨words, length, holds⟩
      exact ⟨memory.word address :: words, by rw [List.length_cons, length], rfl, holds⟩

theorem Holds.word_eq {memory : Memory} {address : BitVec 32} {words : List (BitVec 32)}
    (holds : memory.Holds address words) {index : Nat} (bound : index < words.length) :
    memory.word (address + BitVec.ofNat 32 (4 * index)) = words[index] := by
  rw [← List.take_append_drop index words] at holds
  have later := holds.drop_left
  rw [List.length_take_of_le bound.le, List.drop_eq_getElem_cons bound] at later
  exact later.1

theorem Holds.of_append {memory : Memory} {address : BitVec 32} {words more : List (BitVec 32)}
    (holds : memory.Holds address (words ++ more)) : memory.Holds address words := by
  induction words generalizing address with
  | nil => trivial
  | cons value rest induction => exact ⟨holds.1, induction holds.2⟩

end Memory

end Yoctos.Ia32
