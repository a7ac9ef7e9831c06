import Yoctos.Ia32.Machine

/-! # A platform for given routines

Routine `index` starts at address `64 * index`, and each of its instructions
takes one address.
-/

namespace Yoctos.Ia32

def slot (index : Nat) : BitVec 32 := BitVec.ofNat 32 (64 * index)

def placedContent (routine : Nat → List Instr) (function : Nat → Option (State → State))
    (address : BitVec 32) : Option Content :=
  match function (address.toNat / 64) with
  | some call => some (.function call)
  | none => ((routine (address.toNat / 64))[address.toNat % 64]?).map (.instr · (address + 1))

/-- The stack of the kernel starts at `esp0`. A push of a segment register
leaves zeros in the upper half. -/
def placed (routine : Nat → List Instr) (function : Nat → Option (State → State))
    (gate : BitVec 8 → Option Gate) (ss0 : BitVec 16) (esp0 : BitVec 32) : Platform where
  content := placedContent routine function
  gate := gate
  ss0 := ss0
  esp0 := esp0
  segmentWord _ selector := selector.setWidth 32
  segmentWord_low _ selector := by
    rw [BitVec.setWidth_setWidth_of_le _ (by decide), BitVec.setWidth_eq]
  addFlags _ _ := 0

variable {p : Platform} {routine : Nat → List Instr} {function : Nat → Option (State → State)}

theorem loaded_drop {index : Nat} (placed : p.content = placedContent routine function)
    (code : function index = none) (bound : index < 2 ^ 25) (short : (routine index).length ≤ 64)
    {rest : List Instr} {offset : Nat} (remaining : (routine index).drop offset = rest)
    (inside : offset + rest.length = (routine index).length) :
    Loaded p (BitVec.ofNat 32 (64 * index + offset)) rest := by
  induction rest generalizing offset with
  | nil => trivial
  | cons instr rest induction =>
      rw [List.length_cons] at inside
      have address : (BitVec.ofNat 32 (64 * index + offset)).toNat = 64 * index + offset := by
        rw [BitVec.toNat_ofNat, Nat.mod_eq_of_lt (by omega)]
      have here : (routine index)[offset]? = some instr := by
        rw [← List.head?_drop, remaining]
        rfl
      refine ⟨BitVec.ofNat 32 (64 * index + offset) + 1, ?_, ?_⟩
      · rw [placed, placedContent, address, show (64 * index + offset) / 64 = index by omega, code,
          show (64 * index + offset) % 64 = offset by omega, here]
        rfl
      · have tail : (routine index).drop (offset + 1) = rest := by
          rw [← List.tail_drop, remaining]
          rfl
        have later := induction tail (by omega)
        rwa [← Nat.add_assoc, BitVec.ofNat_add] at later

theorem loaded_slot {index : Nat} (placed : p.content = placedContent routine function)
    (code : function index = none) (bound : index < 2 ^ 25)
    (short : (routine index).length ≤ 64) : Loaded p (slot index) (routine index) :=
  loaded_drop placed code bound short (List.drop_zero ..) (Nat.zero_add _)

end Yoctos.Ia32
