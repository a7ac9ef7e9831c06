import Yoctos.Memory.SegmentDescriptor

/-! # Privilege

What IA-32 checks when code names a segment by its selector, and when it
addresses a port.
-/

namespace Yoctos.Ia32

open Yoctos.Memory (SegmentDescriptor)

/-! ## Selectors -/

namespace Selector

variable (selector : BitVec 16)

def index : Nat := selector.toNat / 8

def isLocal : Bool := selector.getLsbD 2

def rpl : BitVec 2 := selector.setWidth 2

def isNull : Bool := decide (selector.toNat / 4 = 0)

def withRpl (level : BitVec 2) : BitVec 16 := selector.extractLsb' 2 14 ++ level

theorem rpl_toNat : (rpl selector).toNat = selector.toNat % 4 := BitVec.toNat_setWidth ..

theorem isLocal_eq : isLocal selector = decide (selector.toNat / 4 % 2 = 1) :=
  Nat.testBit_eq_decide_div_mod_eq ..

theorem withRpl_toNat (level : BitVec 2) :
    (withRpl selector level).toNat = selector.toNat / 4 * 4 + level.toNat := by
  have bound := selector.isLt
  have low := level.isLt
  rw [withRpl, BitVec.toNat_append, BitVec.extractLsb'_toNat, ← Nat.shiftLeft_add_eq_or_of_lt low,
    Nat.shiftLeft_eq, Nat.shiftRight_eq_div_pow]
  omega

end Selector

/-! ## Descriptors -/

/-- The global table up to its limit. There is no local one. -/
abbrev DescriptorTable := Nat → Option SegmentDescriptor

namespace DescriptorTable

def find (table : DescriptorTable) (selector : BitVec 16) : Option SegmentDescriptor :=
  if Selector.isNull selector || Selector.isLocal selector then none
  else table (Selector.index selector)

theorem find_some {table : DescriptorTable} {selector : BitVec 16} {descriptor : SegmentDescriptor}
    (found : table.find selector = some descriptor) :
    table (Selector.index selector) = some descriptor ∧
      selector.toNat / 4 = 2 * Selector.index selector := by
  rw [find] at found
  split at found
  next => cases found
  next proper =>
    rw [Selector.isLocal_eq, Selector.isNull, Bool.not_eq_true, Bool.or_eq_false_iff,
      decide_eq_false_iff_not, decide_eq_false_iff_not] at proper
    refine ⟨found, ?_⟩
    rw [Selector.index]
    omega

end DescriptorTable

def isCode (descriptor : SegmentDescriptor) : Bool :=
  descriptor.s == 1 && descriptor.type.getLsbD 3

def isData (descriptor : SegmentDescriptor) : Bool :=
  descriptor.s == 1 && !descriptor.type.getLsbD 3

def isConforming (descriptor : SegmentDescriptor) : Bool := descriptor.type.getLsbD 2

def isAccessible (descriptor : SegmentDescriptor) : Bool := descriptor.type.getLsbD 1

/-- An available TSS, a call gate or a task gate. -/
def isGateway (descriptor : SegmentDescriptor) : Bool :=
  descriptor.s == 0 && [1, 4, 5, 9, 12].contains descriptor.type

/-! ## Transfers -/

inductive Destination
  /-- Code of the same privilege, with what becomes the value of `cs`. -/
  | code (selector : BitVec 16)
  | gateway (descriptor : SegmentDescriptor)

section

variable (table : DescriptorTable) (cpl : BitVec 2) (selector : BitVec 16)

def farTransfer : Option Destination :=
  (table.find selector).bind fun descriptor =>
    if descriptor.present ≠ 1 then none
    else if isCode descriptor then
      if (isConforming descriptor ∧ descriptor.dpl ≤ cpl) ∨
          (¬ isConforming descriptor ∧ Selector.rpl selector ≤ cpl ∧ descriptor.dpl = cpl) then
        some (.code (Selector.withRpl selector cpl))
      else none
    else if isGateway descriptor ∧ cpl ≤ descriptor.dpl ∧
        Selector.rpl selector ≤ descriptor.dpl then
      some (.gateway descriptor)
    else none

def farReturn : Option (BitVec 16) :=
  (table.find selector).bind fun descriptor =>
    if descriptor.present = 1 ∧ isCode descriptor ∧ cpl ≤ Selector.rpl selector ∧
        ((isConforming descriptor ∧ descriptor.dpl ≤ Selector.rpl selector) ∨
          (¬ isConforming descriptor ∧ descriptor.dpl = Selector.rpl selector)) then
      some selector
    else none

def loadsStack : Bool :=
  (table.find selector).any fun descriptor =>
    descriptor.present == 1 && isData descriptor && isAccessible descriptor &&
      Selector.rpl selector == cpl && descriptor.dpl == cpl

def loadsData : Bool :=
  Selector.isNull selector || (table.find selector).any fun descriptor =>
    descriptor.present == 1 &&
      (isData descriptor || (isCode descriptor && isAccessible descriptor)) &&
        ((isCode descriptor && isConforming descriptor) ||
          (decide (Selector.rpl selector ≤ descriptor.dpl) && decide (cpl ≤ descriptor.dpl)))

end

section

variable {table : DescriptorTable} {cpl : BitVec 2} {selector : BitVec 16}

theorem farTransfer_code {loaded : BitVec 16}
    (transferred : farTransfer table cpl selector = some (.code loaded)) :
    ∃ descriptor, table.find selector = some descriptor ∧ descriptor.present = 1 ∧
      isCode descriptor = true ∧ descriptor.dpl ≤ cpl ∧
      (isConforming descriptor = false → descriptor.dpl = cpl) ∧
      loaded = Selector.withRpl selector cpl := by
  rw [farTransfer, Option.bind_eq_some_iff] at transferred
  rcases transferred with ⟨descriptor, found, transferred⟩
  split at transferred
  next => cases transferred
  next present =>
    split at transferred
    next code =>
      split at transferred
      next allowed =>
        cases transferred
        refine ⟨descriptor, found, not_not.mp present, code, ?_, ?_, rfl⟩
        · rcases allowed with ⟨_, below⟩ | ⟨_, _, same⟩
          · exact below
          · exact same ▸ BitVec.le_refl _
        · intro plain
          rcases allowed with ⟨conforming, _⟩ | ⟨_, _, same⟩
          · rw [plain] at conforming
            cases conforming
          · exact same
      next => cases transferred
    next =>
      split at transferred
      next => cases transferred
      next => cases transferred

theorem farTransfer_gateway {descriptor : SegmentDescriptor}
    (transferred : farTransfer table cpl selector = some (.gateway descriptor)) :
    table.find selector = some descriptor ∧ descriptor.present = 1 ∧
      isGateway descriptor = true ∧ cpl ≤ descriptor.dpl := by
  rw [farTransfer, Option.bind_eq_some_iff] at transferred
  rcases transferred with ⟨same, found, transferred⟩
  split at transferred
  next => cases transferred
  next present =>
    split at transferred
    next =>
      split at transferred
      next => cases transferred
      next => cases transferred
    next =>
      split at transferred
      next allowed =>
        cases transferred
        exact ⟨found, not_not.mp present, allowed.1, allowed.2.1⟩
      next => cases transferred

theorem farReturn_some {loaded : BitVec 16}
    (returned : farReturn table cpl selector = some loaded) :
    ∃ descriptor, table.find selector = some descriptor ∧ descriptor.present = 1 ∧
      isCode descriptor = true ∧ cpl ≤ Selector.rpl selector ∧
      (isConforming descriptor = false → descriptor.dpl = Selector.rpl selector) ∧
      loaded = selector := by
  rw [farReturn, Option.bind_eq_some_iff] at returned
  rcases returned with ⟨descriptor, found, returned⟩
  split at returned
  next allowed =>
    cases returned
    rcases allowed with ⟨present, code, outward, level⟩
    refine ⟨descriptor, found, present, code, outward, fun plain => ?_, rfl⟩
    rcases level with ⟨conforming, _⟩ | ⟨_, same⟩
    · rw [plain] at conforming
      cases conforming
    · exact same
  next => cases returned

theorem loadsStack_iff : loadsStack table cpl selector = true ↔
    ∃ descriptor, table.find selector = some descriptor ∧ descriptor.present = 1 ∧
      isData descriptor = true ∧ isAccessible descriptor = true ∧
      Selector.rpl selector = cpl ∧ descriptor.dpl = cpl := by
  simp only [loadsStack, Option.any_eq_true, Bool.and_eq_true, beq_iff_eq, and_assoc]

theorem loadsData_iff : loadsData table cpl selector = true ↔
    Selector.isNull selector = true ∨ ∃ descriptor, table.find selector = some descriptor ∧
      descriptor.present = 1 ∧
      (isData descriptor = true ∨ isCode descriptor = true ∧ isAccessible descriptor = true) ∧
      (isCode descriptor = true ∧ isConforming descriptor = true ∨
        Selector.rpl selector ≤ descriptor.dpl ∧ cpl ≤ descriptor.dpl) := by
  simp only [loadsData, Bool.or_eq_true, Option.any_eq_true, Bool.and_eq_true, beq_iff_eq,
    decide_eq_true_eq, and_assoc]

end

/-! ## Ports -/

def iopl : BitVec 32 := 0x3000
def virtual8086 : BitVec 32 := 0x20000

/-- The check on a port, for code that has no I/O privilege. `tss` are the bytes
of the current TSS, and `limit` is the last of them. -/
def portAllowed (tss : Nat → BitVec 8) (limit : Nat) (port : BitVec 16) (width : Nat) : Bool :=
  let ioMapBase := (tss 103 ++ tss 102).toNat
  let first := ioMapBase + port.toNat / 8
  decide (first + 1 ≤ limit) && (List.range width).all fun bit =>
    !(tss (first + 1) ++ tss first).getLsbD (port.toNat % 8 + bit)

end Yoctos.Ia32
