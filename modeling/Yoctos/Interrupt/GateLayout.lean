import Yoctos.Interrupt.Idt

/-! # The bytes of a gate

What the CPU decodes from the eight bytes of an interrupt table entry is what
`idt_build_entry` was given. The entries of the GDT keep their fields in the
same way.
-/

namespace Yoctos.Interrupt

open Yoctos.Ia32 Yoctos.Memory

def IdtEntry.bytes (entry : IdtEntry) : Fin 8 → BitVec 8
  | 0 => entry.offset15_0.extractLsb' 0 8
  | 1 => entry.offset15_0.extractLsb' 8 8
  | 2 => entry.selector.extractLsb' 0 8
  | 3 => entry.selector.extractLsb' 8 8
  | 4 => entry.reserved
  | 5 => entry.p ++ entry.dpl ++ entry.type
  | 6 => entry.offset31_16.extractLsb' 0 8
  | 7 => entry.offset31_16.extractLsb' 8 8

private theorem decodeGate_bytes (entry : IdtEntry) :
    decodeGate entry.bytes =
      { selector := entry.selector
        offset := entry.offset31_16 ++ entry.offset15_0
        reserved := entry.reserved
        type := entry.type
        dpl := entry.dpl
        present := entry.p } := by
  simp only [decodeGate, IdtEntry.bytes, GateDescriptor.mk.injEq, true_and]
  refine ⟨?_, ?_, ?_, ?_, ?_⟩ <;> ext index bound <;> grind

def gateOf (descriptor : GateDescriptor) : Option Gate :=
  if descriptor.present = 1 ∧ (descriptor.type = 14 ∨ descriptor.type = 15) then
    some ⟨descriptor.selector, descriptor.offset, descriptor.type = 15, descriptor.dpl⟩
  else none

/-- The table the interrupts go through is the one the CPU finds in memory. -/
theorem gate_decodeGate (entry : IdtEntry) : gateOf (decodeGate entry.bytes) = entry.gate := by
  rw [decodeGate_bytes]
  rfl

private theorem decodeGate_idtBuildEntry (selector : BitVec 16) (offset : BitVec 32)
    (type dpl : BitVec 8) :
    decodeGate (idtBuildEntry selector offset type dpl).bytes =
      { selector, offset
        reserved := 0
        type := type.setWidth 5
        dpl := dpl.setWidth 2
        present := 1 } := by
  rw [decodeGate_bytes]
  simp only [idtBuildEntry, offset_fields]

/-- Both encoders keep every bit of what they encode. -/
theorem encodings_lossless :
    (∀ (base : BitVec 32) (limit : BitVec 20) (type : BitVec 4) (s db granularity : BitVec 1)
        (dpl : BitVec 2),
      decodeDescriptor (buildEntry base (limit.setWidth 32) (type.setWidth 8) (s.setWidth 8)
          (db.setWidth 8) (granularity.setWidth 8) (dpl.setWidth 8)).bytes =
        { base, limit, type, s, dpl
          present := 1
          avl := 0
          l := 0
          db, granularity }) ∧
    (∀ (offset : BitVec 32) (selector : BitVec 16) (type : BitVec 5) (dpl : BitVec 2),
      decodeGate (idtBuildEntry selector offset (type.setWidth 8) (dpl.setWidth 8)).bytes =
        { selector, offset
          reserved := 0
          type, dpl
          present := 1 }) := by
  constructor
  · intro base limit type s db granularity dpl
    have decoded := descriptor_buildEntry base (limit.setWidth 32) (type.setWidth 8) (s.setWidth 8)
      (db.setWidth 8) (granularity.setWidth 8) (dpl.setWidth 8)
    simpa [GdtEntry.descriptor] using decoded
  · intro offset selector type dpl
    have decoded := decodeGate_idtBuildEntry selector offset (type.setWidth 8) (dpl.setWidth 8)
    simpa using decoded

end Yoctos.Interrupt
