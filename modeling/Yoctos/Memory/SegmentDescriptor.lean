import Mathlib.Logic.Function.Basic
import Mathlib.Data.BitVec

/-! # Segment descriptors (`mem/gdt.c`, `descriptors.h`) -/

namespace Yoctos.Memory

structure GdtEntry where
  lim15_0 : BitVec 16
  base15_0 : BitVec 16
  base23_16 : BitVec 8
  type : BitVec 4
  s : BitVec 1
  dpl : BitVec 2
  present : BitVec 1
  lim19_16 : BitVec 4
  avl : BitVec 1
  l : BitVec 1
  db : BitVec 1
  granularity : BitVec 1
  base31_24 : BitVec 8
  deriving DecidableEq

/-! ## Constants of `descriptors.h` and `gdt.h` -/

def dplKernel : BitVec 8 := 0
def dplUser : BitVec 8 := 3
def typeDataRw : BitVec 8 := 3
def typeCodeExeconly : BitVec 8 := 9
def typeTss : BitVec 8 := 9
def sCodeOrData : BitVec 8 := 1
def sSystem : BitVec 8 := 0
def dbSeg : BitVec 8 := 1
def dbSys : BitVec 8 := 0

def kernelTssIndex : Nat := 5
def gdtKernelCodeSelector : BitVec 16 := 8
def gdtKernelDataSelector : BitVec 16 := 16
def gdtUserCodeSelector : BitVec 16 := 24 ||| 3
def gdtUserDataSelector : BitVec 16 := 32 ||| 3

def buildEntry (base limit : BitVec 32) (type s db granularity dpl : BitVec 8) : GdtEntry where
  lim15_0 := (limit &&& 0xffff).setWidth 16
  base15_0 := (base &&& 0xffff).setWidth 16
  base23_16 := ((base >>> 16) &&& 0xff).setWidth 8
  type := type.setWidth 4
  s := s.setWidth 1
  dpl := dpl.setWidth 2
  present := 1
  lim19_16 := ((limit >>> 16) &&& 0xf).setWidth 4
  avl := 0
  l := 0
  db := db.setWidth 1
  granularity := granularity.setWidth 1
  base31_24 := ((base >>> 24) &&& 0xff).setWidth 8

def gdtMakeNullSegment : GdtEntry :=
  ⟨0, 0, 0, 0, 0, 0, 0, 0, 0, 0, 0, 0, 0⟩

def gdtMakeCodeSegment (base limit : BitVec 32) (dpl : BitVec 8) : GdtEntry :=
  buildEntry base limit typeCodeExeconly sCodeOrData dbSeg 1 dpl

def gdtMakeDataSegment (base limit : BitVec 32) (dpl : BitVec 8) : GdtEntry :=
  buildEntry base limit typeDataRw sCodeOrData dbSeg 1 dpl

/-- `sizeof(tss_t)`: 104 bytes of registers and the 8 KB port bitmap. -/
def sizeofTss : Nat := 104 + 8192

def gdtMakeTss (tss : BitVec 32) (dpl : BitVec 8) : GdtEntry :=
  buildEntry tss (BitVec.ofNat 32 (sizeofTss - 1)) typeTss sSystem dbSys 0 dpl

def gdtEntryToSelector (entry : Nat) : BitVec 32 := BitVec.ofNat 32 (entry <<< 3)

/-! ## The layout the CPU reads -/

def GdtEntry.bytes (entry : GdtEntry) : Fin 8 → BitVec 8
  | 0 => entry.lim15_0.extractLsb' 0 8
  | 1 => entry.lim15_0.extractLsb' 8 8
  | 2 => entry.base15_0.extractLsb' 0 8
  | 3 => entry.base15_0.extractLsb' 8 8
  | 4 => entry.base23_16
  | 5 => entry.present ++ entry.dpl ++ entry.s ++ entry.type
  | 6 => entry.granularity ++ entry.db ++ entry.l ++ entry.avl ++ entry.lim19_16
  | 7 => entry.base31_24

structure SegmentDescriptor where
  base : BitVec 32
  limit : BitVec 20
  type : BitVec 4
  s : BitVec 1
  dpl : BitVec 2
  present : BitVec 1
  avl : BitVec 1
  l : BitVec 1
  db : BitVec 1
  granularity : BitVec 1
  deriving DecidableEq

def decodeDescriptor (bytes : Fin 8 → BitVec 8) : SegmentDescriptor where
  base := bytes 7 ++ bytes 4 ++ bytes 3 ++ bytes 2
  limit := (bytes 6).extractLsb' 0 4 ++ bytes 1 ++ bytes 0
  type := (bytes 5).extractLsb' 0 4
  s := (bytes 5).extractLsb' 4 1
  dpl := (bytes 5).extractLsb' 5 2
  present := (bytes 5).extractLsb' 7 1
  avl := (bytes 6).extractLsb' 4 1
  l := (bytes 6).extractLsb' 5 1
  db := (bytes 6).extractLsb' 6 1
  granularity := (bytes 6).extractLsb' 7 1

structure GateDescriptor where
  selector : BitVec 16
  offset : BitVec 32
  reserved : BitVec 8
  type : BitVec 5
  dpl : BitVec 2
  present : BitVec 1

def decodeGate (bytes : Fin 8 → BitVec 8) : GateDescriptor where
  selector := bytes 3 ++ bytes 2
  offset := bytes 7 ++ bytes 6 ++ bytes 1 ++ bytes 0
  reserved := bytes 4
  type := (bytes 5).extractLsb' 0 5
  dpl := (bytes 5).extractLsb' 5 2
  present := (bytes 5).extractLsb' 7 1

def GdtEntry.descriptor (entry : GdtEntry) : SegmentDescriptor := decodeDescriptor entry.bytes

/-- Decoding reassembles the split fields and returns the others. -/
theorem GdtEntry.descriptor_eq (entry : GdtEntry) :
    entry.descriptor =
      { base := entry.base31_24 ++ entry.base23_16 ++ entry.base15_0
        limit := entry.lim19_16 ++ entry.lim15_0
        type := entry.type
        s := entry.s
        dpl := entry.dpl
        present := entry.present
        avl := entry.avl
        l := entry.l
        db := entry.db
        granularity := entry.granularity } := by
  simp only [descriptor, decodeDescriptor, bytes, SegmentDescriptor.mk.injEq]
  refine ⟨?_, ?_, ?_, ?_, ?_, ?_, ?_, ?_, ?_, ?_⟩ <;> ext index bound <;> grind

theorem setWidth_and_mask {width : Nat} (value mask : BitVec 32)
    (covers : mask.setWidth width = BitVec.allOnes width) :
    (value &&& mask).setWidth width = value.setWidth width := by
  rw [BitVec.setWidth_and, covers, BitVec.and_allOnes]

private theorem base_fields (base : BitVec 32) :
    ((base >>> 24) &&& 0xff).setWidth 8 ++ ((base >>> 16) &&& 0xff).setWidth 8 ++
      (base &&& 0xffff).setWidth 16 = base := by
  rw [setWidth_and_mask _ _ (by decide), setWidth_and_mask _ _ (by decide),
    setWidth_and_mask _ _ (by decide)]
  ext index bound
  grind

private theorem limit_fields (limit : BitVec 32) :
    ((limit >>> 16) &&& 0xf).setWidth 4 ++ (limit &&& 0xffff).setWidth 16 =
      limit.setWidth 20 := by
  rw [setWidth_and_mask _ _ (by decide), setWidth_and_mask _ _ (by decide)]
  ext index bound
  grind

/-- An entry decodes to what `build_entry` was given, each value cut to its
field. -/
theorem descriptor_buildEntry (base limit : BitVec 32)
    (type s db granularity dpl : BitVec 8) :
    (buildEntry base limit type s db granularity dpl).descriptor =
      { base := base
        limit := limit.setWidth 20
        type := type.setWidth 4
        s := s.setWidth 1
        dpl := dpl.setWidth 2
        present := 1
        avl := 0
        l := 0
        db := db.setWidth 1
        granularity := granularity.setWidth 1 } := by
  rw [GdtEntry.descriptor_eq]
  simp only [buildEntry, base_fields, limit_fields]

/-- A TSS entry decodes to a present, byte-granular TSS descriptor with the
whole address as base. -/
theorem descriptor_gdtMakeTss (tss : BitVec 32) (dpl : BitVec 8) :
    (gdtMakeTss tss dpl).descriptor =
      { base := tss
        limit := BitVec.ofNat 20 (sizeofTss - 1)
        type := 9
        s := 0
        dpl := dpl.setWidth 2
        present := 1
        avl := 0
        l := 0
        db := 0
        granularity := 0 } := by
  rw [gdtMakeTss, descriptor_buildEntry]
  rfl

end Yoctos.Memory
