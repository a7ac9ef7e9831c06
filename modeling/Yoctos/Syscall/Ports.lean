import Yoctos.Syscall.Privilege

/-! # The ports of programs (`task/tss.h`)

A TSS has a bitmap that says which ports its code may use. Its place in the TSS
is never set, and so the CPU takes the start of the TSS itself for the bitmap.
-/

namespace Yoctos.Syscall

open Yoctos.Memory Yoctos.Tasks Yoctos.Ia32

/-! ## The bytes of a TSS -/

/-- The words of `tss_t` before its bitmap. The fields for the inner levels and
for a local table, and `iomap_base_addr`, stay as `memset` leaves them. -/
def tssWords (tss : Tss) : List (BitVec 32) :=
  let r := tss.registers
  [tss.previousTaskLink.setWidth 32, tss.esp0, tss.ss0.setWidth 32, 0, 0, 0, 0, tss.cr3, r.eip,
    r.eflags, r.eax, r.ecx, r.edx, r.ebx, r.esp, r.ebp, r.esi, r.edi, r.es.setWidth 32,
    r.cs.setWidth 32, r.ss.setWidth 32, r.ds.setWidth 32, r.fs.setWidth 32, r.gs.setWidth 32, 0, 0]

/-- The bytes of `tss_t`. Nothing is ever stored in `iomap`. -/
def tssBytes (tss : Tss) (offset : Nat) : BitVec 8 :=
  ((tssWords tss).getD (offset / 4) 0).extractLsb' (offset % 4 * 8) 8

def tssBit (tss : Tss) (position : Nat) : Bool :=
  (tssBytes tss (position / 8)).getLsbD (position % 8)

private theorem tssBit_word (tss : Tss) (word : Nat) {bit : Nat} (inWord : bit < 32) :
    tssBit tss (32 * word + bit) = ((tssWords tss).getD word 0).getLsbD bit := by
  have low : (32 * word + bit) % 8 < 8 := Nat.mod_lt _ (by decide)
  have byte : (32 * word + bit) / 8 / 4 = word := by omega
  have offset : (32 * word + bit) / 8 % 4 * 8 + (32 * word + bit) % 8 = bit := by omega
  rw [tssBit, tssBytes, BitVec.getLsbD_extractLsb', decide_eq_true low, Bool.true_and, byte, offset]

/-! ## The bitmap in force -/

/-- The bitmap that guards the ports is the TSS itself. -/
theorem portAllowed_iff (tss : Tss) (port : BitVec 16) {width : Nat} (narrow : width ≤ 8) :
    portAllowed (tssBytes tss) (sizeofTss - 1) port width = true ↔
      ∀ bit < width, tssBit tss (port.toNat + bit) = false := by
  have bound := port.isLt
  have base : (tssBytes tss 103 ++ tssBytes tss 102).toNat = 0 := by
    have last : (tssWords tss).getD 25 0 = 0 := rfl
    simp only [tssBytes, last]
    decide
  have reaches : decide (0 + port.toNat / 8 + 1 ≤ sizeofTss - 1) = true := by
    rw [sizeofTss]
    exact decide_eq_true (by omega)
  simp only [portAllowed, base, reaches, Bool.true_and, List.all_eq_true, List.mem_range,
    Bool.not_eq_true']
  apply forall₂_congr
  intro bit below
  rw [BitVec.getLsbD_append, tssBit]
  by_cases same : port.toNat % 8 + bit < 8
  · rw [if_pos same]
    have byte : (port.toNat + bit) / 8 = 0 + port.toNat / 8 := by omega
    have offset : (port.toNat + bit) % 8 = port.toNat % 8 + bit := by omega
    rw [byte, offset]
  · rw [if_neg same]
    have byte : (port.toNat + bit) / 8 = 0 + port.toNat / 8 + 1 := by omega
    have offset : (port.toNat + bit) % 8 = port.toNat % 8 + bit - 8 := by omega
    rw [byte, offset]

private theorem portAllowed_byte (tss : Tss) (port : BitVec 16) :
    portAllowed (tssBytes tss) (sizeofTss - 1) port 1 = !tssBit tss port.toNat := by
  rw [Bool.eq_iff_iff, portAllowed_iff tss port (by decide), Bool.not_eq_true']
  constructor
  · exact fun free => free 0 (by decide)
  · intro free bit below
    rwa [Nat.lt_one_iff.mp below]

private theorem tssBit_inner (tss : Tss) {word bit : Nat} (inner : word ∈ [3, 5])
    (inWord : bit < 32) :
    tssBit tss (32 * word + bit) = false := by
  rw [tssBit_word _ _ inWord]
  rcases List.mem_pair.mp inner with rfl | rfl <;> exact BitVec.getLsbD_zero

private theorem portAllowed_above (tss : Tss) {port : BitVec 16} {width : Nat} (narrow : width ≤ 8)
    (above : 832 ≤ port.toNat) :
    portAllowed (tssBytes tss) (sizeofTss - 1) port width = true := by
  rw [portAllowed_iff tss port narrow]
  intro bit _
  have position : port.toNat + bit = 32 * ((port.toNat + bit) / 32) + (port.toNat + bit) % 32 :=
    (Nat.div_add_mod ..).symm
  have beyond : (tssWords tss)[(port.toNat + bit) / 32]? = none := by
    apply List.getElem?_eq_none
    change 26 ≤ _
    omega
  rw [position, tssBit_word _ _ (Nat.mod_lt _ (by decide)), List.getD_eq_getElem?_getD, beyond]
  exact BitVec.getLsbD_zero

private theorem kernelStackEnd_low {layout : Layout} (wellFormed : layout.WellFormed)
    (aligned : layout.tasks.toNat % 4096 = 0) (slot : Slot) :
    (kernelStackEnd layout (.task slot)).toNat % 4096 = 0x72 := by
  have start := wellFormed.task_toNat slot
  rw [kernelStackEnd, offsetofKernelStack, sizeofKernelStack, BitVec.toNat_add, BitVec.toNat_add,
    start, sizeofTask]
  change ((layout.tasks.toNat + slot.val * 0x15000 + 0x4072) % 2 ^ 32 + 65536) % 2 ^ 32 % 4096 = _
  omega

/-- The interrupt controllers (but for the mask of the first), the timer and the
keyboard. -/
def openPorts : List (BitVec 16) := [0x20, 0xa0, 0xa1, 0x40, 0x41, 0x42, 0x43, 0x60, 0x64]

def pic1Data : BitVec 16 := 0x21

/-- Programs have no I/O privilege, and still reach the ports. -/
theorem ports_open {machine : Machine} {system : System}
    (aligned : machine.layout.tasks.toNat % 4096 = 0)
    (cleared : ∀ entry, kernelTssIndex < entry → entry < kernelTssIndex + 1 + maxTaskCount →
      machine.gdt entry = gdtMakeNullSegment)
    (reachable : Reachable machine system) {slot : Slot} (member : slot ∈ system.created) :
    let allowed := portAllowed (tssBytes (system.kernel.tasks slot).tss) (sizeofTss - 1)
    (∀ port width, width ≤ 8 → 832 ≤ port.toNat → allowed port width = true) ∧
    (∀ port ∈ openPorts, allowed port 1 = true) ∧ allowed pic1Data 1 = false := by
  have segments := Segments.of_reachable cleared reachable
  rcases segments.stack (.task slot) member with ⟨ss0, esp0⟩
  generalize same : (system.kernel.tasks slot).tss = tss
  have ss0 : tss.ss0 = gdtKernelDataSelector := same ▸ ss0
  have esp0 : tss.esp0 = kernelStackEnd machine.layout (.task slot) := same ▸ esp0
  have low := kernelStackEnd_low machine.wellFormed.layout aligned slot
  rw [← esp0] at low
  have espBit : ∀ bit < 12, tss.esp0.getLsbD bit = (0x72 : Nat).testBit bit := by
    intro bit below
    rw [← low, BitVec.getLsbD, show (4096 : Nat) = 2 ^ 12 from rfl, Nat.testBit_mod_two_pow,
      decide_eq_true below, Bool.true_and]
  have stackWord : ∀ bit < 12, tssBit tss (32 * 1 + bit) = (0x72 : Nat).testBit bit := by
    intro bit below
    rw [tssBit_word _ _ (by omega)]
    exact espBit bit below
  have segmentWord : ∀ bit < 4, tssBit tss (32 * 2 + bit) = false := by
    intro bit below
    rw [tssBit_word _ _ (by omega)]
    change (tss.ss0.setWidth 32).getLsbD bit = false
    rw [ss0]
    have low : ∀ bit < 4, (BitVec.setWidth 32 gdtKernelDataSelector).getLsbD bit = false := by
      decide
    exact low bit below
  refine ⟨fun port width narrow above => portAllowed_above tss narrow above, ?_, ?_⟩
  · simp only [openPorts, List.forall_mem_cons, List.not_mem_nil, false_implies, implies_true,
      and_true, portAllowed_byte, Bool.not_eq_true']
    have esp1 : ∀ bit < 32, tssBit tss (32 * 3 + bit) = false := fun _ =>
      tssBit_inner tss (by decide)
    have esp2 : ∀ bit < 32, tssBit tss (32 * 5 + bit) = false := fun _ =>
      tssBit_inner tss (by decide)
    exact ⟨stackWord 0 (by decide), esp2 0 (by decide), esp2 1 (by decide),
      segmentWord 0 (by decide), segmentWord 1 (by decide), segmentWord 2 (by decide),
      segmentWord 3 (by decide), esp1 0 (by decide), esp1 4 (by decide)⟩
  · rw [portAllowed_byte, Bool.not_eq_false']
    exact stackWord 1 (by decide)

theorem ports_open_shell :
    portAllowed (tssBytes (shellRunning.kernel.tasks 0).tss) (sizeofTss - 1) 0x43 1 = true := by
  have aligned : shellMachine.layout.tasks.toNat % 4096 = 0 := by decide
  have cleared : ∀ entry, kernelTssIndex < entry → entry < kernelTssIndex + 1 + maxTaskCount →
      shellMachine.gdt entry = gdtMakeNullSegment := fun _ _ _ => rfl
  have member : (0 : Slot) ∈ shellRunning.created := by decide +kernel
  exact (ports_open aligned cleared shellRunning_reachable member).2.1 0x43 (by decide)

end Yoctos.Syscall
