import Yoctos.Ia32.Placement
import Yoctos.Memory.SegmentDescriptor
import Mathlib.Data.List.Basic

/-! # The interrupt table and its stubs (`interrupt/idt.c`, `interrupt/idt_asm.s`) -/

namespace Yoctos.Interrupt

open Yoctos.Ia32 Yoctos.Memory

/-! ## The table -/

structure IdtEntry where
  offset15_0 : BitVec 16
  selector : BitVec 16
  reserved : BitVec 8
  type : BitVec 5
  dpl : BitVec 2
  p : BitVec 1
  offset31_16 : BitVec 16

def typeTrapGate : BitVec 8 := 15
def typeInterruptGate : BitVec 8 := 14

def firstException : Nat := 0
def lastException : Nat := 20
def exceptionCount : Nat := lastException - firstException + 1
def irqRemapOffset : Nat := 32
def irqFirst : Nat := 0
def irqLast : Nat := 15

def idtBuildEntry (selector : BitVec 16) (offset : BitVec 32) (type dpl : BitVec 8) :
    IdtEntry where
  offset15_0 := (offset &&& 0xffff).setWidth 16
  selector := selector
  reserved := 0
  type := type.setWidth 5
  dpl := dpl.setWidth 2
  p := 1
  offset31_16 := ((offset >>> 16) &&& 0xffff).setWidth 16

/-- The CPU's reading of an entry, task gates apart. -/
def IdtEntry.gate (entry : IdtEntry) : Option Gate :=
  if entry.p = 1 ∧ (entry.type = 14 ∨ entry.type = 15) then
    some ⟨entry.selector, entry.offset31_16 ++ entry.offset15_0, entry.type = 15, entry.dpl⟩
  else none

structure Symbols where
  exception : Nat → BitVec 32
  irq : Nat → BitVec 32
  exceptionWrapper : BitVec 32
  irqWrapper : BitVec 32
  exceptionHandler : BitVec 32
  irqHandler : BitVec 32
  syscallEntry : BitVec 32

def idtFill (idt : Nat → IdtEntry) (first count : Nat) (entry : Nat → IdtEntry) :
    Nat → IdtEntry :=
  (List.range count).foldl (fun idt i => Function.update idt (first + i) (entry i)) idt

def idtInit (symbols : Symbols) : Nat → IdtEntry :=
  let idt : Nat → IdtEntry := fun _ => ⟨0, 0, 0, 0, 0, 0, 0⟩
  let idt := idtFill idt firstException exceptionCount fun i =>
    idtBuildEntry gdtKernelCodeSelector (symbols.exception i) typeInterruptGate dplKernel
  let idt := idtFill idt irqRemapOffset (irqLast - irqFirst + 1) fun i =>
    idtBuildEntry gdtKernelCodeSelector (symbols.irq i) typeInterruptGate dplKernel
  Function.update idt 48
    (idtBuildEntry gdtKernelCodeSelector symbols.syscallEntry typeTrapGate dplUser)

theorem idtFill_apply (idt entry : Nat → IdtEntry) (first count index : Nat) :
    idtFill idt first count entry index =
      if first ≤ index ∧ index < first + count then entry (index - first) else idt index := by
  induction count with
  | zero => simp [idtFill]
  | succ count induction =>
      rw [idtFill, List.range_succ, List.foldl_append, List.foldl_cons, List.foldl_nil]
      rw [idtFill] at induction
      by_cases last : index = first + count
      · rw [last, Function.update_self, if_pos (by omega), Nat.add_sub_cancel_left]
      · rw [Function.update_of_ne last, induction]
        congr 1
        apply propext
        omega

theorem offset_fields (offset : BitVec 32) :
    ((offset >>> 16) &&& 0xffff).setWidth 16 ++ (offset &&& 0xffff).setWidth 16 = offset := by
  rw [setWidth_and_mask _ _ (by decide), setWidth_and_mask _ _ (by decide)]
  ext index bound
  grind

private theorem gate_idtBuildEntry {type : BitVec 8} (selector : BitVec 16) (offset : BitVec 32)
    (dpl : BitVec 8) (supported : type = typeInterruptGate ∨ type = typeTrapGate) :
    (idtBuildEntry selector offset type dpl).gate =
      some ⟨selector, offset, type = typeTrapGate, dpl.setWidth 2⟩ := by
  rcases supported with rfl | rfl <;>
    exact congrArg (fun offset => some (Gate.mk selector offset _ _)) (offset_fields offset)

theorem gate_exception (symbols : Symbols) {number : Nat} (known : number ≤ lastException) :
    (idtInit symbols number).gate =
      some ⟨gdtKernelCodeSelector, symbols.exception number, false, 0⟩ := by
  simp only [lastException] at known
  rw [idtInit, Function.update_of_ne (by omega), idtFill_apply,
    if_neg (by simp only [irqRemapOffset]; omega), idtFill_apply,
    if_pos (by simp only [firstException, exceptionCount, lastException]; omega)]
  exact gate_idtBuildEntry _ _ _ (.inl rfl)

theorem gate_irq (symbols : Symbols) {number : Nat} (known : number ≤ irqLast) :
    (idtInit symbols (irqRemapOffset + number)).gate =
      some ⟨gdtKernelCodeSelector, symbols.irq number, false, 0⟩ := by
  simp only [irqLast] at known
  rw [idtInit, Function.update_of_ne (by simp only [irqRemapOffset]; omega), idtFill_apply,
    if_pos (by simp only [irqFirst, irqLast]; omega), Nat.add_sub_cancel_left]
  exact gate_idtBuildEntry _ _ _ (.inl rfl)

theorem gate_syscall (symbols : Symbols) :
    (idtInit symbols 48).gate = some ⟨gdtKernelCodeSelector, symbols.syscallEntry, true, 3⟩ := by
  rw [idtInit, Function.update_self]
  exact gate_idtBuildEntry _ _ _ (.inr rfl)

/-! ## The stubs -/

def exceptionWithCode (symbols : Symbols) (number : Nat) : List Instr :=
  [.op .cli, .op (.push (.imm (BitVec.ofNat 32 number))), .jmp symbols.exceptionWrapper]

def exceptionWoutCode (symbols : Symbols) (number : Nat) : List Instr :=
  [.op .cli, .op (.push (.imm 0)), .op (.push (.imm (BitVec.ofNat 32 number))),
    .jmp symbols.exceptionWrapper]

def irqStub (symbols : Symbols) (number : Nat) : List Instr :=
  [.op .cli, .op (.push (.imm 0)), .op (.push (.imm (BitVec.ofNat 32 number))),
    .jmp symbols.irqWrapper]

/-- The numbers with which `idt_asm.s` uses `exception_with_code`. -/
def withCode : List Nat := [8, 10, 11, 12, 13, 14, 17]

def exceptionStub (symbols : Symbols) (number : Nat) : List Instr :=
  if number ∈ withCode then exceptionWithCode symbols number
  else exceptionWoutCode symbols number

/-! ## The wrappers -/

def isrSaved : List Source :=
  [.reg .eax, .reg .ebx, .reg .ecx, .reg .edx, .reg .esi, .reg .edi, .reg .ebp, .seg .ds, .seg .es,
    .seg .fs, .seg .gs]

def isrRestored : List Target :=
  [.seg .gs, .seg .fs, .seg .es, .seg .ds, .reg .ebp, .reg .edi, .reg .esi, .reg .edx, .reg .ecx,
    .reg .ebx, .reg .eax]

def loadKernelSegments : List Op :=
  [.movLow .eax gdtKernelDataSelector, .movSeg .ds .eax, .movSeg .es .eax, .movSeg .fs .eax,
    .movSeg .gs .eax]

def isrBeforeCall : List Op :=
  isrSaved.map .push ++ loadKernelSegments ++ [.mov .eax .esp, .push (.reg .eax)]

def isrAfterCall : List Op :=
  [.pop (.reg .eax)] ++ isrRestored.map .pop ++ [.add .esp 8]

def isrWrapper (handler : BitVec 32) : List Instr :=
  isrBeforeCall.map .op ++ [.call handler] ++ isrAfterCall.map .op ++ [.iret]

/-- The code and the table are where the linker and `idt_init` put them. -/
structure Installed (p : Platform) (symbols : Symbols) : Prop where
  gate : ∀ vector, p.gate vector = (idtInit symbols vector.toNat).gate
  exception : ∀ number ≤ lastException,
    Loaded p (symbols.exception number) (exceptionStub symbols number)
  irq : ∀ number ≤ irqLast, Loaded p (symbols.irq number) (irqStub symbols number)
  exceptionWrapper : Loaded p symbols.exceptionWrapper (isrWrapper symbols.exceptionHandler)
  irqWrapper : Loaded p symbols.irqWrapper (isrWrapper symbols.irqHandler)

def placedSymbols : Symbols where
  exception := slot
  irq number := slot (32 + number)
  syscallEntry := slot 48
  exceptionWrapper := slot 49
  irqWrapper := slot 50
  exceptionHandler := slot 51
  irqHandler := slot 52

end Yoctos.Interrupt
