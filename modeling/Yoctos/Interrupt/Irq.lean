import Yoctos.Interrupt.Frame
import Yoctos.Ia32.Pic
import Yoctos.Foundation.Transition

/-! # Hardware interrupts (`interrupt/irq.c`, `drivers/pic.c`, `irq_handler` of `idt.c`)

The functions of the drivers that the handlers call are not in the repository,
so they are a type of names here.
-/

namespace Yoctos.Interrupt

open Yoctos.Ia32 Yoctos.Memory

/-! ## The table of handlers -/

structure IrqHandler (Func : Type u) where
  func : Option Func
  name : Fin 64 → BitVec 8

section

variable {Func : Type u}

def irqInit : Fin 16 → IrqHandler Func := fun _ => ⟨none, fun _ => 0⟩

def irqInstallHandler (handlers : Fin 16 → IrqHandler Func) (irq : Fin 16)
    (handler : IrqHandler Func) : Fin 16 → IrqHandler Func :=
  Function.update handlers irq handler

/-- `irq_get_handler`. The pointer is into the table and never `NULL`. -/
def irqGetHandler (handlers : Fin 16 → IrqHandler Func) (irq : Fin 16) : IrqHandler Func :=
  handlers irq

end

/-! ## The controllers' driver -/

def pic1Cmd : BitVec 16 := 0x20
def pic1Data : BitVec 16 := 0x21
def pic2Cmd : BitVec 16 := 0xa0
def pic2Data : BitVec 16 := 0xa1
def picEoiCommand : BitVec 8 := 0x20

def picInit : List (BitVec 16 × BitVec 8) :=
  [(pic1Cmd, 0x11), (pic2Cmd, 0x11), (pic1Data, 32), (pic2Data, 40), (pic1Data, 0x04),
    (pic2Data, 0x02), (pic1Data, 0x01), (pic2Data, 0x01)]

def picEoi (irq : Fin 16) : List (BitVec 16 × BitVec 8) :=
  (if irq.val > 7 then [(pic2Cmd, picEoiCommand)] else []) ++ [(pic1Cmd, picEoiCommand)]

theorem picEoi_value {irq : Fin 16} {write : BitVec 16 × BitVec 8} (member : write ∈ picEoi irq) :
    write.2 = picEoiCommand := by
  unfold picEoi at member
  split at member
  next =>
      rcases List.mem_cons.mp member with rfl | member
      · rfl
      · rw [List.mem_singleton.mp member]
  next => rw [List.mem_singleton.mp member]

/-! ## Kernel code -/

/-- The steps of kernel code that matter to interrupts. `call` is what
`irq_handler` does after `pic_eoi`. -/
inductive Action (Func : Type u)
  | outb (port : BitVec 16) (value : BitVec 8)
  | irqInit
  | install (irq : Fin 16) (handler : IrqHandler Func)
  | call (irq : Fin 16)
  | sti
  | iret

section

variable {Func : Type u}

def irqHandler (irq : Fin 16) : List (Action Func) :=
  (picEoi irq).map (fun write => .outb write.1 write.2) ++ [.call irq, .iret]

/-- `kernel_main` from `pic_init` to `sti`. The drivers install their handlers
after `idt_init`. -/
def kernelMain (installs : List (Fin 16 × IrqHandler Func)) : List (Action Func) :=
  picInit.map (fun write => .outb write.1 write.2) ++
    (.irqInit :: (installs.map (fun install => .install install.1 install.2) ++ [.sti]))

def installed (installs : List (Fin 16 × IrqHandler Func)) : Fin 16 → IrqHandler Func :=
  installs.foldl (fun handlers install => irqInstallHandler handlers install.1 install.2) irqInit

def route (vector : BitVec 8) : Option Event :=
  if exception : vector.toNat ≤ lastException then
    some (.exception ⟨vector.toNat, Nat.lt_succ_of_le exception⟩ 0)
  else if irq : irqRemapOffset ≤ vector.toNat ∧ vector.toNat - irqRemapOffset ≤ irqLast then
    some (.irq ⟨vector.toNat - irqRemapOffset, Nat.lt_succ_of_le irq.2⟩)
  else none

private theorem route_vector {vector : BitVec 8} {event : Event}
    (routed : route vector = some event) :
    event.vector = vector := by
  unfold route at routed
  split at routed
  next exception =>
      cases routed
      exact (BitVec.ofNat_toNat 8 vector).trans (BitVec.setWidth_eq vector)
  next =>
      split at routed
      next irq =>
          cases routed
          rw [Event.vector, Nat.add_sub_cancel' irq.1]
          exact (BitVec.ofNat_toNat 8 vector).trans (BitVec.setWidth_eq vector)
      next => cases routed

theorem route_irq (irq : Fin 16) :
    route (BitVec.ofNat 8 (irqRemapOffset + irq)) = some (.irq irq) := by
  have offset : irqRemapOffset = 32 := rfl
  have value : (BitVec.ofNat 8 (irqRemapOffset + irq)).toNat = irqRemapOffset + irq := by
    rw [BitVec.toNat_ofNat, Nat.mod_eq_of_lt (by omega)]
  have notException : ¬ irqRemapOffset + irq.val ≤ lastException := by
    rw [offset, lastException]
    omega
  have isIrq : irqRemapOffset ≤ irqRemapOffset + irq.val ∧
      irqRemapOffset + irq.val - irqRemapOffset ≤ irqLast := by
    rw [irqLast]
    omega
  simp only [route, value, dif_neg notException, dif_pos isIrq]
  simp

theorem route_gate {p : Platform} {symbols : Symbols} (installed : Installed p symbols)
    {vector : BitVec 8} {event : Event} (routed : route vector = some event) :
    p.gate vector = some ⟨gdtKernelCodeSelector, event.stub symbols, false, 0⟩ := by
  rw [← route_vector routed]
  exact gate_event installed event

end

end Yoctos.Interrupt
