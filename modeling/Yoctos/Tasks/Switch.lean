import Yoctos.Tasks.Load

/-! # Hardware task switches (`task/task_asm.s`)

What IA-32 does for a far call to a TSS selector and for `iret` with the NT
flag set.
-/

namespace Yoctos.Tasks

open Yoctos.Common Yoctos.Memory

inductive TssRef
  | initial
  | task (slot : Slot)
  deriving DecidableEq

def Layout.tssAt (layout : Layout) (address : BitVec 32) : Option TssRef :=
  if address = layout.initialTss then some .initial else (layout.slotOfTss address).map .task

namespace Kernel

def getTss (kernel : Kernel) : TssRef → Tss
  | .initial => kernel.initialTss
  | .task slot => (kernel.tasks slot).tss

def setTss (kernel : Kernel) (ref : TssRef) (tss : Tss) : Kernel :=
  match ref with
  | .initial => { kernel with initialTss := tss }
  | .task slot =>
      { kernel with
        tasks := Function.update kernel.tasks slot { kernel.tasks slot with tss := tss } }

def tssOf (machine : Machine) (kernel : Kernel) (type : BitVec 4) (selector : BitVec 16) :
    Option TssRef :=
  let descriptor := (kernel.gdt (selectorIndex selector)).descriptor
  if selectorIndex selector < kernelTssIndex + 1 + maxTaskCount ∧ descriptor.present = 1 ∧
      descriptor.s = 0 ∧ descriptor.type = type then
    machine.layout.tssAt descriptor.base
  else none

def updateGdt (kernel : Kernel) (selector : BitVec 16) (change : GdtEntry → GdtEntry) : Kernel :=
  { kernel with
    gdt := Function.update kernel.gdt (selectorIndex selector)
      (change (kernel.gdt (selectorIndex selector))) }

/-- Types of an available and of a busy TSS. -/
def availableTss : BitVec 4 := 9
def busyTss : BitVec 4 := 11

/-- `call far` to a TSS selector (`task_switch`): the outgoing registers are
saved, but not CR3; the incoming task is linked back and becomes busy. -/
def farCall (machine : Machine) (kernel : Kernel) (selector : BitVec 16) : Option Kernel := do
  let outgoing ← kernel.tssOf machine busyTss kernel.cpu.tr
  let incoming ← kernel.tssOf machine availableTss selector
  let saved := kernel.setTss outgoing
    { kernel.getTss outgoing with registers := kernel.cpu.registers }
  let linked := saved.setTss incoming
    { saved.getTss incoming with previousTaskLink := kernel.cpu.tr }
  let tss := linked.getTss incoming
  some { linked.updateGdt selector setBusy with
    cpu :=
      { tr := selector
        cr3 := tss.cr3
        registers := { tss.registers with eflags := tss.registers.eflags ||| eflagsNt } } }

/-- `iret` with NT set: the current task becomes available and the CPU returns
along its link. -/
def iret (machine : Machine) (kernel : Kernel) : Option Kernel := do
  let outgoing ← kernel.tssOf machine busyTss kernel.cpu.tr
  let link := (kernel.getTss outgoing).previousTaskLink
  let incoming ← kernel.tssOf machine busyTss link
  if kernel.cpu.registers.eflags &&& eflagsNt = 0 then none
  else
    let saved := kernel.setTss outgoing
      { kernel.getTss outgoing with
        registers :=
          { kernel.cpu.registers with eflags := kernel.cpu.registers.eflags &&& ~~~eflagsNt } }
    let tss := saved.getTss incoming
    some { saved.updateGdt kernel.cpu.tr clearBusy with
      cpu := { tr := link, cr3 := tss.cr3, registers := tss.registers } }

end Kernel

end Yoctos.Tasks
