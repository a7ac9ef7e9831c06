import Yoctos.Common.Stdio
import Yoctos.Memory.Paging
import Yoctos.Memory.SegmentDescriptor
import Mathlib.Data.List.FinRange

/-! # The state of the kernel (`task/task.h`, `task/tss.h`, `task/task.c`)

The tables of the kernel are kept as records, at the addresses the linker gave
them. A `Machine` is what `tasks_init` finds: those addresses, the boot
modules, and what the linked object files have set up.
-/

namespace Yoctos.Tasks

open Yoctos.Common Yoctos.Memory

def maxTaskCount : Nat := 8
def maxArgs : Nat := 5
def maxArgsLength : Nat := 50
def taskVirtAddr : BitVec 32 := 0x40000000
def taskStackSizeMb : Nat := 2

abbrev Slot := Fin 8

def allSlots : List Slot := List.finRange 8

theorem mem_allSlots (slot : Slot) : slot ∈ allSlots := List.mem_finRange slot

/-! ## Records -/

structure Registers where
  eip : BitVec 32
  eflags : BitVec 32
  eax : BitVec 32
  ecx : BitVec 32
  edx : BitVec 32
  ebx : BitVec 32
  esp : BitVec 32
  ebp : BitVec 32
  esi : BitVec 32
  edi : BitVec 32
  es : BitVec 16
  cs : BitVec 16
  ss : BitVec 16
  ds : BitVec 16
  fs : BitVec 16
  gs : BitVec 16
  deriving DecidableEq

def Registers.zero : Registers := ⟨0, 0, 0, 0, 0, 0, 0, 0, 0, 0, 0, 0, 0, 0, 0, 0⟩

def eflagsNt : BitVec 32 := 1 <<< 14

structure Tss where
  previousTaskLink : BitVec 16
  esp0 : BitVec 32
  ss0 : BitVec 16
  cr3 : BitVec 32
  registers : Registers
  deriving DecidableEq

def Tss.zero : Tss := ⟨0, 0, 0, 0, .zero⟩

/-- `task_t`, without the contents of its kernel stack. -/
structure Task where
  pagedir : PageDirectory
  tss : Tss
  pageTables : BitVec 10 → BitVec 32
  inUse : Bool
  id : BitVec 32
  tssSelector : BitVec 16
  virtAddr : BitVec 32
  addrSpaceSize : BitVec 32

def Task.zero : Task := ⟨fun _ => .null, .zero, fun _ => 0, false, 0, 0, 0, 0⟩

def sizeofTask : Nat := 0x15000
def offsetofTss : BitVec 32 := 0x1000
def offsetofId : BitVec 32 := 0x406c
def offsetofKernelStack : BitVec 32 := 0x4072
def offsetofVirtAddr : BitVec 32 := 0x14074
def sizeofKernelStack : BitVec 32 := 65536

structure TermColors where
  fg : BitVec 16
  bg : BitVec 16
  deriving DecidableEq

structure Print where
  fmt : String
  args : List Stdio.Arg

structure Cpu where
  tr : BitVec 16
  cr3 : BitVec 32
  registers : Registers

structure Kernel where
  tasks : Slot → Task
  taskId : BitVec 32
  initialTss : Tss
  /-- The entries from `gdt[0]` on, those past the end of the array included. -/
  gdt : Nat → GdtEntry
  ram : Ram
  colors : TermColors
  console : List Print
  cpu : Cpu

/-! ## Addresses -/

structure Layout where
  kernelStart : Nat
  kernelEnd : Nat
  gdt : BitVec 32
  idt : BitVec 32
  tasks : BitVec 32
  initialTss : BitVec 32
  initialTssKernelStack : BitVec 32
  kernelPagedir : BitVec 32
  /-- The instruction of `exception_handler` that stores through `eip`. -/
  exceptionStore : BitVec 32

def Layout.objects (layout : Layout) : List (BitVec 32 × Nat) :=
  [(layout.gdt, (kernelTssIndex + 1 + maxTaskCount) * 8), (layout.idt, 256 * 8),
    (layout.tasks, maxTaskCount * sizeofTask), (layout.initialTss, sizeofTss),
    (layout.initialTssKernelStack, 65536), (layout.kernelPagedir, 4096)]

/-- The objects are parts of the kernel image that do not overlap. -/
structure Layout.WellFormed (layout : Layout) : Prop where
  image : ∀ object ∈ layout.objects,
    layout.kernelStart ≤ object.1.toNat ∧ object.1.toNat + object.2 ≤ layout.kernelEnd
  disjoint : layout.objects.Pairwise fun left right =>
    left.1.toNat + left.2 ≤ right.1.toNat ∨ right.1.toNat + right.2 ≤ left.1.toNat
  image_fits : layout.kernelEnd ≤ 2 ^ 32
  store_in_image : layout.kernelStart ≤ layout.exceptionStore.toNat ∧
    layout.exceptionStore.toNat < layout.kernelEnd

namespace Layout

variable (layout : Layout)

def task (slot : Slot) : BitVec 32 := layout.tasks + BitVec.ofNat 32 (slot * sizeofTask)

def taskTss (slot : Slot) : BitVec 32 := layout.task slot + offsetofTss

def slotAt (address : BitVec 32) : Option Slot :=
  allSlots.find? fun slot => layout.task slot == address

def slotOfTss (address : BitVec 32) : Option Slot :=
  allSlots.find? fun slot => layout.taskTss slot == address

end Layout

/-! ## The machine -/

structure Module where
  cmdline : Option CString
  firstAddress : BitVec 32
  size : BitVec 32

/-- One call of `paging_mmap` with read-write access. -/
structure Mmap where
  virtAddr : BitVec 32
  physAddr : BitVec 32
  size : BitVec 32
  privilege : Privilege

/-- The addresses a call of `paging_mmap` maps. Its loop steps a 32-bit address,
and goes on from 0 at the end of the address space. -/
def Mmap.covers (call : Mmap) (address : BitVec 32) : Bool :=
  decide ((address - call.virtAddr).toNat < (pageCount call.size).toNat * 4096)

theorem Mmap.covers_iff (call : Mmap) (address : BitVec 32) : call.covers address = true ↔
    (address - call.virtAddr).toNat < (pageCount call.size).toNat * 4096 := decide_eq_true_iff

theorem Mmap.covers_iff_of_fits {call : Mmap}
    (fits : call.virtAddr.toNat + (pageCount call.size).toNat * 4096 ≤ 2 ^ 32)
    (address : BitVec 32) : call.covers address = true ↔
      call.virtAddr.toNat ≤ address.toNat ∧
        address.toNat < call.virtAddr.toNat + (pageCount call.size).toNat * 4096 := by
  have bound := address.isLt
  have start := call.virtAddr.isLt
  rw [covers_iff, BitVec.toNat_sub]
  omega

/-- What `paging_mmap` documents of a sequence of calls, latest first. -/
def mappedBy (calls : List Mmap) (address : BitVec 32) : Option Translation :=
  (calls.find? (·.covers address)).map fun call =>
    { physical := address - call.virtAddr + call.physAddr
      user := call.privilege == .user
      rw := true }

/-- What is fixed before `tasks_init` runs. `ram` is physical memory with the
page tables that `paging_init` and `paging_mmap` have filled. -/
structure Setup where
  layout : Layout
  modules : List Module
  modulesLastAddress : Nat
  ramInKb : BitVec 32
  fbAddr : BitVec 32
  fbSize : BitVec 32
  source : FrameSource
  ram : Ram
  kernelPagedir : PageDirectory
  pagedirTempl : PageDirectory
  gdt : Nat → GdtEntry
  colors : TermColors
  registers : Registers
  /-- What the stack held where `task_load` puts `tmp_argv`. -/
  stack : Nat → UInt8

namespace Setup

variable (setup : Setup)

/-- The `size` argument of the first `paging_mmap` in `tasks_init`. -/
def ramSize : BitVec 32 := setup.ramInKb * 1024

def mmaps (fbPrivilege : Privilege) : List Mmap :=
  [⟨setup.fbAddr, setup.fbAddr, setup.fbSize, fbPrivilege⟩, ⟨0, 0, setup.ramSize, .kernel⟩]

/-- Those of `tasks_init` let tasks draw, those of `paging_init` only the kernel. -/
def templateMmaps : List Mmap := setup.mmaps .user
def kernelMmaps : List Mmap := setup.mmaps .kernel

/-- What the linked object files document of the state they leave. -/
structure WellFormed : Prop where
  layout : setup.layout.WellFormed
  kernel_below : setup.layout.kernelEnd ≤ setup.modulesLastAddress
  modules_below : ∀ module ∈ setup.modules,
    module.firstAddress.toNat + module.size.toNat ≤ setup.modulesLastAddress
  last_in_ram : setup.modulesLastAddress ≤ setup.ramSize.toNat
  fb_beyond : setup.ramSize.toNat ≤ setup.fbAddr.toNat
  fb_aligned : setup.fbAddr.toNat % 4096 = 0
  fb_fits : setup.fbAddr.toNat + (pageCount setup.fbSize).toNat * 4096 ≤ 2 ^ 32
  /-- `frame_init` hands out only frames of the RAM above the modules. -/
  frames_below : ∀ frame : Frame, frame.toNat * 4096 < setup.modulesLastAddress →
    setup.ram.frames frame = true
  frames_beyond : ∀ frame : Frame, setup.ramSize.toNat ≤ frame.toNat * 4096 →
    setup.ram.frames frame = true
  /-- The page tables of both directories are in allocated frames. -/
  templ_tables : ∀ index, (setup.pagedirTempl index).present = true →
    setup.ram.frames (setup.pagedirTempl index).pagetableFrameNumber = true
  kernel_tables : ∀ index, (setup.kernelPagedir index).present = true →
    setup.ram.frames (setup.kernelPagedir index).pagetableFrameNumber = true
  templ_maps : ∀ address, translate setup.ram.tables setup.pagedirTempl address =
    mappedBy setup.templateMmaps address
  kernel_maps : ∀ address, translate setup.ram.tables setup.kernelPagedir address =
    mappedBy setup.kernelMmaps address

end Setup

/-- A machine on which the start-up code has done what its headers say. -/
structure Machine extends Setup where
  wellFormed : toSetup.WellFormed

/-- The page directory at an address, as `cr3` names it. -/
def Kernel.pagedirAt (machine : Machine) (kernel : Kernel) (address : BitVec 32) :
    Option PageDirectory :=
  match machine.layout.slotAt address with
  | some slot => some (kernel.tasks slot).pagedir
  | none => if address = machine.layout.kernelPagedir then some machine.kernelPagedir else none

def Kernel.translate (machine : Machine) (kernel : Kernel) (address : BitVec 32) :
    Option Translation :=
  (kernel.pagedirAt machine kernel.cpu.cr3).bind fun pagedir =>
    Memory.translate kernel.ram.tables pagedir address

end Yoctos.Tasks
