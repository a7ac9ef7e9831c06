import Yoctos.Tasks.Lifecycle

/-! # Loading a program (`task/task.c`, `boot/module_by_name.c`) -/

namespace Yoctos.Tasks

open Yoctos.Common Yoctos.Memory Yoctos.Stores

/-- The `argc` and `argv` of a call: one string for every index below `argc`,
which is an `int`. -/
structure Arguments where
  argc : BitVec 32
  argv : List CString
  counted : argv.length = argc.toInt.toNat

/-! ## Boot modules -/

/-- The string `strcmp` reads through `NULL` when a module has no command line. -/
def stringAtNull (kernel : Kernel) : List UInt8 :=
  stringAt (fun address => kernel.ram.bytes (BitVec.ofNat 32 address)) 0 addressSpace

def modByName (atNull : List UInt8) (modules : List Module) (name : CString) : Option Module :=
  modules.find? fun module =>
    strcmp name.bytes ((module.cmdline.map CString.bytes).getD atNull) == 0

def moduleAddrByName (machine : Machine) (kernel : Kernel) (name : CString) : BitVec 32 :=
  match modByName (stringAtNull kernel) machine.modules name with
  | none => 0
  | some module => module.firstAddress

def moduleSizeByName (machine : Machine) (kernel : Kernel) (name : CString) : BitVec 32 :=
  match modByName (stringAtNull kernel) machine.modules name with
  | none => -1
  | some module => module.size

/-! ## Arguments -/

def argsSize (args : Arguments) : BitVec 32 :=
  args.argv.foldl (fun size s => size + (BitVec.ofNat 32 (strlen s) + 1)) 4

def rowStores (i : Nat) (s : CString) : List (Nat × UInt8) :=
  let len := strlen s + 1
  strncpy (i * maxArgsLength) s.bytes len ++ [(i * maxArgsLength + len, 0)]

def tmpArgvStores (i : Nat) : (argv : List CString) → List (Nat × UInt8)
  | [] => []
  | s :: rest => rowStores i s ++ tmpArgvStores (i + 1) rest

def sizeofTmpArgv : Nat := maxArgs * maxArgsLength

/-- The stores stay inside `tmp_argv`. C gives the others no meaning: what they
overwrite depends on the compiler. -/
def staysInTmpArgv (args : Arguments) : Bool :=
  (tmpArgvStores 0 args.argv).all fun store => decide (store.1 < sizeofTmpArgv)

/-! ## The copying window -/

/-- Where a byte to be copied comes from: memory, or a local of `task_load`. -/
inductive Source
  | memory (address : BitVec 32)
  | stack (value : UInt8)

structure Copy where
  dst : BitVec 32
  src : Source

def memcpyMemory (dst src : BitVec 32) (count : Nat) : List Copy :=
  (List.range count).map fun index =>
    ⟨dst + BitVec.ofNat 32 index, .memory (src + BitVec.ofNat 32 index)⟩

def memcpyStack (dst : BitVec 32) (values : List UInt8) : List Copy :=
  (memcpy dst values).map fun store => ⟨store.1, .stack store.2⟩

def memcpyArgs (tmpArgv : Nat → UInt8) (dst : BitVec 32) (i : Nat) : (count : Nat) →
    (offset : BitVec 32) → List Copy
  | 0, _ => []
  | count + 1, offset =>
      let argsLen := strlenAt tmpArgv (i * maxArgsLength) + 1
      let bytes := (List.range argsLen).map fun index => tmpArgv (i * maxArgsLength + index)
      memcpyStack (dst + offset) bytes ++
        memcpyArgs tmpArgv dst (i + 1) count (offset + BitVec.ofNat 32 argsLen)

def copies (tmpArgv : Nat → UInt8) (moduleAddr modSize : BitVec 32) (args : Arguments) :
    List Copy :=
  memcpyMemory taskVirtAddr moduleAddr modSize.toNat ++
    memcpyStack (taskVirtAddr + modSize) (littleEndian args.argc) ++
      memcpyArgs tmpArgv (taskVirtAddr + modSize + 4) 0 args.argv.length 0

/-- `task_load` between its two last `paging_load_pagedir`: the task, the saved
page directory, and what is still to be copied. -/
structure Window where
  slot : Slot
  pagedir : BitVec 32
  pending : List Copy

inductive LoadBegin
  | failed (kernel : Kernel)
  | copying (kernel : Kernel) (window : Window)

def Kernel.loadPagedir (kernel : Kernel) (pagedir : BitVec 32) : Kernel :=
  { kernel with cpu := { kernel.cpu with cr3 := pagedir } }

def taskLoadBegin (machine : Machine) (kernel : Kernel) (filename : CString) (args : Arguments) :
    Option LoadBegin :=
  if staysInTmpArgv args then
    let tmpArgv := writeAll machine.stack (tmpArgvStores 0 args.argv)
    let moduleAddr := moduleAddrByName machine kernel filename
    let modSize := moduleSizeByName machine kernel filename
    if moduleAddr = 0 then
      some (.failed { kernel with
        console := kernel.console ++ [⟨"Failed to load binary \"%s\".\n", [.str filename]⟩] })
    else if modSize = -1 then
      some (.failed { kernel with
        console := kernel.console ++ [⟨"Empty binary \"%s\".\n", [.str filename]⟩] })
    else
      match taskCreate machine kernel filename modSize (argsSize args) with
      | none => some (.failed kernel)
      | some (slot, created) =>
          some (.copying (created.loadPagedir (machine.layout.task slot))
            ⟨slot, created.cpu.cr3, copies tmpArgv moduleAddr modSize args⟩)
  else none

def pagetableFrames (pagedir : PageDirectory) : List Frame :=
  (List.range 1024).filterMap fun i =>
    let pde := pagedir (BitVec.ofNat 10 i)
    if pde.present then some pde.pagetableFrameNumber else none

/-- Whether the byte at a physical address belongs to a record of the model: to
the kernel image or to a page table. -/
def Kernel.holdsRecord (machine : Machine) (kernel : Kernel) (physical : BitVec 32) : Bool :=
  (decide (machine.layout.kernelStart ≤ physical.toNat) &&
    decide (physical.toNat < machine.layout.kernelEnd)) ||
  (pagetableFrames machine.kernelPagedir).contains (addrToFrameNb physical) ||
  (pagetableFrames machine.pagedirTempl).contains (addrToFrameNb physical) ||
  allSlots.any fun slot => (kernel.tasks slot).inUse &&
    (pagetableFrames (kernel.tasks slot).pagedir).contains (addrToFrameNb physical)

def Kernel.storeByte (machine : Machine) (kernel : Kernel) (physical : BitVec 32) (value : UInt8) :
    Option Kernel :=
  if kernel.holdsRecord machine physical then none
  else some { kernel with
    ram := { kernel.ram with bytes := Function.update kernel.ram.bytes physical value } }

def Kernel.read (machine : Machine) (kernel : Kernel) : Source → Option UInt8
  | .stack value => some value
  | .memory address =>
      (kernel.translate machine address).map fun found => kernel.ram.bytes found.physical

/-- Copy one byte. The kernel stores whatever the privilege of the page. -/
def copyByte (machine : Machine) (kernel : Kernel) (copy : Copy) : Option Kernel := do
  let value ← kernel.read machine copy.src
  let found ← kernel.translate machine copy.dst
  kernel.storeByte machine found.physical value

def taskLoad (machine : Machine) (kernel : Kernel) (filename : CString) (args : Arguments) :
    Option (Option Slot × Kernel) := do
  match ← taskLoadBegin machine kernel filename args with
  | .failed kernel => some (none, kernel)
  | .copying kernel window =>
      let copied ← window.pending.foldlM (copyByte machine) kernel
      some (some window.slot, copied.loadPagedir window.pagedir)

end Yoctos.Tasks
