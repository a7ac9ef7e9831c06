import Yoctos.Tasks.Kernel

/-! # Creating and freeing tasks (`task/task.c`, `mem/gdt.c`) -/

namespace Yoctos.Tasks

open Yoctos.Common Yoctos.Memory

/-! ## Start-up -/

def gdtInit (gdt : Nat → GdtEntry) : Nat → GdtEntry
  | 0 => gdtMakeNullSegment
  | 1 => gdtMakeCodeSegment 0 0xFFFFF dplKernel
  | 2 => gdtMakeDataSegment 0 0xFFFFF dplKernel
  | 3 => gdtMakeCodeSegment 0 0xFFFFF dplUser
  | 4 => gdtMakeDataSegment 0 0xFFFFF dplUser
  | entry => gdt entry

def gdtInitialTss : Nat := kernelTssIndex
def gdtFirstTaskEntry : Nat := kernelTssIndex + 1

/-- The busy bit of a TSS descriptor tells type 11 from type 9. -/
def setBusy (entry : GdtEntry) : GdtEntry := { entry with type := entry.type ||| 2 }
def clearBusy (entry : GdtEntry) : GdtEntry := { entry with type := entry.type &&& 13 }

def selectorIndex (selector : BitVec 16) : Nat := selector.toNat / 8

/-- `tasks_init`. The directories and page tables are those `paging_mmap` has
filled; `ltr` marks the initial TSS busy. -/
def tasksInit (machine : Machine) : Kernel where
  tasks := fun _ => .zero
  taskId := 1
  initialTss :=
    { Tss.zero with
      ss0 := gdtKernelDataSelector
      esp0 := machine.layout.initialTssKernelStack + 65536
      cr3 := machine.layout.kernelPagedir }
  gdt := Function.update (gdtInit machine.gdt) gdtInitialTss
    (setBusy (gdtMakeTss machine.layout.initialTss dplKernel))
  ram := machine.ram
  colors := machine.colors
  console := [⟨"Tasks initialized.\n", []⟩]
  cpu :=
    { tr := (gdtEntryToSelector gdtInitialTss).setWidth 16
      cr3 := machine.layout.kernelPagedir
      registers := machine.registers }

/-! ## `task_create` -/

/-- The search loop of `task_create`: the first free slot, and where
`gdt_task_tss` points by then. -/
def findFree (tasks : Slot → Task) : (slots : List Slot) → (gdtTaskTss : Nat) → Option (Slot × Nat)
  | [], _ => none
  | i :: rest, gdtTaskTss =>
      if (tasks i).inUse then findFree tasks rest (gdtTaskTss + 1) else some (i, gdtTaskTss)

def taskStackSize : BitVec 32 := BitVec.ofNat 32 (taskStackSizeMb * 1024 * 1024)

def initialRegisters (virtAddr totalMemSize : BitVec 32) : Registers :=
  { Registers.zero with
    cs := gdtUserCodeSelector
    ds := gdtUserDataSelector
    es := gdtUserDataSelector
    gs := gdtUserDataSelector
    ss := gdtUserDataSelector
    eflags := 1 <<< 9
    eip := virtAddr
    esp := virtAddr + totalMemSize
    ebp := virtAddr + totalMemSize }

def freshTask (machine : Machine) (slot : Slot) (gdtTaskTss : Nat)
    (addrSpaceSize argsSize : BitVec 32) : Task :=
  { Task.zero with
    inUse := true
    id := BitVec.ofNat 32 slot
    tssSelector := (gdtEntryToSelector gdtTaskTss).setWidth 16
    virtAddr := taskVirtAddr
    addrSpaceSize := addrSpaceSize + argsSize
    pagedir := machine.pagedirTempl
    tss :=
      { Tss.zero with
        registers := initialRegisters taskVirtAddr (taskStackSize + argsSize + addrSpaceSize)
        cr3 := machine.layout.task slot
        ss0 := gdtKernelDataSelector
        esp0 := machine.layout.task slot + offsetofKernelStack + sizeofKernelStack } }

def requestedSize (addrSpaceSize argsSize : BitVec 32) : BitVec 32 :=
  addrSpaceSize + argsSize + taskStackSize + argsSize

/-- `task_create`. `none` is `NULL`. -/
def taskCreate (machine : Machine) (kernel : Kernel) (name : CString)
    (addrSpaceSize argsSize : BitVec 32) : Option (Slot × Kernel) :=
  match findFree kernel.tasks allSlots gdtFirstTaskEntry with
  | none => none
  | some (slot, gdtTaskTss) =>
      let t := freshTask machine slot gdtTaskTss addrSpaceSize argsSize
      let alloc := pagingAlloc machine.source kernel.ram t.pagedir t.pageTables t.virtAddr
        (requestedSize addrSpaceSize argsSize) .user
      some (slot,
        { kernel with
          tasks := Function.update kernel.tasks slot
            { t with pagedir := alloc.pagedir, pageTables := alloc.pageTables }
          taskId := kernel.taskId + 1
          gdt := Function.update kernel.gdt gdtTaskTss
            (gdtMakeTss (machine.layout.taskTss slot) dplKernel)
          ram := alloc.ram
          console := kernel.console ++
            [⟨"Allocated %dKB of RAM for task %d (\"%s\")\n",
              [.int (alloc.count * 4096 / 1024), .int t.id, .str name]⟩] })

/-! ## Lookups -/

def findSelector (selector : BitVec 16) : (slots : List Slot) → (gdtTaskTss : Nat) → Option Slot
  | [], _ => none
  | i :: rest, gdtTaskTss =>
      if selector.setWidth 32 = gdtEntryToSelector gdtTaskTss then some i
      else findSelector selector rest (gdtTaskTss + 1)

def getTaskBySelector (selector : BitVec 16) : Option Slot :=
  findSelector selector allSlots gdtFirstTaskEntry

/-- `get_task_addr_by_id`: the address of a `virt_addr` field. `none` is `NULL`. -/
def getTaskAddrById (machine : Machine) (kernel : Kernel) (id : BitVec 32) : Option (BitVec 32) :=
  (allSlots.find? fun i =>
    (kernel.tasks i).inUse && (kernel.tasks i).id == id).map fun i =>
      machine.layout.task i + offsetofVirtAddr

/-! ## `task_free` -/

@[irreducible] def storedTables (pageTables : BitVec 10 → BitVec 32) : List (BitVec 32) :=
  ((List.range 1024).map fun pt => pageTables (BitVec.ofNat 10 pt)).takeWhile (· ≠ 0)

@[irreducible] def presentFrames (table : PageTable) : List Frame :=
  (List.range 1024).filterMap fun i =>
    let pte := table (BitVec.ofNat 10 i)
    if pte.present then some pte.frameNumber else none

/-- The variables of the release loop. `freed` lists the calls of `frame_free`. -/
structure Release where
  ram : Ram
  allocFrameCount : BitVec 32
  allocPtCount : BitVec 32
  freed : List Frame

def Release.free (release : Release) (frameNumber : Frame) : Release :=
  { release with
    ram := frameFree release.ram (frameNbToAddr frameNumber)
    freed := release.freed ++ [frameNumber] }

/-- One turn of the loop of `task_free`. Both `frame_free` calls take the
frame number of an entry of the table. -/
def Release.pageTable (release : Release) (pageTable : BitVec 32) : Release :=
  let table := release.ram.tables (addrToFrameNb pageTable)
  if (table 0).present then
    let pages := (presentFrames table).foldl Release.free release
    let cleared := Function.update table 0 { table 0 with present := false }
    { pages with
      allocFrameCount := pages.allocFrameCount + 1024
      allocPtCount := pages.allocPtCount + 1
      ram := { pages.ram with
        tables := Function.update pages.ram.tables (addrToFrameNb pageTable) cleared } }.free
          (table 0).frameNumber
  else release

def releaseTask (kernel : Kernel) (slot : Slot) : Release :=
  (storedTables (kernel.tasks slot).pageTables).foldl Release.pageTable ⟨kernel.ram, 0, 0, []⟩

def taskFree (kernel : Kernel) (slot : Slot) : Kernel :=
  let release := releaseTask kernel slot
  { kernel with
    ram := release.ram
    taskId := kernel.taskId - 1
    tasks := Function.update kernel.tasks slot { kernel.tasks slot with inUse := false }
    console := kernel.console ++
      [⟨"Freed %dKB of RAM (%d page table(s), %d frames)\n",
        [.int (release.allocFrameCount * 4096 / 1024), .int release.allocPtCount,
          .int release.allocFrameCount]⟩] }

end Yoctos.Tasks
