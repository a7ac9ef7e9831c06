import Yoctos.Tasks.Mapping
import Yoctos.Tasks.Reference

/-! # CPU exceptions (`interrupt/idt.c`)

The handler takes the task register for the interrupted code. It overwrites the
instruction at the saved `eip` with `iret`, in kernel mode and whatever the
saved `cs` is.
-/

namespace Yoctos.Interrupt

open Yoctos.Common Yoctos.Memory Yoctos.Tasks Yoctos.Transition

def exceptionNames : List String :=
  ["Divide Error", "Reserved", "NMI Interrupt", "Breakpoint", "Overflow", "Bound Range Exceeded",
    "Invalid Opcode", "Device Not Available (No Math Coprocessor)", "Double Fault",
    "Coprocessor Segment Overrun", "Invalid TSS", "Segment Not Present", "Stack Segment Fault",
    "General Protection Fault", "Page Fault", "Intel Reserved1", "x87 FPU Error",
    "Alignment Check", "Machine Check", "SIMD Exception", "Virtualization Exception"]

private theorem exceptionNames_nonzero :
    ∀ name ∈ exceptionNames, ∀ byte ∈ name.toList.map ch, byte ≠ 0 := by
  decide +kernel

def exceptionName (number : Fin 21) : CString :=
  ⟨(exceptionNames.get number).toList.map ch,
    exceptionNames_nonzero _ (List.get_mem exceptionNames number)⟩

structure Regs where
  number : Fin 21
  errorCode : BitVec 32
  eip : BitVec 32
  cs : BitVec 16

def yellow : BitVec 16 := 0xffe0
def red : BitVec 16 := 0xf800

/-- Whether `task->id` was read through `NULL`, which branch the handler took,
whether its store faulted, the byte set to `0xCF`, and what is left on the
screen. -/
structure Handled where
  nullRead : Bool
  panic : Bool
  nested : Bool
  written : Option (BitVec 32)
  colors : TermColors
  console : List Print

section

variable (machine : Machine) (kernel : Kernel)

def wordAt (address : BitVec 32) : BitVec 32 :=
  ofLittleEndian (kernel.ram.bytes address) (kernel.ram.bytes (address + 1))
    (kernel.ram.bytes (address + 2)) (kernel.ram.bytes (address + 3))

/-- `task->id`. With `task` equal to `NULL` this is the word at the offset of
the field, which the identity mapping finds in low memory. -/
def taskId : Option Slot → BitVec 32
  | some slot => (kernel.tasks slot).id
  | none => wordAt kernel offsetofId

def isTaskId (id : BitVec 32) : Bool := decide (id.toNat < maxTaskCount)

/-- `exception_handler`, up to the end of the store. The exception that a store
to an unmapped `eip` raises finds the same task. Its `eip` is that of the store
itself, in the identity mapped image of the kernel. -/
def exceptionHandler (regs : Regs) : Handled :=
  let task := getTaskBySelector kernel.cpu.tr
  let id := taskId kernel task
  if isTaskId id then
    match kernel.translate machine regs.eip with
    | some found =>
        { nullRead := task.isNone
          panic := false
          nested := false
          written := some found.physical
          colors := kernel.colors
          console := kernel.console ++ [⟨"Task %d terminated\n", [.int id]⟩] }
    | none =>
        { nullRead := task.isNone
          panic := false
          nested := true
          written := some machine.layout.exceptionStore
          colors := kernel.colors
          console := kernel.console ++ [⟨"Task %d terminated\n", [.int id]⟩] }
  else
    { nullRead := task.isNone
      panic := true
      nested := false
      written := none
      colors := ⟨yellow, red⟩
      console := kernel.console ++
        [⟨"Exception %d triggered by kernel code: %s (error code 0x%x)!\n",
            [.int (BitVec.ofNat 32 regs.number), .str (exceptionName regs.number),
              .int regs.errorCode]⟩,
          ⟨"Kernel PANIC.\n", []⟩] }

end

/-! ## What the handler modifies -/

private theorem getTaskBySelector_tr {machine : Machine} {system : System}
    (descriptors : Descriptors machine system) :
    getTaskBySelector system.kernel.cpu.tr =
      match system.stack with
      | [] => none
      | activation :: _ => some activation.slot := by
  rw [descriptors.tr]
  cases stacked : system.stack with
  | nil =>
      apply getTaskBySelector_eq_none
      intro slot equal
      cases TssRef.selector_injective equal
  | cons activation rest => exact (getTaskBySelector_eq_some_iff _ _).mpr rfl

/-- A byte is written only in a user page of the task the task register names,
and never for kernel code, for which the kernel stops. -/
structure ModifiesOnlyTask (kernel : Kernel) (regs : Regs) (handled : Handled) : Prop where
  own : ∀ physical, handled.written = some physical → ∃ slot found,
    getTaskBySelector kernel.cpu.tr = some slot ∧ (kernel.tasks slot).inUse = true ∧
    Memory.translate kernel.ram.tables (kernel.tasks slot).pagedir regs.eip = some found ∧
    found.user = true ∧ found.physical = physical
  panics : regs.cs = gdtKernelCodeSelector → handled.panic = true ∧ handled.written = none

/-- When an exception is one the handler gets right: a task is named, the saved
code segment is not the kernel's and `eip` is in a user page of that task; or
none is named and low memory holds no small number where the id of `NULL` is
read. -/
def RightlyBlamed (machine : Machine) (kernel : Kernel) (regs : Regs) : Prop :=
  match getTaskBySelector kernel.cpu.tr with
  | some slot => regs.cs ≠ gdtKernelCodeSelector ∧
      ∃ found own, kernel.translate machine regs.eip = some found ∧
        Memory.translate kernel.ram.tables (kernel.tasks slot).pagedir regs.eip = some own ∧
        own.user = true ∧ own.physical = found.physical
  | none => maxTaskCount ≤ (wordAt kernel offsetofId).toNat

section

variable {machine : Machine} {kernel : Kernel} {regs : Regs}

theorem exceptionHandler_terminates (machine : Machine) (regs : Regs)
    (small : (taskId kernel (getTaskBySelector kernel.cpu.tr)).toNat < maxTaskCount) :
    (exceptionHandler machine kernel regs).panic = false ∧
      (exceptionHandler machine kernel regs).written =
        some (((kernel.translate machine regs.eip).map Translation.physical).getD
          machine.layout.exceptionStore) := by
  have accepted : isTaskId (taskId kernel (getTaskBySelector kernel.cpu.tr)) = true :=
    decide_eq_true small
  rw [exceptionHandler, if_pos accepted]
  cases kernel.translate machine regs.eip with
  | none => exact ⟨rfl, rfl⟩
  | some found => exact ⟨rfl, rfl⟩

private theorem exceptionHandler_panics (machine : Machine) (regs : Regs)
    (large : maxTaskCount ≤ (taskId kernel (getTaskBySelector kernel.cpu.tr)).toNat) :
    (exceptionHandler machine kernel regs).panic = true ∧
      (exceptionHandler machine kernel regs).written = none := by
  have rejected : ¬ isTaskId (taskId kernel (getTaskBySelector kernel.cpu.tr)) = true := by
    simpa [isTaskId] using large
  rw [exceptionHandler, if_neg rejected]
  exact ⟨rfl, rfl⟩

private theorem ModifiesOnlyTask.user_code {handled : Handled}
    (modifies : ModifiesOnlyTask kernel regs handled) (terminates : handled.panic = false) :
    regs.cs ≠ gdtKernelCodeSelector := by
  intro kernelCode
  cases terminates.symm.trans (modifies.panics kernelCode).1

private theorem modifiesOnlyTask_iff_none (named : getTaskBySelector kernel.cpu.tr = none) :
    ModifiesOnlyTask kernel regs (exceptionHandler machine kernel regs) ↔
      RightlyBlamed machine kernel regs := by
  have id : taskId kernel (getTaskBySelector kernel.cpu.tr) = wordAt kernel offsetofId := by
    rw [named]
    rfl
  rw [RightlyBlamed, named]
  by_cases small : (wordAt kernel offsetofId).toNat < maxTaskCount
  · refine iff_of_false (fun modifies => ?_) (Nat.not_le.mpr small)
    have written := (exceptionHandler_terminates machine regs (by rw [id]; exact small)).2
    rcases modifies.own _ written with ⟨slot, _, task, _⟩
    cases named.symm.trans task
  · rcases exceptionHandler_panics machine regs (by rw [id]; exact Nat.not_lt.mp small) with
      ⟨panic, written⟩
    refine iff_of_true ⟨fun physical stored => ?_, fun _ => ⟨panic, written⟩⟩ (Nat.not_lt.mp small)
    cases written.symm.trans stored

private theorem modifiesOnlyTask_iff_some {slot : Slot}
    (named : getTaskBySelector kernel.cpu.tr = some slot)
    (used : (kernel.tasks slot).inUse = true)
    (small : (kernel.tasks slot).id.toNat < maxTaskCount)
    (foreign : ∀ found, Memory.translate kernel.ram.tables (kernel.tasks slot).pagedir regs.eip =
      some found → found.user = true → found.physical ≠ machine.layout.exceptionStore) :
    ModifiesOnlyTask kernel regs (exceptionHandler machine kernel regs) ↔
      RightlyBlamed machine kernel regs := by
  rcases exceptionHandler_terminates machine regs (by rw [named]; exact small) with
    ⟨panic, written⟩
  rw [RightlyBlamed, named]
  constructor
  · intro modifies
    refine ⟨modifies.user_code panic, ?_⟩
    rcases modifies.own _ written with ⟨other, own, task, _, translated, user, equal⟩
    have same : slot = other := Option.some.inj (named.symm.trans task)
    subst same
    cases active : kernel.translate machine regs.eip with
    | none =>
        -- The nested exception would have written into the kernel.
        rw [active] at equal
        exact absurd equal (foreign own translated user)
    | some found =>
        rw [active] at equal
        exact ⟨found, own, rfl, translated, user, equal⟩
  · rintro ⟨userCode, found, own, active, translated, user, equal⟩
    refine ⟨fun physical stored => ?_, fun kernelCode => absurd kernelCode userCode⟩
    rw [active] at written
    exact ⟨slot, own, named, used, translated, user,
      equal.trans (Option.some.inj (written.symm.trans stored))⟩

end

/-- While a task runs the task register names it, and its id passes the test. -/
theorem running_task {machine : Machine} {system : System}
    (reachable : Reachable machine system) {activation : Activation} {rest : List Activation}
    (stacked : system.stack = activation :: rest) :
    getTaskBySelector system.kernel.cpu.tr = some activation.slot ∧
      (system.kernel.tasks activation.slot).inUse = true ∧
      (system.kernel.tasks activation.slot).id.toNat < maxTaskCount := by
  have table := TaskTable.of_reachable reachable
  have named := getTaskBySelector_tr (Descriptors.of_reachable reachable)
  rw [stacked] at named
  have member : activation.slot ∈ system.created := System.mem_created_of_suffix (by rw [stacked])
  have below := (table.mem_created_iff activation.slot).mp member
  refine ⟨named, (table.inUse_iff _).mpr member, ?_⟩
  have bound := activation.slot.isLt
  rw [table.ids _ below, BitVec.toNat_ofNat, maxTaskCount]
  omega

private theorem user_page_ne_store {machine : Machine} {system : System}
    (reachable : Reachable machine system) {slot : Slot} (member : slot ∈ system.created)
    {address : BitVec 32} {found : Translation}
    (translated : Memory.translate system.kernel.ram.tables (system.kernel.tasks slot).pagedir
      address = some found) (user : found.user = true) :
    found.physical ≠ machine.layout.exceptionStore := by
  have ownership := Ownership.of_reachable reachable
  have inImage := machine.wellFormed.layout.store_in_image.2
  have image := machine.wellFormed.kernel_below
  have inRam := machine.wellFormed.last_in_ram
  intro same
  have position : (addrToFrameNb found.physical).toNat * 4096 ≤
      machine.layout.exceptionStore.toNat := by
    rw [same, addrToFrameNb_toNat]
    omega
  rcases ownership.user_translation member translated user with own | beyond
  · have reserved := machine.wellFormed.frames_below (addrToFrameNb found.physical) (by omega)
    exact (ownership.reserved _ reserved).2.1 slot member (List.mem_append_left _ own)
  · omega

/-- The handler modifies only the faulting task exactly when it blames it
rightly. -/
theorem modifiesOnlyTask_iff {machine : Machine} {system : System}
    (reachable : Reachable machine system) (regs : Regs) :
    ModifiesOnlyTask system.kernel regs (exceptionHandler machine system.kernel regs) ↔
      RightlyBlamed machine system.kernel regs := by
  cases stacked : system.stack with
  | nil =>
      have named := getTaskBySelector_tr (Descriptors.of_reachable reachable)
      rw [stacked] at named
      exact modifiesOnlyTask_iff_none named
  | cons activation rest =>
      rcases running_task reachable stacked with ⟨named, used, small⟩
      have member : activation.slot ∈ system.created :=
        System.mem_created_of_suffix (by rw [stacked])
      exact modifiesOnlyTask_iff_some named used small fun _ translated user =>
        user_page_ne_store reachable member translated user

/-! ## Exceptions while the shell runs -/

def pageFault (eip : BitVec 32) (cs : BitVec 16) : Regs := ⟨14, 0, eip, cs⟩

private theorem shellRunning_tr : shellRunning.kernel.cpu.tr = 48 := by decide +kernel

private theorem getTaskBySelector_shellRunning :
    getTaskBySelector shellRunning.kernel.cpu.tr = some 0 := by
  rw [shellRunning_tr]
  decide

theorem modifiesOnlyTask_shell :
    ModifiesOnlyTask shellRunning.kernel (pageFault taskVirtAddr gdtUserCodeSelector)
      (exceptionHandler shellMachine shellRunning.kernel
        (pageFault taskVirtAddr gdtUserCodeSelector)) := by
  have sameByte : (Memory.translate shellRunning.kernel.ram.tables
      (shellRunning.kernel.tasks 0).pagedir taskVirtAddr).map
        (fun own => (own.user, own.physical)) =
      (shellRunning.kernel.translate shellMachine taskVirtAddr).map
        fun found => (true, found.physical) := by decide +kernel
  refine (modifiesOnlyTask_iff shellRunning_reachable _).mpr ?_
  rw [RightlyBlamed, getTaskBySelector_shellRunning]
  have active : (shellRunning.kernel.translate shellMachine taskVirtAddr).isSome = true := by
    decide +kernel
  rcases Option.isSome_iff_exists.mp active with ⟨found, translated⟩
  rw [translated] at sameByte
  rcases Option.map_eq_some_iff.mp sameByte with ⟨own, ownTranslated, equal⟩
  exact ⟨by decide, found, own, translated, ownTranslated, congrArg Prod.fst equal,
    congrArg Prod.snd equal⟩

/-- A bad pointer of the shell makes kernel code fault, and that code is
overwritten. -/
theorem not_modifiesOnlyTask :
    ¬ ∀ (machine : Machine) (system : System) (regs : Regs), Reachable machine system →
      ModifiesOnlyTask system.kernel regs (exceptionHandler machine system.kernel regs) := by
  intro always
  have modifies := always shellMachine shellRunning (pageFault 0x100000 gdtKernelCodeSelector)
    shellRunning_reachable
  have terminates : (exceptionHandler shellMachine shellRunning.kernel
      (pageFault 0x100000 gdtKernelCodeSelector)).panic = false := by decide +kernel
  exact modifies.user_code terminates rfl

/-! ## Triage -/

/-- The kernel stops exactly when the task register names no task in use, and
nothing is read through `NULL`. -/
structure Triaged (kernel : Kernel) (handled : Handled) : Prop where
  panics : handled.panic = true ↔ ¬ ∃ slot, getTaskBySelector kernel.cpu.tr = some slot ∧
    (kernel.tasks slot).inUse = true
  read : handled.nullRead = false

private theorem exceptionHandler_nullRead (machine : Machine) (kernel : Kernel) (regs : Regs) :
    (exceptionHandler machine kernel regs).nullRead =
      (getTaskBySelector kernel.cpu.tr).isNone := by
  simp only [exceptionHandler]
  split
  · split <;> rfl
  · rfl

/-- Triage works exactly when the task register does not hold the selector of
the initial TSS. -/
theorem triaged_iff {machine : Machine} {system : System} (reachable : Reachable machine system)
    (regs : Regs) :
    Triaged system.kernel (exceptionHandler machine system.kernel regs) ↔
      system.kernel.cpu.tr ≠ (gdtEntryToSelector gdtInitialTss).setWidth 16 := by
  have descriptors := Descriptors.of_reachable reachable
  have register := descriptors.tr
  cases stacked : system.stack with
  | nil =>
      have named := getTaskBySelector_tr descriptors
      rw [stacked] at named register
      constructor
      · intro triaged
        have read := triaged.read
        rw [exceptionHandler_nullRead, named] at read
        cases read
      · exact fun other => absurd register other
  | cons activation rest =>
      rcases running_task reachable stacked with ⟨named, used, small⟩
      have terminates := (exceptionHandler_terminates machine regs (by rw [named]; exact small)).1
      rw [stacked] at register
      constructor
      · intro _ initial
        cases TssRef.selector_injective (register.symm.trans initial : _ = TssRef.initial.selector)
      · refine fun _ => ⟨⟨fun panic => ?_, fun none => ?_⟩, ?_⟩
        · cases terminates.symm.trans panic
        · exact absurd ⟨activation.slot, named, used⟩ none
        · rw [exceptionHandler_nullRead, named]
          rfl

theorem triaged_shell : Triaged shellRunning.kernel
    (exceptionHandler shellMachine shellRunning.kernel
      (pageFault taskVirtAddr gdtUserCodeSelector)) := by
  apply (triaged_iff shellRunning_reachable _).mpr
  rw [shellRunning_tr]
  decide

theorem not_triaged :
    ¬ ∀ (machine : Machine) (system : System) (regs : Regs), Reachable machine system →
      Triaged system.kernel (exceptionHandler machine system.kernel regs) := by
  intro always
  have triaged := always shellMachine (System.initial shellMachine)
    (pageFault 0x100000 gdtKernelCodeSelector) Reachable.refl
  have read : (exceptionHandler shellMachine (System.initial shellMachine).kernel
      (pageFault 0x100000 gdtKernelCodeSelector)).nullRead = true := by decide +kernel
  cases triaged.read.symm.trans read

end Yoctos.Interrupt
