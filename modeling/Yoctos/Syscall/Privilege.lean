import Yoctos.Ia32.Privilege
import Yoctos.Interrupt.Idt
import Yoctos.Syscall.Traps
import Yoctos.Tasks.Context

/-! # The privilege of programs

Programs start at privilege level 3. The descriptors that the kernel has made by
then give them no way out of it but system calls, and exceptions and interrupts.
-/

namespace Yoctos.Syscall

open Yoctos.Common Yoctos.Memory Yoctos.Tasks Yoctos.Ia32 Yoctos.Transition

/-! ## The descriptors of the kernel -/

/-- The global table, as far as `gdt_ptr.limit` reaches. -/
def descriptorTable (kernel : Kernel) : DescriptorTable := fun index =>
  if index < kernelTssIndex + 1 + maxTaskCount then some (kernel.gdt index).descriptor else none

def namesUserData (selector : BitVec 16) : Prop :=
  selector.toNat / 4 = 0 ∨ selector.toNat / 4 = 8

def dataSegments (registers : Registers) : List (BitVec 16) :=
  [registers.ds, registers.es, registers.fs, registers.gs]

/-- The context of code at level 3 without I/O privilege. -/
structure Unprivileged (registers : Registers) : Prop where
  cs : registers.cs = gdtUserCodeSelector
  ss : registers.ss = gdtUserDataSelector
  data : ∀ selector ∈ dataSegments registers, namesUserData selector
  flags : registers.eflags &&& (iopl ||| virtual8086) = 0

private theorem Unprivileged.setNt {registers : Registers} (user : Unprivileged registers) :
    Unprivileged { registers with eflags := registers.eflags ||| eflagsNt } where
  cs := user.cs
  ss := user.ss
  data := user.data
  flags := by
    rw [BitVec.and_or_distrib_right, user.flags]
    decide

private theorem unprivileged_initialRegisters (virtAddr size : BitVec 32) :
    Unprivileged (initialRegisters virtAddr size) where
  cs := rfl
  ss := rfl
  data := by
    simp only [dataSegments, initialRegisters, Registers.zero, List.forall_mem_cons,
      List.not_mem_nil, false_implies, implies_true, and_true, namesUserData]
    decide
  flags := by
    change (1 <<< 9 : BitVec 32) &&& _ = 0
    decide

def kernelStackEnd (layout : Layout) : TssRef → BitVec 32
  | .initial => layout.initialTssKernelStack + 65536
  | .task slot => layout.task slot + offsetofKernelStack + sizeofKernelStack

def enteringSlots : Phase → List Slot
  | .copying window => [window.slot]
  | .loaded slot => [slot]
  | _ => []

/-- What the kernel has put into the GDT, and into the TSS of each task. -/
structure Segments (machine : Machine) (system : System) : Prop where
  entry : ∀ ref : TssRef, system.kernel.gdt ref.entry = gdtMakeNullSegment ∨
    IsDescriptorOf machine.layout ref (system.kernel.gdt ref.entry)
  stack : ∀ ref, system.Live ref → (system.kernel.getTss ref).ss0 = gdtKernelDataSelector ∧
    (system.kernel.getTss ref).esp0 = kernelStackEnd machine.layout ref
  entering : ∀ slot ∈ enteringSlots system.phase,
    Unprivileged (system.kernel.tasks slot).tss.registers

/-! ## Switches -/

private theorem farCall_stack {machine : Machine} {kernel next : Kernel} {selector : BitVec 16}
    (called : kernel.farCall machine selector = some next) (ref : TssRef) :
    (next.getTss ref).ss0 = (kernel.getTss ref).ss0 ∧
      (next.getTss ref).esp0 = (kernel.getTss ref).esp0 := by
  simp only [Kernel.farCall, Option.bind_eq_bind, Option.bind_eq_some_iff] at called
  rcases called with ⟨outgoing, _, incoming, _, equal⟩
  cases equal
  change (Kernel.getTss (Kernel.setTss _ _ _) ref).ss0 = _ ∧
    (Kernel.getTss (Kernel.setTss _ _ _) ref).esp0 = _
  simp only [Kernel.getTss_setTss]
  by_cases target : ref = incoming
  · subst target
    by_cases source : ref = outgoing <;> simp [source]
  · rw [if_neg target]
    by_cases source : ref = outgoing <;> simp [source]

private theorem iret_stack {machine : Machine} {kernel next : Kernel}
    (returned : kernel.iret machine = some next) (ref : TssRef) :
    (next.getTss ref).ss0 = (kernel.getTss ref).ss0 ∧
      (next.getTss ref).esp0 = (kernel.getTss ref).esp0 := by
  simp only [Kernel.iret, Option.bind_eq_bind, Option.bind_eq_some_iff] at returned
  rcases returned with ⟨outgoing, _, incoming, _, equal⟩
  split at equal
  next => cases equal
  next =>
    cases equal
    change (Kernel.getTss (Kernel.setTss _ _ _) ref).ss0 = _ ∧
      (Kernel.getTss (Kernel.setTss _ _ _) ref).esp0 = _
    simp only [Kernel.getTss_setTss]
    by_cases source : ref = outgoing <;> simp [source]

private theorem farCall_enters {machine : Machine} {kernel next : Kernel} {selector : BitVec 16}
    {outgoing incoming : TssRef} (called : kernel.farCall machine selector = some next)
    (leaves : kernel.tssOf machine Kernel.busyTss kernel.cpu.tr = some outgoing)
    (enters : kernel.tssOf machine Kernel.availableTss selector = some incoming)
    (different : incoming ≠ outgoing) :
    next.cpu.registers = { (kernel.getTss incoming).registers with
      eflags := (kernel.getTss incoming).registers.eflags ||| eflagsNt } := by
  simp only [Kernel.farCall, leaves, enters, Option.bind_eq_bind, Option.bind_some] at called
  cases called
  simp only [Kernel.getTss_setTss, if_true, if_neg different]

namespace Segments

variable {machine : Machine} {system next : System}

theorem initial (cleared : ∀ entry, kernelTssIndex < entry →
      entry < kernelTssIndex + 1 + maxTaskCount → machine.gdt entry = gdtMakeNullSegment) :
    Segments machine (System.initial machine) where
  entry ref := by
    cases ref with
    | initial => exact .inr ((IsDescriptorOf.gdtMakeTss machine.layout .initial).setBusy)
    | task slot =>
        have bound := (TssRef.task slot).entry_lt
        have above : kernelTssIndex < (TssRef.task slot).entry := by
          simp only [TssRef.entry, gdtFirstTaskEntry, kernelTssIndex]
          omega
        have beyond : ∀ entry, kernelTssIndex < entry → gdtInit machine.gdt entry =
            machine.gdt entry := by
          intro entry above
          have position : ∃ more, entry = more + 6 := by
            rw [kernelTssIndex] at above
            exact ⟨entry - 6, by omega⟩
          rcases position with ⟨more, rfl⟩
          rfl
        refine .inl ?_
        change Function.update _ _ _ (TssRef.task slot).entry = _
        rw [Function.update_of_ne (by simp only [gdtInitialTss]; omega), beyond _ above]
        exact cleared _ above bound
  stack ref live := by
    cases ref with
    | initial => exact ⟨rfl, rfl⟩
    | task slot => simp [System.Live, System.created, System.initial, Phase.created] at live
  entering slot member := by cases member

theorem of_unchanged (segments : Segments machine system)
    (created : next.created = system.created)
    (phase : ∀ slot ∈ enteringSlots next.phase, slot ∈ enteringSlots system.phase)
    (gdt : next.kernel.gdt = system.kernel.gdt)
    (tss : ∀ ref, next.kernel.getTss ref = system.kernel.getTss ref) : Segments machine next where
  entry ref := by
    rw [gdt]
    exact segments.entry ref
  stack ref live := by
    rw [tss]
    exact segments.stack ref (live.mono fun slot member => created ▸ member)
  entering slot member := by
    have same : (next.kernel.tasks slot).tss = (system.kernel.tasks slot).tss := tss (.task slot)
    rw [same]
    exact segments.entering slot (phase slot member)

theorem entry_of_update (segments : Segments machine system) {target : TssRef}
    {change : GdtEntry → GdtEntry}
    (described : IsDescriptorOf machine.layout target (system.kernel.gdt target.entry))
    (keeps : ∀ entry, IsDescriptorOf machine.layout target entry →
      IsDescriptorOf machine.layout target (change entry)) (ref : TssRef) :
    Function.update system.kernel.gdt (selectorIndex target.selector)
        (change (system.kernel.gdt (selectorIndex target.selector))) ref.entry =
          gdtMakeNullSegment ∨
      IsDescriptorOf machine.layout ref
        (Function.update system.kernel.gdt (selectorIndex target.selector)
          (change (system.kernel.gdt (selectorIndex target.selector))) ref.entry) := by
  rw [target.selectorIndex_selector]
  by_cases same : ref = target
  · subst same
    rw [Function.update_self]
    exact .inr (keeps _ described)
  · rw [Function.update_of_ne fun equal => same (TssRef.entry_injective equal)]
    exact segments.entry ref

theorem step {event : Event} (segments : Segments machine system) (table : TaskTable system)
    (descriptors : Descriptors machine system)
    (stepped : Tasks.step machine system event = some next) : Segments machine next := by
  cases step_cases stepped with
  | execFailed running begun =>
      rcases taskLoadBegin_failed begun with ⟨console, rfl⟩
      exact segments.of_unchanged rfl (fun _ member => member) rfl fun ref => by cases ref <;> rfl
  | @execLoading filename args kernel window running begun =>
      have begun := Begun.of_copying begun
      have new := table.slot_new begun
      have created := System.created_begun running kernel window
      refine ⟨fun ref => ?_, fun ref live => ?_, fun slot member => ?_⟩
      · rw [begun.gdt]
        change Function.update system.kernel.gdt (TssRef.task window.slot).entry _ ref.entry = _ ∨
          IsDescriptorOf _ ref (Function.update system.kernel.gdt (TssRef.task window.slot).entry _
            ref.entry)
        by_cases same : ref = .task window.slot
        · rw [same, Function.update_self]
          exact .inr (.gdtMakeTss machine.layout (.task window.slot))
        · rw [Function.update_of_ne fun equal => same (TssRef.entry_injective equal)]
          exact segments.entry ref
      · cases ref with
        | initial =>
            change kernel.initialTss.ss0 = _ ∧ kernel.initialTss.esp0 = _
            rw [begun.initialTss]
            exact segments.stack .initial trivial
        | task slot =>
            by_cases same : slot = window.slot
            · subst same
              change (kernel.tasks window.slot).tss.ss0 = _ ∧
                (kernel.tasks window.slot).tss.esp0 = _
              rw [begun.created]
              exact ⟨rfl, rfl⟩
            · change slot ∈ System.created _ at live
              rw [created] at live
              change (kernel.tasks slot).tss.ss0 = _ ∧ (kernel.tasks slot).tss.esp0 = _
              rw [begun.others slot same]
              exact segments.stack (.task slot) ((List.mem_cons.mp live).resolve_left same)
      · cases List.mem_singleton.mp member
        rw [begun.created, createdTask_registers]
        exact unprivileged_initialRegisters _ _
  | copy copying copied =>
      rcases copyByte_some copied with ⟨_, _, _, _, _, rfl⟩
      refine segments.of_unchanged ?_ (fun slot member => ?_) rfl fun ref => by cases ref <;> rfl
      · rw [System.created_of_copying copying]
        rfl
      · rw [copying]
        exact member
  | restore copying =>
      refine segments.of_unchanged ?_ (fun slot member => ?_) rfl fun ref => by cases ref <;> rfl
      · rw [System.created_of_copying copying]
        rfl
      · rw [copying]
        exact member
  | @taskSwitch slot registers kernel loaded switched =>
      have createdEq := System.created_of_loaded loaded
      have member : slot ∈ system.created := createdEq ▸ List.mem_cons_self ..
      rw [descriptors.selector slot member] at switched
      rcases Kernel.farCall_some switched with ⟨_, _, _, _, gdt, _, _, _, _⟩
      refine ⟨fun ref => ?_, fun ref live => ?_, nofun⟩
      · rw [gdt]
        exact segments.entry_of_update (descriptors.entry (.task slot) member)
          (fun _ => IsDescriptorOf.setBusy) ref
      · have kept := farCall_stack switched ref
        have before : system.Live ref := live.mono fun other there => createdEq ▸ there
        rcases segments.stack ref before with ⟨ss0, esp0⟩
        refine ⟨kept.1.trans ?_, kept.2.trans ?_⟩
        · cases ref <;> exact ss0
        · cases ref <;> exact esp0
  | @iret activation rest kernel running stacked switched =>
      have createdEq := System.created_of_running running
      rw [stacked] at createdEq
      rcases Kernel.iret_some switched with ⟨_, _, _, _, gdt, _, _, _, _⟩
      rw [descriptors.tr_of_stacked stacked] at gdt
      have member : activation.slot ∈ system.created := createdEq ▸ List.mem_cons_self ..
      refine ⟨fun ref => ?_, fun ref live => ?_, nofun⟩
      · rw [gdt]
        exact segments.entry_of_update (descriptors.entry (.task activation.slot) member)
          (fun _ => IsDescriptorOf.clearBusy) ref
      · have kept := iret_stack switched ref
        have before : system.Live ref := live.mono fun other there => createdEq ▸ there
        rw [kept.1, kept.2]
        exact segments.stack ref before
  | taskFree returned =>
      refine ⟨segments.entry, fun ref live => ?_, nofun⟩
      have before : system.Live ref := live.mono fun other there => by
        rw [System.created_of_returned returned]
        exact List.mem_cons_of_mem _ there
      have stack := segments.stack ref before
      cases ref with
      | initial => exact stack
      | task slot =>
          change ((taskFree _ _).tasks slot).tss.ss0 = _ ∧ ((taskFree _ _).tasks slot).tss.esp0 = _
          rw [taskFree_tasks]
          exact stack
  | termSetcolors running =>
      exact segments.of_unchanged rfl (fun _ member => member) rfl fun ref => by cases ref <;> rfl
  | store running nested stored =>
      rcases userStore_some stored with ⟨_, _, _, rfl⟩
      exact segments.of_unchanged rfl (fun _ member => member) rfl fun ref => by cases ref <;> rfl
  | compute running nested =>
      exact segments.of_unchanged rfl (fun _ member => member) rfl fun ref => by cases ref <;> rfl

end Segments

/-! ## What the descriptors allow -/

section

variable {machine : Machine} {system : System}

/-- What a program can know of the descriptor that a selector leads to. -/
inductive KernelDescriptor : Nat → SegmentDescriptor → Prop
  | kernelOnly {index : Nat} {descriptor : SegmentDescriptor} (level : descriptor.dpl = 0)
      (plain : isConforming descriptor = false) : KernelDescriptor index descriptor
  | userCode {descriptor : SegmentDescriptor} (s : descriptor.s = 1) (type : descriptor.type = 9)
      (level : descriptor.dpl = 3) : KernelDescriptor 3 descriptor
  | userData {descriptor : SegmentDescriptor} (s : descriptor.s = 1) (type : descriptor.type = 3)
      (level : descriptor.dpl = 3) : KernelDescriptor 4 descriptor

private theorem Segments.kernelDescriptor (segments : Segments machine system)
    (descriptors : Descriptors machine system) {index : Nat} {descriptor : SegmentDescriptor}
    (named : descriptorTable system.kernel index = some descriptor) :
    KernelDescriptor index descriptor := by
  rw [descriptorTable] at named
  split at named
  next bound =>
    cases named
    have null : KernelDescriptor index gdtMakeNullSegment.descriptor := by
      rw [GdtEntry.descriptor_eq]
      exact .kernelOnly rfl rfl
    have segment : ∀ ref : TssRef,
        KernelDescriptor index (system.kernel.gdt ref.entry).descriptor := by
      intro ref
      rcases segments.entry ref with empty | described
      · rw [empty]
        exact null
      · rcases described.descriptor with ⟨_, rfl | rfl, decoded⟩
        · rw [decoded]
          exact .kernelOnly rfl (show Kernel.availableTss.getLsbD 2 = false by decide)
        · rw [decoded]
          exact .kernelOnly rfl (show Kernel.busyTss.getLsbD 2 = false by decide)
    have fixed : index ≤ gdtInitialTss → system.kernel.gdt index = (tasksInit machine).gdt index :=
      fun low => descriptors.fixed index (.inl low)
    match index, bound with
    | 0, _ =>
        rw [fixed (by decide)]
        exact null
    | 1, _ =>
        rw [fixed (by decide)]
        refine KernelDescriptor.kernelOnly ?_ ?_
        · exact congrArg SegmentDescriptor.dpl (descriptor_buildEntry ..)
        · exact congrArg isConforming (descriptor_buildEntry ..)
    | 2, _ =>
        rw [fixed (by decide)]
        refine KernelDescriptor.kernelOnly ?_ ?_
        · exact congrArg SegmentDescriptor.dpl (descriptor_buildEntry ..)
        · exact congrArg isConforming (descriptor_buildEntry ..)
    | 3, _ =>
        rw [fixed (by decide)]
        exact .userCode (congrArg SegmentDescriptor.s (descriptor_buildEntry ..))
          (congrArg SegmentDescriptor.type (descriptor_buildEntry ..))
          (congrArg SegmentDescriptor.dpl (descriptor_buildEntry ..))
    | 4, _ =>
        rw [fixed (by decide)]
        exact .userData (congrArg SegmentDescriptor.s (descriptor_buildEntry ..))
          (congrArg SegmentDescriptor.type (descriptor_buildEntry ..))
          (congrArg SegmentDescriptor.dpl (descriptor_buildEntry ..))
    | 5, _ => exact segment .initial
    | slot + 6, bound =>
        have small : slot < 8 := by
          simp only [kernelTssIndex, maxTaskCount] at bound
          omega
        have entry : (TssRef.task ⟨slot, small⟩).entry = slot + 6 := Nat.add_comm ..
        have described := segment (.task ⟨slot, small⟩)
        rwa [entry] at described
  next => cases named

end

section

variable {selector : BitVec 16} (proper : selector.toNat / 4 = 2 * Selector.index selector)
variable (level : Selector.rpl selector = 3)

include proper level

private theorem userCode_of_index (index : Selector.index selector = 3) :
    selector = gdtUserCodeSelector := by
  have low := congrArg BitVec.toNat level
  rw [Selector.rpl_toNat] at low
  change _ = 3 at low
  apply BitVec.eq_of_toNat_eq
  change _ = 27
  omega

private theorem userData_of_index (index : Selector.index selector = 4) :
    selector = gdtUserDataSelector := by
  have low := congrArg BitVec.toNat level
  rw [Selector.rpl_toNat] at low
  change _ = 3 at low
  apply BitVec.eq_of_toNat_eq
  change _ = 35
  omega

end

structure ConfinesUser (table : DescriptorTable) : Prop where
  farTransfer : ∀ selector destination, farTransfer table 3 selector = some destination →
    destination = .code gdtUserCodeSelector
  farReturn : ∀ selector loaded, farReturn table 3 selector = some loaded →
    loaded = gdtUserCodeSelector
  stack : ∀ selector, loadsStack table 3 selector = true → selector = gdtUserDataSelector
  data : ∀ selector, loadsData table 3 selector = true → namesUserData selector

namespace KernelDescriptor

variable {index : Nat} {descriptor : SegmentDescriptor} (known : KernelDescriptor index descriptor)

include known

private theorem of_code (code : isCode descriptor = true)
    (level : isConforming descriptor = false → descriptor.dpl = 3) : index = 3 := by
  cases known with
  | kernelOnly kernel plain => cases kernel.symm.trans (level plain)
  | userCode => rfl
  | userData s type user =>
      rw [isCode, s, type] at code
      cases code

private theorem of_data (data : isData descriptor = true) (level : descriptor.dpl = 3) :
    index = 4 := by
  cases known with
  | kernelOnly kernel plain => cases kernel.symm.trans level
  | userCode s type user =>
      rw [isData, s, type] at data
      cases data
  | userData => rfl

private theorem not_gateway (gateway : isGateway descriptor = true) : descriptor.dpl ≠ 3 := by
  cases known with
  | kernelOnly kernel plain =>
      rw [kernel]
      decide
  | userCode s type user =>
      rw [isGateway, s] at gateway
      cases gateway
  | userData s type user =>
      rw [isGateway, s] at gateway
      cases gateway

private theorem not_readable (code : isCode descriptor = true)
    (readable : isAccessible descriptor = true) :
    descriptor.dpl ≠ 3 ∧ isConforming descriptor = false := by
  cases known with
  | kernelOnly kernel plain =>
      rw [kernel]
      exact ⟨by decide, plain⟩
  | userCode s type user =>
      rw [isAccessible, type] at readable
      cases readable
  | userData s type user =>
      rw [isCode, s, type] at code
      cases code

end KernelDescriptor

private theorem eq_three_of_le {level : BitVec 2} (above : 3 ≤ level) : level = 3 := by
  have bound := level.isLt
  have low := BitVec.le_def.mp above
  change 3 ≤ _ at low
  apply BitVec.eq_of_toNat_eq
  change _ = 3
  omega

private theorem confinesUser {table : DescriptorTable}
    (known : ∀ index descriptor, table index = some descriptor →
      KernelDescriptor index descriptor) : ConfinesUser table where
  farTransfer selector destination transferred := by
    cases destination with
    | code loaded =>
        rcases farTransfer_code transferred with ⟨descriptor, found, _, code, _, level, rfl⟩
        rcases DescriptorTable.find_some found with ⟨named, proper⟩
        have index := (known _ _ named).of_code code level
        congr 1
        apply BitVec.eq_of_toNat_eq
        rw [Selector.withRpl_toNat, proper, index]
        rfl
    | gateway descriptor =>
        rcases farTransfer_gateway transferred with ⟨found, _, gateway, level⟩
        have named := (DescriptorTable.find_some found).1
        exact absurd (eq_three_of_le level) ((known _ _ named).not_gateway gateway)
  farReturn selector loaded returned := by
    rcases farReturn_some returned with ⟨descriptor, found, _, code, outward, level, rfl⟩
    rcases DescriptorTable.find_some found with ⟨named, proper⟩
    have outer := eq_three_of_le outward
    rw [outer] at level
    exact userCode_of_index proper outer ((known _ _ named).of_code code level)
  stack selector loads := by
    rcases loadsStack_iff.mp loads with ⟨descriptor, found, _, data, _, level, user⟩
    rcases DescriptorTable.find_some found with ⟨named, proper⟩
    exact userData_of_index proper level ((known _ _ named).of_data data user)
  data selector loads := by
    rcases loadsData_iff.mp loads with null | ⟨descriptor, found, _, kind, level⟩
    · exact .inl (of_decide_eq_true null)
    · rcases DescriptorTable.find_some found with ⟨named, proper⟩
      have described := known _ _ named
      rcases kind with data | ⟨code, readable⟩
      · have user : descriptor.dpl = 3 := by
          rcases level with ⟨code, _⟩ | ⟨_, user⟩
          · rw [isData, Bool.and_eq_true, Bool.not_eq_true'] at data
            rw [isCode, data.2, Bool.and_false] at code
            cases code
          · exact eq_three_of_le user
        refine .inr ?_
        rw [proper, described.of_data data user]
      · rcases described.not_readable code readable with ⟨kernel, plain⟩
        rcases level with ⟨_, conforming⟩ | ⟨_, user⟩
        · rw [plain] at conforming
          cases conforming
        · exact absurd (eq_three_of_le user) kernel

/-! ## Gates -/

/-- The only gate that programs may call is that of the system calls. -/
theorem gate_of_user {symbols : Interrupt.Symbols} {number : Nat} {gate : Gate}
    (present : (Interrupt.idtInit symbols number).gate = some gate) (level : 3 ≤ gate.dpl) :
    number = 48 ∧ gate = ⟨gdtKernelCodeSelector, symbols.syscallEntry, true, 3⟩ := by
  by_cases syscall : number = 48
  · subst syscall
    rw [Interrupt.gate_syscall] at present
    exact ⟨rfl, (Option.some.inj present).symm⟩
  have notKernel : ∀ {offset : BitVec 32},
      (Interrupt.idtInit symbols number).gate ≠ some ⟨gdtKernelCodeSelector, offset, false, 0⟩ := by
    intro offset kernel
    rw [kernel] at present
    cases present
    cases eq_three_of_le level
  by_cases irq : 32 ≤ number ∧ number < 48
  · have named : Interrupt.irqRemapOffset + (number - 32) = number := by
      rw [Interrupt.irqRemapOffset]
      omega
    have known : number - 32 ≤ Interrupt.irqLast := by
      rw [Interrupt.irqLast]
      omega
    have kernel := Interrupt.gate_irq symbols known
    rw [named] at kernel
    exact absurd kernel notKernel
  by_cases exception : number ≤ Interrupt.lastException
  · exact absurd (Interrupt.gate_exception symbols exception) notKernel
  · rw [Interrupt.idtInit, Function.update_of_ne syscall, Interrupt.idtFill_apply,
      if_neg (by
        simp only [Interrupt.irqRemapOffset, Interrupt.irqFirst, Interrupt.irqLast]
        omega),
      Interrupt.idtFill_apply, if_neg (by
        simp only [Interrupt.firstException, Interrupt.exceptionCount,
          Interrupt.lastException] at exception ⊢
        omega)] at present
    cases present

/-! ## Programs -/

/-- What an instruction at the level of `before` can make of its context. -/
structure ContextChange (table : DescriptorTable) (before after : Registers) : Prop where
  cs : after.cs = before.cs ∨
    (∃ selector, farTransfer table (Selector.rpl before.cs) selector = some (.code after.cs)) ∨
    ∃ selector, farReturn table (Selector.rpl before.cs) selector = some after.cs
  ss : after.ss = before.ss ∨ loadsStack table (Selector.rpl before.cs) after.ss = true
  data : List.Forall₂ (fun old new => new = old ∨
    loadsData table (Selector.rpl before.cs) new = true) (dataSegments before) (dataSegments after)
  flags : after.eflags &&& (iopl ||| virtual8086) = before.eflags &&& (iopl ||| virtual8086)

theorem Unprivileged.change {table : DescriptorTable} {before after : Registers}
    (confines : ConfinesUser table) (user : Unprivileged before)
    (change : ContextChange table before after) : Unprivileged after := by
  have level : Selector.rpl before.cs = 3 := by
    rw [user.cs]
    decide
  rcases change with ⟨cs, ss, data, flags⟩
  rw [level] at cs ss data
  refine ⟨?_, ?_, ?_, flags.trans user.flags⟩
  · rcases cs with same | ⟨selector, transferred⟩ | ⟨selector, returned⟩
    · exact same.trans user.cs
    · exact Destination.code.inj (confines.farTransfer _ _ transferred)
    · exact confines.farReturn _ _ returned
  · rcases ss with same | loads
    · exact same.trans user.ss
    · exact confines.stack _ loads
  · have held := user.data
    generalize dataSegments before = old, dataSegments after = new at data held
    induction data with
    | nil => exact held
    | @cons old new _ _ changed _ induction =>
        rw [List.forall_mem_cons] at held ⊢
        refine ⟨?_, induction held.2⟩
        rcases changed with rfl | loads
        · exact held.1
        · exact confines.data _ loads

/-- The life of a program from its first instruction on. In between the kernel
and other programs may run, after which the program goes on in its context. -/
inductive Life (machine : Machine) (first : System) : System → Prop
  | entered : Life machine first first
  | resumed {state inner next : System} {actions : List Act} {registers : Registers}
      (life : Life machine first state)
      (run : Run (politeAct machine) (fun _ => True) state actions inner)
      (stack : inner.stack = state.stack)
      (change : ContextChange (descriptorTable inner.kernel) state.kernel.cpu.registers registers)
      (computed : step machine inner (.compute registers) = some next) :
      Life machine first next

namespace Segments

variable {machine : Machine} {system : System}

theorem of_reachable (cleared : ∀ entry, kernelTssIndex < entry →
      entry < kernelTssIndex + 1 + maxTaskCount → machine.gdt entry = gdtMakeNullSegment)
    (reachable : Reachable machine system) : Segments machine system := by
  have preserved : ∀ before event after,
      (TaskTable before ∧ Descriptors machine before) ∧ Segments machine before →
      Tasks.step machine before event = some after →
      (TaskTable after ∧ Descriptors machine after) ∧ Segments machine after := by
    rintro before event after ⟨⟨table, descriptors⟩, segments⟩ stepped
    exact ⟨⟨table.step stepped, descriptors.step table stepped⟩,
      segments.step table descriptors stepped⟩
  exact (reachable.preserves preserved
    ⟨⟨.initial machine, .initial machine⟩, .initial cleared⟩).2

theorem entered {slot : Slot} {registers : Registers} {first : System}
    (segments : Segments machine system) (reachable : Reachable machine system)
    (loaded : system.phase = .loaded slot)
    (switched : Tasks.step machine system (.taskSwitch registers) = some first) :
    first.phase = .running ∧ first.stack = ⟨slot, system.kernel.colors⟩ :: system.stack ∧
      Unprivileged first.kernel.cpu.registers := by
  have descriptors := Descriptors.of_reachable reachable
  have bits := BusyBits.of_reachable reachable
  have member : slot ∈ system.created :=
    System.created_of_loaded loaded ▸ List.mem_cons_self ..
  have nodup := (TaskTable.of_reachable reachable).nodup
  rw [System.created_of_loaded loaded, List.nodup_cons] at nodup
  cases step_cases switched with
  | @taskSwitch other _ kernel otherLoaded called =>
      cases loaded.symm.trans otherLoaded
      refine ⟨rfl, rfl, ?_⟩
      have available := bits.available slot (by rw [loaded]; exact List.mem_singleton_self _)
      have live : system.Live (.task slot) := member
      rw [descriptors.selector slot member] at called
      have different : TssRef.task slot ≠ contextTss system.stack := by
        intro same
        cases stacked : system.stack with
        | nil => simp [stacked, contextTss] at same
        | cons activation rest =>
            rw [stacked, contextTss] at same
            apply nodup.1
            rw [stacked, TssRef.task.inj same]
            exact List.mem_cons_self ..
      have enters := farCall_enters called (bits.tssOf_tr descriptors)
        (descriptors.tssOf_some live available) different
      rw [enters]
      exact (segments.entering slot (by rw [loaded]; exact List.mem_singleton_self _)).setNt

end Segments

/-- What is known of the descriptors while programs make system calls. -/
theorem Segments.of_polite {machine : Machine} {system : System}
    (cleared : ∀ entry, kernelTssIndex < entry → entry < kernelTssIndex + 1 + maxTaskCount →
      machine.gdt entry = gdtMakeNullSegment)
    (reachable : Transition.Reachable (politeAct machine) (System.initial machine) system) :
    Segments machine system ∧ Descriptors machine system := by
  rcases exists_plain reachable with ⟨plain, plainReachable, alike⟩
  have segments := Segments.of_reachable cleared plainReachable
  have descriptors := Descriptors.of_reachable plainReachable
  rcases alike.exists_console with ⟨console, rfl⟩
  have unchanged : ∀ ref, Kernel.getTss { plain.kernel with console := console } ref =
      plain.kernel.getTss ref := by
    intro ref
    cases ref <;> rfl
  exact ⟨segments.of_unchanged rfl (fun _ member => member) rfl unchanged,
    descriptors.of_unchanged rfl rfl rfl rfl rfl⟩

theorem Life.preserves {machine : Machine} {first state : System} {stack : List Activation}
    (cleared : ∀ entry, kernelTssIndex < entry → entry < kernelTssIndex + 1 + maxTaskCount →
      machine.gdt entry = gdtMakeNullSegment)
    (life : Life machine first state)
    (reachable : Transition.Reachable (politeAct machine) (System.initial machine) first)
    (stacked : first.stack = stack) (user : Unprivileged first.kernel.cpu.registers) :
    Transition.Reachable (politeAct machine) (System.initial machine) state ∧
      state.stack = stack ∧ Unprivileged state.kernel.cpu.registers := by
  induction life with
  | entered => exact ⟨reachable, stacked, user⟩
  | @resumed _ inner _ _ registers _ run same change computed induction =>
      rcases induction with ⟨reachable, stacked, user⟩
      have innerReachable := reachable.extend run
      rcases Segments.of_polite cleared innerReachable with ⟨segments, descriptors⟩
      have acted : politeAct machine inner (.event (.compute registers)) = some _ := computed
      refine ⟨innerReachable.step_to acted, ?_⟩
      cases step_cases computed with
      | compute running nested =>
          exact ⟨same.trans stacked,
            user.change (confinesUser fun _ _ => segments.kernelDescriptor descriptors) change⟩

/-- Whatever instructions a program executes, it stays at level 3. No descriptor
and no gate takes it to another level, the gate of the system calls apart, and
what interrupts it is handled on a stack of its own. -/
theorem programs_unprivileged {machine : Machine} {system first state : System} {slot : Slot}
    {registers : Registers}
    (cleared : ∀ entry, kernelTssIndex < entry → entry < kernelTssIndex + 1 + maxTaskCount →
      machine.gdt entry = gdtMakeNullSegment)
    (reachable : Transition.Reachable (politeAct machine) (System.initial machine) system)
    (loaded : system.phase = .loaded slot)
    (switched : step machine system (.taskSwitch registers) = some first)
    (life : Life machine first state) :
    Unprivileged state.kernel.cpu.registers ∧
    ConfinesUser (descriptorTable state.kernel) ∧
    (∀ symbols number gate, (Interrupt.idtInit symbols number).gate = some gate →
      Selector.rpl state.kernel.cpu.registers.cs ≤ gate.dpl →
      number = 48 ∧ gate = ⟨gdtKernelCodeSelector, symbols.syscallEntry, true, 3⟩) ∧
    state.kernel.cpu.tr = (TssRef.task slot).selector ∧
    (state.kernel.tasks slot).tss.ss0 = gdtKernelDataSelector ∧
    (state.kernel.tasks slot).tss.esp0 =
      machine.layout.task slot + offsetofKernelStack + sizeofKernelStack := by
  have entering : politeAct machine system (.event (.taskSwitch registers)) = some first := switched
  have firstReachable := reachable.step_to entering
  rcases exists_plain reachable with ⟨plain, plainReachable, alike⟩
  rcases alike.step switched with ⟨other, plainSwitched, alikeFirst⟩
  rcases alike.exists_console with ⟨_, rfl⟩
  rcases alikeFirst.exists_console with ⟨_, rfl⟩
  rcases (Segments.of_reachable cleared plainReachable).entered plainReachable loaded
    plainSwitched with ⟨_, enteredStack, entered⟩
  rcases life.preserves cleared firstReachable enteredStack entered with
    ⟨stateReachable, stacked, user⟩
  rcases Segments.of_polite cleared stateReachable with ⟨segments, descriptors⟩
  have top : (⟨slot, plain.kernel.colors⟩ : Activation) :: plain.stack <:+ state.stack := by
    rw [stacked]
  have member : slot ∈ state.created := System.mem_created_of_suffix top
  have tr := descriptors.tr_of_stacked stacked
  refine ⟨user, confinesUser fun _ _ => segments.kernelDescriptor descriptors,
    fun symbols number gate present level => ?_, tr, segments.stack (.task slot) member⟩
  have userLevel : Selector.rpl state.kernel.cpu.registers.cs = 3 := by
    rw [user.cs]
    decide
  rw [userLevel] at level
  exact gate_of_user present level

theorem programs_unprivileged_shell : ∃ first inner state,
    step shellMachine shellLoaded (.taskSwitch shellMachine.registers) = some first ∧
    politeAct shellMachine first (.syscall shellDevices 2 taskVirtAddr 0 0 0) = some inner ∧
    Life shellMachine first state ∧ state.kernel.cpu.registers.ds = 0 ∧
    Unprivileged state.kernel.cpu.registers := by
  have succeeds : ((step shellMachine shellLoaded
      (.taskSwitch shellMachine.registers)).bind fun first => politeAct shellMachine first
        (.syscall shellDevices 2 taskVirtAddr 0 0 0)).isSome = true := by decide +kernel
  rcases Option.isSome_iff_exists.mp succeeds with ⟨inner, both⟩
  rcases Option.bind_eq_some_iff.mp both with ⟨first, switched, called⟩
  have reachable := polite_of_reachable shellLoaded_reachable
  have cleared : ∀ entry, kernelTssIndex < entry → entry < kernelTssIndex + 1 + maxTaskCount →
      shellMachine.gdt entry = gdtMakeNullSegment := fun _ _ _ => rfl
  have returned : ∃ kernel, inner = { first with kernel := kernel } := by
    rw [politeAct] at called
    split at called
    next =>
      rcases syscallStep_cases called with ⟨_, _, kernel, _, same⟩ | ⟨_, _, handled, _⟩
      · exact ⟨kernel, same⟩
      · change syscallKeybGetKey _ _ _ _ = _ at handled
        simp only [syscallKeybGetKey, Option.bind_eq_bind, Option.bind_eq_some_iff] at handled
        rcases handled with ⟨_, _, equal⟩
        cases equal
    next => cases called
  rcases returned with ⟨after, rfl⟩
  clear both
  generalize shellLoaded = system, shellMachine.registers = registers at *
  cases step_cases switched with
  | @taskSwitch slot _ kernel loaded _ =>
      have computed : step shellMachine
          ⟨after, .running, ⟨slot, system.kernel.colors⟩ :: system.stack⟩
          (.compute { kernel.cpu.registers with ds := 0 }) =
            some ⟨after.setRegisters { kernel.cpu.registers with ds := 0 }, .running,
              ⟨slot, system.kernel.colors⟩ :: system.stack⟩ := rfl
      have change : ContextChange (descriptorTable after) kernel.cpu.registers
          { kernel.cpu.registers with ds := 0 } := by
        have null : loadsData (descriptorTable after) (Selector.rpl kernel.cpu.registers.cs) 0 =
            true := loadsData_iff.mpr (.inl (by decide))
        refine ⟨.inl rfl, .inl rfl, ?_, rfl⟩
        exact .cons (.inr null) (.cons (.inl rfl) (.cons (.inl rfl) (.cons (.inl rfl) .nil)))
      have start : Life shellMachine _ ⟨kernel, .running,
          ⟨slot, system.kernel.colors⟩ :: system.stack⟩ := .entered
      have life := start.resumed (.single trivial called trivial) rfl change computed
      exact ⟨_, _, _, switched, called, life, rfl,
        (programs_unprivileged cleared reachable loaded switched life).1⟩

end Yoctos.Syscall
