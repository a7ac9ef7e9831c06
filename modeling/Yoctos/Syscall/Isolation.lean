import Yoctos.Syscall.Handler
import Yoctos.Tasks.RoundTrip

/-! # What a system call writes

The handlers store through the caller's pointers in kernel mode, without looking
at the pages. A caller whose pointers lead to its own pages touches nothing else.
-/

namespace Yoctos.Syscall

open Yoctos.Common Yoctos.Memory Yoctos.Tasks Yoctos.Transition

/-! ## The stores -/

def addressRange (address : BitVec 32) (count : Nat) : List (BitVec 32) :=
  (List.range count).map fun index => address + BitVec.ofNat 32 index

def sizeofVbeFb : Nat := 28

/-- The addresses a call stores to: those its arguments point to, or the pixel
they name. -/
def storedBytes (devices : Devices) (nb : Nat) (arg1 arg2 : BitVec 32) : List (BitVec 32) :=
  match nb with
  | 2 => addressRange arg1 4
  | 3 => addressRange arg1 4 ++ addressRange arg2 4
  | 5 => addressRange arg1 sizeofVbeFb
  | 6 => addressRange (devices.fb.pixel arg1 arg2) 2
  | _ => []

structure WritesOnly (machine : Machine) (kernel : Kernel) (pointers : List (BitVec 32))
    (next : Kernel) : Prop where
  records : next = { kernel.withBytes next.ram.bytes with colors := next.colors }
  bytes : ∀ physical, next.ram.bytes physical ≠ kernel.ram.bytes physical →
    ∃ pointer ∈ pointers, ∃ found, kernel.translate machine pointer = some found ∧
      found.physical = physical

namespace WritesOnly

variable {machine : Machine} {kernel middle next : Kernel} {pointers more : List (BitVec 32)}

theorem nothing : WritesOnly machine kernel pointers kernel :=
  ⟨rfl, fun _ changed => absurd rfl changed⟩

theorem translate_eq (writes : WritesOnly machine kernel pointers middle) (address : BitVec 32) :
    middle.translate machine address = kernel.translate machine address := by
  rw [writes.records]
  rfl

theorem trans (first : WritesOnly machine kernel pointers middle)
    (second : WritesOnly machine middle more next) :
    WritesOnly machine kernel (pointers ++ more) next := by
  constructor
  · rw [second.records, first.records]
    rfl
  · intro physical changed
    by_cases later : next.ram.bytes physical = middle.ram.bytes physical
    · rcases first.bytes physical (later ▸ changed) with ⟨pointer, member, found, leads⟩
      exact ⟨pointer, List.mem_append_left _ member, found, leads⟩
    · rcases second.bytes physical later with ⟨pointer, member, found, leads⟩
      rw [first.translate_eq] at leads
      exact ⟨pointer, List.mem_append_right _ member, found, leads⟩

end WritesOnly

theorem storeBytes_writesOnly {machine : Machine} {kernel next : Kernel} {address : BitVec 32}
    {values : List UInt8} (stored : storeBytes machine kernel address values = some next) :
    WritesOnly machine kernel (addressRange address values.length) next := by
  rcases foldlM_copyByte_frame stored with ⟨bytes, rfl, frame⟩
  refine ⟨rfl, fun physical changed => ?_⟩
  rcases frame physical changed with ⟨copy, member, found, translated, equal⟩
  rcases List.mem_map.mp member with ⟨store, storeMember, rfl⟩
  have position : store.1 ∈ (memcpy address values).map Prod.fst := List.mem_map_of_mem storeMember
  rw [memcpy_fst] at position
  exact ⟨store.1, position, found, translated, equal⟩

theorem WritesOnly.mono {machine : Machine} {kernel next : Kernel}
    {pointers more : List (BitVec 32)} (writes : WritesOnly machine kernel pointers next)
    (among : pointers ⊆ more) : WritesOnly machine kernel more next := by
  refine ⟨writes.records, fun physical changed => ?_⟩
  rcases writes.bytes physical changed with ⟨pointer, member, leads⟩
  exact ⟨pointer, among member, leads⟩

theorem VbeFb.bytes_length (fb : VbeFb) : fb.bytes.length = sizeofVbeFb := rfl

/-- Several stores, each through a pointer of its own. -/
def storeBlocks (machine : Machine) (kernel : Kernel) (blocks : List (BitVec 32 × List UInt8)) :
    Option Kernel :=
  blocks.foldlM (fun kernel block => storeBytes machine kernel block.1 block.2) kernel

def blockBytes (blocks : List (BitVec 32 × List UInt8)) : List (BitVec 32) :=
  blocks.flatMap fun block => addressRange block.1 block.2.length

theorem storeBlocks_cons {machine : Machine} {kernel next : Kernel}
    {block : BitVec 32 × List UInt8} {blocks : List (BitVec 32 × List UInt8)}
    (stored : storeBlocks machine kernel (block :: blocks) = some next) :
    ∃ middle, storeBytes machine kernel block.1 block.2 = some middle ∧
      storeBlocks machine middle blocks = some next :=
  Option.bind_eq_some_iff.mp stored

private theorem storeBlocks_writesOnly {machine : Machine} {kernel next : Kernel}
    {blocks : List (BitVec 32 × List UInt8)}
    (stored : storeBlocks machine kernel blocks = some next) :
    WritesOnly machine kernel (blockBytes blocks) next := by
  induction blocks generalizing kernel with
  | nil =>
      cases stored
      exact .nothing
  | cons block blocks induction =>
      rcases storeBlocks_cons stored with ⟨middle, first, later⟩
      exact (storeBytes_writesOnly first).trans (induction later)

/-- What a system call that returns has done: it has changed the colors, or stored
where its arguments say. -/
inductive Served (machine : Machine) (kernel : Kernel) (pointers : List (BitVec 32)) :
    Kernel → Prop
  | colors (colors : TermColors) : Served machine kernel pointers (kernel.termSetcolors colors)
  | stores {next : Kernel} (blocks : List (BitVec 32 × List UInt8))
      (among : blockBytes blocks ⊆ pointers)
      (stored : storeBlocks machine kernel blocks = some next) :
      Served machine kernel pointers next

namespace Served

variable {machine : Machine} {devices : Devices} {kernel next : Kernel}
variable {pointers : List (BitVec 32)} {arg1 arg2 arg3 arg4 : BitVec 32}
variable {value : Option (BitVec 32)} {calls : List DriverCall}

theorem nothing : Served machine kernel pointers kernel :=
  .stores [] (List.nil_subset _) rfl

theorem block {address : BitVec 32} {values : List UInt8}
    (stored : storeBytes machine kernel address values = some next) :
    Served machine kernel (addressRange address values.length) next := by
  refine .stores [(address, values)] ?_ ?_
  · rw [blockBytes, List.flatMap_singleton]
    exact List.Subset.refl _
  · rw [storeBlocks, List.foldlM_cons, stored]
    rfl

/-- Of the nine functions that are called, four store where their arguments say. -/
theorem of_syscallFunc {nb : Nat} (called : nb < 9)
    (handled : syscallFunc machine devices kernel nb arg1 arg2 arg3 =
      some (.returned value calls next)) :
    Served machine kernel (storedBytes devices nb arg1 arg2) next := by
  match nb, called with
  | 0, _ =>
      simp only [syscallFunc, syscallTermPuts, Option.bind_eq_bind,
        Option.bind_eq_some_iff] at handled
      rcases handled with ⟨s, _, equal⟩
      cases equal
      exact nothing
  | 1, _ =>
      cases handled
      exact .colors _
  | 2, _ =>
      simp only [syscallFunc, syscallKeybGetKey, Option.bind_eq_bind,
        Option.bind_eq_some_iff] at handled
      rcases handled with ⟨stored, store, equal⟩
      cases equal
      exact block store
  | 3, _ =>
      simp only [syscallFunc, syscallTimerInfo, Option.bind_eq_bind,
        Option.bind_eq_some_iff] at handled
      rcases handled with ⟨first, storeFreq, second, storeTicks, equal⟩
      cases equal
      refine .stores [(arg1, littleEndian devices.freq), (arg2, littleEndian devices.ticks)] ?_ ?_
      · rw [blockBytes, List.flatMap_cons, List.flatMap_singleton]
        exact List.Subset.refl _
      · rw [storeBlocks, List.foldlM_cons, storeFreq, Option.bind_eq_bind, Option.bind_some,
          List.foldlM_cons, storeTicks]
        rfl
  | 4, _ =>
      cases handled
      exact nothing
  | 5, _ =>
      simp only [syscallFunc, syscallVbeFbInfo, Option.bind_eq_bind,
        Option.bind_eq_some_iff] at handled
      rcases handled with ⟨stored, store, equal⟩
      cases equal
      rw [storedBytes, ← VbeFb.bytes_length devices.fb]
      exact block store
  | 6, _ =>
      simp only [syscallFunc, syscallVbeSetpix, Option.bind_eq_bind,
        Option.bind_eq_some_iff] at handled
      rcases handled with ⟨stored, store, equal⟩
      cases equal
      exact block store
  | 7, _ =>
      simp only [syscallFunc, syscallTaskExec, Option.bind_eq_bind,
        Option.bind_eq_some_iff] at handled
      rcases handled with ⟨filename, _, args, _, equal⟩
      cases equal
  | 8, _ =>
      cases handled
      exact nothing

theorem of_syscallHandler {nb : BitVec 32}
    (handled : syscallHandler machine devices kernel nb arg1 arg2 arg3 arg4 =
      some (.returned value calls next)) :
    Served machine kernel (storedBytes devices nb.toNat arg1 arg2) next := by
  rw [syscallHandler] at handled
  split at handled
  next dispatched =>
    have index : nb.toInt.toNat = nb.toNat := by
      have value := BitVec.toInt_eq_toNat_cond nb
      have bound := nb.isLt
      split at value <;> omega
    rw [index] at handled
    exact of_syscallFunc (by omega) handled
  next =>
    cases handled
    exact nothing

theorem writesOnly (served : Served machine kernel pointers next) :
    WritesOnly machine kernel pointers next := by
  cases served with
  | colors colors => exact ⟨rfl, fun _ changed => absurd rfl changed⟩
  | stores blocks among stored => exact (storeBlocks_writesOnly stored).mono among

end Served

/-! ## Isolation -/

/-- Kernel tables, low memory, the other tasks and all else in use are as they
were. -/
structure Isolated (machine : Machine) (caller : Slot) (before after : System) : Prop where
  tasks : ∀ slot ∈ before.created, after.kernel.tasks slot = before.kernel.tasks slot
  initialTss : after.kernel.initialTss = before.kernel.initialTss
  gdt : ∀ entry, (∀ slot : Slot, slot ∉ before.created → entry ≠ kernelTssIndex + 1 + slot.val) →
    after.kernel.gdt entry = before.kernel.gdt entry
  frames : ∀ frame, before.kernel.ram.frames frame = true → after.kernel.ram.frames frame = true
  pageTables : ∀ frame, before.kernel.ram.frames frame = true →
    after.kernel.ram.tables frame = before.kernel.ram.tables frame
  /-- The kernel image with the IDT, physical address 0 and the boot modules. -/
  lowMemory : ∀ physical : BitVec 32, physical.toNat < machine.modulesLastAddress →
    after.kernel.ram.bytes physical = before.kernel.ram.bytes physical
  others : ∀ slot ∈ before.created, slot ≠ caller → ∀ physical : BitVec 32,
    addrToFrameNb physical ∈ (before.grant slot).all →
    after.kernel.ram.bytes physical = before.kernel.ram.bytes physical
  inUse : ∀ physical : BitVec 32, before.kernel.ram.frames (addrToFrameNb physical) = true →
    (addrToFrameNb physical).toNat * 4096 < machine.ramSize.toNat →
    addrToFrameNb physical ∉ (before.grant caller).pages →
    after.kernel.ram.bytes physical = before.kernel.ram.bytes physical

section

variable {machine : Machine} {system : System} {activation : Activation} {rest : List Activation}

private theorem active_caller (reachable : Reachable machine system)
    (running : system.phase = .running) (called : system.stack = activation :: rest) :
    activation.slot ∈ system.created ∧
      system.kernel.cpu.cr3 = machine.layout.task activation.slot := by
  have active := (AddressSpaces.of_reachable reachable).cr3
  rw [System.pagedir, running, called] at active
  exact ⟨System.mem_created_of_suffix (by rw [called]), active⟩

private theorem WritesOnly.isolated (reachable : Reachable machine system)
    (running : system.phase = .running) (called : system.stack = activation :: rest)
    {pointers : List (BitVec 32)} {kernel : Kernel}
    (writes : WritesOnly machine system.kernel pointers kernel)
    (mapped : ∀ pointer ∈ pointers, ∃ found,
      system.kernel.translate machine pointer = some found ∧ found.user = true) :
    Isolated machine activation.slot system { system with kernel := kernel } := by
  have ownership := Ownership.of_reachable reachable
  rcases active_caller reachable running called with ⟨member, active⟩
  have changed_own : ∀ physical, kernel.ram.bytes physical ≠ system.kernel.ram.bytes physical →
      addrToFrameNb physical ∈ (system.grant activation.slot).pages ∨
        machine.ramSize.toNat ≤ (addrToFrameNb physical).toNat * 4096 := by
    intro physical changed
    rcases writes.bytes physical changed with ⟨pointer, inPointers, found, translated, rfl⟩
    rcases mapped pointer inPointers with ⟨user, same, isUser⟩
    rw [translated] at same
    cases same
    rw [Kernel.translate_task active] at translated
    exact ownership.user_translation member translated isUser
  have records := writes.records
  constructor
  · intro slot _
    rw [records]
    rfl
  · rw [records]
    rfl
  · intro entry _
    rw [records]
    rfl
  · intro frame taken
    rw [records]
    exact taken
  · intro frame _
    rw [records]
    rfl
  · intro physical low
    by_contra changed
    rcases changed_own physical changed with own | beyond
    · have reserved := machine.wellFormed.frames_below (addrToFrameNb physical)
        (by rw [addrToFrameNb_toNat]; omega)
      exact (ownership.reserved _ reserved).2.1 _ member (List.mem_append_left _ own)
    · have last := machine.wellFormed.last_in_ram
      rw [addrToFrameNb_toNat] at beyond
      omega
  · intro slot exists_ different physical owned
    by_contra changed
    rcases changed_own physical changed with own | beyond
    · exact ownership.disjoint exists_ member different owned (List.mem_append_left _ own)
    · have reserved := machine.wellFormed.frames_beyond _ beyond
      exact (ownership.reserved _ reserved).2.1 slot exists_ owned
  · intro physical _ inRam foreign
    by_contra changed
    rcases changed_own physical changed with own | beyond
    · exact foreign own
    · exact absurd inRam (Nat.not_lt.mpr beyond)

private theorem taskExec_isolated (reachable : Reachable machine system) {filename : CString}
    {args : Arguments} {next : System} (caller : Slot)
    (stepped : step machine system (.taskExec filename args) = some next) :
    Isolated machine caller system next := by
  have ownership := Ownership.of_reachable reachable
  cases step_cases stepped with
  | execFailed running begun =>
      rcases taskLoadBegin_failed begun with ⟨console, rfl⟩
      exact ⟨fun _ _ => rfl, rfl, fun _ _ => rfl, fun _ taken => taken, fun _ _ => rfl,
        fun _ _ => rfl, fun _ _ _ _ _ => rfl, fun _ _ _ _ => rfl⟩
  | @execLoading filename args kernel window running begun =>
      have opening := opening_of_begun reachable running begun
      have kept : ∀ physical, system.kernel.ram.frames (addrToFrameNb physical) = true →
          kernel.ram.bytes physical = system.kernel.ram.bytes physical :=
        fun physical taken => opening.bytes (opening.not_page taken)
      have new := opening.created.new
      have begun := Begun.of_copying begun
      constructor
      · exact opening.tasks
      · exact begun.initialTss
      · intro entry free
        rw [begun.gdt]
        exact Function.update_of_ne (free window.slot new) _ _
      · exact fun frame taken => (opening.created.mem_frames frame).mpr (.inl taken)
      · exact fun frame taken => opening.created.tables_of_taken taken
      · intro physical low
        have reserved := machine.wellFormed.frames_below (addrToFrameNb physical)
          (by rw [addrToFrameNb_toNat]; omega)
        exact kept physical (ownership.reserved _ reserved).1
      · exact fun slot member _ physical owned => kept physical (ownership.taken member owned)
      · exact fun physical taken _ _ => kept physical taken

end

/-- A system call writes no other byte than those its arguments name, and leaves
everything alone that is not the caller's when these are the caller's own. -/
theorem syscallHandler_isolated {machine : Machine} {devices : Devices} {system : System}
    {activation : Activation} {rest : List Activation} (nb arg1 arg2 arg3 arg4 : BitVec 32)
    (reachable : Reachable machine system) (running : system.phase = .running)
    (called : system.stack = activation :: rest) :
    (∀ value calls kernel, syscallHandler machine devices system.kernel nb arg1 arg2 arg3 arg4 =
      some (.returned value calls kernel) →
      WritesOnly machine system.kernel (storedBytes devices nb.toNat arg1 arg2) kernel) ∧
    ((∀ pointer ∈ storedBytes devices nb.toNat arg1 arg2, ∃ found,
      system.kernel.translate machine pointer = some found ∧ found.user = true) →
      ∀ next, syscallStep machine devices system nb arg1 arg2 arg3 arg4 = some next →
        Isolated machine activation.slot system next) := by
  refine ⟨fun _ _ _ handled => (Served.of_syscallHandler handled).writesOnly,
    fun mapped next stepped => ?_⟩
  rcases syscallStep_cases stepped with ⟨_, _, kernel, handled, rfl⟩ | ⟨filename, args, _, execs⟩
  · exact (Served.of_syscallHandler handled).writesOnly.isolated reachable running called mapped
  · exact taskExec_isolated reachable activation.slot execs

/-! ## Calls of the shell -/

def shellDevices : Devices where
  key := 0
  freq := 1000
  ticks := 7
  fb := ⟨0xe0000000, 0x400000, 2048, 1024, 1024, 768, 16, fun _ => 0⟩

private theorem shellRunning_called :
    ∃ activation rest, shellRunning.stack = activation :: rest := by
  have nested : shellRunning.stack.length = 1 := by decide +kernel
  rcases List.length_eq_one_iff.mp nested with ⟨activation, called⟩
  exact ⟨activation, [], called⟩

theorem syscallHandler_isolated_getKey : ∃ activation rest next,
    shellRunning.stack = activation :: rest ∧
    syscallStep shellMachine shellDevices shellRunning 2 taskVirtAddr 0 0 0 = some next ∧
    Isolated shellMachine activation.slot shellRunning next := by
  rcases shellRunning_called with ⟨activation, rest, called⟩
  have succeeds : (syscallStep shellMachine shellDevices shellRunning 2 taskVirtAddr 0 0 0).isSome =
      true := by decide +kernel
  rcases Option.isSome_iff_exists.mp succeeds with ⟨next, stepped⟩
  have user : ((storedBytes shellDevices (2 : BitVec 32).toNat taskVirtAddr 0).all fun pointer =>
      (shellRunning.kernel.translate shellMachine pointer).map Translation.user == some true) =
        true := by decide +kernel
  have mapped : ∀ pointer ∈ storedBytes shellDevices (2 : BitVec 32).toNat taskVirtAddr 0, ∃ found,
      shellRunning.kernel.translate shellMachine pointer = some found ∧ found.user = true :=
    fun pointer member =>
      Option.map_eq_some_iff.mp (beq_iff_eq.mp (List.all_eq_true.mp user pointer member))
  have isolated := (syscallHandler_isolated 2 taskVirtAddr 0 0 0 shellRunning_reachable
    shellRunning_running called).2 mapped next stepped
  exact ⟨activation, rest, next, called, stepped, isolated⟩

/-- `timer_info(0, &ticks)`, as `get_ticks` calls it, overwrites the memory at
physical address 0. -/
theorem syscallHandler_not_isolated :
    ¬ ∀ (machine : Machine) (devices : Devices) (system next : System) (activation : Activation)
      (rest : List Activation) (nb arg1 arg2 arg3 arg4 : BitVec 32),
      Reachable machine system → system.phase = .running → system.stack = activation :: rest →
      syscallStep machine devices system nb arg1 arg2 arg3 arg4 = some next →
      Isolated machine activation.slot system next := by
  intro always
  rcases shellRunning_called with ⟨activation, rest, called⟩
  have byte : (syscallStep shellMachine shellDevices shellRunning 3 0 taskVirtAddr 0 0).map
      (fun next => next.kernel.ram.bytes 0) = some 0xe8 := by decide +kernel
  rcases Option.map_eq_some_iff.mp byte with ⟨next, stepped, written⟩
  have isolated := always shellMachine shellDevices shellRunning next activation rest 3 0
    taskVirtAddr 0 0 shellRunning_reachable shellRunning_running called stepped
  have kept := isolated.lowMemory 0 (by decide +kernel)
  rw [written] at kept
  have before : shellRunning.kernel.ram.bytes 0 = 0 := by decide +kernel
  rw [before] at kept
  cases kept

end Yoctos.Syscall
