import Yoctos.Tasks.System

/-! # What each operation changes

One inversion lemma for each operation of the kernel, so that no invariant
unfolds them again.
-/

namespace Yoctos.Tasks

open Yoctos.Common Yoctos.Memory

/-! ## The search loops -/

/-- `gdt_task_tss` walks in step with the index into `tasks`. -/
def WalksFrom (gdtTaskTss : Nat) (slots : List Slot) : Prop :=
  slots.map (fun slot => gdtFirstTaskEntry + slot.val) = List.range' gdtTaskTss slots.length

theorem walksFrom_allSlots : WalksFrom gdtFirstTaskEntry allSlots := by
  unfold WalksFrom
  decide

private theorem walksFrom_cons {gdtTaskTss : Nat} {slot : Slot} {slots : List Slot} :
    WalksFrom gdtTaskTss (slot :: slots) ↔
      gdtFirstTaskEntry + slot.val = gdtTaskTss ∧ WalksFrom (gdtTaskTss + 1) slots := by
  simp [WalksFrom, List.range'_succ]

private theorem WalksFrom.le_of_mem {gdtTaskTss : Nat} {slots : List Slot} {slot : Slot}
    (walks : WalksFrom gdtTaskTss slots) (member : slot ∈ slots) :
    gdtTaskTss ≤ gdtFirstTaskEntry + slot.val := by
  have entry : gdtFirstTaskEntry + slot.val ∈ List.range' gdtTaskTss slots.length := by
    rw [← walks]
    exact List.mem_map.mpr ⟨slot, member, rfl⟩
  exact (List.mem_range'_1.mp entry).1

theorem findFree_some {tasks : Slot → Task} {slots : List Slot} {start gdtTaskTss : Nat}
    {slot : Slot} (walks : WalksFrom start slots)
    (found : findFree tasks slots start = some (slot, gdtTaskTss)) :
    gdtTaskTss = gdtFirstTaskEntry + slot.val ∧ (tasks slot).inUse = false ∧
      ∀ earlier ∈ slots, earlier < slot → (tasks earlier).inUse = true := by
  induction slots generalizing start with
  | nil => cases found
  | cons head tail induction =>
      rcases walksFrom_cons.mp walks with ⟨entry, rest⟩
      rw [findFree] at found
      split at found
      next used =>
        rcases induction rest found with ⟨position, free, before⟩
        refine ⟨position, free, fun earlier member less => ?_⟩
        rcases List.mem_cons.mp member with rfl | member
        · exact used
        · exact before earlier member less
      next free =>
        cases found
        refine ⟨entry.symm, by simpa using free, fun earlier member less => ?_⟩
        rcases List.mem_cons.mp member with rfl | member
        · exact absurd less (lt_irrefl _)
        · have later := rest.le_of_mem member
          have below := Fin.lt_def.mp less
          omega

theorem findFree_none {tasks : Slot → Task} {slots : List Slot} {start : Nat}
    (missing : findFree tasks slots start = none) :
    ∀ slot ∈ slots, (tasks slot).inUse = true := by
  induction slots generalizing start with
  | nil => simp
  | cons head tail induction =>
      rw [findFree] at missing
      split at missing
      next used =>
        intro slot member
        rcases List.mem_cons.mp member with rfl | member
        · exact used
        · exact induction missing slot member
      next => cases missing

theorem findSelector_eq_find? {selector : BitVec 16} {slots : List Slot} {start : Nat}
    (walks : WalksFrom start slots) :
    findSelector selector slots start = slots.find? fun slot =>
      selector.setWidth 32 == gdtEntryToSelector (gdtFirstTaskEntry + slot.val) := by
  induction slots generalizing start with
  | nil => rfl
  | cons head tail induction =>
      rcases walksFrom_cons.mp walks with ⟨entry, rest⟩
      rw [findSelector, List.find?_cons, induction rest, entry]
      by_cases same : selector.setWidth 32 = gdtEntryToSelector start
      · rw [if_pos same, beq_iff_eq.mpr same]
      · rw [if_neg same, beq_eq_false_iff_ne.mpr same]

/-! ## Loading -/

/-- A failed load leaves a message at most. -/
theorem taskLoadBegin_failed {machine : Machine} {kernel next : Kernel} {filename : CString}
    {args : Arguments} (begun : taskLoadBegin machine kernel filename args = some (.failed next)) :
    ∃ console, next = { kernel with console := console } := by
  simp only [taskLoadBegin] at begun
  split at begun
  next =>
    split at begun
    next =>
      cases begun
      exact ⟨_, rfl⟩
    next =>
      split at begun
      next =>
        cases begun
        exact ⟨_, rfl⟩
      next =>
        split at begun
        next =>
          cases begun
          exact ⟨_, rfl⟩
        next => cases begun
  next => cases begun

/-- A load that goes on has created a task and made its directory active. -/
theorem taskLoadBegin_copying {machine : Machine} {kernel next : Kernel} {filename : CString}
    {args : Arguments} {window : Window}
    (begun : taskLoadBegin machine kernel filename args = some (.copying next window)) :
    ∃ created, taskCreate machine kernel filename (moduleSizeByName machine kernel filename)
        (argsSize args) = some (window.slot, created) ∧
      next = created.loadPagedir (machine.layout.task window.slot) ∧
      window.pagedir = created.cpu.cr3 ∧
      window.pending = copies (Stores.writeAll machine.stack (tmpArgvStores 0 args.argv))
        (moduleAddrByName machine kernel filename) (moduleSizeByName machine kernel filename) args ∧
      staysInTmpArgv args = true := by
  simp only [taskLoadBegin] at begun
  split at begun
  next stays =>
    split at begun
    next => cases begun
    next =>
      split at begun
      next => cases begun
      next =>
        split at begun
        next => cases begun
        next slot created made =>
          cases begun
          exact ⟨created, made, rfl, rfl, rfl, stays⟩
  next => cases begun

def grantFor (machine : Machine) (kernel : Kernel) (addrSpaceSize argsSize : BitVec 32) : Grant :=
  machine.source.grant kernel.ram.frames
    (pageCount (requestedSize addrSpaceSize argsSize)).toNat

def allocFor (machine : Machine) (kernel : Kernel) (addrSpaceSize argsSize : BitVec 32) :
    PagingAlloc :=
  (grantFor machine kernel addrSpaceSize argsSize).apply kernel.ram machine.pagedirTempl
    (fun _ => 0) taskVirtAddr .user

def createdTask (machine : Machine) (kernel : Kernel) (slot : Slot)
    (addrSpaceSize argsSize : BitVec 32) : Task :=
  { freshTask machine slot (gdtFirstTaskEntry + slot.val) addrSpaceSize argsSize with
    pagedir := (allocFor machine kernel addrSpaceSize argsSize).pagedir
    pageTables := (allocFor machine kernel addrSpaceSize argsSize).pageTables }

theorem createdTask_registers (machine : Machine) (kernel : Kernel) (slot : Slot)
    (addrSpaceSize argsSize : BitVec 32) :
    (createdTask machine kernel slot addrSpaceSize argsSize).tss.registers =
      initialRegisters taskVirtAddr (taskStackSize + argsSize + addrSpaceSize) := rfl

def Kernel.afterCreate (machine : Machine) (kernel : Kernel) (slot : Slot)
    (addrSpaceSize argsSize : BitVec 32) (console : List Print) : Kernel :=
  { kernel with
    tasks := Function.update kernel.tasks slot
      (createdTask machine kernel slot addrSpaceSize argsSize)
    taskId := kernel.taskId + 1
    gdt := Function.update kernel.gdt (gdtFirstTaskEntry + slot.val)
      (gdtMakeTss (machine.layout.taskTss slot) dplKernel)
    ram := (allocFor machine kernel addrSpaceSize argsSize).ram
    console := console }

private theorem taskCreate_some {machine : Machine} {kernel next : Kernel} {name : CString}
    {addrSpaceSize argsSize : BitVec 32} {slot : Slot}
    (made : taskCreate machine kernel name addrSpaceSize argsSize = some (slot, next)) :
    (kernel.tasks slot).inUse = false ∧ (∀ earlier < slot, (kernel.tasks earlier).inUse = true) ∧
    ∃ console, next = kernel.afterCreate machine slot addrSpaceSize argsSize console := by
  simp only [taskCreate] at made
  split at made
  next => cases made
  next found gdtTaskTss searched =>
    cases made
    rcases findFree_some walksFrom_allSlots searched with ⟨rfl, free, before⟩
    exact ⟨free, fun earlier less => before earlier (mem_allSlots _) less, _, rfl⟩

structure Begun (machine : Machine) (kernel : Kernel) (filename : CString) (args : Arguments)
    (next : Kernel) (window : Window) : Prop where
  free : (kernel.tasks window.slot).inUse = false
  earlier : ∀ slot < window.slot, (kernel.tasks slot).inUse = true
  created : next.tasks window.slot = createdTask machine kernel window.slot
    (moduleSizeByName machine kernel filename) (argsSize args)
  others : ∀ slot, slot ≠ window.slot → next.tasks slot = kernel.tasks slot
  initialTss : next.initialTss = kernel.initialTss
  taskId : next.taskId = kernel.taskId + 1
  gdt : next.gdt = Function.update kernel.gdt (gdtFirstTaskEntry + window.slot.val)
    (gdtMakeTss (machine.layout.taskTss window.slot) dplKernel)
  ram : next.ram =
    (allocFor machine kernel (moduleSizeByName machine kernel filename) (argsSize args)).ram
  colors : next.colors = kernel.colors
  cpu : next.cpu = { kernel.cpu with cr3 := machine.layout.task window.slot }
  saved : window.pagedir = kernel.cpu.cr3
  pending : window.pending = copies (Stores.writeAll machine.stack (tmpArgvStores 0 args.argv))
    (moduleAddrByName machine kernel filename) (moduleSizeByName machine kernel filename) args
  stays : staysInTmpArgv args = true

theorem Begun.of_copying {machine : Machine} {kernel next : Kernel} {filename : CString}
    {args : Arguments} {window : Window}
    (begun : taskLoadBegin machine kernel filename args = some (.copying next window)) :
    Begun machine kernel filename args next window := by
  rcases taskLoadBegin_copying begun with ⟨created, made, rfl, saved, pending, stays⟩
  rcases taskCreate_some made with ⟨free, earlier, console, rfl⟩
  constructor
  case created => exact Function.update_self ..
  case others => exact fun slot different => Function.update_of_ne different ..
  case free => exact free
  case earlier => exact earlier
  case saved => exact saved
  case pending => exact pending
  case stays => exact stays
  all_goals rfl

/-! ## Releasing -/

/-- A release takes `in_use` from its task, and leaves all other fields of the
table. -/
theorem taskFree_tasks (kernel : Kernel) (slot other : Slot) :
    (taskFree kernel slot).tasks other = { kernel.tasks other with
      inUse := if other = slot then false else (kernel.tasks other).inUse } := by
  by_cases same : other = slot
  · subst same
    simp [taskFree]
  · simp [taskFree, same]

@[simp] theorem Kernel.termSetcolors_tasks (kernel : Kernel) (colors : TermColors) :
    (kernel.termSetcolors colors).tasks = kernel.tasks := rfl

/-! ## Single bytes -/

def Kernel.setByte (kernel : Kernel) (physical : BitVec 32) (value : UInt8) : Kernel :=
  { kernel with
    ram := { kernel.ram with bytes := Function.update kernel.ram.bytes physical value } }

theorem storeByte_some {machine : Machine} {kernel next : Kernel} {physical : BitVec 32}
    {value : UInt8} (stored : kernel.storeByte machine physical value = some next) :
    next = kernel.setByte physical value ∧ kernel.holdsRecord machine physical = false := by
  simp only [Kernel.storeByte] at stored
  split at stored
  next => cases stored
  next plain =>
    cases stored
    exact ⟨rfl, by simpa using plain⟩

theorem copyByte_some {machine : Machine} {kernel next : Kernel} {copy : Copy}
    (copied : copyByte machine kernel copy = some next) :
    ∃ value found, kernel.read machine copy.src = some value ∧
      kernel.translate machine copy.dst = some found ∧
      kernel.holdsRecord machine found.physical = false ∧
      next = kernel.setByte found.physical value := by
  simp only [copyByte, Option.bind_eq_bind, Option.bind_eq_some_iff] at copied
  rcases copied with ⟨value, read, found, translated, stored⟩
  rcases storeByte_some stored with ⟨rfl, plain⟩
  exact ⟨value, found, read, translated, plain, rfl⟩

theorem userStore_some {machine : Machine} {kernel next : Kernel} {address : BitVec 32}
    {value : UInt8} (stored : userStore machine kernel address value = some next) :
    ∃ found, kernel.translate machine address = some found ∧ found.user = true ∧
      next = kernel.setByte found.physical value := by
  simp only [userStore, Option.bind_eq_bind, Option.bind_eq_some_iff] at stored
  rcases stored with ⟨found, translated, stored⟩
  split at stored
  next allowed =>
    rcases storeByte_some stored with ⟨rfl, _⟩
    exact ⟨found, translated, by simp_all, rfl⟩
  next => cases stored

/-! ## Task switches -/

def Task.record (task : Task) : Task := { task with tss := .zero }

structure Task.SameFields (left right : Task) : Prop where
  pagedir : left.pagedir = right.pagedir
  pageTables : left.pageTables = right.pageTables
  inUse : left.inUse = right.inUse
  id : left.id = right.id
  tssSelector : left.tssSelector = right.tssSelector
  virtAddr : left.virtAddr = right.virtAddr
  addrSpaceSize : left.addrSpaceSize = right.addrSpaceSize

theorem Task.fields_of_record {left right : Task} (same : left.record = right.record) :
    left.SameFields right := by
  simp only [Task.record, Task.mk.injEq] at same
  rcases same with ⟨pagedir, _, pageTables, inUse, id, tssSelector, virtAddr, addrSpaceSize⟩
  exact ⟨pagedir, pageTables, inUse, id, tssSelector, virtAddr, addrSpaceSize⟩

namespace Kernel

@[simp] theorem setTss_taskId (kernel : Kernel) (ref : TssRef) (tss : Tss) :
    (kernel.setTss ref tss).taskId = kernel.taskId := by cases ref <;> rfl

@[simp] theorem setTss_gdt (kernel : Kernel) (ref : TssRef) (tss : Tss) :
    (kernel.setTss ref tss).gdt = kernel.gdt := by cases ref <;> rfl

@[simp] theorem setTss_ram (kernel : Kernel) (ref : TssRef) (tss : Tss) :
    (kernel.setTss ref tss).ram = kernel.ram := by cases ref <;> rfl

@[simp] theorem setTss_colors (kernel : Kernel) (ref : TssRef) (tss : Tss) :
    (kernel.setTss ref tss).colors = kernel.colors := by cases ref <;> rfl

@[simp] theorem setTss_cpu (kernel : Kernel) (ref : TssRef) (tss : Tss) :
    (kernel.setTss ref tss).cpu = kernel.cpu := by cases ref <;> rfl

theorem getTss_setTss (kernel : Kernel) (ref other : TssRef) (tss : Tss) :
    (kernel.setTss ref tss).getTss other = if other = ref then tss else kernel.getTss other := by
  cases ref with
  | initial => cases other <;> simp [setTss, getTss]
  | task slot =>
      cases other with
      | initial => simp [setTss, getTss]
      | task other =>
          by_cases same : other = slot
          · subst same
            simp [setTss, getTss]
          · simp [setTss, getTss, same]

private theorem setTss_record (kernel : Kernel) (ref : TssRef) (tss : Tss) (slot : Slot) :
    ((kernel.setTss ref tss).tasks slot).record = (kernel.tasks slot).record := by
  cases ref with
  | initial => rfl
  | task other =>
      by_cases same : slot = other
      · subst same
        simp [setTss, Task.record]
      · simp [setTss, same]

/-- What a task switch leaves as it was. -/
structure SwitchFrame (kernel next : Kernel) : Prop where
  record : ∀ slot, (next.tasks slot).record = (kernel.tasks slot).record
  taskId : next.taskId = kernel.taskId
  ram : next.ram = kernel.ram
  colors : next.colors = kernel.colors
  cr3 : ∀ ref, (next.getTss ref).cr3 = (kernel.getTss ref).cr3

theorem farCall_some {machine : Machine} {kernel next : Kernel} {selector : BitVec 16}
    (called : kernel.farCall machine selector = some next) :
    ∃ outgoing incoming, kernel.tssOf machine busyTss kernel.cpu.tr = some outgoing ∧
      kernel.tssOf machine availableTss selector = some incoming ∧
      next.gdt = Function.update kernel.gdt (selectorIndex selector)
        (setBusy (kernel.gdt (selectorIndex selector))) ∧
      next.cpu.tr = selector ∧
      next.cpu.cr3 = (kernel.getTss incoming).cr3 ∧
      (∀ ref, (next.getTss ref).previousTaskLink =
        if ref = incoming then kernel.cpu.tr else (kernel.getTss ref).previousTaskLink) ∧
      SwitchFrame kernel next := by
  simp only [farCall, Option.bind_eq_bind, Option.bind_eq_some_iff] at called
  rcases called with ⟨outgoing, outgoingOf, incoming, incomingOf, equal⟩
  cases equal
  refine ⟨outgoing, incoming, outgoingOf, incomingOf, ?_, rfl, ?_, ?_, ?_⟩
  · simp [updateGdt]
  · simp only [getTss_setTss]
    by_cases same : incoming = outgoing <;> simp [same]
  · intro ref
    change (getTss (setTss _ _ _) ref).previousTaskLink = _
    simp only [getTss_setTss]
    by_cases target : ref = incoming
    · simp [target]
    · rw [if_neg target, if_neg target]
      by_cases source : ref = outgoing <;> simp [source]
  · refine ⟨fun slot => ?_, ?_, ?_, ?_, fun ref => ?_⟩
    · exact (setTss_record _ incoming _ slot).trans (setTss_record _ outgoing _ slot)
    · simp [updateGdt]
    · simp [updateGdt]
    · simp [updateGdt]
    · change (getTss (setTss _ _ _) ref).cr3 = _
      simp only [getTss_setTss]
      by_cases target : ref = incoming
      · subst target
        by_cases source : ref = outgoing <;> simp [source]
      · rw [if_neg target]
        by_cases source : ref = outgoing <;> simp [source]

theorem iret_some {machine : Machine} {kernel next : Kernel}
    (returned : kernel.iret machine = some next) :
    ∃ outgoing incoming, kernel.tssOf machine busyTss kernel.cpu.tr = some outgoing ∧
      kernel.tssOf machine busyTss (kernel.getTss outgoing).previousTaskLink = some incoming ∧
      next.gdt = Function.update kernel.gdt (selectorIndex kernel.cpu.tr)
        (clearBusy (kernel.gdt (selectorIndex kernel.cpu.tr))) ∧
      next.cpu.tr = (kernel.getTss outgoing).previousTaskLink ∧
      next.cpu.cr3 = (kernel.getTss incoming).cr3 ∧
      (∀ ref, (next.getTss ref).previousTaskLink = (kernel.getTss ref).previousTaskLink) ∧
      SwitchFrame kernel next := by
  simp only [iret, Option.bind_eq_bind, Option.bind_eq_some_iff] at returned
  rcases returned with ⟨outgoing, outgoingOf, incoming, incomingOf, equal⟩
  split at equal
  next => cases equal
  next =>
    cases equal
    refine ⟨outgoing, incoming, outgoingOf, incomingOf, ?_, rfl, ?_, ?_, ?_⟩
    · simp [updateGdt]
    · simp only [getTss_setTss]
      by_cases same : incoming = outgoing <;> simp [same]
    · intro ref
      change (getTss (setTss _ _ _) ref).previousTaskLink = _
      simp only [getTss_setTss]
      by_cases source : ref = outgoing <;> simp [source]
    · refine ⟨fun slot => setTss_record _ outgoing _ slot, ?_, ?_, ?_, fun ref => ?_⟩
      · simp [updateGdt]
      · simp [updateGdt]
      · simp [updateGdt]
      · change (getTss (setTss _ _ _) ref).cr3 = _
        simp only [getTss_setTss]
        by_cases source : ref = outgoing <;> simp [source]

end Kernel

end Yoctos.Tasks
