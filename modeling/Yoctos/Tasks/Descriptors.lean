import Yoctos.Tasks.TaskTable

/-! # Selectors, descriptors and back links over whole runs

Every task-state segment that exists has a selector, a descriptor and an
address. The invariant ties the three together, and the task register and the
back links to the stack of suspended calls.
-/

namespace Yoctos.Tasks

open Yoctos.Common Yoctos.Memory Yoctos.Transition

/-! ## Segments and their names -/

namespace TssRef

def entry : TssRef → Nat
  | .initial => gdtInitialTss
  | .task slot => gdtFirstTaskEntry + slot.val

def selector (ref : TssRef) : BitVec 16 := (gdtEntryToSelector ref.entry).setWidth 16

def address (layout : Layout) : TssRef → BitVec 32
  | .initial => layout.initialTss
  | .task slot => layout.taskTss slot

theorem entry_lt (ref : TssRef) : ref.entry < kernelTssIndex + 1 + maxTaskCount := by
  cases ref with
  | initial => decide
  | task slot =>
      have bound := slot.isLt
      simp only [entry, gdtFirstTaskEntry, kernelTssIndex, maxTaskCount]
      omega

theorem entry_injective {left right : TssRef} (equal : left.entry = right.entry) :
    left = right := by
  cases left <;> cases right <;>
    simp only [entry, gdtInitialTss, gdtFirstTaskEntry] at equal
  · rfl
  · omega
  · omega
  · exact congrArg TssRef.task (Fin.ext (Nat.add_left_cancel equal))

theorem selectorIndex_selector (ref : TssRef) : selectorIndex ref.selector = ref.entry := by
  have bound := ref.entry_lt
  simp only [kernelTssIndex, maxTaskCount] at bound
  simp only [selector, selectorIndex, gdtEntryToSelector, Nat.shiftLeft_eq, BitVec.toNat_setWidth,
    BitVec.toNat_ofNat]
  omega

theorem selector_injective {left right : TssRef} (equal : left.selector = right.selector) :
    left = right := by
  apply entry_injective
  rw [← selectorIndex_selector, ← selectorIndex_selector, equal]

end TssRef

/-! ## The layout tells the segments apart -/

namespace Layout.WellFormed

variable {layout : Layout} (wellFormed : layout.WellFormed)

include wellFormed

private theorem tasks_fit : layout.tasks.toNat + maxTaskCount * sizeofTask ≤ 2 ^ 32 := by
  have bounds := wellFormed.image (layout.tasks, maxTaskCount * sizeofTask) (by simp [objects])
  exact bounds.2.trans wellFormed.image_fits

theorem task_toNat (slot : Slot) :
    (layout.task slot).toNat = layout.tasks.toNat + slot.val * sizeofTask := by
  have fit := wellFormed.tasks_fit
  have bound := slot.isLt
  have offset : (BitVec.ofNat 32 (slot * sizeofTask)).toNat = slot.val * sizeofTask := by
    rw [BitVec.toNat_ofNat, Nat.mod_eq_of_lt]
    rw [sizeofTask]
    omega
  have whole : layout.tasks.toNat + slot.val * sizeofTask < 2 ^ 32 := by
    rw [maxTaskCount, sizeofTask] at fit
    rw [sizeofTask]
    omega
  rw [task, BitVec.toNat_add, offset, Nat.mod_eq_of_lt whole]

private theorem taskTss_toNat (slot : Slot) :
    (layout.taskTss slot).toNat = layout.tasks.toNat + slot.val * sizeofTask + 0x1000 := by
  have fit := wellFormed.tasks_fit
  have bound := slot.isLt
  simp only [maxTaskCount, sizeofTask] at fit
  rw [taskTss, BitVec.toNat_add, wellFormed.task_toNat]
  simp only [offsetofTss, sizeofTask]
  change (_ + 0x1000) % 2 ^ 32 = _
  omega

theorem slotAt_task (slot : Slot) : layout.slotAt (layout.task slot) = some slot := by
  rw [slotAt]
  cases found : allSlots.find? fun other => layout.task other == layout.task slot with
  | none => simpa using List.find?_eq_none.mp found slot (mem_allSlots slot)
  | some other =>
      have equal : layout.task other = layout.task slot := by simpa using List.find?_some found
      have values := congrArg BitVec.toNat equal
      rw [wellFormed.task_toNat, wellFormed.task_toNat] at values
      simp only [sizeofTask] at values
      have same : other = slot := Fin.ext (by omega)
      rw [same]

private theorem slotOfTss_taskTss (slot : Slot) :
    layout.slotOfTss (layout.taskTss slot) = some slot := by
  rw [slotOfTss]
  cases found : allSlots.find? fun other => layout.taskTss other == layout.taskTss slot with
  | none => simpa using List.find?_eq_none.mp found slot (mem_allSlots slot)
  | some other =>
      have equal : layout.taskTss other = layout.taskTss slot := by
        simpa using List.find?_some found
      have values := congrArg BitVec.toNat equal
      rw [wellFormed.taskTss_toNat, wellFormed.taskTss_toNat] at values
      simp only [sizeofTask] at values
      have same : other = slot := Fin.ext (by omega)
      rw [same]

private theorem tasks_apart {address : BitVec 32}
    (object : address = layout.initialTss ∨ address = layout.kernelPagedir) :
    address.toNat < layout.tasks.toNat ∨
      layout.tasks.toNat + maxTaskCount * sizeofTask ≤ address.toNat := by
  have disjoint := wellFormed.disjoint
  simp only [objects, List.pairwise_cons, List.mem_cons, sizeofTss, maxTaskCount,
    sizeofTask] at disjoint
  have initial := disjoint.2.2.1 (layout.initialTss, 104 + 8192) (by simp)
  have pagedir := disjoint.2.2.1 (layout.kernelPagedir, 4096) (by simp)
  simp only [maxTaskCount, sizeofTask]
  rcases object with rfl | rfl
  · simp only at initial
    omega
  · simp only at pagedir
    omega

private theorem taskTss_ne_initialTss (slot : Slot) : layout.taskTss slot ≠ layout.initialTss := by
  intro equal
  have apart := wellFormed.tasks_apart (.inl equal)
  have bound := slot.isLt
  rw [wellFormed.taskTss_toNat] at apart
  simp only [maxTaskCount, sizeofTask] at apart
  omega

private theorem task_ne_kernelPagedir (slot : Slot) : layout.task slot ≠ layout.kernelPagedir := by
  intro equal
  have apart := wellFormed.tasks_apart (.inr equal)
  have bound := slot.isLt
  rw [wellFormed.task_toNat] at apart
  simp only [maxTaskCount, sizeofTask] at apart
  omega

theorem slotAt_kernelPagedir : layout.slotAt layout.kernelPagedir = none := by
  rw [slotAt, List.find?_eq_none]
  intro slot _
  simpa using wellFormed.task_ne_kernelPagedir slot

theorem tssAt_address (ref : TssRef) : layout.tssAt (ref.address layout) = some ref := by
  cases ref with
  | initial => simp [tssAt, TssRef.address]
  | task slot =>
      rw [tssAt, TssRef.address, if_neg (wellFormed.taskTss_ne_initialTss slot),
        wellFormed.slotOfTss_taskTss slot]
      rfl

end Layout.WellFormed

/-! ## The invariant -/

/-- The segment of the code that is suspended below, or running on, a stack. -/
def contextTss : List Activation → TssRef
  | [] => .initial
  | activation :: _ => .task activation.slot

def System.Live (system : System) : TssRef → Prop
  | .initial => True
  | .task slot => slot ∈ system.created

theorem System.Live.mono {before after : System} {ref : TssRef} (live : after.Live ref)
    (old : ∀ slot ∈ after.created, slot ∈ before.created) : before.Live ref := by
  cases ref with
  | initial => trivial
  | task slot => exact old slot live

def IsDescriptorOf (layout : Layout) (ref : TssRef) (entry : GdtEntry) : Prop :=
  ∃ type, (type = Kernel.availableTss ∨ type = Kernel.busyTss) ∧
    entry = { gdtMakeTss (ref.address layout) dplKernel with type := type }

structure Descriptors (machine : Machine) (system : System) : Prop where
  selector : ∀ slot ∈ system.created,
    (system.kernel.tasks slot).tssSelector = (TssRef.task slot).selector
  entry : ∀ ref, system.Live ref →
    IsDescriptorOf machine.layout ref (system.kernel.gdt ref.entry)
  fixed : ∀ entry, (entry ≤ gdtInitialTss ∨ gdtFirstTaskEntry + maxTaskCount ≤ entry) →
    system.kernel.gdt entry = (tasksInit machine).gdt entry
  tr : system.kernel.cpu.tr = (contextTss system.stack).selector
  linked : ∀ activation rest, activation :: rest <:+ system.stack →
    (system.kernel.getTss (.task activation.slot)).previousTaskLink = (contextTss rest).selector

namespace IsDescriptorOf

variable {layout : Layout} {ref : TssRef} {entry : GdtEntry}

theorem gdtMakeTss (layout : Layout) (ref : TssRef) :
    IsDescriptorOf layout ref (Memory.gdtMakeTss (ref.address layout) dplKernel) :=
  ⟨Kernel.availableTss, .inl rfl, rfl⟩

theorem setBusy (described : IsDescriptorOf layout ref entry) :
    IsDescriptorOf layout ref (Tasks.setBusy entry) := by
  rcases described with ⟨type, rfl | rfl, rfl⟩ <;>
    exact ⟨_, .inr rfl, by simp [Tasks.setBusy, Kernel.availableTss, Kernel.busyTss]⟩

theorem clearBusy (described : IsDescriptorOf layout ref entry) :
    IsDescriptorOf layout ref (Tasks.clearBusy entry) := by
  rcases described with ⟨type, rfl | rfl, rfl⟩ <;>
    exact ⟨_, .inl rfl, by simp [Tasks.clearBusy, Kernel.availableTss, Kernel.busyTss]⟩

theorem descriptor (described : IsDescriptorOf layout ref entry) :
    ∃ type, (type = Kernel.availableTss ∨ type = Kernel.busyTss) ∧
      entry.descriptor =
        { base := ref.address layout
          limit := BitVec.ofNat 20 (sizeofTss - 1)
          type := type
          s := 0
          dpl := 0
          present := 1
          avl := 0
          l := 0
          db := 0
          granularity := 0 } := by
  rcases described with ⟨type, kind, rfl⟩
  refine ⟨type, kind, ?_⟩
  have decoded := descriptor_gdtMakeTss (ref.address layout) dplKernel
  rw [GdtEntry.descriptor_eq] at decoded ⊢
  simp only [SegmentDescriptor.mk.injEq] at decoded ⊢
  exact ⟨decoded.1, decoded.2.1, trivial, decoded.2.2.2⟩

end IsDescriptorOf

namespace Descriptors

variable {machine : Machine} {system next : System}

theorem tssOf_eq (descriptors : Descriptors machine system) {ref found : TssRef} {type : BitVec 4}
    (live : system.Live ref)
    (resolved : system.kernel.tssOf machine type ref.selector = some found) : found = ref := by
  rw [Kernel.tssOf, ref.selectorIndex_selector] at resolved
  rcases (descriptors.entry ref live).descriptor with ⟨_, _, decoded⟩
  simp only [decoded] at resolved
  split at resolved
  next =>
    rw [machine.wellFormed.layout.tssAt_address ref] at resolved
    exact (Option.some.inj resolved).symm
  next => cases resolved

theorem live_context (system : System) : system.Live (contextTss system.stack) := by
  cases stacked : system.stack with
  | nil => trivial
  | cons activation rest => exact System.mem_created_of_suffix (by rw [stacked])

/-- The task register names the task at the top of the stack. -/
theorem tr_of_stacked (descriptors : Descriptors machine system) {activation : Activation}
    {rest : List Activation} (stacked : system.stack = activation :: rest) :
    system.kernel.cpu.tr = (TssRef.task activation.slot).selector := by
  rw [descriptors.tr, stacked]
  rfl

theorem initial (machine : Machine) : Descriptors machine (System.initial machine) where
  selector := by simp [System.created, System.initial, Phase.created]
  entry ref live := by
    cases ref with
    | initial => exact (IsDescriptorOf.gdtMakeTss machine.layout .initial).setBusy
    | task slot => simp [System.Live, System.created, System.initial, Phase.created] at live
  fixed _ _ := rfl
  tr := rfl
  linked activation rest below := by simp [System.initial] at below

theorem of_unchanged (descriptors : Descriptors machine system)
    (created : next.created = system.created) (stack : next.stack = system.stack)
    (tasks : next.kernel.tasks = system.kernel.tasks) (gdt : next.kernel.gdt = system.kernel.gdt)
    (tr : next.kernel.cpu.tr = system.kernel.cpu.tr) : Descriptors machine next where
  selector slot member := by
    rw [tasks]
    exact descriptors.selector slot (created ▸ member)
  entry ref live := by
    rw [gdt]
    exact descriptors.entry ref (live.mono fun slot member => created ▸ member)
  fixed entry outside := by
    rw [gdt]
    exact descriptors.fixed entry outside
  tr := by
    rw [tr, stack]
    exact descriptors.tr
  linked activation rest below := by
    rw [stack] at below
    simp only [Kernel.getTss, tasks]
    exact descriptors.linked activation rest below

theorem create (descriptors : Descriptors machine system) (table : TaskTable system)
    {filename : CString} {args : Arguments} {kernel : Kernel} {window : Window}
    (running : system.phase = .running)
    (begun : taskLoadBegin machine system.kernel filename args = some (.copying kernel window)) :
    Descriptors machine { system with kernel := kernel, phase := .copying window } := by
  have begun := Begun.of_copying begun
  have created := System.created_begun running kernel window
  have new := table.slot_new begun
  have old {slot : Slot} (member : slot ∈ System.created
      { system with kernel := kernel, phase := .copying window }) (different : slot ≠ window.slot) :
      slot ∈ system.created := by
    rw [created] at member
    exact (List.mem_cons.mp member).resolve_left different
  constructor
  · intro slot member
    by_cases same : slot = window.slot
    · rw [same, begun.created]
      rfl
    · rw [begun.others slot same]
      exact descriptors.selector slot (old member same)
  · intro ref live
    rw [begun.gdt]
    change IsDescriptorOf _ ref
      (Function.update system.kernel.gdt (TssRef.task window.slot).entry _ ref.entry)
    by_cases same : ref = .task window.slot
    · rw [same, Function.update_self]
      exact .gdtMakeTss machine.layout (.task window.slot)
    · rw [Function.update_of_ne (fun equal => same (TssRef.entry_injective equal))]
      apply descriptors.entry
      cases ref with
      | initial => trivial
      | task slot => exact old live fun equal => same (congrArg TssRef.task equal)
  · intro entry outside
    have bound := window.slot.isLt
    rw [begun.gdt, Function.update_of_ne]
    · exact descriptors.fixed entry outside
    · simp only [gdtInitialTss, gdtFirstTaskEntry, maxTaskCount] at outside ⊢
      omega
  · rw [begun.cpu]
    exact descriptors.tr
  · intro activation rest below
    have member : activation.slot ∈ system.created := System.mem_created_of_suffix below
    have different : activation.slot ≠ window.slot := fun same => new (same ▸ member)
    simp only [Kernel.getTss, begun.others _ different]
    exact descriptors.linked activation rest below

/-- A switch toggles the busy bit of one existing segment's descriptor. -/
theorem entry_of_update (descriptors : Descriptors machine system) {target : TssRef}
    {change : GdtEntry → GdtEntry}
    (keeps : ∀ entry, IsDescriptorOf machine.layout target entry →
      IsDescriptorOf machine.layout target (change entry))
    {ref : TssRef} (live : system.Live ref) :
    IsDescriptorOf machine.layout ref
      (Function.update system.kernel.gdt (selectorIndex target.selector)
        (change (system.kernel.gdt (selectorIndex target.selector))) ref.entry) := by
  rw [target.selectorIndex_selector]
  by_cases same : ref = target
  · subst same
    rw [Function.update_self]
    exact keeps _ (descriptors.entry ref live)
  · rw [Function.update_of_ne (fun equal => same (TssRef.entry_injective equal))]
    exact descriptors.entry ref live

private theorem fixed_of_update (descriptors : Descriptors machine system) (slot : Slot)
    {value : GdtEntry} {entry : Nat}
    (outside : entry ≤ gdtInitialTss ∨ gdtFirstTaskEntry + maxTaskCount ≤ entry) :
    Function.update system.kernel.gdt (selectorIndex (TssRef.task slot).selector) value entry =
      (tasksInit machine).gdt entry := by
  have bound := slot.isLt
  rw [TssRef.selectorIndex_selector, Function.update_of_ne]
  · exact descriptors.fixed entry outside
  · simp only [TssRef.entry, gdtInitialTss, gdtFirstTaskEntry, maxTaskCount] at outside ⊢
    omega

theorem taskSwitch (descriptors : Descriptors machine system) (table : TaskTable system)
    {slot : Slot} {registers : Registers} {kernel : Kernel} (loaded : system.phase = .loaded slot)
    (switched : (system.kernel.setRegisters registers).farCall machine
      (system.kernel.tasks slot).tssSelector = some kernel) :
    Descriptors machine ⟨kernel, .running, ⟨slot, system.kernel.colors⟩ :: system.stack⟩ := by
  have createdEq := System.created_of_loaded loaded
  have member : slot ∈ system.created := by simp [createdEq]
  rw [descriptors.selector slot member] at switched
  rcases Kernel.farCall_some switched with
    ⟨_, incoming, _, resolved, gdt, tr, _, links, frame⟩
  have target : incoming = .task slot := descriptors.tssOf_eq member resolved
  subst target
  have sameCreated : System.created
      ⟨kernel, .running, ⟨slot, system.kernel.colors⟩ :: system.stack⟩ = system.created := by
    rw [createdEq]
    rfl
  constructor
  · intro other otherMember
    rw [sameCreated] at otherMember
    rw [(Task.fields_of_record (frame.record other)).tssSelector]
    exact descriptors.selector other otherMember
  · intro ref live
    rw [gdt]
    apply descriptors.entry_of_update fun _ => IsDescriptorOf.setBusy
    exact live.mono fun other otherMember => sameCreated ▸ otherMember
  · intro entry outside
    rw [gdt]
    exact descriptors.fixed_of_update slot outside
  · exact tr
  · intro activation rest below
    rw [links]
    rcases List.suffix_cons_iff.mp below with whole | older
    · rcases List.cons_eq_cons.mp whole with ⟨rfl, rfl⟩
      rw [if_pos rfl]
      exact descriptors.tr
    · have nodup := table.nodup
      rw [createdEq, List.nodup_cons] at nodup
      rw [if_neg]
      · exact descriptors.linked activation rest older
      · intro same
        apply nodup.1
        rw [← TssRef.task.inj same]
        exact List.mem_map_of_mem (older.subset (List.mem_cons_self ..))

theorem iret (descriptors : Descriptors machine system) {activation : Activation}
    {rest : List Activation} {kernel : Kernel} (running : system.phase = .running)
    (stacked : system.stack = activation :: rest)
    (switched : system.kernel.iret machine = some kernel) :
    Descriptors machine ⟨kernel, .returned activation, rest⟩ := by
  have createdEq := System.created_of_running running
  have member : activation.slot ∈ system.created := System.mem_created_of_suffix (by rw [stacked])
  rcases Kernel.iret_some switched with
    ⟨outgoing, _, current, _, gdt, tr, _, links, frame⟩
  rw [descriptors.tr_of_stacked stacked] at current gdt
  have source : outgoing = .task activation.slot := descriptors.tssOf_eq member current
  subst source
  have sameCreated : System.created ⟨kernel, .returned activation, rest⟩ = system.created := by
    rw [createdEq, stacked]
    rfl
  constructor
  · intro other otherMember
    rw [(Task.fields_of_record (frame.record other)).tssSelector]
    exact descriptors.selector other (sameCreated ▸ otherMember)
  · intro ref live
    rw [gdt]
    apply descriptors.entry_of_update fun _ => IsDescriptorOf.clearBusy
    exact live.mono fun other otherMember => sameCreated ▸ otherMember
  · intro entry outside
    rw [gdt]
    exact descriptors.fixed_of_update activation.slot outside
  · rw [tr]
    exact descriptors.linked activation rest (by rw [stacked])
  · intro other older below
    rw [links]
    apply descriptors.linked other older
    rw [stacked]
    exact below.trans (List.suffix_cons _ _)

theorem free (descriptors : Descriptors machine system) {activation : Activation}
    (returned : system.phase = .returned activation) :
    Descriptors machine { system with
      kernel := taskFree (system.kernel.termSetcolors activation.cols) activation.slot
      phase := .running } := by
  have old : ∀ slot ∈ System.created { system with
      kernel := taskFree (system.kernel.termSetcolors activation.cols) activation.slot
      phase := .running }, slot ∈ system.created := by
    intro slot member
    rw [System.created_of_returned returned]
    exact List.mem_cons_of_mem _ member
  constructor
  · intro slot member
    rw [taskFree_tasks]
    exact descriptors.selector slot (old slot member)
  · intro ref live
    exact descriptors.entry ref (live.mono old)
  · exact descriptors.fixed
  · exact descriptors.tr
  · intro other rest below
    simp only [Kernel.getTss, taskFree_tasks]
    exact descriptors.linked other rest below

theorem step {event : Event} (descriptors : Descriptors machine system) (table : TaskTable system)
    (stepped : Tasks.step machine system event = some next) : Descriptors machine next := by
  cases step_cases stepped with
  | execFailed running begun =>
      rcases taskLoadBegin_failed begun with ⟨console, rfl⟩
      exact descriptors.of_unchanged rfl rfl rfl rfl rfl
  | execLoading running begun => exact descriptors.create table running begun
  | copy copying copied =>
      rcases copyByte_some copied with ⟨_, _, _, _, _, rfl⟩
      have created := System.created_of_copying copying
      exact descriptors.of_unchanged created.symm rfl rfl rfl rfl
  | restore copying =>
      have created := System.created_of_copying copying
      exact descriptors.of_unchanged created.symm rfl rfl rfl rfl
  | taskSwitch loaded switched => exact descriptors.taskSwitch table loaded switched
  | iret running stacked switched => exact descriptors.iret running stacked switched
  | taskFree returned => exact descriptors.free returned
  | termSetcolors running => exact descriptors.of_unchanged rfl rfl rfl rfl rfl
  | store running nested stored =>
      rcases userStore_some stored with ⟨_, _, _, rfl⟩
      exact descriptors.of_unchanged rfl rfl rfl rfl rfl
  | compute running nested => exact descriptors.of_unchanged rfl rfl rfl rfl rfl

theorem of_reachable (reachable : Reachable machine system) : Descriptors machine system := by
  have preserved : ∀ before event after, TaskTable before ∧ Descriptors machine before →
      Tasks.step machine before event = some after →
      TaskTable after ∧ Descriptors machine after := by
    intro before event after invariant stepped
    exact ⟨invariant.1.step stepped, invariant.2.step invariant.1 stepped⟩
  exact (reachable.preserves preserved ⟨.initial machine, .initial machine⟩).2

end Descriptors

/-! ## Looking tasks up by selector -/

private theorem TssRef.widened_selector (ref : TssRef) :
    ref.selector.setWidth 32 = gdtEntryToSelector ref.entry := by
  have bound := ref.entry_lt
  simp only [kernelTssIndex, maxTaskCount] at bound
  apply BitVec.eq_of_toNat_eq
  simp only [selector, gdtEntryToSelector, Nat.shiftLeft_eq, BitVec.toNat_setWidth,
    BitVec.toNat_ofNat]
  omega

theorem getTaskBySelector_eq_some_iff (selector : BitVec 16) (slot : Slot) :
    getTaskBySelector selector = some slot ↔ selector = (TssRef.task slot).selector := by
  have widened (other : Slot) :
      (selector.setWidth 32 == gdtEntryToSelector (gdtFirstTaskEntry + other.val)) = true ↔
        selector = (TssRef.task other).selector := by
    rw [beq_iff_eq]
    constructor
    · intro equal
      have narrowed := congrArg (BitVec.setWidth 16) equal
      rwa [BitVec.setWidth_setWidth_of_le _ (by decide), BitVec.setWidth_eq] at narrowed
    · rintro rfl
      exact (TssRef.task other).widened_selector
  rw [getTaskBySelector, findSelector_eq_find? walksFrom_allSlots]
  constructor
  · intro found
    have accepted := List.find?_some found
    exact (widened slot).mp accepted
  · intro equal
    cases found : allSlots.find? fun other =>
        selector.setWidth 32 == gdtEntryToSelector (gdtFirstTaskEntry + other.val) with
    | none =>
        exact absurd ((widened slot).mpr equal) (List.find?_eq_none.mp found slot (mem_allSlots _))
    | some other =>
        have accepted := List.find?_some found
        have same := TssRef.selector_injective (((widened other).mp accepted).symm.trans equal)
        injection same with same
        rw [same]

theorem getTaskBySelector_eq_none {selector : BitVec 16}
    (other : ∀ slot, selector ≠ (TssRef.task slot).selector) :
    getTaskBySelector selector = none := by
  cases found : getTaskBySelector selector with
  | none => rfl
  | some slot => exact absurd ((getTaskBySelector_eq_some_iff selector slot).mp found) (other slot)

/-- The task table, the GDT and the selectors agree in every reachable state. -/
theorem descriptors_of_reachable {machine : Machine} {system : System}
    (reachable : Reachable machine system) :
    (∀ slot, (system.kernel.tasks slot).inUse = true →
      (system.kernel.tasks slot).tssSelector =
        (gdtEntryToSelector (kernelTssIndex + 1 + slot.val)).setWidth 16 ∧
      (∃ type, (type = Kernel.availableTss ∨ type = Kernel.busyTss) ∧
        (system.kernel.gdt (kernelTssIndex + 1 + slot.val)).descriptor =
          { base := machine.layout.taskTss slot
            limit := BitVec.ofNat 20 (sizeofTss - 1)
            type := type
            s := 0
            dpl := 0
            present := 1
            avl := 0
            l := 0
            db := 0
            granularity := 0 }) ∧
      getTaskBySelector (system.kernel.tasks slot).tssSelector = some slot) ∧
    (∀ entry, (entry ≤ kernelTssIndex ∨ kernelTssIndex + 1 + maxTaskCount ≤ entry) →
      system.kernel.gdt entry = (tasksInit machine).gdt entry) ∧
    (∀ selector : BitVec 16,
      (∀ slot : Slot, selector ≠
        (gdtEntryToSelector (kernelTssIndex + 1 + slot.val)).setWidth 16) →
      getTaskBySelector selector = none) := by
  have descriptors := Descriptors.of_reachable reachable
  refine ⟨fun slot used => ?_, descriptors.fixed, fun _ => getTaskBySelector_eq_none⟩
  have created := ((TaskTable.of_reachable reachable).inUse_iff slot).mp used
  have selector := descriptors.selector slot created
  refine ⟨selector, (descriptors.entry (.task slot) created).descriptor, ?_⟩
  exact (getTaskBySelector_eq_some_iff _ slot).mpr selector

theorem descriptors_of_shellRunning :
    (shellRunning.kernel.tasks 0).inUse = true ∧
    (shellRunning.kernel.tasks 0).tssSelector = 48 ∧
    getTaskBySelector (shellRunning.kernel.tasks 0).tssSelector = some 0 := by
  have used : (shellRunning.kernel.tasks 0).inUse = true := by decide +kernel
  have agrees := (descriptors_of_reachable shellRunning_reachable).1 0 used
  exact ⟨used, agrees.1, agrees.2.2⟩

end Yoctos.Tasks
