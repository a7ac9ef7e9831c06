import Yoctos.Foundation.Nesting
import Yoctos.Tasks.Effects
import Yoctos.Tasks.Reference

/-! # The task table over whole runs

The slots in use are the first ones of `tasks`, as many as there are nested
calls of `task_exec`.
-/

namespace Yoctos.Tasks

open Yoctos.Common Yoctos.Memory Yoctos.Transition

/-- The task of the innermost `task_exec`, while it is not the running one. -/
def Phase.created : Phase → List Slot
  | .running => []
  | .copying window => [window.slot]
  | .loaded slot => [slot]
  | .returned activation => [activation.slot]

private theorem Phase.running_of_created {phase : Phase} (none : phase.created = []) :
    phase = .running := by
  cases phase with
  | running => rfl
  | copying window => cases none
  | loaded slot => cases none
  | returned activation => cases none

namespace System

def created (system : System) : List Slot :=
  system.phase.created ++ system.stack.map Activation.slot

def depth (system : System) : Nat := system.created.length

variable {system : System}

theorem created_of_running (running : system.phase = .running) :
    system.created = system.stack.map Activation.slot := by
  rw [created, running, Phase.created, List.nil_append]

theorem created_of_copying {window : Window} (copying : system.phase = .copying window) :
    system.created = window.slot :: system.stack.map Activation.slot := by
  rw [created, copying, Phase.created, List.singleton_append]

theorem created_of_loaded {slot : Slot} (loaded : system.phase = .loaded slot) :
    system.created = slot :: system.stack.map Activation.slot := by
  rw [created, loaded, Phase.created, List.singleton_append]

theorem created_of_returned {activation : Activation}
    (returned : system.phase = .returned activation) :
    system.created = activation.slot :: system.stack.map Activation.slot := by
  rw [created, returned, Phase.created, List.singleton_append]

theorem mem_created_of_suffix {activation : Activation} {rest : List Activation}
    (below : activation :: rest <:+ system.stack) : activation.slot ∈ system.created :=
  List.mem_append_right _ (List.mem_map_of_mem (below.subset (List.mem_cons_self ..)))

theorem created_begun (running : system.phase = .running) (kernel : Kernel) (window : Window) :
    System.created { system with kernel := kernel, phase := .copying window } =
      window.slot :: system.created := by
  rw [created_of_running running]
  rfl

end System

/-! ## Steps and the created tasks -/

/-- A step that creates no task and frees none keeps every task's record. -/
structure SameTable (before after : System) : Prop where
  created : after.created = before.created
  record : ∀ slot, (after.kernel.tasks slot).record = (before.kernel.tasks slot).record
  taskId : after.kernel.taskId = before.kernel.taskId
  tables : after.kernel.ram.tables = before.kernel.ram.tables
  frames : after.kernel.ram.frames = before.kernel.ram.frames

inductive TableStep (machine : Machine) (before : System) (event : Event) (after : System) : Prop
  | same (same : SameTable before after)
  | create {filename : CString} {args : Arguments} {kernel : Kernel} {window : Window}
      (called : event = .taskExec filename args) (running : before.phase = .running)
      (begun : taskLoadBegin machine before.kernel filename args = some (.copying kernel window))
      (equal : after = { before with kernel := kernel, phase := .copying window })
  | free {activation : Activation} (returned : before.phase = .returned activation)
      (equal : after =
        { before with
          kernel := taskFree (before.kernel.termSetcolors activation.cols) activation.slot
          phase := .running })

theorem tableStep {machine : Machine} {before after : System} {event : Event}
    (stepped : step machine before event = some after) : TableStep machine before event after := by
  cases step_cases stepped with
  | execFailed running begun =>
      rcases taskLoadBegin_failed begun with ⟨console, rfl⟩
      exact .same ⟨rfl, fun _ => rfl, rfl, rfl, rfl⟩
  | execLoading running begun => exact .create rfl running begun rfl
  | copy copying copied =>
      rcases copyByte_some copied with ⟨_, _, _, _, _, rfl⟩
      exact .same ⟨by rw [System.created_of_copying copying]; rfl, fun _ => rfl, rfl, rfl, rfl⟩
  | restore copying =>
      exact .same ⟨by rw [System.created_of_copying copying]; rfl, fun _ => rfl, rfl, rfl, rfl⟩
  | taskSwitch loaded switched =>
      rcases Kernel.farCall_some switched with ⟨_, _, _, _, _, _, _, _, frame⟩
      exact .same ⟨by rw [System.created_of_loaded loaded]; rfl, frame.record, frame.taskId,
        congrArg Ram.tables frame.ram, congrArg Ram.frames frame.ram⟩
  | iret running stacked switched =>
      rcases Kernel.iret_some switched with ⟨_, _, _, _, _, _, _, _, frame⟩
      exact .same ⟨by rw [System.created_of_running running, stacked]; rfl, frame.record,
        frame.taskId, congrArg Ram.tables frame.ram, congrArg Ram.frames frame.ram⟩
  | taskFree returned => exact .free returned rfl
  | termSetcolors running => exact .same ⟨rfl, fun _ => rfl, rfl, rfl, rfl⟩
  | store running nested stored =>
      rcases userStore_some stored with ⟨_, _, _, rfl⟩
      exact .same ⟨rfl, fun _ => rfl, rfl, rfl, rfl⟩
  | compute running nested => exact .same ⟨rfl, fun _ => rfl, rfl, rfl, rfl⟩

theorem nests (machine : Machine) : Nests (step machine) System.created := by
  intro before event after stepped
  cases tableStep stepped with
  | same same => exact .inl same.created
  | create called running begun equal =>
      subst equal
      exact .inr (.inl ⟨_, System.created_begun running _ _⟩)
  | free returned equal =>
      subst equal
      exact .inr (.inr ⟨_, System.created_of_returned returned⟩)

theorem create_of_pushed {machine : Machine} {before after : System} {event : Event}
    (stepped : step machine before event = some after)
    (pushed : after.created.length = before.created.length + 1) :
    before.phase = .running ∧ ∃ filename args kernel window, event = .taskExec filename args ∧
      taskLoadBegin machine before.kernel filename args = some (.copying kernel window) ∧
      after = { before with kernel := kernel, phase := .copying window } := by
  cases tableStep stepped with
  | same same => simp [same.created] at pushed
  | create called running begun equal => exact ⟨running, _, _, _, _, called, begun, equal⟩
  | free returned equal =>
      subst equal
      simp only [System.created, returned, Phase.created, List.length_append, List.length_nil,
        List.length_singleton] at pushed
      omega

theorem free_of_popped {machine : Machine} {before after : System} {event : Event}
    (stepped : step machine before event = some after)
    (popped : after.created.length < before.created.length) :
    ∃ activation, before.phase = .returned activation ∧ after =
      { before with
        kernel := taskFree (before.kernel.termSetcolors activation.cols) activation.slot
        phase := .running } := by
  cases tableStep stepped with
  | same same => simp [same.created] at popped
  | create called running begun equal =>
      subst equal
      simp only [System.created, running, Phase.created, List.length_append, List.length_nil,
        List.length_singleton] at popped
      omega
  | free returned equal => exact ⟨_, returned, equal⟩

/-! ## The invariant -/

structure TaskTable (system : System) : Prop where
  /-- The task at depth `k` is in slot `k`. -/
  created : system.created.map Fin.val = (List.range system.depth).reverse
  inUse : ∀ slot, (system.kernel.tasks slot).inUse = true ↔ slot.val < system.depth
  taskId : system.kernel.taskId = BitVec.ofNat 32 (system.depth + 1)
  ids : ∀ slot, slot.val < system.depth →
    (system.kernel.tasks slot).id = BitVec.ofNat 32 slot.val

namespace TaskTable

variable {machine : Machine} {system next : System}

theorem mem_created_iff (table : TaskTable system) (slot : Slot) :
    slot ∈ system.created ↔ slot.val < system.depth := by
  have member : slot.val ∈ system.created.map Fin.val ↔ slot ∈ system.created :=
    List.mem_map_of_injective Fin.val_injective
  rw [← member, table.created]
  simp

theorem nodup (table : TaskTable system) : system.created.Nodup := by
  apply List.Nodup.of_map Fin.val
  rw [table.created, List.nodup_reverse]
  exact List.nodup_range

theorem inUse_iff (table : TaskTable system) (slot : Slot) :
    (system.kernel.tasks slot).inUse = true ↔ slot ∈ system.created := by
  rw [table.inUse, table.mem_created_iff]

private theorem depth_le (table : TaskTable system) : system.depth ≤ maxTaskCount := by
  by_contra tooDeep
  have member : maxTaskCount ∈ system.created.map Fin.val := by
    rw [table.created]
    simpa using tooDeep
  rcases List.mem_map.mp member with ⟨slot, _, equal⟩
  have bound := slot.isLt
  simp only [maxTaskCount] at equal
  omega

theorem initial (machine : Machine) : TaskTable (System.initial machine) where
  created := rfl
  inUse := by
    simp [System.initial, tasksInit, Task.zero, System.depth, System.created, Phase.created]
  taskId := rfl
  ids := by simp [System.depth, System.created, System.initial, Phase.created]

theorem of_same (table : TaskTable system) (same : SameTable system next) : TaskTable next := by
  have depth : next.depth = system.depth := by simp [System.depth, same.created]
  have inUse (slot : Slot) : (next.kernel.tasks slot).inUse = (system.kernel.tasks slot).inUse :=
    (Task.fields_of_record (same.record slot)).inUse
  have id (slot : Slot) : (next.kernel.tasks slot).id = (system.kernel.tasks slot).id :=
    (Task.fields_of_record (same.record slot)).id
  constructor
  · rw [same.created, depth]
    exact table.created
  · intro slot
    rw [inUse, depth]
    exact table.inUse slot
  · rw [same.taskId, depth]
    exact table.taskId
  · intro slot below
    rw [id]
    exact table.ids slot (by rwa [depth] at below)

private theorem slot_of_create (table : TaskTable system) {slot : Slot}
    (free : (system.kernel.tasks slot).inUse = false)
    (before : ∀ earlier < slot, (system.kernel.tasks earlier).inUse = true) :
    slot.val = system.depth := by
  have notBelow : ¬ slot.val < system.depth := by
    rw [← table.inUse, free]
    simp
  by_contra different
  have above : system.depth < slot.val := by omega
  have used := before ⟨system.depth, by omega⟩ (Fin.lt_def.mpr above)
  exact absurd ((table.inUse _).mp used) (lt_irrefl _)

theorem slot_new (table : TaskTable system) {filename : CString} {args : Arguments}
    {kernel : Kernel} {window : Window}
    (begun : Begun machine system.kernel filename args kernel window) :
    window.slot ∉ system.created := by
  rw [← table.inUse_iff, begun.free]
  exact Bool.false_ne_true

theorem create (table : TaskTable system) {filename : CString} {args : Arguments}
    {kernel : Kernel} {window : Window} (running : system.phase = .running)
    (begun : taskLoadBegin machine system.kernel filename args = some (.copying kernel window)) :
    TaskTable { system with kernel := kernel, phase := .copying window } := by
  have begun := Begun.of_copying begun
  have slot := table.slot_of_create begun.free begun.earlier
  have created := System.created_begun running kernel window
  have depth : System.depth { system with kernel := kernel, phase := .copying window } =
      system.depth + 1 := by
    rw [System.depth, created, List.length_cons, System.depth]
  have old {other : Slot} (different : other ≠ window.slot) : other.val ≠ system.depth :=
    fun equal => different (Fin.ext (equal.trans slot.symm))
  constructor
  · rw [created, depth, List.map_cons, table.created, slot, List.range_succ]
    simp
  · intro other
    rw [depth]
    by_cases same : other = window.slot
    · rw [same, begun.created]
      simp [createdTask, freshTask, slot]
    · have different := old same
      rw [begun.others other same, table.inUse]
      omega
  · rw [depth, begun.taskId, table.taskId, BitVec.ofNat_add (system.depth + 1)]
    rfl
  · intro other below
    rw [depth] at below
    by_cases same : other = window.slot
    · rw [same, begun.created]
      rfl
    · have different := old same
      rw [begun.others other same]
      exact table.ids other (by omega)

theorem free (table : TaskTable system) {activation : Activation}
    (returned : system.phase = .returned activation) (colors : TermColors) :
    TaskTable { system with
      kernel := taskFree (system.kernel.termSetcolors colors) activation.slot
      phase := .running } := by
  have before := System.created_of_returned returned
  have depth : system.depth = system.stack.length + 1 := by simp [System.depth, before]
  have nextDepth : System.depth { system with
      kernel := taskFree (system.kernel.termSetcolors colors) activation.slot
      phase := .running } = system.stack.length := by
    rw [System.depth, System.created_of_running rfl, List.length_map]
  have created := table.created
  rw [before, depth, List.range_succ, List.reverse_append, List.map_cons] at created
  injection created with slot rest
  constructor
  · rw [nextDepth]
    exact rest
  · intro other
    rw [nextDepth, taskFree_tasks, Kernel.termSetcolors_tasks]
    by_cases same : other = activation.slot
    · simp [same, slot]
    · have different : other.val ≠ system.stack.length := fun equal =>
        same (Fin.ext (equal.trans slot.symm))
      simp only [if_neg same]
      rw [table.inUse, depth]
      omega
  · rw [nextDepth]
    change system.kernel.taskId - 1 = _
    rw [table.taskId, depth, BitVec.ofNat_add]
    exact BitVec.add_sub_cancel _ _
  · intro other below
    rw [nextDepth] at below
    rw [taskFree_tasks]
    exact table.ids other (by omega)

theorem step {event : Event} (table : TaskTable system)
    (stepped : Tasks.step machine system event = some next) : TaskTable next := by
  cases tableStep stepped with
  | same same => exact table.of_same same
  | create called running begun equal =>
      subst equal
      exact table.create running begun
  | free returned equal =>
      subst equal
      exact table.free returned _

theorem of_reachable (reachable : Reachable machine system) : TaskTable system :=
  reachable.preserves (fun _ _ _ table stepped => table.step stepped) (initial machine)

/-! ## Ids -/

private theorem id_injective (table : TaskTable system) {left right : Slot}
    (leftUsed : (system.kernel.tasks left).inUse = true)
    (rightUsed : (system.kernel.tasks right).inUse = true)
    (equal : (system.kernel.tasks left).id = (system.kernel.tasks right).id) : left = right := by
  rw [table.ids left ((table.inUse left).mp leftUsed),
    table.ids right ((table.inUse right).mp rightUsed)] at equal
  have values := congrArg BitVec.toNat equal
  simp only [BitVec.toNat_ofNat] at values
  apply Fin.ext
  omega

theorem getTaskAddrById_eq (table : TaskTable system) {slot : Slot}
    (used : (system.kernel.tasks slot).inUse = true) :
    getTaskAddrById machine system.kernel (system.kernel.tasks slot).id =
      some (machine.layout.task slot + offsetofVirtAddr) := by
  rw [getTaskAddrById]
  cases found : allSlots.find? fun i =>
      (system.kernel.tasks i).inUse &&
        (system.kernel.tasks i).id == (system.kernel.tasks slot).id with
  | none =>
      have missed := List.find?_eq_none.mp found slot (mem_allSlots slot)
      simp [used] at missed
  | some other =>
      have accepted := List.find?_some found
      simp only [Bool.and_eq_true, beq_iff_eq] at accepted
      rw [table.id_injective accepted.1 used accepted.2]
      rfl

private theorem getTaskAddrById_none {id : BitVec 32}
    (unused : ∀ slot, (system.kernel.tasks slot).inUse = true →
      (system.kernel.tasks slot).id ≠ id) :
    getTaskAddrById machine system.kernel id = none := by
  rw [getTaskAddrById, Option.map_eq_none_iff, List.find?_eq_none]
  intro slot _
  simpa using unused slot

/-- A step keeps the record of every task that exists before and after it. -/
theorem step_keeps_record {event : Event} (table : TaskTable system)
    (stepped : Tasks.step machine system event = some next) {slot : Slot}
    (before : slot ∈ system.created) (after : slot ∈ next.created) :
    (next.kernel.tasks slot).record = (system.kernel.tasks slot).record := by
  cases tableStep stepped with
  | same same => exact same.record slot
  | @create filename args kernel window called running begun equal =>
      subst equal
      have begun := Begun.of_copying begun
      have different : slot ≠ window.slot := fun same => table.slot_new begun (same ▸ before)
      exact congrArg Task.record (begun.others slot different)
  | @free activation returned equal =>
      have popped : next.created = system.stack.map Activation.slot := by
        subst equal
        rfl
      have nodup := table.nodup
      simp only [System.created, returned, Phase.created, List.singleton_append,
        List.nodup_cons] at nodup
      have different : slot ≠ activation.slot := by
        rintro rfl
        exact nodup.1 (popped ▸ after)
      subst equal
      exact congrArg Task.record (Function.update_of_ne different _ _)

theorem run_keeps_record {events : List Event} {lower : List Slot} (table : TaskTable system)
    (run : Run (Tasks.step machine) (fun state => lower.length ≤ state.depth) system events next)
    (below : lower <:+ system.created) :
    ∀ slot ∈ lower, (next.kernel.tasks slot).record = (system.kernel.tasks slot).record := by
  have keeps : ∀ before event after, TaskTable before →
      Tasks.step machine before event = some after →
      ∀ slot ∈ before.created, slot ∈ after.created →
        (after.kernel.tasks slot).record = (before.kernel.tasks slot).record :=
    fun _ _ _ table stepped _ member kept => table.step_keeps_record stepped member kept
  exact (nests machine).run_keeps (fun _ _ _ table stepped => table.step stepped) keeps run table
    below

end TaskTable

/-! ## The task table -/

/-- The state of the task table at nesting depth `d`, in every reachable state.
A slot keeps its task for as long as the task or one of its descendants runs. -/
theorem taskTable_of_reachable {machine : Machine} {system : System}
    (reachable : Reachable machine system) :
    system.depth ≤ maxTaskCount ∧
    (∀ slot, (system.kernel.tasks slot).inUse = true ↔ slot.val < system.depth) ∧
    system.created.map Fin.val = (List.range system.depth).reverse ∧
    system.kernel.taskId = BitVec.ofNat 32 (system.depth + 1) ∧
    (∀ left right, (system.kernel.tasks left).inUse = true →
      (system.kernel.tasks right).inUse = true →
      (system.kernel.tasks left).id = (system.kernel.tasks right).id → left = right) ∧
    (∀ slot, (system.kernel.tasks slot).inUse = true →
      getTaskAddrById machine system.kernel (system.kernel.tasks slot).id =
        some (machine.layout.task slot + offsetofVirtAddr)) ∧
    (∀ id, (∀ slot, (system.kernel.tasks slot).inUse = true → (system.kernel.tasks slot).id ≠ id) →
      getTaskAddrById machine system.kernel id = none) ∧
    (∀ lower events next, lower <:+ system.created →
      Run (step machine) (fun state => lower.length ≤ state.depth) system events next →
      ∀ slot ∈ lower, (next.kernel.tasks slot).record = (system.kernel.tasks slot).record) := by
  have table := TaskTable.of_reachable reachable
  refine ⟨table.depth_le, table.inUse, table.created, table.taskId, ?_, ?_, ?_, ?_⟩
  · exact fun _ _ => table.id_injective
  · exact fun _ => table.getTaskAddrById_eq
  · exact fun _ => TaskTable.getTaskAddrById_none
  · exact fun _ _ _ below run => table.run_keeps_record run below

theorem taskTable_of_shellRunning :
    shellRunning.depth = 1 ∧
    shellRunning.depth ≤ maxTaskCount ∧
    (∀ slot, (shellRunning.kernel.tasks slot).inUse = true ↔ slot.val < shellRunning.depth) ∧
    shellRunning.kernel.taskId = BitVec.ofNat 32 (shellRunning.depth + 1) := by
  rcases taskTable_of_reachable shellRunning_reachable with ⟨depth, inUse, _, taskId, _⟩
  exact ⟨by decide +kernel, depth, inUse, taskId⟩

theorem shellRunning_running : shellRunning.phase = .running :=
  Phase.running_of_created (by decide +kernel)

end Yoctos.Tasks
