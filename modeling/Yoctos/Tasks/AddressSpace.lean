import Yoctos.Tasks.Descriptors
import Yoctos.Tasks.Execution

/-! # Page directories over whole runs

The CPU loads CR3 at a task switch but never saves it. What makes returning
work is that every segment's `cr3` field keeps the directory it started with.
-/

namespace Yoctos.Tasks

open Yoctos.Common Yoctos.Memory Yoctos.Transition

def TssRef.pagedir (layout : Layout) : TssRef → BitVec 32
  | .initial => layout.kernelPagedir
  | .task slot => layout.task slot

/-- The directory that should be active: the new task's while `task_load`
copies, the current segment's otherwise. -/
def System.pagedir (machine : Machine) (system : System) : BitVec 32 :=
  match system.phase with
  | .copying window => machine.layout.task window.slot
  | _ => (contextTss system.stack).pagedir machine.layout

def Kernel.namedTss (machine : Machine) (kernel : Kernel) (selector : BitVec 16) : Option TssRef :=
  machine.layout.tssAt (kernel.gdt (selectorIndex selector)).descriptor.base

structure AddressSpaces (machine : Machine) (system : System) : Prop where
  cr3_field : ∀ ref, system.Live ref →
    (system.kernel.getTss ref).cr3 = ref.pagedir machine.layout
  cr3 : system.kernel.cpu.cr3 = system.pagedir machine
  saved : ∀ window, system.phase = .copying window →
    window.pagedir = (contextTss system.stack).pagedir machine.layout

private theorem Descriptors.namedTss_tr {machine : Machine} {system : System}
    (descriptors : Descriptors machine system) :
    system.kernel.namedTss machine system.kernel.cpu.tr = some (contextTss system.stack) := by
  rw [Kernel.namedTss, descriptors.tr, TssRef.selectorIndex_selector]
  rcases (descriptors.entry _ (Descriptors.live_context system)).descriptor with ⟨_, _, decoded⟩
  rw [decoded]
  exact machine.wellFormed.layout.tssAt_address _

namespace AddressSpaces

variable {machine : Machine} {system next : System}

theorem initial (machine : Machine) : AddressSpaces machine (System.initial machine) where
  cr3_field ref live := by
    cases ref with
    | initial => rfl
    | task slot => simp [System.Live, System.created, System.initial, Phase.created] at live
  cr3 := rfl
  saved window copying := by cases copying

theorem of_unchanged (spaces : AddressSpaces machine system)
    (created : next.created = system.created) (stack : next.stack = system.stack)
    (tss : ∀ ref, next.kernel.getTss ref = system.kernel.getTss ref)
    (cr3 : next.kernel.cpu.cr3 = system.kernel.cpu.cr3)
    (pagedir : next.pagedir machine = system.pagedir machine)
    (saved : ∀ window, next.phase = .copying window →
      ∃ earlier, system.phase = .copying earlier ∧ window.pagedir = earlier.pagedir) :
    AddressSpaces machine next where
  cr3_field ref live := by
    rw [tss]
    exact spaces.cr3_field ref (live.mono fun slot member => created ▸ member)
  cr3 := by
    rw [cr3, pagedir]
    exact spaces.cr3
  saved window copying := by
    rcases saved window copying with ⟨earlier, copyingEarlier, equal⟩
    rw [equal, stack]
    exact spaces.saved earlier copyingEarlier

theorem create (spaces : AddressSpaces machine system)
    {filename : CString} {args : Arguments} {kernel : Kernel} {window : Window}
    (running : system.phase = .running)
    (begun : taskLoadBegin machine system.kernel filename args = some (.copying kernel window)) :
    AddressSpaces machine { system with kernel := kernel, phase := .copying window } := by
  have begun := Begun.of_copying begun
  constructor
  · intro ref live
    cases ref with
    | initial =>
        rw [Kernel.getTss, begun.initialTss]
        exact spaces.cr3_field .initial trivial
    | task slot =>
        rw [Kernel.getTss]
        by_cases same : slot = window.slot
        · rw [same, begun.created]
          rfl
        · rw [begun.others slot same]
          have member : slot ∈ window.slot :: system.created :=
            System.created_begun running kernel window ▸ live
          exact spaces.cr3_field (.task slot) ((List.mem_cons.mp member).resolve_left same)
  · rw [begun.cpu]
    rfl
  · intro other copying
    cases copying
    have active := spaces.cr3
    rw [System.pagedir, running] at active
    exact begun.saved.trans active

theorem taskSwitch (spaces : AddressSpaces machine system)
    (descriptors : Descriptors machine system)
    {slot : Slot} {registers : Registers} {kernel : Kernel} (loaded : system.phase = .loaded slot)
    (switched : (system.kernel.setRegisters registers).farCall machine
      (system.kernel.tasks slot).tssSelector = some kernel) :
    AddressSpaces machine ⟨kernel, .running, ⟨slot, system.kernel.colors⟩ :: system.stack⟩ := by
  have createdEq := System.created_of_loaded loaded
  have member : slot ∈ system.created := by simp [createdEq]
  rw [descriptors.selector slot member] at switched
  rcases Kernel.farCall_some switched with ⟨_, incoming, _, resolved, _, _, cr3, _, frame⟩
  have target : incoming = .task slot := descriptors.tssOf_eq member resolved
  subst target
  constructor
  · intro ref live
    rw [frame.cr3]
    exact spaces.cr3_field ref (live.mono fun other otherMember => createdEq ▸ otherMember)
  · rw [cr3]
    exact spaces.cr3_field (.task slot) member
  · intro window copying
    cases copying

theorem iret (spaces : AddressSpaces machine system) (descriptors : Descriptors machine system)
    {activation : Activation} {rest : List Activation} {kernel : Kernel}
    (running : system.phase = .running) (stacked : system.stack = activation :: rest)
    (switched : system.kernel.iret machine = some kernel) :
    AddressSpaces machine ⟨kernel, .returned activation, rest⟩ := by
  have createdEq : system.created = activation.slot :: rest.map Activation.slot := by
    rw [System.created_of_running running, stacked, List.map_cons]
  have member : activation.slot ∈ system.created := by simp [createdEq]
  rcases Kernel.iret_some switched with ⟨outgoing, incoming, current, resolved, _, _, cr3, _, frame⟩
  rw [descriptors.tr_of_stacked stacked] at current
  have source : outgoing = .task activation.slot := descriptors.tssOf_eq member current
  subst source
  have liveRest : system.Live (contextTss rest) := by
    cases rest with
    | nil => trivial
    | cons other older => simp [contextTss, System.Live, createdEq]
  rw [descriptors.linked activation rest (by rw [stacked])] at resolved
  have target : incoming = contextTss rest := descriptors.tssOf_eq liveRest resolved
  subst target
  constructor
  · intro ref live
    rw [frame.cr3]
    exact spaces.cr3_field ref (live.mono fun other otherMember => createdEq ▸ otherMember)
  · rw [cr3]
    exact spaces.cr3_field _ liveRest
  · intro window copying
    cases copying

theorem free (spaces : AddressSpaces machine system) {activation : Activation}
    (returned : system.phase = .returned activation) :
    AddressSpaces machine { system with
      kernel := taskFree (system.kernel.termSetcolors activation.cols) activation.slot
      phase := .running } := by
  constructor
  · intro ref live
    have old : system.Live ref := live.mono fun slot member => by
      rw [System.created_of_returned returned]
      exact List.mem_cons_of_mem _ member
    cases ref with
    | initial => exact spaces.cr3_field .initial trivial
    | task slot =>
        rw [Kernel.getTss, taskFree_tasks]
        exact spaces.cr3_field _ old
  · have active := spaces.cr3
    rw [System.pagedir, returned] at active
    exact active
  · intro window copying
    cases copying

theorem step {event : Event} (spaces : AddressSpaces machine system)
    (descriptors : Descriptors machine system)
    (stepped : Tasks.step machine system event = some next) : AddressSpaces machine next := by
  cases step_cases stepped with
  | execFailed running begun =>
      rcases taskLoadBegin_failed begun with ⟨console, rfl⟩
      exact spaces.of_unchanged rfl rfl (fun _ => by rfl) rfl rfl
        fun window copying => ⟨window, copying, rfl⟩
  | execLoading running begun => exact spaces.create running begun
  | copy copying copied =>
      rcases copyByte_some copied with ⟨_, _, _, _, _, rfl⟩
      refine spaces.of_unchanged ?_ rfl (fun _ => by rfl) rfl ?_ fun window copyingNext => ?_
      · exact (System.created_of_copying copying).symm
      · simp [System.pagedir, copying]
      · cases copyingNext
        exact ⟨_, copying, rfl⟩
  | restore copying =>
      constructor
      · intro ref live
        exact spaces.cr3_field ref
          (live.mono fun slot member => (System.created_of_copying copying).symm ▸ member)
      · exact spaces.saved _ copying
      · intro window copyingNext
        cases copyingNext
  | taskSwitch loaded switched => exact spaces.taskSwitch descriptors loaded switched
  | iret running stacked switched => exact spaces.iret descriptors running stacked switched
  | taskFree returned => exact spaces.free returned
  | termSetcolors running =>
      exact spaces.of_unchanged rfl rfl (fun _ => by rfl) rfl rfl
        fun window copying => ⟨window, copying, rfl⟩
  | store running nested stored =>
      rcases userStore_some stored with ⟨_, _, _, rfl⟩
      exact spaces.of_unchanged rfl rfl (fun _ => by rfl) rfl rfl
        fun window copying => ⟨window, copying, rfl⟩
  | compute running nested =>
      exact spaces.of_unchanged rfl rfl (fun _ => by rfl) rfl rfl
        fun window copying => ⟨window, copying, rfl⟩

theorem of_reachable (reachable : Reachable machine system) : AddressSpaces machine system := by
  have preserved : ∀ before event after,
      (TaskTable before ∧ Descriptors machine before) ∧ AddressSpaces machine before →
      Tasks.step machine before event = some after →
      (TaskTable after ∧ Descriptors machine after) ∧ AddressSpaces machine after := by
    intro before event after invariant stepped
    rcases invariant with ⟨⟨table, descriptors⟩, spaces⟩
    exact ⟨⟨table.step stepped, descriptors.step table stepped⟩,
      spaces.step descriptors stepped⟩
  exact (reachable.preserves preserved
    ⟨⟨.initial machine, .initial machine⟩, .initial machine⟩).2

end AddressSpaces

/-! ## Whole calls of `task_exec` -/

/-- While a call is active, its colors are those it has yet to read, or wait in
its activation. -/
inductive Remembers (colors : TermColors) (lower : List Activation) (system : System) : Prop
  | loading (stack : system.stack = lower) (unread : system.kernel.colors = colors)
      (phase : (∃ window, system.phase = .copying window) ∨ ∃ slot, system.phase = .loaded slot)
  | suspended {slot : Slot} (below : ⟨slot, colors⟩ :: lower <:+ system.stack)
  | returned {slot : Slot} (stack : system.stack = lower)
      (phase : system.phase = .returned ⟨slot, colors⟩)

namespace Remembers

variable {machine : Machine} {colors : TermColors} {lower : List Activation}
variable {before after : System} {event : Event}

theorem of_running (remembers : Remembers colors lower before) (running : before.phase = .running) :
    ∃ slot, ⟨slot, colors⟩ :: lower <:+ before.stack := by
  cases remembers with
  | loading stack unread phase => simp [running] at phase
  | suspended below => exact ⟨_, below⟩
  | returned stack phase => simp [running] at phase

private theorem of_same_stack (remembers : Remembers colors lower before)
    (running : before.phase = .running) (stack : after.stack = before.stack) :
    Remembers colors lower after := by
  rcases remembers.of_running running with ⟨slot, below⟩
  exact .suspended (stack ▸ below)

theorem step (remembers : Remembers colors lower before)
    (high : lower.length < after.created.length)
    (stepped : Tasks.step machine before event = some after) : Remembers colors lower after := by
  cases step_cases stepped with
  | execFailed running begun => exact remembers.of_same_stack running rfl
  | execLoading running begun => exact remembers.of_same_stack running rfl
  | copy copying copied =>
      rcases copyByte_some copied with ⟨_, _, _, _, _, rfl⟩
      cases remembers with
      | loading stack unread phase => exact .loading stack unread (.inl ⟨_, rfl⟩)
      | suspended below => exact .suspended below
      | returned stack phase => simp [copying] at phase
  | restore copying =>
      cases remembers with
      | loading stack unread phase => exact .loading stack unread (.inr ⟨_, rfl⟩)
      | suspended below => exact .suspended below
      | returned stack phase => simp [copying] at phase
  | @taskSwitch slot registers kernel loaded switched =>
      cases remembers with
      | loading stack unread phase =>
          rw [stack, unread]
          exact .suspended (List.suffix_refl _)
      | suspended below => exact .suspended (below.trans (List.suffix_cons _ _))
      | returned stack phase => simp [loaded] at phase
  | iret running stacked switched =>
      rcases remembers.of_running running with ⟨slot, below⟩
      rw [stacked] at below
      rcases List.suffix_cons_iff.mp below with whole | older
      · rcases List.cons_eq_cons.mp whole with ⟨rfl, rfl⟩
        exact .returned rfl rfl
      · exact .suspended older
  | taskFree returned =>
      cases remembers with
      | loading stack unread phase => simp [returned] at phase
      | suspended below => exact .suspended below
      | returned stack phase => simp [System.created, Phase.created, stack] at high
  | termSetcolors running => exact remembers.of_same_stack running rfl
  | store running nested stored => exact remembers.of_same_stack running rfl
  | compute running nested => exact remembers.of_same_stack running rfl

private theorem of_create {filename : CString} {args : Arguments} {kernel : Kernel}
    {window : Window}
    (begun : taskLoadBegin machine before.kernel filename args = some (.copying kernel window)) :
    Remembers before.kernel.colors before.stack
      { before with kernel := kernel, phase := .copying window } := by
  exact .loading rfl (Begun.of_copying begun).colors (.inl ⟨window, rfl⟩)

end Remembers

theorem call_restores {machine : Machine} {system next : System} {events : List Event}
    (call : Call (step machine) System.created system events next) :
    system.phase = .running ∧ next.phase = .running ∧ next.stack = system.stack ∧
      next.kernel.colors = system.kernel.colors := by
  cases call with
  | intro opens pushed run closes popped =>
      rcases create_of_pushed opens pushed with ⟨running, _, _, _, _, _, begun, rfl⟩
      rcases free_of_popped closes (popped.trans_lt run.final_inside) with
        ⟨activation, returned, rfl⟩
      have depth : system.created.length = system.stack.length := by
        simp [System.created, running, Phase.created]
      rw [depth] at run popped
      have held := run.preserves (fun _ _ _ _ high remembers stepped => remembers.step high stepped)
        (Remembers.of_create begun)
      simp only [System.created, Phase.created, List.nil_append, List.length_map] at popped
      cases held with
      | loading stack unread phase => simp [returned] at phase
      | suspended below =>
          have length := below.length_le
          rw [List.length_cons] at length
          omega
      | returned stack phase =>
          rw [returned] at phase
          cases phase
          exact ⟨running, rfl, stack, rfl⟩

/-- Whatever its result, `task_exec` returns under the directory, the task
register and the colors it was called with. -/
theorem TaskExec.restores {machine : Machine} {system next : System} {events : List Event}
    {result : Bool} (reachable : Reachable machine system)
    (exec : TaskExec machine system events result next) :
    next.kernel.cpu.cr3 = system.kernel.cpu.cr3 ∧ next.kernel.cpu.tr = system.kernel.cpu.tr ∧
      next.kernel.colors = system.kernel.colors := by
  cases exec with
  | failed stepped running =>
      cases step_cases stepped with
      | execFailed started begun =>
          rcases taskLoadBegin_failed begun with ⟨console, rfl⟩
          exact ⟨rfl, rfl, rfl⟩
      | execLoading started begun => cases running
  | returned call =>
      rcases call_restores call with ⟨running, nextRunning, stack, colors⟩
      have nextReachable : Reachable machine next := reachable.extend call.run
      have cr3 := (AddressSpaces.of_reachable nextReachable).cr3
      have tr := (Descriptors.of_reachable nextReachable).tr
      rw [System.pagedir, nextRunning, stack] at cr3
      rw [stack] at tr
      refine ⟨?_, tr.trans (Descriptors.of_reachable reachable).tr.symm, colors⟩
      rw [cr3, (AddressSpaces.of_reachable reachable).cr3, System.pagedir, running]

/-- While `task_load` copies, the new task's directory is active; otherwise the
one in the segment named by the task register is. A call of `task_exec` puts
back what it found. -/
theorem addressSpaces_of_reachable {machine : Machine} {system : System}
    (reachable : Reachable machine system) :
    (∀ window, system.phase = .copying window →
      system.kernel.cpu.cr3 = (system.kernel.tasks window.slot).tss.cr3 ∧
      system.kernel.pagedirAt machine system.kernel.cpu.cr3 =
        some (system.kernel.tasks window.slot).pagedir) ∧
    ((∀ window, system.phase ≠ .copying window) →
      ∃ ref, system.kernel.namedTss machine system.kernel.cpu.tr = some ref ∧
        system.kernel.cpu.cr3 = (system.kernel.getTss ref).cr3) ∧
    (∀ events result next, TaskExec machine system events result next →
      next.kernel.cpu.cr3 = system.kernel.cpu.cr3 ∧ next.kernel.cpu.tr = system.kernel.cpu.tr ∧
        next.kernel.colors = system.kernel.colors) := by
  have spaces := AddressSpaces.of_reachable reachable
  have descriptors := Descriptors.of_reachable reachable
  refine ⟨fun window copying => ?_, fun outside => ?_, fun _ _ _ exec => exec.restores reachable⟩
  · have active := spaces.cr3
    rw [System.pagedir, copying] at active
    have live : system.Live (.task window.slot) := by
      simp [System.Live, System.created, copying, Phase.created]
    refine ⟨active.trans (spaces.cr3_field _ live).symm, ?_⟩
    simp only [active, Kernel.pagedirAt, machine.wellFormed.layout.slotAt_task]
  · refine ⟨contextTss system.stack, descriptors.namedTss_tr, ?_⟩
    rw [spaces.cr3_field _ (Descriptors.live_context system), spaces.cr3, System.pagedir]
    split
    next window copying => exact absurd copying (outside window)
    next => rfl

theorem addressSpaces_of_shell :
    (∃ ref, shellRunning.kernel.namedTss shellMachine shellRunning.kernel.cpu.tr = some ref ∧
      shellRunning.kernel.cpu.cr3 = (shellRunning.kernel.getTss ref).cr3) ∧
    ∃ exec : Execution shellMachine (System.initial shellMachine), exec.events = shellEvents ∧
      exec.next.kernel.cpu.cr3 = shellMachine.layout.kernelPagedir := by
  constructor
  · apply (addressSpaces_of_reachable shellRunning_reachable).2.1
    intro window copying
    have running : shellRunning.phase = .running := shellRunning_running
    rw [copying] at running
    cases running
  · rcases Execution.exists_of_completes shell_completes with ⟨exec, events⟩
    have restored := (addressSpaces_of_reachable .refl).2.2 _ _ _ (.returned exec.call)
    exact ⟨exec, events, restored.1⟩

end Yoctos.Tasks
