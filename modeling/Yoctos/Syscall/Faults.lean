import Yoctos.Syscall.Traps
import Yoctos.Tasks.Context

/-! # Programs that misbehave

What a caller can rely on when the program that it starts makes system calls and
faults, and how a fault ends a program.
-/

namespace Yoctos.Syscall

open Yoctos.Common Yoctos.Memory Yoctos.Tasks Yoctos.Transition
open Yoctos.Interrupt (Regs exceptionHandler exceptionHandler_terminates isTaskId pageFault
  running_task taskId)

/-! ## Calls of programs -/

section

variable {machine : Machine} {system next : System} {action : Act}

private theorem trap_created (stepped : politeAct machine system action = some next) :
    (∃ event, action = .event event ∧ step machine system event = some next) ∨
      (∃ filename args, step machine system (.taskExec filename args) = some next) ∨
        next.created = system.created := by
  rw [politeAct] at stepped
  split at stepped
  next =>
    cases action with
    | event event => exact .inl ⟨event, rfl, stepped⟩
    | syscall devices nb arg1 arg2 arg3 arg4 =>
        rcases syscallStep_cases stepped with ⟨_, _, _, _, rfl⟩ | ⟨filename, args, _, execs⟩
        · exact .inr (.inr rfl)
        · exact .inr (.inl ⟨filename, args, execs⟩)
    | exception regs =>
        rcases exceptionStep_some stepped with ⟨_, _, _, _, _, rfl⟩
        exact .inr (.inr rfl)
  next => cases stepped

private theorem opening_taskExec (opens : politeAct machine system action = some next)
    (pushed : next.created.length = system.created.length + 1) :
    ∃ filename args, step machine system (.taskExec filename args) = some next := by
  rcases trap_created opens with ⟨event, _, stepped⟩ | execs | same
  · rcases create_of_pushed stepped pushed with ⟨_, filename, args, _, _, rfl, _, _⟩
    exact ⟨filename, args, stepped⟩
  · exact execs
  · rw [same] at pushed
    omega

private theorem closing_taskFree (closes : politeAct machine system action = some next)
    (popped : next.created.length < system.created.length) :
    step machine system .taskFree = some next := by
  have freed : ∀ {event}, step machine system event = some next →
      step machine system .taskFree = some next := by
    intro event stepped
    rcases free_of_popped stepped popped with ⟨activation, returned, rfl⟩
    simp only [step, returned]
  rcases trap_created closes with ⟨event, _, stepped⟩ | ⟨filename, args, stepped⟩ | same
  · exact freed stepped
  · exact freed stepped
  · rw [same] at popped
    exact absurd popped (lt_irrefl _)

/-- A call during which programs enter the kernel is one during which they do not,
as far as the caller can tell. -/
theorem exists_execution {actions : List Act}
    (reachable : Transition.Reachable (politeAct machine) (System.initial machine) system)
    (call : Call (politeAct machine) System.created system actions next) :
    ∃ plain, ∃ exec : Execution machine plain, Reachable machine plain ∧
      System.Alike system plain ∧ System.Alike next exec.next := by
  rcases exists_plain reachable with ⟨plain, plainReachable, alike⟩
  cases call with
  | intro opens pushed run closes popped =>
      rcases opening_taskExec opens pushed with ⟨filename, args, execs⟩
      rcases alike.step execs with ⟨opened, opensPlain, alikeOpened⟩
      have openedReachable := plainReachable.step_to opensPlain
      rcases politeRun_run (fun depth => system.created.length < depth) openedReachable
        alikeOpened run with ⟨body, inner, runPlain, innerReachable, alikeInner⟩
      have frees := closing_taskFree closes (popped.trans_lt run.final_inside)
      rcases alikeInner.step frees with ⟨closed, closesPlain, alikeNext⟩
      rw [alike.created] at pushed popped runPlain
      rw [alikeOpened.created] at pushed
      rw [alikeNext.created] at popped
      have above : closed.created.length < inner.created.length :=
        popped.trans_lt runPlain.final_inside
      rcases free_of_popped closesPlain above with ⟨activation, returned, _⟩
      exact ⟨plain, ⟨filename, args, opened, body, inner, activation, closed, opensPlain, pushed,
        runPlain, returned, closesPlain, popped⟩, plainReachable, alike, alikeNext⟩

end

/-- Programs that keep their pointers to themselves, whatever else they do and
however they end, leave what their caller had as it was: all that was allocated,
the memory of every task that existed, and the processor's and the terminal's
state. -/
theorem programs_isolated {machine : Machine} {system next : System} {actions : List Act}
    (low : machine.ramSize.toNat ≤ taskVirtAddr.toNat)
    (reachable : Transition.Reachable (politeAct machine) (System.initial machine) system)
    (call : Call (politeAct machine) System.created system actions next) :
    Protected machine system next ∧
    next.kernel.cpu.cr3 = system.kernel.cpu.cr3 ∧ next.kernel.cpu.tr = system.kernel.cpu.tr ∧
    next.kernel.colors = system.kernel.colors ∧ next.stack = system.stack ∧
    ∀ slot ∈ system.created, ∀ address, (∀ found,
      Memory.translate system.kernel.ram.tables (system.kernel.tasks slot).pagedir address =
        some found → (addrToFrameNb found.physical).toNat * 4096 < machine.ramSize.toNat) →
      next.kernel.userByte slot address = system.kernel.userByte slot address := by
  rcases exists_execution reachable call with ⟨plain, exec, plainReachable, alike, alikeNext⟩
  have guard := exec.protects_after low plainReachable
  rcases TaskExec.restores plainReachable (.returned exec.call) with ⟨cr3, tr, colors⟩
  have stack := (call_restores exec.call).2.2.1
  rcases alike.exists_console with ⟨before, rfl⟩
  rcases alikeNext.exists_console with ⟨after, rfl⟩
  exact ⟨⟨guard.below, guard.frames, guard.pageTables, guard.bytes, guard.fresh⟩, cr3, tr, colors,
    stack, fun _ member _ inRam => exec.userByte_after low plainReachable member inRam⟩

def shellFaults : List Act :=
  shellActs.tail ++ [.exception (pageFault taskVirtAddr gdtUserCodeSelector), .event .iret]

private theorem shellFaults_isSome :
    (executeCall (politeAct shellMachine) System.created (System.initial shellMachine)
      (.event (.taskExec shellName noArguments)) shellFaults (.event .taskFree)).isSome = true := by
  decide +kernel

theorem programs_isolated_shell : ∃ actions next,
    Call (politeAct shellMachine) System.created (System.initial shellMachine) actions next ∧
    Protected shellMachine (System.initial shellMachine) next ∧
    next.kernel.cpu.cr3 = shellMachine.layout.kernelPagedir ∧ next.stack = [] ∧
    next.kernel.ram.bytes 0x500000 = 0xcf := by
  rcases Option.isSome_iff_exists.mp shellFaults_isSome with ⟨next, executed⟩
  have call := call_of_executeCall executed
  rcases programs_isolated (by decide) .refl call with ⟨guard, cr3, _, _, stack, _⟩
  exact ⟨_, next, call, guard, cr3, stack, guard.bytes 0x500000 (by decide +kernel)
    (by decide +kernel)⟩

/-! ## Faults -/

/-- The return of a task, from its `iret` to the end of `task_free`. -/
theorem return_run {machine : Machine} {system : System} {activation : Activation}
    {rest : List Activation} (reachable : Reachable machine system)
    (running : system.phase = .running) (stacked : system.stack = activation :: rest)
    (nested : system.kernel.cpu.registers.eflags &&& eflagsNt ≠ 0) :
    ∃ inner next, step machine system .iret = some inner ∧ step machine inner .taskFree = some next ∧
      next.phase = .running ∧ next.stack = rest ∧ next.kernel.colors = activation.cols ∧
      next.kernel.cpu = ⟨(contextTss rest).selector, (contextTss rest).pagedir machine.layout,
        (system.kernel.getTss (contextTss rest)).registers⟩ ∧
      (∀ frame, next.kernel.ram.frames frame = true ↔ system.kernel.ram.frames frame = true ∧
        frame ∉ (system.grant activation.slot).pages) ∧
      next.kernel.ram.bytes = system.kernel.ram.bytes := by
  have descriptors := Descriptors.of_reachable reachable
  have bits := BusyBits.of_reachable reachable
  have nodup := (TaskTable.of_reachable reachable).nodup
  rw [System.created_of_running running, stacked] at nodup
  rcases Option.isSome_iff_exists.mp (bits.iret_isSome descriptors stacked nested) with
    ⟨kernel, switched⟩
  have returns : step machine system .iret = some ⟨kernel, .returned activation, rest⟩ := by
    simp only [step, running, stacked, switched, Option.map_some]
  have innerReachable := reachable.step_to returns
  have frees : step machine ⟨kernel, .returned activation, rest⟩ .taskFree = some
      ⟨taskFree (kernel.termSetcolors activation.cols) activation.slot, .running, rest⟩ := rfl
  have nextReachable := innerReachable.step_to frees
  have ownership := Ownership.of_reachable innerReachable
  have freed := ownership.freed_of_returned (.of_reachable innerReachable) rfl
  have member : activation.slot ∈ System.created ⟨kernel, .returned activation, rest⟩ :=
    List.mem_cons_self ..
  rcases Kernel.iret_some switched with ⟨_, _, _, _, _, _, _, _, frame⟩
  have grants : System.grant ⟨kernel, .returned activation, rest⟩ activation.slot =
      system.grant activation.slot :=
    System.grant_congr (Task.fields_of_record (frame.record _)).pageTables
      fun table _ => congrFun (congrArg Ram.tables frame.ram) table
  refine ⟨_, _, returns, frees, rfl, rfl, rfl, ?_, fun free => ?_, ?_⟩
  · have leaves := bits.tssOf_tr descriptors
    rw [stacked] at leaves
    have values := (iret_registers switched leaves (bits.tssOf_link descriptors stacked)
      (contextTss_ne nodup (List.suffix_refl _))).1
    have tr := (Descriptors.of_reachable nextReachable).tr
    have cr3 := (AddressSpaces.of_reachable nextReachable).cr3
    change kernel.cpu.tr = _ at tr
    change kernel.cpu.cr3 = (contextTss rest).pagedir machine.layout at cr3
    change kernel.cpu = _
    rw [← tr, ← cr3, ← values]
  · rw [freed.frames, grants]
    change kernel.ram.frames free = true ∧ _ ↔ _
    rw [frame.ram]
  · have bytes : (releaseTask kernel activation.slot).ram.bytes = kernel.ram.bytes :=
      (ownership.released member).bytes
    exact bytes.trans (congrArg Ram.bytes frame.ram)

/-- A page of a task holds neither a page table nor a part of the kernel. -/
theorem holdsRecord_of_page {machine : Machine} {system : System}
    (reachable : Reachable machine system) {slot : Slot} (member : slot ∈ system.created)
    {physical : BitVec 32} (own : addrToFrameNb physical ∈ (system.grant slot).pages) :
    system.kernel.holdsRecord machine physical = false := by
  have ownership := Ownership.of_reachable reachable
  have table := TaskTable.of_reachable reachable
  have notReserved : ∀ {frame}, machine.ram.frames frame = true →
      frame ≠ addrToFrameNb physical := by
    rintro frame reserved rfl
    exact (ownership.reserved _ reserved).2.1 slot member (List.mem_append_left _ own)
  have notTable : ∀ other ∈ system.created,
      addrToFrameNb physical ∉ (system.grant other).tables := by
    intro other exists_ inTables
    by_cases same : other = slot
    · subst same
      have distinct := ownership.nodup member
      rw [Grant.all, List.nodup_append] at distinct
      exact distinct.2.2 _ own _ inTables rfl
    · exact ownership.disjoint exists_ member same (List.mem_append_right _ inTables)
        (List.mem_append_left _ own)
  have absent : ∀ {pagedir : PageDirectory}, (∀ index, (pagedir index).present = true →
      (pagedir index).pagetableFrameNumber ≠ addrToFrameNb physical) →
      (pagetableFrames pagedir).contains (addrToFrameNb physical) = false := by
    intro pagedir apart
    rw [List.contains_eq_mem, decide_eq_false_iff_not, pagetableFrames, List.mem_filterMap]
    rintro ⟨index, _, found⟩
    dsimp only at found
    split at found
    next present => exact apart _ present (Option.some.inj found)
    next => cases found
  have image : ¬ physical.toNat < machine.layout.kernelEnd := by
    intro below
    have kernelBelow := machine.wellFormed.kernel_below
    exact notReserved (machine.wellFormed.frames_below (addrToFrameNb physical)
      (by rw [addrToFrameNb_toNat]; omega)) rfl
  simp only [Kernel.holdsRecord, decide_eq_false image, Bool.and_false, Bool.false_or,
    absent fun index present => notReserved (machine.wellFormed.kernel_tables index present),
    absent fun index present => notReserved (machine.wellFormed.templ_tables index present)]
  rw [List.any_eq_false]
  intro other _
  rw [Bool.and_eq_true]
  rintro ⟨inUse, inTables⟩
  have exists_ := (table.inUse_iff other).mp inUse
  have apart : (pagetableFrames (system.kernel.tasks other).pagedir).contains
      (addrToFrameNb physical) = false := by
    apply absent
    intro index present
    rw [ownership.pagedir other exists_] at present ⊢
    rcases mapTables_present present with inGrant | ⟨same, present⟩
    · exact fun equal => notTable other exists_ (equal ▸ inGrant)
    · have template := machine.wellFormed.templ_tables index present
      rw [← same] at template
      exact notReserved template
  rw [apart] at inTables
  cases inTables

private theorem exceptionStep_succeeds {machine : Machine} {system : System}
    {activation : Activation} {rest : List Activation} {regs : Regs} {found : Translation}
    (reachable : Reachable machine system) (running : system.phase = .running)
    (stacked : system.stack = activation :: rest)
    (translated : system.kernel.translate machine regs.eip = some found)
    (user : found.user = true)
    (inRam : (addrToFrameNb found.physical).toNat * 4096 < machine.ramSize.toNat) :
    addrToFrameNb found.physical ∈ (system.grant activation.slot).pages ∧
      ∀ console, exceptionStep machine
        { system with kernel := { system.kernel with console := console } } regs =
          some { system with kernel := { system.kernel.setByte found.physical iretOpcode with
            console := console ++ [⟨"Task %d terminated\n",
              [.int (system.kernel.tasks activation.slot).id]⟩] } } := by
  have ownership := Ownership.of_reachable reachable
  have member : activation.slot ∈ system.created := System.mem_created_of_suffix (by rw [stacked])
  have active := (AddressSpaces.of_reachable reachable).cr3
  rw [System.pagedir, running, stacked] at active
  have own : addrToFrameNb found.physical ∈ (system.grant activation.slot).pages := by
    have inTask := translated
    rw [Kernel.translate_task active] at inTask
    rcases ownership.user_translation member inTask user with own | beyond
    · exact own
    · exact absurd inRam (Nat.not_lt.mpr beyond)
  refine ⟨own, fun console => ?_⟩
  rcases running_task reachable stacked with ⟨named, _, small⟩
  have accepted : isTaskId (system.kernel.tasks activation.slot).id = true := decide_eq_true small
  have records := holdsRecord_of_page reachable member own
  have writable : Kernel.holdsRecord machine { system.kernel with console := console }
      found.physical = false := records
  have sameTranslation : Kernel.translate machine { system.kernel with console := console }
      regs.eip = some found := translated
  have handled : exceptionHandler machine { system.kernel with console := console } regs =
      ⟨false, false, false, some found.physical, system.kernel.colors, console ++
        [⟨"Task %d terminated\n", [.int (system.kernel.tasks activation.slot).id]⟩]⟩ := by
    simp only [exceptionHandler, named, taskId, accepted, sameTranslation, if_true,
      Option.isNone_some]
  rw [exceptionStep, handled]
  simp only [Kernel.storeByte, writable, Option.bind_eq_bind, Option.bind_some,
    Bool.or_false, Bool.false_eq_true, if_false]
  rfl

/-- A fault in a program's own code ends the program, whatever it has done
before, and gives its caller back the context it called from. -/
theorem fault_ends_task {machine : Machine} {system : System} {activation : Activation}
    {rest : List Activation} {regs : Regs} {found : Translation}
    (reachable : Transition.Reachable (politeAct machine) (System.initial machine) system)
    (running : system.phase = .running) (stacked : system.stack = activation :: rest)
    (nested : system.kernel.cpu.registers.eflags &&& eflagsNt ≠ 0)
    (translated : system.kernel.translate machine regs.eip = some found)
    (user : found.user = true)
    (inRam : (addrToFrameNb found.physical).toNat * 4096 < machine.ramSize.toNat) :
    ∃ faulted next, politeAct machine system (.exception regs) = some faulted ∧
      faulted.kernel.console = system.kernel.console ++ [⟨"Task %d terminated\n",
        [.int (system.kernel.tasks activation.slot).id]⟩] ∧
      Run (politeAct machine) (fun _ => True) faulted [.event .iret, .event .taskFree] next ∧
      next.phase = .running ∧ next.stack = rest ∧ next.kernel.colors = activation.cols ∧
      next.kernel.cpu = ⟨(contextTss rest).selector, (contextTss rest).pagedir machine.layout,
        (system.kernel.getTss (contextTss rest)).registers⟩ ∧
      (∀ frame, next.kernel.ram.frames frame = true ↔ system.kernel.ram.frames frame = true ∧
        frame ∉ (system.grant activation.slot).pages) ∧
      addrToFrameNb found.physical ∈ (system.grant activation.slot).pages ∧
      ∀ physical, physical ≠ found.physical →
        next.kernel.ram.bytes physical = system.kernel.ram.bytes physical := by
  rcases exists_plain reachable with ⟨plain, plainReachable, alike⟩
  have rws : ∀ address found, system.kernel.translate machine address = some found →
      found.rw = true := by
    intro address found translated
    rw [alike.translate] at translated
    exact translate_rw plainReachable translated
  have allowed : polite machine system (.exception regs) = true := by
    rw [polite, Bool.and_eq_true]
    exact ⟨runsTask_iff.mpr ⟨running, activation, rest, stacked⟩,
      leadsToUser_iff.mpr ⟨found, translated, user⟩⟩
  rcases alike.exists_console with ⟨console, rfl⟩
  rcases exceptionStep_succeeds plainReachable running stacked translated user inRam with
    ⟨own, succeeds⟩
  rcases exceptionStep_run rws allowed (succeeds console) with ⟨middle, stored, alikeMiddle⟩
  rcases alike.step stored with ⟨silent, storedPlain, alikeSilent⟩
  have silentReachable := plainReachable.step_to storedPlain
  have back := (alikeMiddle.trans alikeSilent).symm
  rcases back.exists_console with ⟨printed, rfl⟩
  rcases return_run silentReachable running stacked nested with
    ⟨inner, next, returns, frees, phase, stack, colors, cpu, frames, bytes⟩
  rcases back.step returns with ⟨left, leaves, alikeLeft⟩
  rcases alikeLeft.step frees with ⟨final, ends, alikeFinal⟩
  rcases alikeFinal.symm.exists_console with ⟨shown, rfl⟩
  refine ⟨_, _, (if_pos allowed).trans (succeeds console), rfl,
    .cons trivial leaves (.single trivial ends trivial), phase, stack, colors, cpu, frames, own,
    fun physical other => ?_⟩
  exact (congrFun bytes physical).trans (Function.update_of_ne other _ _)

theorem fault_ends_task_shell : ∃ faulted next,
    politeAct shellMachine shellCalling
      (.exception (pageFault taskVirtAddr gdtUserCodeSelector)) = some faulted ∧
    Run (politeAct shellMachine) (fun _ => True) faulted [.event .iret, .event .taskFree] next ∧
    next.stack = [] ∧ next.kernel.cpu.cr3 = shellMachine.layout.kernelPagedir := by
  have runs : runsTask shellCalling = true := by decide +kernel
  have length : shellCalling.stack.length = 1 := by decide +kernel
  rcases runsTask_iff.mp runs with ⟨running, _⟩
  rcases List.length_eq_one_iff.mp length with ⟨activation, stacked⟩
  have nested : shellCalling.kernel.cpu.registers.eflags &&& eflagsNt ≠ 0 := by decide +kernel
  have mapped : (shellCalling.kernel.translate shellMachine taskVirtAddr).any (fun found =>
      found.user && decide ((addrToFrameNb found.physical).toNat * 4096 <
        shellMachine.ramSize.toNat)) = true := by decide +kernel
  rcases (Option.any_eq_true ..).mp mapped with ⟨found, translated, checked⟩
  rw [Bool.and_eq_true, decide_eq_true_eq] at checked
  have atFault : shellCalling.kernel.translate shellMachine
      (pageFault taskVirtAddr gdtUserCodeSelector).eip = some found := translated
  rcases fault_ends_task shellCalling_reachable running stacked nested atFault checked.1
    checked.2 with ⟨faulted, next, stepped, _, run, _, stack, _, cpu, _⟩
  exact ⟨faulted, next, stepped, run, stack, congrArg Cpu.cr3 cpu⟩

end Yoctos.Syscall
