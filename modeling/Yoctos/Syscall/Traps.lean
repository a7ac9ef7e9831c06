import Yoctos.Interrupt.Exception
import Yoctos.Syscall.Isolation
import Yoctos.Tasks.Console
import Yoctos.Tasks.Protection

/-! # Programs that call the kernel and fault

The task system with the two ways that programs enter the kernel. As long as
their pointers lead to their own pages, a system call and an exception do
nothing that the program could not have done itself, printing apart.
-/

namespace Yoctos.Syscall

open Yoctos.Common Yoctos.Memory Yoctos.Tasks Yoctos.Transition
open Yoctos.Interrupt (Regs exceptionHandler exceptionHandler_terminates isTaskId pageFault
  running_task taskId)

/-! ## The system -/

inductive Act
  | event (event : Event)
  | syscall (devices : Devices) (nb arg1 arg2 arg3 arg4 : BitVec 32)
  | exception (regs : Regs)

def iretOpcode : UInt8 := 0xcf

/-- What `exception_handler` does to the system. After a panic nothing happens
any more, and where the handler itself has faulted anything may. -/
def exceptionStep (machine : Machine) (system : System) (regs : Regs) : Option System := do
  let handled := exceptionHandler machine system.kernel regs
  if handled.panic || handled.nested then none
  else
    let physical ← handled.written
    let kernel ← system.kernel.storeByte machine physical iretOpcode
    some { system with
      kernel := { kernel with colors := handled.colors, console := handled.console } }

def act (machine : Machine) (system : System) : Act → Option System
  | .event event => step machine system event
  | .syscall devices nb arg1 arg2 arg3 arg4 =>
      syscallStep machine devices system nb arg1 arg2 arg3 arg4
  | .exception regs => exceptionStep machine system regs

/-! ## Programs that use their own memory -/

def runsTask (system : System) : Bool :=
  match system.phase, system.stack with
  | .running, _ :: _ => true
  | _, _ => false

def leadsToUser (machine : Machine) (kernel : Kernel) (address : BitVec 32) : Bool :=
  (kernel.translate machine address).any Translation.user

/-- What the kernel stores to for the program is the program's own. The kernel
checks neither pointers nor pixels. -/
def polite (machine : Machine) (system : System) : Act → Bool
  | .event _ => true
  | .syscall devices nb arg1 arg2 _ _ => runsTask system &&
      (storedBytes devices nb.toNat arg1 arg2).all (leadsToUser machine system.kernel)
  | .exception regs => runsTask system && leadsToUser machine system.kernel regs.eip

def politeAct (machine : Machine) (system : System) (action : Act) : Option System :=
  if polite machine system action then act machine system action else none

theorem runsTask_iff {system : System} :
    runsTask system = true ↔
      system.phase = .running ∧ ∃ activation rest, system.stack = activation :: rest := by
  rw [runsTask]
  split
  next running stacked => simp [running, stacked]
  next other =>
    simp only [Bool.false_eq_true, false_iff, not_and]
    rintro running ⟨activation, rest, stacked⟩
    exact other _ _ running stacked

theorem leadsToUser_iff {machine : Machine} {kernel : Kernel} {address : BitVec 32} :
    leadsToUser machine kernel address = true ↔
      ∃ found, kernel.translate machine address = some found ∧ found.user = true := by
  rw [leadsToUser, Option.any_eq_true]

/-! ## Traps as runs of the programs' own steps -/

section

variable {machine : Machine} {system plain next : System}

theorem translate_rw (reachable : Reachable machine system) {address : BitVec 32}
    {found : Translation} (translated : system.kernel.translate machine address = some found) :
    found.rw = true := by
  have mapped : ∀ {privilege address found},
      mappedBy (machine.mmaps privilege) address = some found → found.rw = true := by
    intro privilege address found maps
    rcases Option.map_eq_some_iff.mp maps with ⟨call, _, rfl⟩
    rfl
  have ownership := Ownership.of_reachable reachable
  rcases (AddressSpaces.of_reachable reachable).active_cases with ⟨slot, member, active⟩ | active
  · rw [Kernel.translate_task active, ownership.translate_task member, Machine.view] at translated
    split at translated
    next =>
      cases translated
      rfl
    next =>
      split at translated
      next => cases translated
      next => exact mapped translated
  · rw [Kernel.translate_kernelPagedir active, ownership.translate_kernel] at translated
    exact mapped translated

variable {inside : Nat → Prop}

private theorem storing_run {pending : List Copy} {kernel stored : Kernel} {activation : Activation}
    {rest : List Activation} {phase : Phase} (running : phase = .running)
    (deep : inside (System.depth ⟨kernel, phase, activation :: rest⟩))
    (values : ∀ copy ∈ pending, ∃ value, copy.src = .stack value)
    (writable : ∀ copy ∈ pending, ∃ found, kernel.translate machine copy.dst = some found ∧
      found.user = true ∧ found.rw = true)
    (folded : pending.foldlM (copyByte machine) kernel = some stored) :
    ∃ events, Run (step machine) (fun state => inside state.depth)
      ⟨kernel, phase, activation :: rest⟩ events ⟨stored, phase, activation :: rest⟩ := by
  subst running
  induction pending generalizing kernel with
  | nil =>
      cases folded
      exact ⟨[], .nil deep⟩
  | cons copy pending induction =>
      rw [List.foldlM_cons, Option.bind_eq_bind, Option.bind_eq_some_iff] at folded
      rcases folded with ⟨middle, copied, folded⟩
      rcases values copy (List.mem_cons_self ..) with ⟨value, source⟩
      rcases writable copy (List.mem_cons_self ..) with ⟨found, translated, user, rw_⟩
      have userStored : userStore machine kernel copy.dst value = some middle := by
        simp only [copyByte, source, Kernel.read, translated, Option.bind_eq_bind,
          Option.bind_some] at copied
        simp only [userStore, translated, user, rw_, Option.bind_eq_bind, Option.bind_some,
          Bool.and_self, if_true]
        exact copied
      have stepped : step machine ⟨kernel, .running, activation :: rest⟩ (.store copy.dst value) =
          some ⟨middle, .running, activation :: rest⟩ := by
        simp only [step, userStored, Option.map_some]
      have kept : ∀ address, middle.translate machine address =
          kernel.translate machine address := by
        rcases copyByte_some copied with ⟨_, _, _, _, _, rfl⟩
        exact fun _ => rfl
      have stillWritable : ∀ copy ∈ pending, ∃ found,
          middle.translate machine copy.dst = some found ∧ found.user = true ∧ found.rw = true := by
        intro other member
        rw [kept]
        exact writable other (List.mem_cons_of_mem _ member)
      rcases induction (fun other member => values other (List.mem_cons_of_mem _ member))
        stillWritable folded deep with ⟨events, run⟩
      exact ⟨_, .cons deep stepped run⟩

section

variable {activation : Activation} {rest : List Activation} {kernel : Kernel}
variable (rws : ∀ address found, system.kernel.translate machine address = some found →
  found.rw = true)
variable (running : system.phase = .running) (stacked : system.stack = activation :: rest)
variable (deep : inside system.depth)

include rws running stacked deep

private theorem storeBytes_run {address : BitVec 32} {values : List UInt8}
    (mapped : ∀ pointer ∈ addressRange address values.length,
      leadsToUser machine system.kernel pointer = true)
    (stored : storeBytes machine system.kernel address values = some kernel) :
    ∃ events, Run (step machine) (fun state => inside state.depth) system events
      { system with kernel := kernel } := by
  have sources : ∀ copy ∈ memcpyStack address values, ∃ value, copy.src = .stack value := by
    intro copy member
    rcases List.mem_map.mp member with ⟨store, _, rfl⟩
    exact ⟨_, rfl⟩
  have writable : ∀ copy ∈ memcpyStack address values, ∃ found,
      system.kernel.translate machine copy.dst = some found ∧ found.user = true ∧
        found.rw = true := by
    intro copy member
    rcases List.mem_map.mp member with ⟨store, storeMember, rfl⟩
    have position : store.1 ∈ (memcpy address values).map Prod.fst :=
      List.mem_map_of_mem storeMember
    rw [memcpy_fst] at position
    rcases leadsToUser_iff.mp (mapped _ position) with ⟨found, translated, user⟩
    exact ⟨found, translated, user, rws _ _ translated⟩
  rcases system with ⟨before, phase, stack⟩
  subst stacked
  exact storing_run running deep sources writable stored

private theorem storeBlocks_run {blocks : List (BitVec 32 × List UInt8)}
    (mapped : ∀ pointer ∈ blockBytes blocks, leadsToUser machine system.kernel pointer = true)
    (stored : storeBlocks machine system.kernel blocks = some kernel) :
    ∃ events, Run (step machine) (fun state => inside state.depth) system events
      { system with kernel := kernel } := by
  induction blocks generalizing system with
  | nil =>
      cases stored
      exact ⟨[], .nil deep⟩
  | cons block blocks induction =>
      rcases storeBlocks_cons stored with ⟨middle, first, later⟩
      rcases storeBytes_run rws running stacked deep
        (fun pointer member => mapped pointer (List.mem_append_left _ member)) first with
        ⟨events, run⟩
      have kept := (storeBytes_writesOnly first).translate_eq
      have again : ∃ events, Run (step machine) (fun state => inside state.depth)
          { system with kernel := middle } events { system with kernel := kernel } := by
        refine induction ?_ running stacked deep ?_ later
        · intro address found translated
          exact rws address found (kept address ▸ translated)
        · intro pointer member
          rw [leadsToUser, kept]
          exact mapped pointer (List.mem_append_right _ member)
      rcases again with ⟨more, continues⟩
      exact ⟨_, run.append continues⟩

/-- A system call through the program's own pointers is a run of its own stores
or a change of the colors. -/
private theorem served_run {pointers : List (BitVec 32)}
    (mapped : ∀ pointer ∈ pointers, leadsToUser machine system.kernel pointer = true)
    (served : Served machine system.kernel pointers kernel) :
    ∃ events, Run (step machine) (fun state => inside state.depth) system events
      { system with kernel := kernel } := by
  cases served with
  | colors colors =>
      refine ⟨[.termSetcolors colors], .single deep ?_ deep⟩
      simp only [step, running]
  | stores blocks among stored =>
      exact storeBlocks_run rws running stacked deep
        (fun pointer member => mapped pointer (among member)) stored

end

private theorem syscallStep_run {devices : Devices} {nb arg1 arg2 arg3 arg4 : BitVec 32}
    (rws : ∀ address found, system.kernel.translate machine address = some found →
      found.rw = true)
    (allowed : polite machine system (.syscall devices nb arg1 arg2 arg3 arg4) = true)
    (deep : inside system.depth) (deepNext : inside next.depth)
    (stepped : syscallStep machine devices system nb arg1 arg2 arg3 arg4 = some next) :
    ∃ events, Run (step machine) (fun state => inside state.depth) system events next := by
  rw [polite, Bool.and_eq_true, List.all_eq_true] at allowed
  rcases allowed with ⟨runs, mapped⟩
  rcases runsTask_iff.mp runs with ⟨running, activation, rest, stacked⟩
  rcases syscallStep_cases stepped with ⟨_, _, kernel, handled, rfl⟩ | ⟨filename, args, _, execs⟩
  · exact served_run rws running stacked deep mapped (.of_syscallHandler handled)
  · exact ⟨_, .single deep execs deepNext⟩

private theorem exceptionHandler_written {kernel : Kernel} {regs : Regs} {physical : BitVec 32}
    (returns : (exceptionHandler machine kernel regs).nested = false)
    (written : (exceptionHandler machine kernel regs).written = some physical) :
    (∃ found, kernel.translate machine regs.eip = some found ∧ found.physical = physical) ∧
      (exceptionHandler machine kernel regs).colors = kernel.colors := by
  rw [exceptionHandler] at returns written ⊢
  by_cases accepted : isTaskId (taskId kernel (getTaskBySelector kernel.cpu.tr)) = true
  · rw [if_pos accepted] at returns written ⊢
    cases translated : kernel.translate machine regs.eip with
    | none =>
        rw [translated] at returns
        cases returns
    | some found =>
        rw [translated] at written
        exact ⟨⟨found, rfl, Option.some.inj written⟩, rfl⟩
  · rw [if_neg accepted] at written
    cases written

theorem exceptionStep_some {regs : Regs}
    (stepped : exceptionStep machine system regs = some next) :
    ∃ found console kernel, system.kernel.translate machine regs.eip = some found ∧
      system.kernel.storeByte machine found.physical iretOpcode = some kernel ∧
      next = { system with kernel := { kernel with console := console } } := by
  rw [exceptionStep] at stepped
  split at stepped
  next => cases stepped
  next returns =>
    rw [Bool.or_eq_true, not_or, Bool.not_eq_true, Bool.not_eq_true] at returns
    simp only [Option.bind_eq_bind, Option.bind_eq_some_iff] at stepped
    rcases stepped with ⟨physical, written, kernel, stored, equal⟩
    rcases exceptionHandler_written returns.2 written with ⟨⟨found, translated, rfl⟩, colors⟩
    refine ⟨found, (exceptionHandler machine system.kernel regs).console, kernel, translated,
      stored, ?_⟩
    rcases storeByte_some stored with ⟨rfl, _⟩
    rw [colors] at equal
    exact (Option.some.inj equal).symm

theorem exceptionStep_run {regs : Regs}
    (rws : ∀ address found, system.kernel.translate machine address = some found →
      found.rw = true)
    (allowed : polite machine system (.exception regs) = true)
    (stepped : exceptionStep machine system regs = some next) :
    ∃ middle, step machine system (.store regs.eip iretOpcode) = some middle ∧
      System.Alike next middle := by
  rw [polite, Bool.and_eq_true] at allowed
  rcases allowed with ⟨runs, mapped⟩
  rcases runsTask_iff.mp runs with ⟨running, activation, rest, stacked⟩
  rcases exceptionStep_some stepped with ⟨found, console, kernel, translated, stored, rfl⟩
  rcases leadsToUser_iff.mp mapped with ⟨_, same, user⟩
  cases translated.symm.trans same
  have userStored : userStore machine system.kernel regs.eip iretOpcode = some kernel := by
    simp only [userStore, translated, user, rws _ _ translated, stored, Option.bind_eq_bind,
      Option.bind_some, Bool.and_self, if_true]
  refine ⟨{ system with kernel := kernel }, ?_, ⟨rfl⟩⟩
  simp only [step, running, stacked, userStored, Option.map_some]

/-- What the program does through the kernel, it could have done itself. -/
theorem politeAct_run {action : Act} (reachable : Reachable machine plain)
    (alike : System.Alike system plain) (deep : inside system.depth) (deepNext : inside next.depth)
    (stepped : politeAct machine system action = some next) :
    ∃ events other, Run (step machine) (fun state => inside state.depth) plain events other ∧
      System.Alike next other := by
  rw [politeAct] at stepped
  split at stepped
  next allowed =>
    have rws : ∀ address found, system.kernel.translate machine address = some found →
        found.rw = true := by
      intro address found translated
      rw [alike.translate] at translated
      exact translate_rw reachable translated
    cases action with
    | event event =>
        rcases System.Alike.run (.single deep stepped deepNext) alike with ⟨other, run, alikeNext⟩
        exact ⟨_, other, run, alikeNext⟩
    | syscall devices nb arg1 arg2 arg3 arg4 =>
        rcases syscallStep_run rws allowed deep deepNext stepped with ⟨events, run⟩
        rcases System.Alike.run run alike with ⟨other, run, alikeNext⟩
        exact ⟨events, other, run, alikeNext⟩
    | exception regs =>
        rcases exceptionStep_run rws allowed stepped with ⟨middle, stored, alikeMiddle⟩
        have deepMiddle : inside middle.depth := by
          rw [System.depth, ← alikeMiddle.created]
          exact deepNext
        rcases System.Alike.run (.single deep stored deepMiddle) alike with ⟨other, run, alikeOther⟩
        exact ⟨_, other, run, alikeMiddle.trans alikeOther⟩
  next => cases stepped

theorem politeRun_run (inside : Nat → Prop) {actions : List Act}
    (reachable : Reachable machine plain)
    (alike : System.Alike system plain)
    (run : Run (politeAct machine) (fun state => inside state.depth) system actions next) :
    ∃ events other, Run (step machine) (fun state => inside state.depth) plain events other ∧
      Reachable machine other ∧ System.Alike next other := by
  have simulated : ∀ before action after abstract, inside (System.depth before) →
      inside (System.depth after) →
      (Reachable machine abstract ∧ System.Alike before abstract) →
      politeAct machine before action = some after → ∃ events other,
        Run (step machine) (fun state => inside state.depth) abstract events other ∧
          (Reachable machine other ∧ System.Alike after other) := by
    rintro before action after abstract deep deepNext ⟨reachable, alike⟩ stepped
    rcases politeAct_run reachable alike deep deepNext stepped with ⟨events, other, run, alikeNext⟩
    exact ⟨events, other, run, reachable.extend run, alikeNext⟩
  apply run.simulates _ simulated ⟨reachable, alike⟩
  rintro concrete abstract deep ⟨_, alike⟩
  rwa [System.depth, ← alike.created]

end

theorem polite_of_reachable {machine : Machine} {system : System}
    (reachable : Reachable machine system) :
    Transition.Reachable (politeAct machine) (System.initial machine) system :=
  reachable.preserves (fun _ event after prior stepped =>
    prior.step_to (show politeAct machine _ (.event event) = some after from stepped)) .refl

/-- A state that programs reach with traps is one they reach without, up to what
has been printed. -/
theorem exists_plain {machine : Machine} {system : System}
    (reachable : Transition.Reachable (politeAct machine) (System.initial machine) system) :
    ∃ plain, Reachable machine plain ∧ System.Alike system plain := by
  rcases reachable with ⟨actions, run⟩
  rcases politeRun_run (fun _ => True) .refl (.refl _) run with
    ⟨_, plain, _, plainReachable, alike⟩
  exact ⟨plain, plainReachable, alike⟩

/-- Whatever programs do with their own pointers, system calls and exceptions
included, the kernel goes through no state that programs could not have brought
it to without them, and no call of `task_exec` ends that would not have ended. -/
theorem traps_refine {machine : Machine} {system : System}
    (reachable : Transition.Reachable (politeAct machine) (System.initial machine) system) :
    ∃ plain, Reachable machine plain ∧ System.Alike system plain ∧
      ∀ (inside : Nat → Prop) actions final,
        Run (politeAct machine) (fun state => inside state.depth) system actions final →
        ∃ events other, Run (step machine) (fun state => inside state.depth) plain events other ∧
          System.Alike final other := by
  rcases exists_plain reachable with ⟨plain, plainReachable, alike⟩
  refine ⟨plain, plainReachable, alike, fun inside actions final run => ?_⟩
  rcases politeRun_run inside plainReachable alike run with ⟨events, other, plainRun, _, alikeFinal⟩
  exact ⟨events, other, plainRun, alikeFinal⟩

/-! ## The shell -/

def shellActs : List Act :=
  shellStart.map .event ++ [.syscall shellDevices 2 taskVirtAddr 0 0 0]

private theorem shellActs_isSome :
    (execute (politeAct shellMachine) (fun _ => true) (System.initial shellMachine)
      shellActs).isSome = true := by
  decide +kernel

def shellCalling : System :=
  (execute (politeAct shellMachine) (fun _ => true) (System.initial shellMachine) shellActs).get
    shellActs_isSome

theorem shellCalling_reachable :
    Transition.Reachable (politeAct shellMachine) (System.initial shellMachine) shellCalling :=
  ⟨shellActs, (run_of_execute (Option.some_get _).symm).widen fun _ _ => trivial⟩

theorem traps_refine_shell : ∃ plain events other, Reachable shellMachine plain ∧
    plain.kernel.userByte 0 taskVirtAddr = some 0 ∧
    Run (step shellMachine) (fun state => 0 < state.depth) plain events other ∧
    other.kernel.userByte 0 taskVirtAddr = some iretOpcode := by
  have key : shellCalling.kernel.userByte 0 taskVirtAddr = some 0 := by decide +kernel
  have deep : 0 < shellCalling.depth := by decide +kernel
  have faults : (politeAct shellMachine shellCalling
      (.exception (pageFault taskVirtAddr gdtUserCodeSelector))).any (fun faulted =>
        decide (0 < faulted.depth) &&
          faulted.kernel.userByte 0 taskVirtAddr == some iretOpcode) = true := by decide +kernel
  rcases (Option.any_eq_true ..).mp faults with ⟨faulted, stepped, checked⟩
  rw [Bool.and_eq_true, decide_eq_true_eq, beq_iff_eq] at checked
  rcases traps_refine shellCalling_reachable with ⟨plain, reachable, alike, refines⟩
  rcases refines (0 < ·) _ _ (.single deep stepped checked.1) with ⟨events, other, run, ends⟩
  rcases alike.exists_console with ⟨before, same⟩
  rcases ends.exists_console with ⟨after, rfl⟩
  rw [same] at key
  exact ⟨plain, events, other, reachable, key, run, checked.2⟩

end Yoctos.Syscall
