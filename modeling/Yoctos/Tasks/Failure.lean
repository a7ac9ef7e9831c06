import Yoctos.Boot.ModuleByName
import Yoctos.Tasks.Execution

/-! # When `task_exec` fails

The exits of `task_load` and `task_create` that return `NULL` all come before
the first change of the tables.
-/

namespace Yoctos.Tasks

open Yoctos.Common Yoctos.Memory Yoctos.Boot

/-- What the tests of `task_load` and `task_create` find when one of them gives up. -/
def Unloadable (machine : Machine) (kernel : Kernel) (filename : CString) : Prop :=
  moduleAddrByName machine kernel filename = 0 ∨ moduleSizeByName machine kernel filename = -1 ∨
    ∀ slot, (kernel.tasks slot).inUse = true

private theorem taskCreate_eq_none_iff {machine : Machine} {kernel : Kernel} {name : CString}
    {addrSpaceSize argsSize : BitVec 32} :
    taskCreate machine kernel name addrSpaceSize argsSize = none ↔
      ∀ slot, (kernel.tasks slot).inUse = true := by
  rw [taskCreate]
  cases searched : findFree kernel.tasks allSlots gdtFirstTaskEntry with
  | none => exact iff_of_true rfl fun slot => findFree_none searched slot (mem_allSlots slot)
  | some found =>
      rcases findFree_some walksFrom_allSlots searched with ⟨_, free, _⟩
      refine iff_of_false (by simp) fun used => ?_
      cases (used found.1).symm.trans free

section

variable {machine : Machine} {kernel : Kernel} {filename : CString} {args : Arguments}

theorem taskLoadBegin_failed_iff (stays : staysInTmpArgv args = true) :
    (∃ next, taskLoadBegin machine kernel filename args = some (.failed next)) ↔
      Unloadable machine kernel filename := by
  simp only [taskLoadBegin, if_pos stays, Unloadable]
  by_cases noAddr : moduleAddrByName machine kernel filename = 0
  · rw [if_pos noAddr]
    exact iff_of_true ⟨_, rfl⟩ (.inl noAddr)
  · by_cases noSize : moduleSizeByName machine kernel filename = -1
    · rw [if_neg noAddr, if_pos noSize]
      exact iff_of_true ⟨_, rfl⟩ (.inr (.inl noSize))
    · rw [if_neg noAddr, if_neg noSize]
      cases made : taskCreate machine kernel filename (moduleSizeByName machine kernel filename)
          (argsSize args) with
      | none =>
          exact iff_of_true ⟨_, rfl⟩ (.inr (.inr (taskCreate_eq_none_iff.mp made)))
      | some created =>
          refine iff_of_false (by simp) fun failing => ?_
          rcases failing with addr | size | used
          · exact noAddr addr
          · exact noSize size
          · cases made.symm.trans (taskCreate_eq_none_iff.mpr used)

theorem taskLoadBegin_copying_of_loadable (stays : staysInTmpArgv args = true)
    (loadable : ¬ Unloadable machine kernel filename) : ∃ opened window,
      taskLoadBegin machine kernel filename args = some (.copying opened window) := by
  have notFailed := mt (taskLoadBegin_failed_iff stays).mp loadable
  cases begun : taskLoadBegin machine kernel filename args with
  | none =>
      simp only [taskLoadBegin, if_pos stays] at begun
      split at begun
      · cases begun
      · split at begun
        · cases begun
        · split at begun <;> cases begun
  | some result =>
      cases result with
      | failed next => exact absurd ⟨next, begun⟩ notFailed
      | copying opened window => exact ⟨opened, window, rfl⟩

theorem begun_of_failed {system next : System} {events : List Event}
    (exec : TaskExec machine system (.taskExec filename args :: events) false next) :
    events = [] ∧ system.phase = .running ∧ ∃ console,
      taskLoadBegin machine system.kernel filename args =
        some (.failed { system.kernel with console := console }) ∧
      next = { system with kernel := { system.kernel with console := console } } := by
  cases exec with
  | failed stepped running =>
      cases step_cases stepped with
      | execFailed ready begun =>
          rcases taskLoadBegin_failed begun with ⟨console, rfl⟩
          exact ⟨rfl, ready, console, begun, rfl⟩
      | execLoading ready begun => cases running

private theorem begun_of_returned {system next : System} {events : List Event}
    (exec : TaskExec machine system (.taskExec filename args :: events) true next) :
    ∃ opened window,
      taskLoadBegin machine system.kernel filename args = some (.copying opened window) := by
  cases exec with
  | returned call =>
      cases call with
      | intro opens pushed run closes popped =>
          cases step_cases opens with
          | execFailed running begun =>
              have same : ∀ kernel, System.created { system with kernel := kernel } =
                  system.created := fun _ => rfl
              rw [same] at pushed
              omega
          | execLoading running begun => exact ⟨_, _, begun⟩

theorem taskExec_result_iff {system next : System} {events : List Event} {result : Bool}
    (stays : staysInTmpArgv args = true)
    (exec : TaskExec machine system (.taskExec filename args :: events) result next) :
    result = false ↔ Unloadable machine system.kernel filename := by
  rw [← taskLoadBegin_failed_iff stays]
  cases result with
  | false =>
      rcases begun_of_failed exec with ⟨_, _, console, begun, _⟩
      exact iff_of_true rfl ⟨_, begun⟩
  | true =>
      rcases begun_of_returned exec with ⟨opened, window, begun⟩
      refine iff_of_false (by simp) fun failing => ?_
      rcases failing with ⟨kernel, failed⟩
      cases begun.symm.trans failed

theorem exists_taskExec_of_unloadable {system : System} (running : system.phase = .running)
    (stays : staysInTmpArgv args = true)
    (unloadable : Unloadable machine system.kernel filename) :
    ∃ next, TaskExec machine system [.taskExec filename args] false next := by
  rcases (taskLoadBegin_failed_iff stays).mpr unloadable with ⟨kernel, begun⟩
  have stepped : step machine system (.taskExec filename args) =
      some { system with kernel := kernel } := by
    simp only [step, running, begun, Option.map_some]
  exact ⟨_, .failed stepped running⟩

end

/-! ## Whole calls -/

def Unstartable (machine : Machine) (kernel : Kernel) (filename : CString) : Prop :=
  (∀ module ∈ machine.modules, module.cmdline ≠ some filename) ∨
    ∀ slot, (kernel.tasks slot).inUse = true

/-- Modules with command lines, at addresses other than `NULL` and with sizes
that fit an `int`. -/
structure Ordinary (modules : List Module) : Prop where
  cmdline : ∀ module ∈ modules, module.cmdline ≠ none
  placed : ∀ module ∈ modules, module.firstAddress ≠ 0
  sized : ∀ module ∈ modules, module.size.toNat < 2 ^ 31

theorem Ordinary.findable {modules : List Module} (ordinary : Ordinary modules) (name : CString) :
    Findable modules name := by
  refine ⟨fun module member => ?_, fun module found => ?_⟩
  · exact ordinary.cmdline module ((List.takeWhile_sublist _).subset member)
  · have member := List.mem_of_find?_eq_some found
    refine ⟨ordinary.placed module member, fun wrapped => ?_⟩
    have sized := ordinary.sized module member
    rw [wrapped] at sized
    exact absurd sized (by decide)

private theorem Ordinary.unloadable_iff {machine : Machine} (ordinary : Ordinary machine.modules)
    (kernel : Kernel) (filename : CString) :
    Unloadable machine kernel filename ↔ Unstartable machine kernel filename := by
  have correct := (ordinary.findable filename).lookupCorrect kernel
  rw [Unloadable, Unstartable, correct.noAddr, correct.noSize, ← or_assoc, or_self]

/-- `task_exec` returns false exactly when no module has the name or all slots
are in use, and has then changed nothing but the console. -/
theorem taskExec_false_iff {machine : Machine} {system : System} {filename : CString}
    {args : Arguments} (running : system.phase = .running)
    (stays : staysInTmpArgv args = true) (ordinary : Ordinary machine.modules) :
    (∀ events result next, TaskExec machine system (.taskExec filename args :: events) result next →
      (result = false ↔ Unstartable machine system.kernel filename) ∧
      (result = false → events = [] ∧ ∃ console,
        next = { system with kernel := { system.kernel with console := console } })) ∧
    (Unstartable machine system.kernel filename → ∃ next,
      TaskExec machine system [.taskExec filename args] false next) := by
  have decides := ordinary.unloadable_iff system.kernel filename
  constructor
  · intro events result next exec
    refine ⟨(taskExec_result_iff stays exec).trans decides, fun failed => ?_⟩
    subst failed
    rcases begun_of_failed exec with ⟨single, _, console, _, rfl⟩
    exact ⟨single, console, rfl⟩
  · exact fun unstartable => exists_taskExec_of_unloadable running stays (decides.mpr unstartable)

theorem taskExec_false_iff_ls : ∃ console, TaskExec shellMachine (System.initial shellMachine)
    [.taskExec lsName noArguments] false
    { System.initial shellMachine with
      kernel := { tasksInit shellMachine with console := console } } := by
  have running : (System.initial shellMachine).phase = .running := rfl
  have stays : staysInTmpArgv noArguments = true := rfl
  have ordinary : Ordinary shellMachine.modules := ⟨by decide, by decide, by decide⟩
  have missing : Unstartable shellMachine (tasksInit shellMachine) lsName := .inl (by decide)
  rcases taskExec_false_iff running stays ordinary with ⟨outcome, fails⟩
  rcases fails missing with ⟨next, exec⟩
  rcases (outcome [] false next exec).2 rfl with ⟨_, console, rfl⟩
  exact ⟨console, exec⟩

end Yoctos.Tasks
