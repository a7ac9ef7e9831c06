import Yoctos.Tasks.TaskTable

/-! # What has been printed does not matter

No operation of the task system reads the console back.
-/

namespace Yoctos.Tasks

open Yoctos.Common Yoctos.Memory Yoctos.Transition

def Kernel.silent (kernel : Kernel) : Kernel := { kernel with console := [] }

def LoadBegin.silent : LoadBegin → LoadBegin
  | .failed kernel => .failed kernel.silent
  | .copying kernel window => .copying kernel.silent window

namespace Kernel

variable (machine : Machine) (kernel : Kernel)

@[simp] theorem silent_silent : kernel.silent.silent = kernel.silent := rfl

private theorem taskCreate_silent (name : CString) (addrSpaceSize argsSize : BitVec 32) :
    (taskCreate machine kernel.silent name addrSpaceSize argsSize).map (Prod.map id silent) =
      (taskCreate machine kernel name addrSpaceSize argsSize).map (Prod.map id silent) := by
  have tasks : kernel.silent.tasks = kernel.tasks := rfl
  simp only [taskCreate, tasks]
  cases findFree kernel.tasks allSlots gdtFirstTaskEntry with
  | none => rfl
  | some found => rfl

private theorem taskLoadBegin_silent (filename : CString) (args : Arguments) :
    (taskLoadBegin machine kernel.silent filename args).map LoadBegin.silent =
      (taskLoadBegin machine kernel filename args).map LoadBegin.silent := by
  have address : moduleAddrByName machine kernel.silent filename =
      moduleAddrByName machine kernel filename := rfl
  have size : moduleSizeByName machine kernel.silent filename =
      moduleSizeByName machine kernel filename := rfl
  have create := taskCreate_silent machine kernel filename
    (moduleSizeByName machine kernel filename) (argsSize args)
  simp only [taskLoadBegin, address, size]
  split
  next =>
    split
    next => rfl
    next =>
      split
      next => rfl
      next =>
        cases quiet : taskCreate machine kernel.silent filename
            (moduleSizeByName machine kernel filename) (argsSize args) with
        | none =>
            rw [quiet] at create
            rw [Option.map_eq_none_iff.mp create.symm]
            rfl
        | some made =>
            rw [quiet] at create
            rcases Option.map_eq_some_iff.mp create.symm with ⟨⟨slot, loud⟩, other, equal⟩
            rw [other]
            rcases made with ⟨quietSlot, quietKernel⟩
            simp only [Prod.map, id, Prod.mk.injEq] at equal
            rcases equal with ⟨rfl, equal⟩
            have cpu : loud.silent.cpu = quietKernel.silent.cpu := congrArg Kernel.cpu equal
            change loud.cpu = quietKernel.cpu at cpu
            have loaded : (loud.loadPagedir (machine.layout.task slot)).silent =
                (quietKernel.loadPagedir (machine.layout.task slot)).silent :=
              congrArg (fun kernel => kernel.loadPagedir (machine.layout.task slot)) equal
            simp only [Option.map_some, LoadBegin.silent, loaded, cpu]
  next => rfl

private theorem storeByte_silent (physical : BitVec 32) (value : UInt8) :
    (kernel.silent.storeByte machine physical value) =
      (kernel.storeByte machine physical value).map silent := by
  have records : kernel.silent.holdsRecord machine physical =
      kernel.holdsRecord machine physical := rfl
  rw [storeByte, storeByte, records]
  split <;> rfl

private theorem copyByte_silent (copy : Copy) :
    copyByte machine kernel.silent copy = (copyByte machine kernel copy).map silent := by
  have read : kernel.silent.read machine copy.src = kernel.read machine copy.src := by
    cases copy.src <;> rfl
  have translate : kernel.silent.translate machine copy.dst =
      kernel.translate machine copy.dst := rfl
  simp only [copyByte, read, translate, storeByte_silent, Option.bind_eq_bind, Option.map_bind,
    Function.comp_def]

private theorem userStore_silent (address : BitVec 32) (value : UInt8) :
    userStore machine kernel.silent address value =
      (userStore machine kernel address value).map silent := by
  have translate : kernel.silent.translate machine address = kernel.translate machine address := rfl
  simp only [userStore, translate, storeByte_silent, Option.bind_eq_bind, Option.map_bind]
  congr 1
  funext found
  by_cases allowed : (found.user && found.rw) = true
  · simp only [Function.comp, if_pos allowed]
  · simp only [Function.comp, if_neg allowed, Option.map_none]

private theorem farCall_silent (selector : BitVec 16) :
    kernel.silent.farCall machine selector = (kernel.farCall machine selector).map silent := by
  have tssOf : ∀ type selector, kernel.silent.tssOf machine type selector =
      kernel.tssOf machine type selector := fun _ _ => rfl
  have tr : kernel.silent.cpu.tr = kernel.cpu.tr := rfl
  simp only [farCall, tssOf, tr, Option.bind_eq_bind, Option.map_bind, Function.comp_def]
  congr 1
  funext outgoing
  congr 1
  funext incoming
  cases outgoing <;> cases incoming <;> rfl

private theorem iret_silent : kernel.silent.iret machine = (kernel.iret machine).map silent := by
  have tssOf : ∀ type selector, kernel.silent.tssOf machine type selector =
      kernel.tssOf machine type selector := fun _ _ => rfl
  have getTss : ∀ ref, kernel.silent.getTss ref = kernel.getTss ref := by
    intro ref
    cases ref <;> rfl
  have cpu : kernel.silent.cpu = kernel.cpu := rfl
  simp only [iret, tssOf, getTss, cpu, Option.bind_eq_bind, Option.map_bind, Function.comp_def]
  congr 1
  funext outgoing
  congr 1
  funext incoming
  split
  next => rfl
  next => cases outgoing <;> cases incoming <;> rfl

end Kernel

namespace System

def silent (system : System) : System := { system with kernel := system.kernel.silent }

@[simp] theorem silent_silent (system : System) : system.silent.silent = system.silent := rfl

private theorem step_silent (machine : Machine) (system : System) (event : Event) :
    (step machine system.silent event).map silent = (step machine system event).map silent := by
  rcases system with ⟨kernel, phase, stack⟩
  cases event with
  | taskExec filename args =>
      cases phase with
      | running =>
          have begun := kernel.taskLoadBegin_silent machine filename args
          simp only [step, silent]
          cases quiet : taskLoadBegin machine kernel.silent filename args with
          | none =>
              rw [quiet] at begun
              rw [Option.map_eq_none_iff.mp begun.symm]
          | some made =>
              rw [quiet] at begun
              rcases Option.map_eq_some_iff.mp begun.symm with ⟨loud, other, equal⟩
              rw [other]
              cases made <;> cases loud <;> injection equal
              case failed.failed equal => simp only [Option.map_some, silent, equal]
              case copying.copying equal window =>
                simp only [Option.map_some, silent, equal, window]
      | copying window => rfl
      | loaded slot => rfl
      | returned activation => rfl
  | copy =>
      cases phase with
      | copying window =>
          rcases window with ⟨slot, pagedir, pending⟩
          cases pending with
          | nil => rfl
          | cons next pending =>
              simp only [step, silent, Kernel.copyByte_silent, Option.map_map]
              rfl
      | _ => rfl
  | restore =>
      cases phase with
      | copying window =>
          rcases window with ⟨slot, pagedir, pending⟩
          cases pending <;> rfl
      | _ => rfl
  | taskSwitch registers =>
      cases phase with
      | loaded slot =>
          have switched := (kernel.setRegisters registers).farCall_silent machine
            (kernel.tasks slot).tssSelector
          change (kernel.silent.setRegisters registers).farCall machine
            (kernel.silent.tasks slot).tssSelector = _ at switched
          simp only [step, silent, switched, Option.map_map]
          rfl
      | _ => rfl
  | iret =>
      cases phase <;> cases stack
      case running.cons activation rest =>
        simp only [step, silent, Kernel.iret_silent, Option.map_map]
        rfl
      all_goals rfl
  | taskFree => cases phase <;> rfl
  | termSetcolors colors => cases phase <;> rfl
  | store address value =>
      cases phase <;> cases stack
      case running.cons activation rest =>
        simp only [step, silent, Kernel.userStore_silent, Option.map_map]
        rfl
      all_goals rfl
  | compute registers => cases phase <;> cases stack <;> rfl

/-- Two systems that differ in what has been printed at most. -/
structure Alike (left right : System) : Prop where
  silent : left.silent = right.silent

namespace Alike

variable {machine : Machine} {left right next final : System}

theorem refl (system : System) : Alike system system := ⟨rfl⟩

theorem symm (alike : Alike left right) : Alike right left := ⟨alike.silent.symm⟩

theorem trans (first : Alike left right) (second : Alike right next) : Alike left next :=
  ⟨first.silent.trans second.silent⟩

theorem exists_console (alike : Alike left right) :
    ∃ console, left = { right with kernel := { right.kernel with console := console } } := by
  have whole : left = { left.silent with
      kernel := { left.silent.kernel with console := left.kernel.console } } := rfl
  rw [alike.silent] at whole
  exact ⟨left.kernel.console, whole⟩

theorem created (alike : Alike left right) : left.created = right.created := by
  rcases alike.exists_console with ⟨console, rfl⟩
  rfl

theorem translate (alike : Alike left right) (address : BitVec 32) :
    left.kernel.translate machine address = right.kernel.translate machine address := by
  rcases alike.exists_console with ⟨console, rfl⟩
  rfl

theorem step {event : Event} (alike : Alike left right)
    (stepped : Tasks.step machine left event = some next) :
    ∃ other, Tasks.step machine right event = some other ∧ Alike next other := by
  have silent := step_silent machine left event
  rw [alike.silent, step_silent, stepped] at silent
  rcases Option.map_eq_some_iff.mp silent with ⟨other, steppedOther, equal⟩
  exact ⟨other, steppedOther, ⟨equal.symm⟩⟩

theorem run {inside : Nat → Prop} {events : List Event}
    (run : Run (Tasks.step machine) (fun state => inside state.depth) left events final)
    (alike : Alike left right) :
    ∃ other, Run (Tasks.step machine) (fun state => inside state.depth) right events other ∧
      Alike final other := by
  induction run generalizing right with
  | nil within =>
      rw [System.depth, alike.created] at within
      exact ⟨right, .nil within, alike⟩
  | cons within stepped rest induction =>
      rcases alike.step stepped with ⟨middle, steppedOther, alikeMiddle⟩
      rcases induction alikeMiddle with ⟨other, run, alikeOther⟩
      rw [System.depth, alike.created] at within
      exact ⟨other, .cons within steppedOther run, alikeOther⟩

end Alike

end System

end Yoctos.Tasks
