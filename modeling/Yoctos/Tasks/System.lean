import Yoctos.Foundation.Transition
import Yoctos.Tasks.Switch

/-! # Nested calls of `task_exec`

The system steps through `task_exec` calls of the running task: loading byte by
byte, the switch to the child, the child's `iret`, and the release. In between
the running code stores into its pages and sets the terminal colors.
-/

namespace Yoctos.Tasks

open Yoctos.Common Yoctos.Memory

/-- The locals `t` and `cols` of a `task_exec` that waits for its child. -/
structure Activation where
  slot : Slot
  cols : TermColors

inductive Phase
  /-- The code of the current task runs. -/
  | running
  /-- `task_load` copies under the page directory of the new task. -/
  | copying (window : Window)
  /-- `task_load` has returned the new task. -/
  | loaded (slot : Slot)
  /-- `task_switch` has returned. -/
  | returned (activation : Activation)

/-- `stack` holds the suspended activations, innermost first. -/
structure System where
  kernel : Kernel
  phase : Phase
  stack : List Activation

def System.initial (machine : Machine) : System := ⟨tasksInit machine, .running, []⟩

inductive Event
  /-- The running code calls `task_exec`; `task_load` runs up to its first copy. -/
  | taskExec (filename : CString) (args : Arguments)
  | copy
  /-- The second `paging_load_pagedir` of `task_load`. -/
  | restore
  /-- `term_getcolors` and `task_switch`, with the registers at the far call. -/
  | taskSwitch (registers : Registers)
  | iret
  /-- `term_setcolors` and `task_free`. -/
  | taskFree
  | termSetcolors (colors : TermColors)
  /-- User code stores a byte. -/
  | store (address : BitVec 32) (value : UInt8)
  /-- User code changes its registers. -/
  | compute (registers : Registers)

def userStore (machine : Machine) (kernel : Kernel) (address : BitVec 32) (value : UInt8) :
    Option Kernel := do
  let found ← kernel.translate machine address
  if found.user && found.rw then kernel.storeByte machine found.physical value else none

def Kernel.setRegisters (kernel : Kernel) (registers : Registers) : Kernel :=
  { kernel with cpu := { kernel.cpu with registers := registers } }

def Kernel.termSetcolors (kernel : Kernel) (colors : TermColors) : Kernel :=
  { kernel with colors := colors }

/-- A step, or `none` where the event cannot happen or its effect is not
determined by the source. -/
def step (machine : Machine) (system : System) : Event → Option System
  | .taskExec filename args =>
      match system.phase with
      | .running => (taskLoadBegin machine system.kernel filename args).map fun
          | .failed kernel => { system with kernel := kernel }
          | .copying kernel window => { system with kernel := kernel, phase := .copying window }
      | _ => none
  | .copy =>
      match system.phase with
      | .copying ⟨slot, pagedir, next :: pending⟩ =>
          (copyByte machine system.kernel next).map fun kernel =>
            { system with kernel := kernel, phase := .copying ⟨slot, pagedir, pending⟩ }
      | _ => none
  | .restore =>
      match system.phase with
      | .copying ⟨slot, pagedir, []⟩ =>
          some { system with kernel := system.kernel.loadPagedir pagedir, phase := .loaded slot }
      | _ => none
  | .taskSwitch registers =>
      match system.phase with
      | .loaded slot =>
          ((system.kernel.setRegisters registers).farCall machine
            (system.kernel.tasks slot).tssSelector).map fun kernel =>
              { kernel := kernel
                phase := .running
                stack := ⟨slot, system.kernel.colors⟩ :: system.stack }
      | _ => none
  | .iret =>
      match system.phase, system.stack with
      | .running, activation :: rest =>
          (system.kernel.iret machine).map fun kernel =>
            { kernel := kernel, phase := .returned activation, stack := rest }
      | _, _ => none
  | .taskFree =>
      match system.phase with
      | .returned activation =>
          some { system with
            kernel := taskFree (system.kernel.termSetcolors activation.cols) activation.slot
            phase := .running }
      | _ => none
  | .termSetcolors colors =>
      match system.phase with
      | .running => some { system with kernel := system.kernel.termSetcolors colors }
      | _ => none
  | .store address value =>
      match system.phase, system.stack with
      | .running, _ :: _ =>
          (userStore machine system.kernel address value).map fun kernel =>
            { system with kernel := kernel }
      | _, _ => none
  | .compute registers =>
      match system.phase, system.stack with
      | .running, _ :: _ => some { system with kernel := system.kernel.setRegisters registers }
      | _, _ => none

/-- The states that nested `task_exec` calls lead to. -/
abbrev Reachable (machine : Machine) (system : System) : Prop :=
  Transition.Reachable (step machine) (System.initial machine) system

inductive Step (machine : Machine) (system : System) : Event → System → Prop
  | execFailed {filename args kernel} (running : system.phase = .running)
      (begun : taskLoadBegin machine system.kernel filename args = some (.failed kernel)) :
      Step machine system (.taskExec filename args) { system with kernel := kernel }
  | execLoading {filename args kernel window} (running : system.phase = .running)
      (begun : taskLoadBegin machine system.kernel filename args = some (.copying kernel window)) :
      Step machine system (.taskExec filename args)
        { system with kernel := kernel, phase := .copying window }
  | copy {slot pagedir next pending kernel}
      (copying : system.phase = .copying ⟨slot, pagedir, next :: pending⟩)
      (copied : copyByte machine system.kernel next = some kernel) :
      Step machine system .copy
        { system with kernel := kernel, phase := .copying ⟨slot, pagedir, pending⟩ }
  | restore {slot pagedir} (copying : system.phase = .copying ⟨slot, pagedir, []⟩) :
      Step machine system .restore
        { system with kernel := system.kernel.loadPagedir pagedir, phase := .loaded slot }
  | taskSwitch {slot registers kernel} (loaded : system.phase = .loaded slot)
      (switched : (system.kernel.setRegisters registers).farCall machine
        (system.kernel.tasks slot).tssSelector = some kernel) :
      Step machine system (.taskSwitch registers)
        ⟨kernel, .running, ⟨slot, system.kernel.colors⟩ :: system.stack⟩
  | iret {activation rest kernel} (running : system.phase = .running)
      (stacked : system.stack = activation :: rest)
      (switched : system.kernel.iret machine = some kernel) :
      Step machine system .iret ⟨kernel, .returned activation, rest⟩
  | taskFree {activation} (returned : system.phase = .returned activation) :
      Step machine system .taskFree
        { system with
          kernel := Tasks.taskFree (system.kernel.termSetcolors activation.cols) activation.slot
          phase := .running }
  | termSetcolors {colors} (running : system.phase = .running) :
      Step machine system (.termSetcolors colors)
        { system with kernel := system.kernel.termSetcolors colors }
  | store {address value kernel} (running : system.phase = .running) (nested : system.stack ≠ [])
      (stored : userStore machine system.kernel address value = some kernel) :
      Step machine system (.store address value) { system with kernel := kernel }
  | compute {registers} (running : system.phase = .running) (nested : system.stack ≠ []) :
      Step machine system (.compute registers)
        { system with kernel := system.kernel.setRegisters registers }

theorem step_cases {machine : Machine} {system next : System} {event : Event}
    (stepped : step machine system event = some next) : Step machine system event next := by
  cases event with
  | taskExec filename args =>
      simp only [step] at stepped
      split at stepped
      next running =>
        rcases Option.map_eq_some_iff.mp stepped with ⟨begun, equal, rfl⟩
        cases begun with
        | failed kernel => exact .execFailed running equal
        | copying kernel window => exact .execLoading running equal
      next => cases stepped
  | copy =>
      simp only [step] at stepped
      split at stepped
      next slot pagedir copied pending copying =>
        rcases Option.map_eq_some_iff.mp stepped with ⟨kernel, equal, rfl⟩
        exact .copy copying equal
      next => cases stepped
  | restore =>
      simp only [step] at stepped
      split at stepped
      next slot pagedir copying =>
        cases stepped
        exact .restore copying
      next => cases stepped
  | taskSwitch registers =>
      simp only [step] at stepped
      split at stepped
      next slot loaded =>
        rcases Option.map_eq_some_iff.mp stepped with ⟨kernel, equal, rfl⟩
        exact .taskSwitch loaded equal
      next => cases stepped
  | iret =>
      simp only [step] at stepped
      split at stepped
      next activation rest running stacked =>
        rcases Option.map_eq_some_iff.mp stepped with ⟨kernel, equal, rfl⟩
        exact .iret running stacked equal
      next => cases stepped
  | taskFree =>
      simp only [step] at stepped
      split at stepped
      next activation returned =>
        cases stepped
        exact .taskFree returned
      next => cases stepped
  | termSetcolors colors =>
      simp only [step] at stepped
      split at stepped
      next running =>
        cases stepped
        exact .termSetcolors running
      next => cases stepped
  | store address value =>
      simp only [step] at stepped
      split at stepped
      next activation rest running stacked =>
        rcases Option.map_eq_some_iff.mp stepped with ⟨kernel, equal, rfl⟩
        exact .store running (by simp [stacked]) equal
      next => cases stepped
  | compute registers =>
      simp only [step] at stepped
      split at stepped
      next activation rest running stacked =>
        cases stepped
        exact .compute running (by simp [stacked])
      next => cases stepped

end Yoctos.Tasks
