import Yoctos.Tasks.TaskTable

/-! # Whole calls of `task_exec` -/

namespace Yoctos.Tasks

open Yoctos.Common Yoctos.Memory Yoctos.Transition

inductive TaskExec (machine : Machine) (system : System) : List Event → Bool → System → Prop
  | failed {filename : CString} {args : Arguments} {next : System}
      (stepped : step machine system (.taskExec filename args) = some next)
      (running : next.phase = .running) :
      TaskExec machine system [.taskExec filename args] false next
  | returned {events : List Event} {next : System}
      (call : Call (step machine) System.created system events next) :
      TaskExec machine system events true next

/-- A call of `task_exec` that succeeds. `task_free` runs in the state `inner`. -/
structure Execution (machine : Machine) (system : System) where
  filename : CString
  args : Arguments
  opened : System
  body : List Event
  inner : System
  activation : Activation
  next : System
  opens : step machine system (.taskExec filename args) = some opened
  pushed : opened.depth = system.depth + 1
  run : Run (step machine) (fun state => system.depth < state.depth) opened body inner
  returned : inner.phase = .returned activation
  closes : step machine inner .taskFree = some next
  popped : next.depth = system.depth

namespace Execution

variable {machine : Machine} {system : System} (exec : Execution machine system)

def events : List Event := .taskExec exec.filename exec.args :: (exec.body ++ [.taskFree])

theorem call : Call (step machine) System.created system exec.events exec.next :=
  .intro exec.opens exec.pushed exec.run exec.closes exec.popped

theorem inner_depth : exec.inner.depth = system.depth + 1 := by
  have above := exec.run.final_inside
  rcases free_of_popped exec.closes (exec.popped.trans_lt above) with ⟨activation, returned, next⟩
  rw [← exec.popped, next]
  simp [System.depth, System.created, returned, Phase.created]

def completes (machine : Machine) (system : System) (filename : CString) (args : Arguments)
    (body : List Event) : Bool :=
  match step machine system (.taskExec filename args) with
  | none => false
  | some opened =>
      decide (opened.depth = system.depth + 1) &&
        match execute (step machine) (fun state => decide (system.depth < state.depth)) opened
          body with
        | none => false
        | some inner =>
            match step machine inner .taskFree with
            | none => false
            | some next => decide (next.depth = system.depth)

theorem exists_of_completes {filename : CString} {args : Arguments} {body : List Event}
    (checked : completes machine system filename args body = true) :
    ∃ exec : Execution machine system,
      exec.events = .taskExec filename args :: (body ++ [.taskFree]) := by
  simp only [completes] at checked
  split at checked
  next => cases checked
  next opened opens =>
    rw [Bool.and_eq_true, decide_eq_true_eq] at checked
    rcases checked with ⟨pushed, checked⟩
    split at checked
    next => cases checked
    next inner executed =>
      split at checked
      next => cases checked
      next next closes =>
        have popped : next.depth = system.depth := of_decide_eq_true checked
        have run := (run_of_execute executed).widen fun _ => of_decide_eq_true
        rcases free_of_popped closes (popped.trans_lt run.final_inside) with
          ⟨activation, returned, _⟩
        exact ⟨⟨filename, args, opened, body, inner, activation, next, opens, pushed, run, returned,
          closes, popped⟩, rfl⟩

end Execution

/-! ## The shell -/

def shellBody : List Event :=
  List.replicate 5 .copy ++ [.restore, .taskSwitch .zero, .iret]

def shellEvents : List Event := .taskExec shellName noArguments :: (shellBody ++ [.taskFree])

theorem shell_completes :
    Execution.completes shellMachine (System.initial shellMachine) shellName noArguments shellBody =
      true := by
  decide +kernel

end Yoctos.Tasks
