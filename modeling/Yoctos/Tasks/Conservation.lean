import Yoctos.Tasks.Ownership
import Yoctos.Tasks.Execution

/-! # Frame conservation

A call of `task_exec` gives back the pages of its task but not the page tables,
and frees the first page of each table twice.
-/

namespace Yoctos.Tasks

open Yoctos.Common Yoctos.Memory Yoctos.Transition

def tablesTakenBy (machine : Machine) (system : System) : (events : List Event) → List Frame
  | [] => []
  | event :: rest =>
      tablesTaken machine system event ++
        match step machine system event with
        | some next => tablesTakenBy machine next rest
        | none => []

private theorem moves_of_run {machine : Machine} {system final : System} {events : List Event}
    {lower : List (Ledger.Share Frame)} (reachable : Reachable machine system)
    (run : Run (step machine) (fun state => lower.length ≤ state.depth) system events final)
    (below : lower <:+ system.account.shares) :
    Ledger.Moves lower system.account (tablesTakenBy machine system events) final.account := by
  induction run with
  | nil _ => exact .nil below
  | @cons first middle final event events inside stepped rest induction =>
      have move := ((Ownership.of_reachable reachable).step (.of_reachable reachable) stepped).2
      have high : lower.length ≤ middle.account.shares.length := by
        rw [System.account, List.length_map]
        exact rest.first_inside
      have later := induction (reachable.step_to stepped) (move.suffix below high)
      simp only [tablesTakenBy, stepped]
      exact .cons below move later

namespace Execution

variable {machine : Machine} {system : System} (exec : Execution machine system)

def grant : Grant :=
  grantFor machine system.kernel (moduleSizeByName machine system.kernel exec.filename)
    (argsSize exec.args)

def freed : List Frame := (releaseTask exec.inner.kernel exec.activation.slot).freed

/-- The frames that were allocated before the call are allocated after it, and
`task_free` frees each frame of the task once and no other. -/
structure ConservesFrames : Prop where
  allocated : exec.next.kernel.ram.frames = system.kernel.ram.frames
  freedOnce : ∀ frame, exec.freed.count frame = if frame ∈ exec.grant.all then 1 else 0
  neverFree : ∀ frame ∈ exec.freed, exec.inner.kernel.ram.frames frame = true
  notShared : ∀ frame ∈ exec.freed,
    (∀ other ∈ system.created, frame ∉ (exec.inner.grant other).all) ∧
      machine.ram.frames frame = false

private theorem created_opened (reachable : Reachable machine system) :
    ∃ slot, Ownership.Created machine system exec.opened slot exec.grant := by
  rcases create_of_pushed exec.opens exec.pushed with
    ⟨running, filename, args, kernel, window, called, begun, opened⟩
  injection called with sameName sameArgs
  have created := (Ownership.of_reachable reachable).created_of_begun
    (.of_reachable reachable) running begun
  rw [← sameName, ← sameArgs, ← opened] at created
  exact ⟨_, created⟩

private theorem shares_inner (reachable : Reachable machine system) :
    exec.inner.account.shares = Grant.share exec.grant :: system.account.shares := by
  rcases exec.created_opened reachable with ⟨slot, created⟩
  have opened : exec.opened.account.shares = Grant.share exec.grant :: system.account.shares := by
    rw [created.account_eq]
  have length : (Grant.share exec.grant :: system.account.shares).length = system.depth + 1 := by
    simp [System.account, System.depth]
  have moves : Ledger.Moves (Grant.share exec.grant :: system.account.shares)
      exec.opened.account _ exec.inner.account :=
    moves_of_run (reachable.step_to exec.opens)
      (exec.run.widen fun state above => length ▸ above) (by rw [opened])
  apply (moves.suffix.eq_of_length _).symm
  rw [length, System.account, List.length_map, ← exec.inner_depth]
  rfl

private theorem grant_inner (reachable : Reachable machine system) :
    exec.inner.grant exec.activation.slot = exec.grant := by
  have shares := exec.shares_inner reachable
  simp only [System.account, System.created, exec.returned, Phase.created, List.map_append,
    List.map_cons, List.cons_append] at shares
  injection shares with share
  injection share with pages tables
  exact congrArg₂ Grant.mk pages tables

theorem moves (reachable : Reachable machine system) :
    Ledger.Moves system.account.shares system.account (tablesTakenBy machine system exec.events)
      exec.next.account := by
  apply moves_of_run reachable _ (List.suffix_refl _)
  refine exec.call.run.widen fun state high => ?_
  rwa [System.account, List.length_map]

private theorem shares_next (reachable : Reachable machine system) :
    exec.next.account.shares = system.account.shares := by
  apply ((exec.moves reachable).suffix.eq_of_length _).symm
  rw [System.account, System.account, List.length_map, List.length_map]
  exact exec.popped.symm

/-- The frames allocated after the call are those allocated before exactly when
no page table was taken. -/
theorem allocated_iff (reachable : Reachable machine system) :
    exec.next.kernel.ram.frames = system.kernel.ram.frames ↔
      tablesTakenBy machine system exec.events = [] := by
  rw [← (exec.moves reachable).conserves_iff (Ownership.of_reachable reachable).sound
    (exec.shares_next reachable)]
  constructor
  · intro same
    simp only [System.account, same]
  · intro same
    funext frame
    have taken := Set.ext_iff.mp same frame
    rw [System.mem_taken, System.mem_taken] at taken
    exact Bool.eq_iff_iff.mpr taken

private theorem freed_of_no_tables (reachable : Reachable machine system)
    (noTables : exec.grant.tables = []) : exec.grant.all = [] ∧ exec.freed = [] := by
  rcases exec.created_opened reachable with ⟨slot, created⟩
  have sized := created.valid.sized
  rw [noTables, List.length_nil, tableCount] at sized
  have pages : exec.grant.pages = [] := List.length_eq_zero_iff.mp (by omega)
  have stored := congrArg Grant.tables (exec.grant_inner reachable)
  rw [noTables] at stored
  have empty : storedTables (exec.inner.kernel.tasks exec.activation.slot).pageTables = [] :=
    List.map_eq_nil_iff.mp stored
  refine ⟨by rw [Grant.all, pages, noTables]; rfl, ?_⟩
  rw [freed, releaseTask, empty]
  rfl

private theorem grant_tables_taken (none : tablesTakenBy machine system exec.events = []) :
    exec.grant.tables = [] := by
  rcases create_of_pushed exec.opens exec.pushed with
    ⟨running, filename, args, kernel, window, called, begun, opened⟩
  cases called
  rw [events, tablesTakenBy] at none
  have first := (List.append_eq_nil_iff.mp none).1
  simp only [tablesTaken, begun] at first
  exact first

end Execution

/-- A successful `task_exec` conserves frames exactly when no `paging_alloc`
made during the call takes a page table. -/
theorem conservesFrames_iff {machine : Machine} {system : System}
    (reachable : Reachable machine system) (exec : Execution machine system) :
    exec.ConservesFrames ↔ tablesTakenBy machine system exec.events = [] := by
  constructor
  · exact fun conserves => (exec.allocated_iff reachable).mp conserves.allocated
  · intro none
    rcases exec.freed_of_no_tables reachable (exec.grant_tables_taken none) with ⟨all, freed⟩
    refine ⟨(exec.allocated_iff reachable).mpr none, ?_, ?_, ?_⟩ <;> simp [all, freed]

theorem conservesFrames_iff_shell :
    ∃ exec : Execution shellMachine (System.initial shellMachine), exec.events = shellEvents ∧
      (exec.ConservesFrames ↔
        tablesTakenBy shellMachine (System.initial shellMachine) shellEvents = []) := by
  rcases Execution.exists_of_completes shell_completes with ⟨exec, events⟩
  refine ⟨exec, events, ?_⟩
  have iff := conservesFrames_iff .refl exec
  rwa [events] at iff

theorem shell_not_conservesFrames :
    ∃ exec : Execution shellMachine (System.initial shellMachine), exec.events = shellEvents ∧
      ¬ exec.ConservesFrames := by
  rcases Execution.exists_of_completes shell_completes with ⟨exec, events⟩
  have same : exec.events = shellEvents := events
  refine ⟨exec, same, fun conserves => ?_⟩
  have taken : tablesTakenBy shellMachine (System.initial shellMachine) shellEvents = [0x502] := by
    decide +kernel
  have none := (exec.allocated_iff .refl).mp conserves.allocated
  rw [same, taken] at none
  cases none

end Yoctos.Tasks
