import Yoctos.Tasks.Image
import Yoctos.Tasks.Mapping

/-! # Loading a program into its address space -/

namespace Yoctos.Tasks

open Yoctos.Common Yoctos.Memory Yoctos.Stores Yoctos.Transition

/-! ## `task_load` as steps of the system -/

theorem taskLoad_some {machine : Machine} {kernel next : Kernel} {filename : CString}
    {args : Arguments} {slot : Slot}
    (loaded : taskLoad machine kernel filename args = some (some slot, next)) :
    ∃ opened window copied,
      taskLoadBegin machine kernel filename args = some (.copying opened window) ∧
      window.pending.foldlM (copyByte machine) opened = some copied ∧
      window.slot = slot ∧ copied.loadPagedir window.pagedir = next := by
  simp only [taskLoad, Option.bind_eq_bind, Option.bind_eq_some_iff] at loaded
  rcases loaded with ⟨begin, begun, rest⟩
  cases begin with
  | failed kernel => simp at rest
  | copying opened window =>
      simp only [Option.bind_eq_some_iff, Option.some.injEq, Prod.mk.injEq] at rest
      rcases rest with ⟨copied, folded, slot, next⟩
      exact ⟨opened, window, copied, begun, folded, slot, next⟩

private theorem copying_run {machine : Machine} {slot : Slot} {pagedir : BitVec 32}
    {pending : List Copy} {stack : List Activation} {kernel copied : Kernel}
    (folded : pending.foldlM (copyByte machine) kernel = some copied) :
    Run (step machine) (fun _ => True) ⟨kernel, .copying ⟨slot, pagedir, pending⟩, stack⟩
      (List.replicate pending.length .copy) ⟨copied, .copying ⟨slot, pagedir, []⟩, stack⟩ := by
  induction pending generalizing kernel with
  | nil =>
      cases folded
      exact .nil trivial
  | cons next rest induction =>
      rw [List.foldlM_cons, Option.bind_eq_bind, Option.bind_eq_some_iff] at folded
      rcases folded with ⟨middle, copy, rest⟩
      refine .cons trivial ?_ (induction rest)
      simp only [step, copy, Option.map_some]

/-- `task_load` is a run of the system. -/
theorem taskLoad_run {machine : Machine} {system : System} {next : Kernel} {filename : CString}
    {args : Arguments} {slot : Slot} (running : system.phase = .running)
    (loaded : taskLoad machine system.kernel filename args = some (some slot, next)) :
    ∃ events, Run (step machine) (fun _ => True) system events
      { system with kernel := next, phase := .loaded slot } := by
  rcases taskLoad_some loaded with ⟨opened, window, copied, begun, folded, rfl, rfl⟩
  have opens : step machine system (.taskExec filename args) =
      some { system with kernel := opened, phase := .copying window } := by
    simp only [step, running, begun, Option.map_some]
  have restores : Run (step machine) (fun _ => True)
      { system with kernel := copied, phase := .copying ⟨window.slot, window.pagedir, []⟩ }
      [.restore]
      { system with kernel := copied.loadPagedir window.pagedir, phase := .loaded window.slot } :=
    .single trivial rfl trivial
  exact ⟨_, .cons trivial opens ((copying_run folded).append restores)⟩

/-! ## The copying loop -/

def Kernel.withBytes (kernel : Kernel) (bytes : BitVec 32 → UInt8) : Kernel :=
  { kernel with ram := { kernel.ram with bytes := bytes } }

/-- The loop writes the image when its targets are known and its sources lie
outside what it writes. -/
theorem foldlM_copyByte {machine : Machine} {kernel next : Kernel} {pending : List Copy}
    {touched : BitVec 32 → Prop} {physicalOf : BitVec 32 → BitVec 32}
    {reference bytes : BitVec 32 → UInt8}
    (targets : ∀ copy ∈ pending, ∀ found, kernel.translate machine copy.dst = some found →
      found.physical = physicalOf copy.dst ∧ touched found.physical)
    (sources : ∀ copy ∈ pending, ∀ address found, copy.src = .memory address →
      kernel.translate machine address = some found →
      found.physical = address ∧ ¬ touched found.physical)
    (agree : ∀ physical, ¬ touched physical → bytes physical = reference physical)
    (succeeded : pending.foldlM (copyByte machine) (kernel.withBytes bytes) = some next) :
    next = kernel.withBytes
      (writeAll bytes ((pending.map (Copy.store reference)).map (Prod.map physicalOf id))) := by
  induction pending generalizing bytes with
  | nil =>
      cases succeeded
      rfl
  | cons copy rest induction =>
      rw [List.foldlM_cons, Option.bind_eq_bind, Option.bind_eq_some_iff] at succeeded
      rcases succeeded with ⟨middle, copied, succeeded⟩
      rcases copyByte_some copied with ⟨value, found, read, translated, _, rfl⟩
      rcases targets copy (List.mem_cons_self ..) found translated with ⟨target, inside⟩
      have store : Prod.map physicalOf id (copy.store reference) = (found.physical, value) := by
        rw [Copy.store]
        split
        next address source =>
          rw [source] at read
          rcases Option.map_eq_some_iff.mp read with ⟨origin, originFound, rfl⟩
          rcases sources copy (List.mem_cons_self ..) address origin source originFound with
            ⟨identity, outside⟩
          have same : bytes origin.physical = reference address := by
            rw [agree _ outside, identity]
          exact Prod.ext target.symm same.symm
        next stored source =>
          rw [source] at read
          cases read
          exact Prod.ext target.symm rfl
      have agreeNext : ∀ physical, ¬ touched physical →
          Function.update bytes found.physical value physical = reference physical := by
        intro physical outside
        have other : physical ≠ found.physical := by
          rintro rfl
          exact outside inside
        rw [Function.update_of_ne other, agree physical outside]
      have updated := induction
        (fun other member => targets other (List.mem_cons_of_mem _ member))
        (fun other member => sources other (List.mem_cons_of_mem _ member)) agreeNext succeeded
      rw [updated, List.map_cons, List.map_cons, store, writeAll_cons]
      rfl

theorem foldlM_copyByte_frame {machine : Machine} {kernel next : Kernel} {pending : List Copy}
    (succeeded : pending.foldlM (copyByte machine) kernel = some next) :
    ∃ bytes, next = kernel.withBytes bytes ∧
      ∀ physical, bytes physical ≠ kernel.ram.bytes physical →
        ∃ copy ∈ pending, ∃ found, kernel.translate machine copy.dst = some found ∧
          found.physical = physical := by
  induction pending generalizing kernel with
  | nil =>
      have same : kernel = next := Option.some.inj succeeded
      subst same
      exact ⟨kernel.ram.bytes, rfl, fun _ changed => absurd rfl changed⟩
  | cons copy rest induction =>
      rw [List.foldlM_cons, Option.bind_eq_bind, Option.bind_eq_some_iff] at succeeded
      rcases succeeded with ⟨middle, copied, succeeded⟩
      rcases copyByte_some copied with ⟨value, found, _, translated, _, rfl⟩
      rcases induction succeeded with ⟨bytes, rfl, frame⟩
      refine ⟨bytes, rfl, fun physical changed => ?_⟩
      by_cases now : physical = found.physical
      · exact ⟨copy, List.mem_cons_self .., found, translated, now.symm⟩
      · have later : bytes physical ≠ (kernel.setByte found.physical value).ram.bytes physical := by
          change _ ≠ Function.update kernel.ram.bytes found.physical value physical
          rwa [Function.update_of_ne now]
        rcases frame physical later with ⟨other, member, target, translatedOther, equal⟩
        exact ⟨other, List.mem_cons_of_mem _ member, target, translatedOther, equal⟩

end Yoctos.Tasks
