import Yoctos.Ia32.Machine
import Mathlib.Data.List.Forall2

/-! # The stack of a run

What pushes and pops do is stated with the list of words on top of the stack,
so that no proof looks at addresses.
-/

namespace Yoctos.Ia32

namespace State

variable {s : State} {words : List (BitVec 32)} {value : BitVec 32}

def Stack (s : State) (words : List (BitVec 32)) : Prop := s.memory.Holds (s.regs .esp) words

theorem set_self (s : State) (reg : Reg) (value : BitVec 32) :
    (s.set reg value).regs reg = value := by simp [set]

theorem set_other (s : State) {name reg : Reg} (other : reg ≠ name) (value : BitVec 32) :
    (s.set name value).regs reg = s.regs reg := Function.update_of_ne other _ _

@[simp] theorem push_esp (s : State) (value : BitVec 32) :
    (s.push value).regs .esp = s.regs .esp - 4 := by simp [push]

theorem push_regs (s : State) (value : BitVec 32) {reg : Reg} (other : reg ≠ .esp) :
    (s.push value).regs reg = s.regs reg := Function.update_of_ne other _ _

@[simp] theorem drop_esp (s : State) : s.drop.regs .esp = s.regs .esp + 4 := s.set_self _ _

theorem drop_regs (s : State) {reg : Reg} (other : reg ≠ .esp) :
    s.drop.regs reg = s.regs reg := s.set_other other _

theorem Stack.push (stack : s.Stack words) (short : words.length * 4 + 4 ≤ 2 ^ 32)
    (value : BitVec 32) : (s.push value).Stack (value :: words) := by
  rw [Stack, push_esp]
  exact Memory.Holds.setWord stack short value

theorem Stack.top_eq (stack : s.Stack (value :: words)) : s.top = value := stack.1

theorem Stack.drop (stack : s.Stack (value :: words)) : s.drop.Stack words := by
  rw [Stack, drop_esp]
  exact stack.2

theorem segmentWord_low (p : Platform) (s : State) (selector : BitVec 16) :
    (s.segmentWord p selector).setWidth 16 = selector := p.segmentWord_low _ selector

theorem push_changesOnly {base : BitVec 32} {size : Nat} {before : Memory}
    (changes : Memory.ChangesOnly base size before s.memory) (value : BitVec 32)
    (inside : (s.regs .esp - 4 - base).toNat + 4 ≤ size) :
    Memory.ChangesOnly base size before (s.push value).memory := changes.setWord value inside

end State

/-! ## Sequences of pushes -/

def Source.Stores (s : State) : Source → BitVec 32 → Prop
  | .imm value, word => word = value
  | .reg name, word => word = s.regs name
  | .seg name, word => word.setWidth 16 = s.segs name

/-- Nothing but the stack has changed, and that by `count` pushed words. -/
structure Pushed (s t : State) (count : Nat) : Prop where
  regs : ∀ reg, reg ≠ .esp → t.regs reg = s.regs reg
  esp : t.regs .esp = s.regs .esp - BitVec.ofNat 32 (4 * count)
  segs : t.segs = s.segs
  eflags : t.eflags = s.eflags
  memory : Memory.ChangesOnly (t.regs .esp) (4 * count) s.memory t.memory

variable {p : Platform}

theorem Source.stores_value (source : Source) (s : State) :
    source.Stores s (source.value p s) := by
  cases source with
  | imm value => exact rfl
  | reg name => exact rfl
  | seg name => exact s.segmentWord_low p _

theorem Source.Stores.of_pushed {source : Source} {s t : State} {count : Nat} {word : BitVec 32}
    (pushed : Pushed s t count) (other : source ≠ .reg .esp) (stores : source.Stores t word) :
    source.Stores s word := by
  cases source with
  | imm value => exact stores
  | reg name =>
      have different : name ≠ .esp := fun same => other (by rw [same])
      exact Eq.trans stores (pushed.regs name different)
  | seg name =>
      rw [Source.Stores, pushed.segs] at stores
      exact stores

theorem stores_regs {s : State} {regs : List Reg} {words : List (BitVec 32)}
    (stored : List.Forall₂ (Source.Stores s) (regs.map .reg) words) : words = regs.map s.regs := by
  rw [List.forall₂_map_left_iff] at stored
  induction stored with
  | nil => rfl
  | cons first _ induction => rw [List.map_cons, ← induction, ← show _ = _ from first]

theorem pushed_push (s : State) (value : BitVec 32) : Pushed s (s.push value) 1 where
  regs _ other := s.push_regs value other
  esp := s.push_esp value
  segs := rfl
  eflags := rfl
  memory := State.push_changesOnly (Memory.ChangesOnly.refl _ _ _) value (by simp)

theorem Pushed.trans {s t u : State} {first second : Nat} (left : Pushed s t first)
    (right : Pushed t u second) (short : 4 * (first + second) ≤ 2 ^ 32) :
    Pushed s u (first + second) where
  regs reg other := (right.regs reg other).trans (left.regs reg other)
  esp := by
    rw [right.esp, left.esp]
    bv_omega
  segs := right.segs.trans left.segs
  eflags := right.eflags.trans left.eflags
  memory := by
    have esp := right.esp
    refine (left.memory.widen ?_).trans (right.memory.widen ?_)
    · bv_omega
    · bv_omega

theorem Pushed.refl (s : State) : Pushed s s 0 :=
  ⟨fun _ _ => rfl, (BitVec.sub_zero _).symm, rfl, rfl, Memory.ChangesOnly.refl _ _ _⟩

/-- Pushes of `sources` leave words they allow on top of the stack, the last
one first. -/
theorem execAll_pushes {s : State} {sources : List Source} {below : List (BitVec 32)}
    (noEsp : .reg .esp ∉ sources) (stack : s.Stack below)
    (short : 4 * (sources.length + below.length) ≤ 2 ^ 32) :
    ∃ words, List.Forall₂ (Source.Stores s) sources words ∧
      (execAll p s (sources.map .push)).Stack (words.reverse ++ below) ∧
      Pushed s (execAll p s (sources.map .push)) sources.length := by
  induction sources generalizing s below with
  | nil => exact ⟨[], .nil, stack, Pushed.refl s⟩
  | cons source rest induction =>
      rw [List.length_cons] at short
      have first := pushed_push s (source.value p s)
      rcases induction (fun member => noEsp (List.mem_cons_of_mem source member))
          (stack.push (by omega) (source.value p s))
          (by simp only [List.length_cons]; omega) with ⟨words, stored, onTop, pushed⟩
      refine ⟨source.value p s :: words, .cons (source.stores_value s) ?_, ?_, ?_⟩
      · have others : ∀ other ∈ rest, other ≠ .reg .esp := fun other member same =>
          noEsp (same ▸ List.mem_cons_of_mem source member)
        exact ((List.forall₂_and_left _ _).mpr ⟨others, stored⟩).imp fun _ _ both =>
          both.2.of_pushed first both.1
      · rw [List.reverse_cons, List.append_assoc]
        exact onTop
      · rw [List.length_cons, Nat.add_comm]
        exact first.trans pushed (by omega)

/-! ## Sequences of pops -/

structure Popped (targets : List Target) (s t : State) : Prop where
  regs : ∀ reg, reg ≠ .esp → .reg reg ∉ targets → t.regs reg = s.regs reg
  esp : t.regs .esp = s.regs .esp + BitVec.ofNat 32 (4 * targets.length)
  segs : ∀ seg, .seg seg ∉ targets → t.segs seg = s.segs seg
  eflags : t.eflags = s.eflags
  memory : t.memory = s.memory

theorem popped_pop (target : Target) (s : State) (noEsp : target ≠ .reg .esp) :
    Popped [target] s (target.assign s.drop s.top) := by
  cases target with
  | reg name =>
      have different : Reg.esp ≠ name := fun same => noEsp (by rw [same])
      refine ⟨fun reg other absent => ?_, ?_, fun _ _ => rfl, rfl, rfl⟩
      · have apart : reg ≠ name := fun same => absent (by rw [same]; simp)
        simp [Target.assign, State.set, State.drop, apart, other]
      · simp [Target.assign, State.set, State.drop, different]
  | seg name =>
      refine ⟨fun reg other _ => ?_, ?_, fun seg absent => ?_, rfl, rfl⟩
      · simp [Target.assign, State.setSeg, State.set, State.drop, other]
      · simp [Target.assign, State.setSeg, State.set, State.drop]
      · have apart : seg ≠ name := fun same => absent (by rw [same]; simp)
        simp [Target.assign, State.setSeg, State.set, State.drop, apart]

theorem Popped.trans {first second : List Target} {s t u : State} (left : Popped first s t)
    (right : Popped second t u) : Popped (first ++ second) s u where
  regs reg other absent := by
    rw [List.mem_append, not_or] at absent
    exact (right.regs reg other absent.2).trans (left.regs reg other absent.1)
  esp := by
    rw [right.esp, left.esp, List.length_append, Nat.mul_add, BitVec.ofNat_add, BitVec.add_assoc]
  segs seg absent := by
    rw [List.mem_append, not_or] at absent
    exact (right.segs seg absent.2).trans (left.segs seg absent.1)
  eflags := right.eflags.trans left.eflags
  memory := right.memory.trans left.memory

theorem Popped.stack {targets : List Target} {s t : State} {words below : List (BitVec 32)}
    (popped : Popped targets s t) (length : words.length = targets.length)
    (stack : s.Stack (words ++ below)) : t.Stack below := by
  rw [State.Stack, popped.esp, popped.memory, ← length]
  exact stack.drop_left

def Target.source : Target → Source
  | .reg name => .reg name
  | .seg name => .seg name

theorem execAll_pops {targets : List Target} (s : State) (noEsp : .reg .esp ∉ targets) :
    Popped targets s (execAll p s (targets.map .pop)) := by
  induction targets generalizing s with
  | nil => exact ⟨fun _ _ _ => rfl, (BitVec.add_zero _).symm, fun _ _ => rfl, rfl, rfl⟩
  | cons target rest induction =>
      have first := popped_pop target s fun same => noEsp (by rw [same]; simp)
      exact first.trans
        (induction _ fun member => noEsp (List.mem_cons_of_mem target member))

/-- Pops in the reverse order find the words that were pushed for them. -/
theorem restored_of_stored {s : State} {sources : List Source} {targets : List Target}
    {words : List (BitVec 32)} (mirror : sources.reverse = targets.map Target.source)
    (stored : List.Forall₂ (Source.Stores s) sources words) :
    List.Forall₂ (fun target => target.source.Stores s) targets words.reverse := by
  have mirrored := List.forall₂_reverse_iff.mpr stored
  rwa [mirror, List.forall₂_map_left_iff] at mirrored

def Target.Agrees (origin s : State) : Target → Prop
  | .reg name => s.regs name = origin.regs name
  | .seg name => s.segs name = origin.segs name

theorem Target.agrees_assign {origin s : State} {target : Target} {word : BitVec 32}
    (restored : target.source.Stores origin word) :
    target.Agrees origin (target.assign s word) := by
  cases target with
  | reg name => exact (Function.update_self ..).trans restored
  | seg name => exact (Function.update_self ..).trans restored

theorem Popped.agrees {origin s t : State} {targets : List Target} {target : Target}
    (popped : Popped targets s t) (noEsp : target ≠ .reg .esp) (absent : target ∉ targets)
    (agrees : target.Agrees origin s) : target.Agrees origin t := by
  cases target with
  | reg name =>
      exact (popped.regs name (fun same => noEsp (by rw [same])) absent).trans agrees
  | seg name => exact (popped.segs name absent).trans agrees

theorem execAll_pops_agrees {origin s : State} {targets : List Target}
    {words below : List (BitVec 32)} (noEsp : .reg .esp ∉ targets)
    (restored : List.Forall₂ (fun target => target.source.Stores origin) targets words)
    (stack : s.Stack (words ++ below)) {target : Target} (member : target ∈ targets) :
    target.Agrees origin (execAll p s (targets.map .pop)) := by
  induction restored generalizing s with
  | nil => cases member
  | @cons first word rest words brought _ induction =>
      have noEspRest : .reg .esp ∉ rest := fun member =>
        noEsp (List.mem_cons_of_mem first member)
      have noEspFirst : first ≠ .reg .esp := fun same => noEsp (by rw [same]; simp)
      have one : [word].length = [first].length := rfl
      have onTop : (first.assign s.drop s.top).Stack (words ++ below) :=
        (popped_pop first s noEspFirst).stack one stack
      by_cases later : target ∈ rest
      · exact induction noEspRest onTop later
      · rcases List.mem_cons.mp member with rfl | impossible
        · have agrees : target.Agrees origin (target.assign s.drop s.top) :=
            Target.agrees_assign (stack.top_eq ▸ brought)
          exact (execAll_pops _ noEspRest).agrees noEspFirst later agrees
        · exact absurd impossible later

/-! ## C functions -/

/-- What a cdecl function does to its caller: it returns, keeps the registers
that are not its own to change, and leaves the bytes `live` of the stack frames
of its callers alone. -/
structure Cdecl (live : BitVec 32 → Prop) (entry exit : State) : Prop where
  eip : exit.eip = entry.top
  esp : exit.regs .esp = entry.regs .esp + 4
  ebx : exit.regs .ebx = entry.regs .ebx
  esi : exit.regs .esi = entry.regs .esi
  edi : exit.regs .edi = entry.regs .edi
  ebp : exit.regs .ebp = entry.regs .ebp
  segs : exit.segs = entry.segs
  nested : exit.eflags &&& nestedTask = entry.eflags &&& nestedTask
  memory : ∀ address, live address → exit.memory address = entry.memory address

theorem cdecl_of_value (live : BitVec 32 → Prop) (entry : State) (value : BitVec 32) :
    Cdecl live entry { entry.drop.set .eax value with eip := entry.top } := by
  refine ⟨rfl, ?_, ?_, ?_, ?_, ?_, rfl, rfl, fun _ _ => rfl⟩ <;> simp [State.drop, State.set]

end Yoctos.Ia32
