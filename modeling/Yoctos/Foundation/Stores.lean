import Mathlib.Logic.Function.Basic
import Mathlib.Data.List.Basic

/-! # Store logs

A program's effect on a memory is kept as the list of its stores, oldest
first. The log says where stores went; replaying it says what the memory holds
afterwards.
-/

namespace Yoctos.Stores

variable {Address : Type u} {Value : Type v} [DecidableEq Address]

def write (memory : Address → Value) (store : Address × Value) : Address → Value :=
  Function.update memory store.1 store.2

def writeAll (memory : Address → Value) (stores : List (Address × Value)) : Address → Value :=
  stores.foldl write memory

@[simp] theorem writeAll_cons (memory : Address → Value) (store : Address × Value)
    (stores : List (Address × Value)) :
    writeAll memory (store :: stores) = writeAll (write memory store) stores := rfl

theorem writeAll_append (memory : Address → Value) (earlier later : List (Address × Value)) :
    writeAll memory (earlier ++ later) = writeAll (writeAll memory earlier) later :=
  List.foldl_append

theorem writeAll_of_not_mem (memory : Address → Value) (stores : List (Address × Value))
    (address : Address) (untouched : address ∉ stores.map Prod.fst) :
    writeAll memory stores address = memory address := by
  induction stores generalizing memory with
  | nil => rfl
  | cons store rest induction =>
      simp only [List.map_cons, List.mem_cons, not_or] at untouched
      rw [writeAll_cons, induction _ untouched.2, write]
      exact Function.update_of_ne untouched.1 _ _

/-- When no address is stored to twice, every store of the log is visible at
its end. -/
theorem writeAll_of_mem (memory : Address → Value) (stores : List (Address × Value))
    (nodup : (stores.map Prod.fst).Nodup) {address : Address} {value : Value}
    (member : (address, value) ∈ stores) : writeAll memory stores address = value := by
  induction stores generalizing memory with
  | nil => cases member
  | cons store rest induction =>
      simp only [List.map_cons, List.nodup_cons] at nodup
      rcases List.mem_cons.mp member with equal | member
      · subst equal
        rw [writeAll_cons, writeAll_of_not_mem _ _ _ nodup.1, write]
        exact Function.update_self _ _ _
      · exact induction _ nodup.2 member

/-! ## Consecutive stores -/

def consecutive (base : Nat) : List Value → List (Nat × Value)
  | [] => []
  | value :: rest => (base, value) :: consecutive (base + 1) rest

theorem mem_consecutive_bounds {base : Nat} {values : List Value} {store : Nat × Value}
    (member : store ∈ consecutive base values) :
    base ≤ store.1 ∧ store.1 < base + values.length := by
  induction values generalizing base with
  | nil => cases member
  | cons value rest induction =>
      simp only [consecutive, List.mem_cons, List.length_cons] at member ⊢
      rcases member with equal | member
      · subst equal
        exact ⟨Nat.le_refl _, by simp⟩
      · have bounds := induction member
        omega

theorem consecutive_append (base : Nat) (left right : List Value) :
    consecutive base (left ++ right) =
      consecutive base left ++ consecutive (base + left.length) right := by
  induction left generalizing base with
  | nil => rfl
  | cons value rest induction =>
      simp only [List.cons_append, consecutive, List.length_cons, induction]
      rw [Nat.add_right_comm, Nat.add_assoc]

theorem writeAll_consecutive_outside (memory : Nat → Value) (base : Nat)
    (values : List Value) {address : Nat}
    (outside : address < base ∨ base + values.length ≤ address) :
    writeAll memory (consecutive base values) address = memory address := by
  apply writeAll_of_not_mem
  intro member
  rcases List.mem_map.mp member with ⟨store, storeMem, rfl⟩
  have bounds := mem_consecutive_bounds storeMem
  omega

theorem writeAll_consecutive_get (memory : Nat → Value) (base : Nat) (values : List Value)
    (index : Nat) (occurs : index < values.length) :
    writeAll memory (consecutive base values) (base + index) = values[index] := by
  induction values generalizing memory base index with
  | nil => simp at occurs
  | cons value rest induction =>
      rw [consecutive, writeAll_cons]
      cases index with
      | zero =>
          rw [writeAll_consecutive_outside _ _ _ (by omega), write]
          exact Function.update_self _ _ _
      | succ index =>
          have shifted := induction (write memory (base, value)) (base + 1) index
            (by simpa using occurs)
          rw [Nat.add_right_comm, Nat.add_assoc] at shifted
          simpa using shifted

end Yoctos.Stores
