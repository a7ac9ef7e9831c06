import Yoctos.User.ReadString
import Yoctos.Common.Keycodes

/-! # Keys that are not characters

The codes from 50000 on fit no `char`, but `read_string` stores their low
bytes.
-/

namespace Yoctos.User

open Yoctos.Common Yoctos.Stores

def special : List (BitVec 32) := specialKeys.map (BitVec.setWidth 32)

/-- `kept` is `keys` without some of its special keys. -/
inductive Deletion : (keys kept : List (BitVec 32)) → Prop
  | nil : Deletion [] []
  | keep {keys kept : List (BitVec 32)} (key : BitVec 32) (deletion : Deletion keys kept) :
      Deletion (key :: keys) (key :: kept)
  | delete {keys kept : List (BitVec 32)} {key : BitVec 32} (isSpecial : key ∈ special)
      (deletion : Deletion keys kept) : Deletion (key :: keys) kept

def Reading.string (memory : Int → UInt8) (st : Reading) : List UInt8 :=
  stringAt (fun index => writeAll memory st.stores index) 0 addressSpace

/-- The two lines leave the same string and the same echo. -/
structure Alike (typed other : TypedLine) : Prop where
  string : ∀ memory, typed.read.string memory = other.read.string memory
  output : typed.read.output = other.read.output

namespace Deletion

variable {keys kept : List (BitVec 32)}

theorem sublist (deletion : Deletion keys kept) : kept.Sublist keys := by
  induction deletion with
  | nil => exact .slnil
  | keep key _ induction => exact induction.cons_cons key
  | delete _ _ induction => exact induction.cons _

private theorem eq_of_none (deletion : Deletion keys kept) (none : ∀ key ∈ keys, key ∉ special) :
    kept = keys := by
  induction deletion with
  | nil => rfl
  | keep key _ induction =>
      rw [induction fun other member => none other (List.mem_cons_of_mem key member)]
  | delete isSpecial _ _ => exact absurd isSpecial (none _ List.mem_cons_self)

theorem filter (keys : List (BitVec 32)) : Deletion keys (keys.filter (· ∉ special)) := by
  induction keys with
  | nil => exact .nil
  | cons key keys induction =>
      by_cases isSpecial : key ∈ special
      · rw [List.filter_cons_of_neg (by simpa using isSpecial)]
        exact .delete isSpecial induction
      · rw [List.filter_cons_of_pos (by simpa using isSpecial)]
        exact .keep key induction

end Deletion

private theorem special_turn {key : BitVec 32} (isSpecial : key ∈ special) (st : Reading) :
    st.turn key = st.append (toChar key) := by
  have others : special.all (fun key => key ≠ 0 ∧ key ≠ backspace ∧ key ≠ tab) = true := by
    decide +kernel
  have ordinary := List.all_eq_true.mp others key isSpecial
  simp only [decide_eq_true_eq] at ordinary
  rw [Reading.turn, if_neg ordinary.1, if_neg ordinary.2.1, if_neg ordinary.2.2]

private theorem turn_output_length (st : Reading) (key : BitVec 32) :
    (st.turn key).output.length = st.output.length +
      if key = backspace then (if 0 < st.buf then 1 else 0) else (inserted key).length := by
  by_cases erases : key = backspace
  · subst erases
    rw [Reading.turn_backspace, if_pos rfl]
    split <;> simp [Reading.putc]
  · rw [Reading.turn_insert st erases, if_neg erases, Reading.foldl_append_output,
      List.length_append]

/-- Deleted keys are missing from the echo, and no other key makes up for
them: the shorter line has no more to erase. -/
theorem Deletion.output_length {keys kept : List (BitVec 32)} (deletion : Deletion keys kept)
    {st less : Reading} (inside : 0 ≤ less.buf) (behind : less.buf ≤ st.buf) :
    (kept.foldl Reading.turn less).output.length + st.output.length + keys.length ≤
      (keys.foldl Reading.turn st).output.length + less.output.length + kept.length := by
  induction deletion generalizing st less with
  | nil =>
      simp only [List.foldl_nil]
      omega
  | keep key deletion induction =>
      have moved := Reading.turn_buf inside key
      have movedToo := Reading.turn_buf (inside.trans behind) key
      have insideNext : 0 ≤ (less.turn key).buf := by omega
      have behindNext : (less.turn key).buf ≤ (st.turn key).buf := by omega
      have rest := induction insideNext behindNext
      rw [turn_output_length, turn_output_length] at rest
      simp only [List.foldl_cons, List.length_cons]
      split at rest
      · split at rest <;> split at rest <;> omega
      · omega
  | @delete keys kept key isSpecial deletion induction =>
      have behindNext : less.buf ≤ (st.turn key).buf := by
        rw [special_turn isSpecial]
        simp only [Reading.append]
        omega
      have rest := induction inside behindNext
      have echoed : (st.turn key).output.length = st.output.length + 1 := by
        rw [special_turn isSpecial]
        simp [Reading.append, Reading.putc]
      rw [List.foldl_cons, List.length_cons]
      omega

private theorem Deletion.eq_of_alike {typed other : TypedLine}
    (deletion : Deletion typed.keys other.keys)
    (alike : Alike typed other) : other.keys = typed.keys := by
  have lengths := deletion.output_length (Int.le_refl Reading.start.buf) (Int.le_refl _)
  have same : (typed.keys.foldl Reading.turn .start).output =
      (other.keys.foldl Reading.turn .start).output := by
    have output := alike.output
    rw [typed.read_eq, other.read_eq] at output
    exact output
  rw [same] at lengths
  exact deletion.sublist.eq_of_length (Nat.le_antisymm deletion.sublist.length_le (by omega))

/-- Special keys may be deleted without a trace exactly when there are none. -/
theorem deletion_alike_iff (typed : TypedLine) :
    (∀ other : TypedLine, Deletion typed.keys other.keys → Alike typed other) ↔
      ∀ key ∈ typed.keys, key ∉ special := by
  constructor
  · intro alike
    let other : TypedLine := ⟨typed.keys.filter (· ∉ special),
      fun member => typed.unfinished (List.mem_of_mem_filter member)⟩
    have deletion : Deletion typed.keys other.keys := .filter typed.keys
    have same : typed.keys.filter (· ∉ special) = typed.keys :=
      deletion.eq_of_alike (alike other deletion)
    simpa using List.filter_eq_self.mp same
  · intro none other deletion
    have same := deletion.eq_of_none none
    cases typed
    cases other
    cases same
    exact ⟨fun _ => rfl, rfl⟩

theorem not_always_alike : ¬ ∀ typed other : TypedLine, Deletion typed.keys other.keys →
    Alike typed other := by
  intro always
  have deletion : Deletion [keyEsc.setWidth 32] [] := .delete (by decide +kernel) .nil
  have alike := always ⟨[keyEsc.setWidth 32], by decide +kernel⟩ ⟨[], by decide⟩ deletion
  exact absurd alike.output (by decide +kernel)

end Yoctos.User
