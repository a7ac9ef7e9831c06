import Yoctos.Foundation.Transition
import Mathlib.Data.List.Infix

/-! # Nested calls

A system whose steps push at most one entry on a stack, or pop one, runs its
calls nested. While a call is active nothing below its entry changes hands.
-/

namespace Yoctos.Transition

variable {State : Type u} {Event : Type v} {Entry : Type w} {Value : Type x}

/-- Every step leaves the stack alone, pushes one entry or pops one. -/
def Nests (step : State → Event → Option State) (stack : State → List Entry) : Prop :=
  ∀ before event after, step before event = some after →
    stack after = stack before ∨
    (∃ top, stack after = top :: stack before) ∨
    (∃ top, stack before = top :: stack after)

/-- A call: a step that pushes an entry, a run with that entry in place, and the
step that pops it. -/
inductive Call (step : State → Event → Option State) (stack : State → List Entry) :
    State → List Event → State → Prop
  | intro {before opened inner after : State} {opening closing : Event} {events : List Event}
      (opens : step before opening = some opened)
      (pushed : (stack opened).length = (stack before).length + 1)
      (run : Run step (fun state => (stack before).length < (stack state).length)
        opened events inner)
      (closes : step inner closing = some after)
      (popped : (stack after).length = (stack before).length) :
      Call step stack before (opening :: (events ++ [closing])) after

def executeCall (step : State → Event → Option State) (stack : State → List Entry)
    (before : State) (opening : Event) (body : List Event) (closing : Event) : Option State :=
  (step before opening).bind fun opened =>
    (execute step (fun state => decide ((stack before).length < (stack state).length)) opened
      body).bind fun inner =>
        (step inner closing).bind fun after =>
          if (stack opened).length = (stack before).length + 1 ∧
            (stack after).length = (stack before).length then some after else none

theorem call_of_executeCall {step : State → Event → Option State} {stack : State → List Entry}
    {before after : State} {opening closing : Event} {body : List Event}
    (executed : executeCall step stack before opening body closing = some after) :
    Call step stack before (opening :: (body ++ [closing])) after := by
  rw [executeCall, Option.bind_eq_some_iff] at executed
  rcases executed with ⟨opened, opens, executed⟩
  rw [Option.bind_eq_some_iff] at executed
  rcases executed with ⟨inner, executed, ends⟩
  rw [Option.bind_eq_some_iff] at ends
  rcases ends with ⟨_, closes, ends⟩
  split at ends
  next lengths =>
    cases ends
    have run := (run_of_execute executed).widen fun _ => of_decide_eq_true
    exact .intro opens lengths.1 run closes lengths.2
  next => cases ends

section

variable {step : State → Event → Option State} {stack : State → List Entry}
variable (nests : Nests step stack)
variable {first before after final : State} {event : Event} {events : List Event}

include nests

theorem Nests.step_suffix {lower : List Entry} (stepped : step before event = some after)
    (high : lower.length ≤ (stack after).length) (below : lower <:+ stack before) :
    lower <:+ stack after := by
  rcases nests _ _ _ stepped with same | ⟨top, pushed⟩ | ⟨top, popped⟩
  · rwa [same]
  · rw [pushed]
    exact below.trans (List.suffix_cons _ _)
  · rw [popped] at below
    rcases List.suffix_cons_iff.mp below with whole | rest
    · rw [whole, List.length_cons] at high
      omega
    · exact rest

/-- What steps preserve for every entry that stays on the stack, runs preserve
for every entry below. -/
theorem Nests.run_keeps {lower : List Entry} {value : State → Entry → Value}
    {invariant : State → Prop}
    (preserved : ∀ before event after, invariant before → step before event = some after →
      invariant after)
    (keeps : ∀ before event after, invariant before → step before event = some after →
      ∀ entry ∈ stack before, entry ∈ stack after → value after entry = value before entry)
    (run : Run step (fun state => lower.length ≤ (stack state).length) first events final)
    (initially : invariant first) (below : lower <:+ stack first) :
    ∀ entry ∈ lower, value final entry = value first entry := by
  have stepped : ∀ before event after, lower.length ≤ (stack before).length →
      lower.length ≤ (stack after).length →
      (invariant before ∧ lower <:+ stack before ∧
        ∀ entry ∈ lower, value before entry = value first entry) →
      step before event = some after →
      invariant after ∧ lower <:+ stack after ∧
        ∀ entry ∈ lower, value after entry = value first entry := by
    rintro before event after _ high ⟨holds, onStack, same⟩ stepped
    have above := nests.step_suffix stepped high onStack
    refine ⟨preserved _ _ _ holds stepped, above, fun entry member => ?_⟩
    rw [keeps _ _ _ holds stepped entry (onStack.subset member) (above.subset member)]
    exact same entry member
  exact (run.preserves stepped ⟨initially, below, fun _ _ => rfl⟩).2.2

end

theorem Call.run {step : State → Event → Option State} {stack : State → List Entry}
    {before after : State} {events : List Event} (call : Call step stack before events after) :
    Run step (fun state => (stack before).length ≤ (stack state).length) before events after := by
  cases call with
  | intro opens pushed run closes popped =>
      have above : Run step (fun state => (stack before).length ≤ (stack state).length) _ _ _ :=
        run.widen fun _ high => Nat.le_of_lt high
      refine .cons (Nat.le_refl _) opens (above.append (.single above.final_inside closes ?_))
      exact Nat.le_of_eq popped.symm

end Yoctos.Transition
