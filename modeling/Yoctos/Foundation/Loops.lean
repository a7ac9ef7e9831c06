import Mathlib.Computability.StateTransition

/-! # Loops as machines

A machine with a partial step function stands for a function with loops: it
halts where the function returns. An invariant and a measure prove that it
does.
-/

namespace Yoctos.Loops

open StateTransition

variable {State : Type u} {step : State → Option State} {invariant : State → Prop}
variable {start state other : State}

@[elab_as_elim]
theorem invariant_of_reaches
    (keeps : ∀ {state next}, invariant state → step state = some next → invariant next)
    (initially : invariant start) (run : Reaches step start state) : invariant state := by
  induction run with
  | refl => exact initially
  | tail _ turn induction => exact keeps induction (Option.mem_def.mp turn)

/-- With a measure that every step decreases, the machine halts. -/
theorem exists_halted (measure : State → Nat)
    (keeps : ∀ {state next}, invariant state → step state = some next → invariant next)
    (decreases : ∀ {state next}, invariant state → step state = some next →
      measure next < measure state)
    (initially : invariant start) :
    ∃ final, Reaches step start final ∧ step final = none := by
  induction bound : measure start using Nat.strong_induction_on generalizing start with
  | _ size shorter =>
      cases turn : step start with
      | none => exact ⟨start, .refl, turn⟩
      | some next =>
          have less := decreases initially turn
          rw [bound] at less
          rcases shorter _ less (keeps initially turn) rfl with ⟨final, run, halted⟩
          exact ⟨final, .head turn run, halted⟩

theorem halted_unique (toState : Reaches step start state) (toOther : Reaches step start other)
    (halted : step state = none) (otherHalted : step other = none) : state = other :=
  Part.mem_unique (mem_eval.mpr ⟨toState, halted⟩) (mem_eval.mpr ⟨toOther, otherHalted⟩)

/-- A machine that reaches a state it never leaves does not halt. -/
theorem not_halted_of_spin (toState : Reaches step start state) (spins : step state = some state)
    (toOther : Reaches step start other) : step other ≠ none := by
  intro halted
  have trapped : ∀ reached, Reaches step state reached → reached = state := by
    intro reached run
    induction run with
    | refl => rfl
    | tail _ turn induction =>
        subst induction
        exact Option.some.inj ((Option.mem_def.mp turn).symm.trans spins)
  have same : other = state := by
    rcases reaches_total toState toOther with later | earlier
    · exact trapped other later
    · rcases Relation.ReflTransGen.cases_head earlier with same | ⟨next, turn, _⟩
      · exact same
      · rw [Option.mem_def, halted] at turn
        cases turn
  rw [same, spins] at halted
  cases halted

end Yoctos.Loops
