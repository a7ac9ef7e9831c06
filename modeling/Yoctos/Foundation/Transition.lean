import Mathlib.Logic.Basic

/-! # Runs of labelled transition systems

A system is given by its executable step function. A run is confined to a
region, so that "while the call is active" and "from any reachable state" are
the same notion with different regions.
-/

namespace Yoctos.Transition

variable {State : Type u} {Event : Type v}

/-- A run of `step` whose visited states, both ends included, all lie in
`region`. -/
inductive Run (step : State → Event → Option State) (region : State → Prop) :
    State → List Event → State → Prop
  | nil {state : State} (inside : region state) : Run step region state [] state
  | cons {first middle final : State} {event : Event} {events : List Event}
      (inside : region first) (stepped : step first event = some middle)
      (rest : Run step region middle events final) :
      Run step region first (event :: events) final

def Reachable (step : State → Event → Option State) (initial state : State) : Prop :=
  ∃ events, Run step (fun _ => True) initial events state

/-- The state a list of events leads to, as long as the states stay in `region`. -/
def execute (step : State → Event → Option State) (region : State → Bool) (state : State) :
    List Event → Option State
  | [] => if region state then some state else none
  | event :: events =>
      if region state then (step state event).bind fun next => execute step region next events
      else none

theorem run_of_execute {step : State → Event → Option State} {region : State → Bool}
    {state final : State} {events : List Event}
    (executed : execute step region state events = some final) :
    Run step (fun state => region state = true) state events final := by
  induction events generalizing state with
  | nil =>
      rw [execute] at executed
      split at executed
      next inside =>
        cases executed
        exact .nil inside
      next => cases executed
  | cons event events induction =>
      rw [execute] at executed
      split at executed
      next inside =>
        rcases Option.bind_eq_some_iff.mp executed with ⟨middle, stepped, rest⟩
        exact .cons inside stepped (induction rest)
      next => cases executed

namespace Run

variable {step : State → Event → Option State} {region wider : State → Prop}
variable {first middle final : State} {events later : List Event}

theorem first_inside (run : Run step region first events final) : region first := by
  cases run with
  | nil inside => exact inside
  | cons inside _ _ => exact inside

theorem final_inside (run : Run step region first events final) : region final := by
  induction run with
  | nil inside => exact inside
  | cons _ _ _ induction => exact induction

theorem widen (run : Run step region first events final)
    (included : ∀ state, region state → wider state) :
    Run step wider first events final := by
  induction run with
  | nil inside => exact .nil (included _ inside)
  | cons inside stepped _ induction =>
      exact .cons (included _ inside) stepped induction

theorem append (run : Run step region first events middle)
    (rest : Run step region middle later final) :
    Run step region first (events ++ later) final := by
  induction run with
  | nil _ => exact rest
  | cons inside stepped _ induction => exact .cons inside stepped (induction rest)

theorem single {event : Event} (inside : region first) (stepped : step first event = some final)
    (finalInside : region final) : Run step region first [event] final :=
  .cons inside stepped (.nil finalInside)

/-- The invariant rule: what every step inside the region preserves, a whole
run inside the region preserves. -/
theorem preserves {invariant : State → Prop}
    (run : Run step region first events final)
    (preserved : ∀ before event after, region before → region after →
      invariant before → step before event = some after → invariant after)
    (initially : invariant first) : invariant final := by
  induction run with
  | nil _ => exact initially
  | cons inside stepped rest induction =>
      exact induction
        (preserved _ _ _ inside rest.first_inside initially stepped)

end Run

namespace Reachable

variable {step : State → Event → Option State} {initial state next : State}

theorem refl : Reachable step initial initial := ⟨[], .nil trivial⟩

theorem extend {region : State → Prop} {events : List Event}
    (reachable : Reachable step initial state)
    (run : Run step region state events next) : Reachable step initial next := by
  rcases reachable with ⟨earlier, prior⟩
  exact ⟨earlier ++ events, prior.append (run.widen fun _ _ => trivial)⟩

theorem step_to {event : Event} (reachable : Reachable step initial state)
    (stepped : step state event = some next) : Reachable step initial next := by
  rcases reachable with ⟨earlier, prior⟩
  exact ⟨earlier ++ [event], prior.append (.single trivial stepped trivial)⟩

theorem preserves {invariant : State → Prop}
    (reachable : Reachable step initial state)
    (preserved : ∀ before event after,
      invariant before → step before event = some after → invariant after)
    (initially : invariant initial) : invariant state := by
  rcases reachable with ⟨events, run⟩
  exact run.preserves (fun before event after _ _ => preserved before event after) initially

end Reachable

/-! ## Simulation

A step of one system may be a whole run of another. Regions go along, so that
what holds while a call is active holds in both.
-/

section

variable {Concrete : Type u} {Abstract : Type v} {Event : Type w} {Action : Type x}
variable {concreteStep : Concrete → Event → Option Concrete}
variable {abstractStep : Abstract → Action → Option Abstract}
variable {concreteRegion : Concrete → Prop} {abstractRegion : Abstract → Prop}
variable {related : Concrete → Abstract → Prop}

/-- If every step inside the region is a run of the other system, so is every run. -/
theorem Run.simulates {first final : Concrete} {events : List Event} {start : Abstract}
    (inside : ∀ concrete abstract, concreteRegion concrete → related concrete abstract →
      abstractRegion abstract)
    (simulated : ∀ before event after abstract, concreteRegion before → concreteRegion after →
      related before abstract → concreteStep before event = some after →
      ∃ actions next, Run abstractStep abstractRegion abstract actions next ∧ related after next)
    (run : Run concreteStep concreteRegion first events final) (initially : related first start) :
    ∃ actions next, Run abstractStep abstractRegion start actions next ∧ related final next := by
  induction run generalizing start with
  | nil within => exact ⟨[], start, .nil (inside _ _ within initially), initially⟩
  | cons within stepped rest induction =>
      rcases simulated _ _ _ _ within rest.first_inside initially stepped with
        ⟨now, middle, step, relatedMiddle⟩
      rcases induction relatedMiddle with ⟨later, next, run, relatedNext⟩
      exact ⟨now ++ later, next, step.append run, relatedNext⟩

end

end Yoctos.Transition
