import Yoctos.Common.Vsnprintf
import Yoctos.Foundation.Loops

/-! # When the output does not fit

`vsnprintf` has two defects on truncated output: a number that does not fit
makes its digit loop spin, and output of `size` characters or more makes the
terminating 0 land one past the end.
-/

namespace Yoctos.Common.Stdio

open Yoctos.Loops Yoctos.Stores
open StateTransition

variable {scratch : Nat → UInt8} {size : Nat} {fmt : CString} {args : List Arg}
variable {pieces : List Piece}

/-! ## Termination -/

private theorem step_of_returned {st : State} (returned : st.phase = .returned) :
    step st = none := by
  rw [step, returned]

private theorem not_returns_of_spin {start stuck : State} (reached : Reaches step start stuck)
    (spins : step stuck = some stuck) : ¬ Returns start := by
  rintro ⟨final, ends, returned⟩
  exact not_halted_of_spin reached spins ends (step_of_returned returned)

theorem vsnprintf_outcome (parsed : parseFormat fmt.bytes args = some pieces) :
    Outcome (vsnprintf scratch size fmt args) pieces :=
  outcome_of_parse rfl rfl rfl parsed

theorem Outcome.returns_iff {st : State} (outcome : Outcome st pieces) :
    Returns st ↔ NumbersFit st.size pieces := by
  constructor
  · intro returns
    by_contra unfit
    rcases outcome.spins unfit with ⟨stuck, reached, spins⟩
    exact not_returns_of_spin reached spins returns
  · intro fit
    rcases outcome.returns fit with ⟨final, ends, returned, _, _⟩
    exact ⟨final, ends, returned⟩

/-- The call returns exactly when every number ends within the first `size`
characters of the output. -/
theorem returns_iff_numbersFit (scratch : Nat → UInt8) (size : Nat) (fmt : CString)
    (args : List Arg) (pieces : List Piece)
    (parsed : parseFormat fmt.bytes args = some pieces) :
    Returns (vsnprintf scratch size fmt args) ↔ NumbersFit size pieces := by
  have outcome : Outcome (vsnprintf scratch size fmt args) pieces := vsnprintf_outcome parsed
  exact outcome.returns_iff

theorem returns_iff_numbersFit_seven :
    Returns (vsnprintf (fun _ => 0) 1 ⟨[ch '%', ch 'd'], by decide +kernel⟩ [.int 7]) := by
  refine (returns_iff_numbersFit (fun _ => 0) 1 ⟨[ch '%', ch 'd'], by decide +kernel⟩ [.int 7]
    [.number (signedNumeral 7) (signedNumeral_ne_nil 7)] rfl).mpr ?_
  have oneDigit : (signedNumeral 7).length = 1 := by decide +kernel
  rw [numbersFit_number, oneDigit]
  exact ⟨Nat.le_refl 1, numbersFit_nil _⟩

/-- `snprintf(dest, 2, "a%d", 42)` never returns. -/
theorem not_always_returns :
    ¬ ∀ (scratch : Nat → UInt8) (size : Nat) (fmt : CString) (args : List Arg),
      (parseFormat fmt.bytes args).isSome → Returns (vsnprintf scratch size fmt args) := by
  intro always
  have returns := always (fun _ => 0) 2 ⟨[ch 'a', ch '%', ch 'd'], by decide +kernel⟩ [.int 42] rfl
  have outcome : Outcome
      (vsnprintf (fun _ => 0) 2 ⟨[ch 'a', ch '%', ch 'd'], by decide +kernel⟩ [.int 42])
      [.text [ch 'a'], .number (signedNumeral 42) (signedNumeral_ne_nil 42)] :=
    vsnprintf_outcome rfl
  have twoDigits : (signedNumeral 42).length = 2 := by decide +kernel
  have unfit : ¬ NumbersFit 2
      [.text [ch 'a'], .number (signedNumeral 42) (signedNumeral_ne_nil 42)] := by
    rw [numbersFit_text, numbersFit_number, twoDigits, List.length_singleton]
    omega
  rcases outcome.spins unfit with ⟨stuck, reached, spins⟩
  exact not_returns_of_spin reached spins returns

/-! ## Bounds of the destination -/

/-- While the call runs, `dest` and `size` add up to the size it was given and
every store so far lies below `dest`. -/
structure InBounds (size : Nat) (st : State) : Prop where
  room : st.dest + st.size = size
  stored : st.phase ≠ .returned → ∀ store ∈ st.stores, store.1 < st.dest

namespace InBounds

variable {st next : State}

theorem emit (bounds : InBounds size st) (running : st.phase ≠ .returned) (bytes : List UInt8) :
    InBounds size (st.emit bytes) := by
  refine ⟨?_, fun _ store member => ?_⟩
  · have room := bounds.room
    simp only [State.emit]
    omega
  · simp only [State.emit, List.mem_append] at member ⊢
    rcases member with earlier | new
    · have below := bounds.stored running store earlier
      omega
    · have range := mem_consecutive_bounds new
      simp only [List.length_take] at range
      omega

private theorem relabel (bounds : InBounds size st) (running : st.phase ≠ .returned)
    (same : State.SameOutput next st) : InBounds size next :=
  ⟨by rw [same.dest, same.size]; exact bounds.room,
    fun _ store member => by
      rw [same.stores] at member
      rw [same.dest]
      exact bounds.stored running store member⟩

theorem finish (bounds : InBounds size st) : InBounds size st.finish :=
  ⟨bounds.room, fun running => absurd rfl running⟩

theorem directive {d : UInt8} (bounds : InBounds size st) (running : st.phase ≠ .returned)
    (turn : st.directive d = some next) : InBounds size next := by
  simp only [State.directive, State.putc_eq_emit] at turn
  split at turn <;> cases turn
  · exact ((bounds.relabel running ⟨rfl, rfl, rfl, rfl⟩ : InBounds size { st with args := _ }).emit
      running _).relabel running ⟨rfl, rfl, rfl, rfl⟩
  · exact bounds.relabel running ⟨rfl, rfl, rfl, rfl⟩
  · exact bounds.relabel running ⟨rfl, rfl, rfl, rfl⟩
  · exact bounds.relabel running ⟨rfl, rfl, rfl, rfl⟩
  · exact bounds.relabel running ⟨rfl, rfl, rfl, rfl⟩
  · exact (bounds.emit running _).relabel running ⟨rfl, rfl, rfl, rfl⟩
  · exact bounds.relabel running ⟨rfl, rfl, rfl, rfl⟩

theorem step (bounds : InBounds size st) (turn : Stdio.step st = some next) :
    InBounds size next := by
  have running : st.phase ≠ .returned := by
    intro returned
    simp [Stdio.step, returned] at turn
  rw [Stdio.step] at turn
  simp only [State.putc_eq_emit] at turn
  split at turn
  case h_1 => cases turn
  case h_2 | h_4 =>
    cases turn
    exact bounds.relabel running ⟨rfl, rfl, rfl, rfl⟩
  case h_3 =>
    cases turn
    exact (bounds.emit running _).relabel running ⟨rfl, rfl, rfl, rfl⟩
  case h_5 =>
    split at turn <;> cases turn
    · exact (bounds.emit running _).relabel running ⟨rfl, rfl, rfl, rfl⟩
    · exact bounds
  case h_6 =>
    split at turn
    · cases turn
      exact bounds.finish
    · split at turn
      · split at turn
        · cases turn
          have parsed : InBounds size { st with fmt := [] } :=
            bounds.relabel running ⟨rfl, rfl, rfl, rfl⟩
          exact parsed.finish
        · rename_i _ d rest _
          exact (bounds.relabel running ⟨rfl, rfl, rfl, rfl⟩ :
            InBounds size { st with fmt := d :: rest }).directive running turn
      · cases turn
        exact (bounds.emit running _).relabel running ⟨rfl, rfl, rfl, rfl⟩

theorem reaches (bounds : InBounds size st) (run : Reaches Stdio.step st next) :
    InBounds size next :=
  invariant_of_reaches InBounds.step bounds run

end InBounds

theorem vsnprintf_inBounds : InBounds size (vsnprintf scratch size fmt args) :=
  ⟨Nat.zero_add size, fun _ store member => by cases member⟩

theorem returned_unique {start left right : State} (toLeft : Reaches step start left)
    (toRight : Reaches step start right) (leftReturned : left.phase = .returned)
    (rightReturned : right.phase = .returned) : left = right :=
  halted_unique toLeft toRight (step_of_returned leftReturned) (step_of_returned rightReturned)

private theorem storesWithin_iff (parsed : parseFormat fmt.bytes args = some pieces) :
    StoresWithin (vsnprintf scratch size fmt args) size ↔
      (render pieces).length < size ∨ ¬ NumbersFit size pieces := by
  have outcome : Outcome (vsnprintf scratch size fmt args) pieces := vsnprintf_outcome parsed
  have start : InBounds size (vsnprintf scratch size fmt args) := vsnprintf_inBounds
  constructor
  · intro within
    by_cases fit : NumbersFit size pieces
    · rcases outcome.returns fit with ⟨final, ends, _, stores, _⟩
      have terminator := within final ends
        (((vsnprintf scratch size fmt args).emit (render pieces)).dest, 0) (by simp [stores])
      have position : ((vsnprintf scratch size fmt args).emit (render pieces)).dest =
          min (render pieces).length size := by simp [State.emit, vsnprintf]
      simp only [position] at terminator
      left
      omega
    · exact .inr fit
  · intro condition st run store member
    have bounds := start.reaches run
    by_cases returned : st.phase = .returned
    · have fit : NumbersFit size pieces := by
        by_contra unfit
        rcases outcome.spins unfit with ⟨stuck, reached, spins⟩
        exact not_returns_of_spin reached spins ⟨st, run, returned⟩
      have short : (render pieces).length < size := condition.resolve_right (not_not_intro fit)
      rcases outcome.returns fit with ⟨final, ends, finalReturned, stores, _⟩
      rw [returned_unique run ends returned finalReturned, stores] at member
      have emitted := start.emit (by simp [vsnprintf]) (render pieces)
      have position : ((vsnprintf scratch size fmt args).emit (render pieces)).dest =
          min (render pieces).length size := by simp [State.emit, vsnprintf]
      rcases List.mem_append.mp member with earlier | terminator
      · have below := emitted.stored (by simp [State.emit, vsnprintf]) store earlier
        omega
      · rw [List.mem_singleton.mp terminator, position]
        omega
    · have below := bounds.stored returned store member
      have room := bounds.room
      omega

/-- The condition for the three entry points of the library. -/
theorem formatted_output_storesWithin_iff (scratch : Nat → UInt8) (size : Nat) (fmt : CString)
    (args : List Arg) (pieces : List Piece)
    (parsed : parseFormat fmt.bytes args = some pieces) :
    (StoresWithin (vsnprintf scratch size fmt args) size ↔
      (render pieces).length < size ∨ ¬ NumbersFit size pieces) ∧
    (StoresWithin (snprintf scratch size fmt args) size ↔
      (render pieces).length < size ∨ ¬ NumbersFit size pieces) ∧
    (StoresWithin (printf scratch fmt args) bufferSize ↔
      (render pieces).length < bufferSize ∨ ¬ NumbersFit bufferSize pieces) :=
  ⟨storesWithin_iff parsed, storesWithin_iff parsed, storesWithin_iff parsed⟩

theorem formatted_output_storesWithin_iff_letter :
    StoresWithin (vsnprintf (fun _ => 0) 2 ⟨[ch 'a'], by decide +kernel⟩ []) 2 :=
  (formatted_output_storesWithin_iff (fun _ => 0) 2 ⟨[ch 'a'], by decide +kernel⟩ []
    [.text [ch 'a']] rfl).1.mpr (.inl (by decide))

/-- `snprintf(dest, 1, "a")` stores its terminating 0 at `dest[1]`. -/
theorem not_always_storesWithin :
    ¬ ∀ (scratch : Nat → UInt8) (size : Nat) (fmt : CString) (args : List Arg), 1 ≤ size →
      (parseFormat fmt.bytes args).isSome →
      StoresWithin (vsnprintf scratch size fmt args) size := by
  intro always
  have within := always (fun _ => 0) 1 ⟨[ch 'a'], by decide +kernel⟩ [] (by decide) rfl
  have parsed : parseFormat [ch 'a'] [] = some [.text [ch 'a']] := rfl
  have condition := (storesWithin_iff parsed).mp within
  rcases condition with short | unfit
  · exact absurd short (by decide)
  · exact unfit ((numbersFit_text _ _ _).mpr (numbersFit_nil _))

end Yoctos.Common.Stdio
