import Yoctos.Common.Output

/-! # The scratch array of `vsnprintf`

`buf` is as long as the destination allows, and `printint_rev` fills it before
anyone asks how much room is left. A number longer than `size` runs over it,
provided the run gets that far.
-/

namespace Yoctos.Common.Stdio

open Yoctos.Loops Yoctos.Stores
open StateTransition

variable {size room : Nat} {pieces rest : List Piece} {st next : State}

/-- Every store made into `buf`, however far the run gets, lands in its
`size + 1` elements. -/
def ScratchWithin (start : State) (size : Nat) : Prop :=
  ∀ st, Reaches step start st → BufWithin size st

/-! ## The numbers a call gets to -/

/-- Every number up to the first that does not fit in `room` has at most `size`
characters. -/
def ReachedFit (size room : Nat) (pieces : List Piece) : Prop :=
  EveryNumber (fun before digits => NumbersFit room before → digits.length ≤ size) pieces

private theorem reachedFit_nil (size room : Nat) : ReachedFit size room [] := everyNumber_nil _

private theorem reachedFit_text (size room : Nat) (bytes : List UInt8) (rest : List Piece) :
    ReachedFit size room (.text bytes :: rest) ↔ ReachedFit size (room - bytes.length) rest := by
  simp only [ReachedFit, ← numbersFit_text]
  exact everyNumber_text _ bytes rest

private theorem reachedFit_number (size room : Nat) (digits : List UInt8) (nonempty : digits ≠ [])
    (rest : List Piece) :
    ReachedFit size room (.number digits nonempty :: rest) ↔
      digits.length ≤ size ∧
        (digits.length ≤ room → ReachedFit size (room - digits.length) rest) := by
  have first : (NumbersFit room [] → digits.length ≤ size) ↔ digits.length ≤ size :=
    imp_iff_right (numbersFit_nil room)
  refine (everyNumber_number _ digits nonempty rest).trans (and_congr first ?_)
  simp only [numbersFit_number]
  constructor
  · intro every fits before later laterNonempty after equal reached
    exact every before later laterNonempty after equal ⟨fits, reached⟩
  · intro every before later laterNonempty after equal reached
    exact every reached.1 before later laterNonempty after equal reached.2

/-- No directive prints more than a sign and ten digits. -/
theorem everyNumber_length_le {fmt : List UInt8} {args : List Arg}
    (parses : Parses fmt args pieces) :
    EveryNumber (fun _ digits => digits.length ≤ 11) pieces := by
  induction parses with
  | finish | dangling => exact everyNumber_nil _
  | plain _ _ induction | char _ _ induction | string _ _ induction | percent _ _ induction =>
      exact (everyNumber_text _ _ _).mpr induction
  | @decimal d n fmt args rest kind parses induction =>
      exact (everyNumber_number _ _ _ _).mpr ⟨length_signedNumeral_le n, induction⟩
  | @unsigned d n fmt args rest kind parses induction =>
      have bound : n.toNat < 10 ^ 11 := n.isLt.trans (by decide)
      have digits := length_numeral_le (by decide) (by decide) bound
      exact (everyNumber_number _ _ _ _).mpr ⟨digits, induction⟩
  | @hexadecimal d n fmt args rest kind parses induction =>
      have bound : n.toNat < 16 ^ 11 := n.isLt.trans (by decide)
      have digits := length_numeral_le (by decide) (by decide) bound
      exact (everyNumber_number _ _ _ _).mpr ⟨digits, induction⟩
  | ignored _ _ induction => exact induction

private theorem reachedFit_of_le {fmt : List UInt8} {args : List Arg}
    (parses : Parses fmt args pieces)
    (enough : 11 ≤ size) (room : Nat) : ReachedFit size room pieces := by
  intro before digits nonempty after equal _
  have short := everyNumber_length_le parses before digits nonempty after equal
  exact short.trans enough

/-! ## The stores into the array -/

private theorem bufStores_step (turn : step st = some next) : st.bufStores ⊆ next.bufStores := by
  rw [step] at turn
  split at turn
  case h_1 => cases turn
  case h_2 | h_4 =>
    cases turn
    exact List.Subset.refl _
  case h_3 =>
    cases turn
    rw [putc_bufStores]
    exact List.Subset.refl _
  case h_5 =>
    split at turn <;> cases turn
    · rw [putc_bufStores]
      exact List.Subset.refl _
    · exact List.Subset.refl _
  case h_6 =>
    split at turn
    · cases turn
      exact List.Subset.refl _
    · split at turn
      · split at turn
        · cases turn
          exact List.Subset.refl _
        · simp only [State.directive] at turn
          split at turn <;> cases turn <;>
            simp [State.advance, State.convert]
      · cases turn
        simp [State.advance]

private theorem bufStores_reaches (run : Reaches step st next) : st.bufStores ⊆ next.bufStores := by
  induction run with
  | refl => exact List.Subset.refl _
  | tail _ turn induction => exact List.Subset.trans induction (bufStores_step turn)

/-- Further along the run the same stores are still to come, or already in the
log. -/
theorem scratchWithin_iff_of_reaches (run : Reaches step st next) :
    ScratchWithin st size ↔ ScratchWithin next size := by
  constructor
  · intro within other onward
    exact within other (run.trans onward)
  · intro within other toOther
    rcases reaches_total run toOther with later | earlier
    · exact within other later
    · intro store member
      exact within next .refl store (bufStores_reaches earlier member)

private theorem bufWithin_convert_iff {characters : List UInt8} (within : BufWithin size st) :
    BufWithin size (st.convert characters) ↔ characters.length ≤ size := by
  constructor
  · intro converted
    -- The final 0 is the store that reaches furthest.
    have last := converted (characters.length, 0) <| List.mem_append_right _ <| by
      rw [consecutive_append, Nat.zero_add]
      exact List.mem_append_right _ (List.mem_singleton_self _)
    exact Nat.le_of_lt_succ last
  · intro fits store member
    rcases List.mem_append.mp member with earlier | new
    · exact within store earlier
    · have range := mem_consecutive_bounds new
      rw [List.length_append, List.length_singleton] at range
      omega

private theorem Overrun.bufStores_step (overrun : Overrun st) (turn : Stdio.step st = some next) :
    next.bufStores = st.bufStores := by
  rcases overrun with ⟨len, phase, short⟩
  cases len with
  | zero => omega
  | succ len =>
      simp only [Stdio.step, phase] at turn
      split at turn <;> cases turn
      · exact putc_bufStores _ _
      · rfl

private theorem BufWithin.of_eq (within : BufWithin size st)
    (same : next.bufStores = st.bufStores) :
    BufWithin size next := by
  rw [BufWithin, same]
  exact within

private theorem Overrun.scratchWithin (overrun : Overrun st) (within : BufWithin size st) :
    ScratchWithin st size := by
  intro other run
  have both : Overrun other ∧ BufWithin size other := by
    refine invariant_of_reaches (fun both turn => ?_) ⟨overrun, within⟩ run
    exact ⟨both.1.step turn, both.2.of_eq (both.1.bufStores_step turn)⟩
  exact both.2

/-! ## Whole calls -/

private theorem Renders.scratchWithin_iff (renders : Renders st pieces)
    (within : BufWithin size st) :
    ScratchWithin st size ↔ ReachedFit size st.size pieces := by
  induction renders with
  | @finish st next turn same scratch =>
      refine iff_of_true ?_ (reachedFit_nil size st.size)
      rw [scratchWithin_iff_of_reaches (.single turn)]
      intro other run
      rcases Relation.ReflTransGen.cases_head run with rfl | ⟨_, turn, _⟩
      · exact within.of_eq scratch
      · cases turn
  | @text st next bytes rest reached same scratch renders induction =>
      rw [scratchWithin_iff_of_reaches reached, induction (within.of_eq scratch), same.size,
        reachedFit_text]
      rfl
  | @number st next characters digits nonempty rest turn same scratch reversed renders induction =>
      have lengthEq : characters.length = digits.length := by rw [← reversed, List.length_reverse]
      have converted : BufWithin size (next.convert characters) ↔ digits.length ≤ size := by
        rw [bufWithin_convert_iff (within.of_eq scratch), lengthEq]
      rw [scratchWithin_iff_of_reaches (.single turn), reachedFit_number]
      by_cases short : digits.length ≤ size
      · have stored : BufWithin size (next.convert characters) := converted.mpr short
        rw [and_iff_right short]
        by_cases fits : digits.length ≤ st.size
        · have printed := reaches_converted next reversed (same.size ▸ fits)
          rw [scratchWithin_iff_of_reaches printed, induction fits stored, imp_iff_right fits,
            ← same.size]
          rfl
        · refine iff_of_true (Overrun.scratchWithin ⟨characters.length, rfl, ?_⟩ stored)
            fun room => absurd room fits
          rw [lengthEq, show (next.convert characters).size = st.size from same.size]
          exact Nat.lt_of_not_le fits
      · refine iff_of_false (fun within => short ?_) fun fit => short fit.1
        exact converted.mp (within _ .refl)
  | @silent st next pieces turn same scratch renders induction =>
      rw [scratchWithin_iff_of_reaches (.single turn), induction (within.of_eq scratch), same.size]

private theorem vsnprintf_bufWithin {scratch : Nat → UInt8} {fmt : CString} {args : List Arg} :
    BufWithin size (vsnprintf scratch size fmt args) := by
  intro store member
  cases member

private theorem scratchWithin_of_le {scratch : Nat → UInt8} {fmt : CString} {args : List Arg}
    (parsed : parseFormat fmt.bytes args = some pieces) (enough : 11 ≤ size) :
    ScratchWithin (vsnprintf scratch size fmt args) size := by
  have renders : Renders (vsnprintf scratch size fmt args) pieces :=
    renders_of_parse rfl rfl rfl parsed
  rw [renders.scratchWithin_iff vsnprintf_bufWithin]
  exact reachedFit_of_le (parses_of_parse parsed) enough size

theorem printf_scratchWithin {scratch : Nat → UInt8} {fmt : CString} {args : List Arg}
    (parsed : parseFormat fmt.bytes args = some pieces) :
    ScratchWithin (printf scratch fmt args) bufferSize :=
  scratchWithin_of_le parsed (by decide)

/-- The array is never overrun exactly when no number the call gets to has more
than `size` characters. -/
theorem scratchWithin_iff_reachedFit (scratch : Nat → UInt8) (size : Nat) (fmt : CString)
    (args : List Arg) (pieces : List Piece) (parsed : parseFormat fmt.bytes args = some pieces) :
    ScratchWithin (vsnprintf scratch size fmt args) size ↔ ReachedFit size size pieces := by
  have renders : Renders (vsnprintf scratch size fmt args) pieces :=
    renders_of_parse rfl rfl rfl parsed
  exact renders.scratchWithin_iff vsnprintf_bufWithin

theorem scratchWithin_iff_reachedFit_two :
    ScratchWithin (vsnprintf (fun _ => 0) 2 ⟨[ch '%', ch 'd', ch '%', ch 'd'], by decide +kernel⟩
      [.int 7, .int 42]) 2 := by
  refine (scratchWithin_iff_reachedFit (fun _ => 0) 2
    ⟨[ch '%', ch 'd', ch '%', ch 'd'], by decide +kernel⟩ [.int 7, .int 42]
    [.number (signedNumeral 7) (signedNumeral_ne_nil 7),
      .number (signedNumeral 42) (signedNumeral_ne_nil 42)] rfl).mpr ?_
  have oneDigit : (signedNumeral 7).length = 1 := by decide +kernel
  have twoDigits : (signedNumeral 42).length = 2 := by decide +kernel
  rw [reachedFit_number, reachedFit_number, oneDigit, twoDigits]
  exact ⟨by decide, fun _ => ⟨Nat.le_refl 2, fun _ => reachedFit_nil _ _⟩⟩

theorem not_always_scratchWithin :
    ¬ ∀ (scratch : Nat → UInt8) (size : Nat) (fmt : CString) (args : List Arg), 1 ≤ size →
      (parseFormat fmt.bytes args).isSome →
      ScratchWithin (vsnprintf scratch size fmt args) size := by
  intro always
  let start := vsnprintf (fun _ => 0) 1 ⟨[ch '%', ch 'd'], by decide +kernel⟩ [.int 42]
  have within : ScratchWithin start 1 := always _ _ _ _ (Nat.le_refl 1) rfl
  have renders : Renders start [.number (signedNumeral 42) (signedNumeral_ne_nil 42)] :=
    renders_of_parse rfl rfl rfl rfl
  have twoDigits : (signedNumeral 42).length = 2 := by decide +kernel
  rw [renders.scratchWithin_iff vsnprintf_bufWithin, reachedFit_number, twoDigits] at within
  omega

end Yoctos.Common.Stdio
