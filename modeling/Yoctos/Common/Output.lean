import Yoctos.Common.Truncation

/-! # What a call leaves in the destination

A call that returns has stored its rendering, cut to the room there was. The
local array `buf` had space for all of its numbers: one too long for `buf` is
too long for the destination, and its digit loop never ends.
-/

namespace Yoctos.Common.Stdio

open Yoctos.Loops Yoctos.Stores
open StateTransition

variable {scratch : Nat → UInt8} {size : Nat} {fmt : CString} {args : List Arg}
variable {pieces : List Piece} {st next : State}

/-! ## The local array `buf` -/

def Overrun (st : State) : Prop := ∃ len, st.phase = .digits len ∧ st.size < len

/-- `buf` has `size + 1` elements. -/
def BufWithin (size : Nat) (st : State) : Prop := ∀ store ∈ st.bufStores, store.1 < size + 1

theorem Overrun.step (overrun : Overrun st) (turn : Stdio.step st = some next) : Overrun next := by
  rcases overrun with ⟨len, phase, short⟩
  cases len with
  | zero => omega
  | succ len =>
      simp only [Stdio.step, phase] at turn
      split at turn
      next room =>
        cases turn
        refine ⟨len, rfl, ?_⟩
        rw [State.putc, if_pos room]
        exact Nat.sub_lt_right_of_lt_add room short
      next => cases turn; exact ⟨len + 1, phase, short⟩

@[simp] theorem putc_bufStores (st : State) (c : UInt8) :
    (st.putc c).bufStores = st.bufStores := by
  rw [State.putc]
  split <;> rfl

/-- `printint_rev` writes past the end of `buf` only before a loop without end. -/
theorem bufWithin_convert (characters : List UInt8) (room : st.size ≤ size)
    (within : BufWithin size st) :
    BufWithin size (st.convert characters) ∨ Overrun (st.convert characters) := by
  by_cases fits : characters.length ≤ st.size
  · refine .inl fun store member => ?_
    rcases List.mem_append.mp member with earlier | new
    · exact within store earlier
    · have range := mem_consecutive_bounds new
      rw [List.length_append, List.length_singleton] at range
      omega
  · exact .inr ⟨characters.length, rfl, Nat.lt_of_not_le fits⟩

private theorem bufWithin_directive {d : UInt8} (room : st.size ≤ size) (within : BufWithin size st)
    (turn : st.directive d = some next) : BufWithin size next ∨ Overrun next := by
  simp only [State.directive] at turn
  split at turn <;> cases turn
  · exact .inl (by simpa [BufWithin, State.advance] using within)
  · exact .inl within
  · exact bufWithin_convert _ room within
  · exact bufWithin_convert _ room within
  · exact bufWithin_convert _ room within
  · exact .inl (by simpa [BufWithin, State.advance] using within)
  · exact .inl within

private theorem bufWithin_step (bounds : InBounds size st) (within : BufWithin size st ∨ Overrun st)
    (turn : Stdio.step st = some next) : BufWithin size next ∨ Overrun next := by
  rcases within with within | overrun
  · have room : st.size ≤ size := by
      have total := bounds.room
      omega
    rw [Stdio.step] at turn
    split at turn
    case h_1 => cases turn
    case h_2 | h_4 =>
      cases turn
      exact .inl within
    case h_3 =>
      cases turn
      exact .inl (by simpa [BufWithin] using within)
    case h_5 =>
      split at turn <;> cases turn
      · exact .inl (by simpa [BufWithin] using within)
      · exact .inl within
    case h_6 =>
      split at turn
      · cases turn
        exact .inl within
      · split at turn
        · split at turn
          · cases turn
            exact .inl within
          · rename_i d rest _
            have fits : ({ st with fmt := d :: rest } : State).size ≤ size := room
            exact bufWithin_directive fits within turn
        · cases turn
          exact .inl (by simpa [BufWithin, State.advance] using within)
  · exact .inr (overrun.step turn)

private theorem bufWithin_reaches (run : Reaches Stdio.step (vsnprintf scratch size fmt args) st) :
    BufWithin size st ∨ Overrun st := by
  have both : InBounds size st ∧ (BufWithin size st ∨ Overrun st) := by
    refine invariant_of_reaches (fun both turn => ?_) ?_ run
    · exact ⟨both.1.step turn, bufWithin_step both.1 both.2 turn⟩
    · exact ⟨vsnprintf_inBounds, .inl fun store member => by cases member⟩
  exact both.2

private theorem bufWithin_returned (run : Reaches Stdio.step (vsnprintf scratch size fmt args) st)
    (returned : st.phase = .returned) : BufWithin size st := by
  rcases bufWithin_reaches run with within | ⟨len, phase, _⟩
  · exact within
  · cases returned.symm.trans phase

/-! ## The destination -/

theorem numbersFit_of_length_le (fits : (render pieces).length ≤ size) :
    NumbersFit size pieces := by
  rintro before digits nonempty after rfl
  have total : render (before ++ .number digits nonempty :: after) =
      render before ++ (digits ++ render after) := by
    simp [render, Piece.bytes]
  rw [total, List.length_append, List.length_append] at fits
  omega

theorem stores_of_returned {final : State} (parsed : parseFormat fmt.bytes args = some pieces)
    (reached : Reaches step (vsnprintf scratch size fmt args) final)
    (returned : final.phase = .returned) :
    final.stores = consecutive 0 ((render pieces).take (min size (render pieces).length) ++ [0]) ∧
      final.count = min size (render pieces).length := by
  have outcome : Outcome (vsnprintf scratch size fmt args) pieces := vsnprintf_outcome parsed
  have fit : NumbersFit size pieces := outcome.returns_iff.mp ⟨final, reached, returned⟩
  rcases outcome.returns fit with ⟨other, ends, otherReturned, stores, count⟩
  have same : final = other := returned_unique reached ends returned otherReturned
  subst same
  have cut : (render pieces).take (min size (render pieces).length) =
      (render pieces).take size := by
    rw [List.take_eq_take_iff]
    omega
  constructor
  · rw [stores, cut, consecutive_append, List.length_take]
    simp [State.emit, vsnprintf, consecutive, Nat.min_comm]
  · rw [count]
    simp [State.emit, vsnprintf, Nat.min_comm]

/-- A call that returns stores the first `size` characters of its rendering and
a final 0, and returns their number; it returns when the rendering has at most
`size` characters. -/
theorem vsnprintf_renders (scratch : Nat → UInt8) (size : Nat) (fmt : CString) (args : List Arg)
    (pieces : List Piece) (parsed : parseFormat fmt.bytes args = some pieces) :
    (∀ final, Reaches step (vsnprintf scratch size fmt args) final → final.phase = .returned →
      final.stores = consecutive 0 ((render pieces).take (min size (render pieces).length) ++ [0]) ∧
      final.count = min size (render pieces).length ∧ BufWithin size final) ∧
    ((render pieces).length ≤ size → Returns (vsnprintf scratch size fmt args)) := by
  refine ⟨fun final reached returned => ?_, fun fits => ?_⟩
  · rcases stores_of_returned parsed reached returned with ⟨stores, count⟩
    exact ⟨stores, count, bufWithin_returned reached returned⟩
  · have outcome : Outcome (vsnprintf scratch size fmt args) pieces := vsnprintf_outcome parsed
    exact outcome.returns_iff.mpr (numbersFit_of_length_le fits)

theorem vsnprintf_renders_hex : ∃ final,
    Reaches step (vsnprintf (fun _ => 0) 2 ⟨[ch '%', ch 'x'], by decide +kernel⟩ [.int 42]) final ∧
    final.stores = [(0, ch '2'), (1, ch 'A'), (2, 0)] ∧ final.count = 2 := by
  have output : render [.number (numeral 16 (42 : BitVec 32).toNat)
      (numeral_ne_nil 16 _)] = [ch '2', ch 'A'] := by decide +kernel
  rcases vsnprintf_renders (fun _ => 0) 2 ⟨[ch '%', ch 'x'], by decide +kernel⟩ [.int 42] _ rfl
    with ⟨stored, returns⟩
  rw [output] at stored returns
  rcases returns (Nat.le_refl 2) with ⟨final, reached, returned⟩
  rcases stored final reached returned with ⟨stores, count, _⟩
  exact ⟨final, reached, stores, count⟩

end Yoctos.Common.Stdio
