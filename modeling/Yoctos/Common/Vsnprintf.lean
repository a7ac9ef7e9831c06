import Yoctos.Common.Rendering

/-! # Runs of `vsnprintf`

What a whole call does is derived turn by turn: a turn either appends the
piece its directive stands for, or spins forever in a digit loop that has run
out of room.
-/

namespace Yoctos.Common.Stdio

open Yoctos.Stores
open StateTransition

namespace State

/-- The effect of `putc` on each of `bytes` in turn: what fits is stored, the
rest is dropped. -/
def emit (st : State) (bytes : List UInt8) : State :=
  { st with
    stores := st.stores ++ consecutive st.dest (bytes.take st.size)
    dest := st.dest + min bytes.length st.size
    size := st.size - bytes.length
    count := st.count + min bytes.length st.size }

@[simp] theorem emit_nil (st : State) : st.emit [] = st := by
  simp [emit, consecutive]

private theorem putc_emit (st : State) (c : UInt8) (bytes : List UInt8) :
    (st.putc c).emit bytes = st.emit (c :: bytes) := by
  by_cases room : 0 < st.size
  · obtain ⟨left, sizeEq⟩ : ∃ left, st.size = left + 1 := ⟨st.size - 1, by omega⟩
    rw [putc, if_pos room]
    simp only [emit, sizeEq, List.take_succ_cons, consecutive, List.length_cons, State.mk.injEq,
      List.append_assoc, List.singleton_append, Nat.add_sub_cancel, true_and, and_true]
    omega
  · have full : st.size = 0 := by omega
    simp [putc, emit, full, consecutive]

theorem putc_eq_emit (st : State) (c : UInt8) : st.putc c = st.emit [c] := by
  rw [← putc_emit, emit_nil]

structure SameOutput (left right : State) : Prop where
  dest : left.dest = right.dest
  size : left.size = right.size
  count : left.count = right.count
  stores : left.stores = right.stores

theorem SameOutput.emit {left right : State} (same : SameOutput left right)
    (bytes : List UInt8) : SameOutput (left.emit bytes) (right.emit bytes) := by
  rcases same with ⟨dest, size, count, stores⟩
  constructor <;> simp only [State.emit, dest, size, count, stores]

private theorem emit_emit (st : State) (bytes later : List UInt8) :
    (st.emit bytes).emit later = st.emit (bytes ++ later) := by
  have split : List.take st.size (bytes ++ later) =
      List.take st.size bytes ++ List.take (st.size - bytes.length) later :=
    List.take_append
  simp only [emit, State.mk.injEq, split, consecutive_append, List.length_take, List.length_append,
    List.append_assoc, Nat.min_comm st.size, true_and, and_true]
  omega

end State

/-! ## The inner loops -/

private theorem reaches_string (st : State) (s : List UInt8) (inside : st.phase = .string s) :
    Reaches step st (st.emit s).advance := by
  induction s generalizing st with
  | nil =>
      exact .single (by simp [step, inside])
  | cons c s induction =>
      have turn : step st = some { st.putc c with phase := .string s } := by
        simp [step, inside]
      have rest := induction { st.putc c with phase := .string s } rfl
      rw [← State.putc_emit]
      exact .head turn rest

def pending (buf : Nat → UInt8) : (len : Nat) → List UInt8
  | 0 => []
  | len + 1 => buf len :: pending buf len

private theorem pending_converted (buf : Nat → UInt8) (characters : List UInt8) :
    pending (writeAll buf (consecutive 0 (characters ++ [0]))) characters.length =
      characters.reverse := by
  have prefixes : ∀ len, len ≤ characters.length →
      pending (writeAll buf (consecutive 0 (characters ++ [0]))) len =
        (characters.take len).reverse := by
    intro len within
    induction len with
    | zero => simp [pending]
    | succ len induction =>
        have stored := writeAll_consecutive_get buf 0 (characters ++ [0]) len
          (by simp; omega)
        rw [Nat.zero_add, List.getElem_append_left (by omega)] at stored
        rw [pending, induction (by omega), stored, List.take_succ_eq_append_getElem (by omega),
          List.reverse_append]
        rfl
  simpa using prefixes characters.length (Nat.le_refl _)

private theorem reaches_digits (st : State) (len : Nat) (inside : st.phase = .digits len)
    (room : len ≤ st.size) :
    Reaches step st (st.emit (pending st.buf len)).advance := by
  induction len generalizing st with
  | zero =>
      exact .single (by simp [step, inside, pending])
  | succ len induction =>
      have positive : 0 < st.size := by omega
      let next : State := { st.putc (st.buf len) with phase := .digits len }
      have turn : step st = some next := by simp [step, inside, positive, next]
      have kept : next.buf = st.buf := by simp [next, State.putc, positive]
      have left : next.size = st.size - 1 := by simp [next, State.putc, positive]
      have rest := induction next rfl (by omega)
      rw [kept] at rest
      rw [pending, ← State.putc_emit]
      exact .head turn rest

theorem reaches_converted (st : State) {characters digits : List UInt8}
    (reversed : characters.reverse = digits) (room : digits.length ≤ st.size) :
    Reaches step (st.convert characters) ((st.convert characters).emit digits).advance := by
  have lengthEq : characters.length = digits.length := by rw [← reversed, List.length_reverse]
  have printed := reaches_digits (st.convert characters) characters.length rfl
    (by rw [lengthEq]; exact room)
  rwa [show (st.convert characters).buf =
      writeAll st.buf (consecutive 0 (characters ++ [0])) from rfl,
    pending_converted, reversed] at printed

/-- Without room for its digits a loop reaches a state it never leaves. -/
theorem reaches_spin (st : State) (len : Nat) (inside : st.phase = .digits len)
    (short : st.size < len) :
    ∃ stuck, Reaches step st stuck ∧ step stuck = some stuck := by
  induction len generalizing st with
  | zero => omega
  | succ len induction =>
      by_cases positive : 0 < st.size
      · let next : State := { st.putc (st.buf len) with phase := .digits len }
        have turn : step st = some next := by simp [step, inside, positive, next]
        have left : next.size = st.size - 1 := by simp [next, State.putc, positive]
        rcases induction next rfl (by omega) with ⟨stuck, reached, spins⟩
        exact ⟨stuck, .head turn reached, spins⟩
      · exact ⟨st, .refl, by simp [step, inside, positive]⟩

/-! ## Whole calls -/

/-- What a call does from the head of its format loop, when `pieces` is what
the rest of its format stands for. -/
structure Outcome (st : State) (pieces : List Piece) : Prop where
  returns : NumbersFit st.size pieces → ∃ final, Reaches step st final ∧
    final.phase = .returned ∧
    final.stores = (st.emit (render pieces)).stores ++ [((st.emit (render pieces)).dest, 0)] ∧
    final.count = (st.emit (render pieces)).count
  spins : ¬ NumbersFit st.size pieces →
    ∃ stuck, Reaches step st stuck ∧ step stuck = some stuck

namespace Outcome

variable {st next : State} {rest : List Piece}

private theorem of_finish (turn : step st = some next.finish) (same : State.SameOutput next st) :
    Outcome st [] where
  returns _ := by
    refine ⟨next.finish, .single turn, rfl, ?_, ?_⟩
    · simp [State.finish, render, same.stores, same.dest]
    · simp [State.finish, render, same.count]
  spins unfit := absurd (numbersFit_nil _) unfit

private theorem of_reaches {piece : Piece} (reached : Reaches step st next)
    (same : State.SameOutput next (st.emit piece.bytes))
    (fits : NumbersFit st.size (piece :: rest) ↔ NumbersFit (st.size - piece.bytes.length) rest)
    (outcome : Outcome next rest) : Outcome st (piece :: rest) where
  returns fit := by
    rw [fits, show st.size - piece.bytes.length = next.size from same.size.symm] at fit
    rcases outcome.returns fit with ⟨final, ends, returned, stores, count⟩
    have total := same.emit (render rest)
    rw [State.emit_emit, ← render_cons] at total
    refine ⟨final, reached.trans ends, returned, ?_, ?_⟩
    · rw [stores, total.stores, total.dest]
    · rw [count, total.count]
  spins unfit := by
    rw [fits, show st.size - piece.bytes.length = next.size from same.size.symm] at unfit
    rcases outcome.spins unfit with ⟨stuck, ends, forever⟩
    exact ⟨stuck, reached.trans ends, forever⟩

theorem text {bytes : List UInt8} (reached : Reaches step st next)
    (same : State.SameOutput next (st.emit bytes)) (outcome : Outcome next rest) :
    Outcome st (.text bytes :: rest) :=
  of_reaches reached same (numbersFit_text _ _ _) outcome

/-- A number directive: its digit loop prints the number when it fits, and
spins when it does not. -/
theorem number {characters digits : List UInt8} {nonempty : digits ≠ []}
    (turn : step st = some (next.convert characters))
    (same : State.SameOutput next st) (reversed : characters.reverse = digits)
    (outcome : digits.length ≤ st.size →
      Outcome ((next.convert characters).emit digits).advance rest) :
    Outcome st (.number digits nonempty :: rest) := by
  have lengthEq : characters.length = digits.length := by rw [← reversed, List.length_reverse]
  by_cases room : digits.length ≤ st.size
  · have printed := reaches_converted next reversed (same.size ▸ room)
    refine of_reaches (.head turn printed) ?_ ?_ (outcome room)
    · have converted : State.SameOutput (next.convert characters) st :=
        ⟨same.dest, same.size, same.count, same.stores⟩
      exact ⟨(converted.emit digits).dest, (converted.emit digits).size,
        (converted.emit digits).count, (converted.emit digits).stores⟩
    · rw [numbersFit_number]
      exact and_iff_right room
  · have short : ¬ NumbersFit st.size (.number digits nonempty :: rest) := by
      rw [numbersFit_number]
      exact fun fit => room fit.1
    refine ⟨fun fit => absurd fit short, fun _ => ?_⟩
    have overrun : next.size < characters.length := by
      rw [lengthEq, same.size]
      omega
    rcases reaches_spin (next.convert characters) characters.length rfl overrun with
      ⟨stuck, reached, spins⟩
    exact ⟨stuck, .head turn reached, spins⟩

theorem silent {pieces : List Piece} (turn : step st = some next)
    (same : State.SameOutput next st) (outcome : Outcome next pieces) : Outcome st pieces where
  returns fit := by
    rw [← same.size] at fit
    rcases outcome.returns fit with ⟨final, ends, returned, stores, count⟩
    have total := same.emit (render pieces)
    rw [total.stores, total.dest] at stores
    rw [total.count] at count
    exact ⟨final, .head turn ends, returned, stores, count⟩
  spins unfit := by
    rw [← same.size] at unfit
    rcases outcome.spins unfit with ⟨stuck, ends, forever⟩
    exact ⟨stuck, .head turn ends, forever⟩

end Outcome

/-! ## Piece by piece -/

/-- The run from a head of the format loop, cut where a piece of the output is
done. `next` is where the machine stands then, or where it has read its
argument. -/
inductive Renders : State → List Piece → Prop
  | finish {st next : State} (turn : step st = some next.finish)
      (same : State.SameOutput next st) (scratch : next.bufStores = st.bufStores) : Renders st []
  | text {st next : State} {bytes : List UInt8} {rest : List Piece} (reached : Reaches step st next)
      (same : State.SameOutput next (st.emit bytes)) (scratch : next.bufStores = st.bufStores)
      (renders : Renders next rest) : Renders st (.text bytes :: rest)
  | number {st next : State} {characters digits : List UInt8} {nonempty : digits ≠ []}
      {rest : List Piece} (turn : step st = some (next.convert characters))
      (same : State.SameOutput next st) (scratch : next.bufStores = st.bufStores)
      (reversed : characters.reverse = digits)
      (renders : digits.length ≤ st.size →
        Renders ((next.convert characters).emit digits).advance rest) :
      Renders st (.number digits nonempty :: rest)
  | silent {st next : State} {pieces : List Piece} (turn : step st = some next)
      (same : State.SameOutput next st) (scratch : next.bufStores = st.bufStores)
      (renders : Renders next pieces) : Renders st pieces

theorem Renders.outcome {st : State} {pieces : List Piece} (renders : Renders st pieces) :
    Outcome st pieces := by
  induction renders with
  | finish turn same => exact .of_finish turn same
  | text reached same _ _ induction => exact .text reached same induction
  | number turn same _ reversed _ induction => exact .number turn same reversed induction
  | silent turn same _ _ induction => exact .silent turn same induction

private theorem step_directive {st : State} {d : UInt8} {fmt : List UInt8}
    (scanning : st.phase = .format) (fmtEq : st.fmt = ch '%' :: d :: fmt) :
    step st = { st with fmt := d :: fmt }.directive d := by
  simp [step, scanning, fmtEq]

private theorem renders_of_parses {fmt : List UInt8} {args : List Arg} {pieces : List Piece}
    {st : State}
    (parses : Parses fmt args pieces) (scanning : st.phase = .format) (fmtEq : st.fmt = fmt)
    (argsEq : st.args = args) : Renders st pieces := by
  induction parses generalizing st with
  | finish args =>
      exact .finish (by simp [step, scanning, fmtEq]) ⟨rfl, rfl, rfl, rfl⟩ rfl
  | dangling args =>
      have turn : step st = some { st with fmt := [] }.finish := by simp [step, scanning, fmtEq]
      exact .finish turn ⟨rfl, rfl, rfl, rfl⟩ rfl
  | @plain c fmt args rest plain parses induction =>
      have turn : step st = some (st.emit [c]).advance := by
        simp [step, scanning, fmtEq, plain, State.putc_eq_emit]
      exact .text (.single turn) ⟨rfl, rfl, rfl, rfl⟩ rfl
        (induction rfl (by simp [State.advance, State.emit, fmtEq]) argsEq)
  | char kind parses induction =>
      have turn := step_directive scanning fmtEq
      simp only [State.directive, conversion_eq_meaning, kind, argsEq, State.putc_eq_emit] at turn
      exact .text (.single turn) ⟨rfl, rfl, rfl, rfl⟩ rfl (induction rfl rfl rfl)
  | @string d s fmt args rest kind parses induction =>
      have turn := step_directive scanning fmtEq
      simp only [State.directive, conversion_eq_meaning, kind, argsEq] at turn
      exact .text (.head turn (reaches_string _ s.bytes rfl)) ⟨rfl, rfl, rfl, rfl⟩ rfl
        (induction rfl rfl rfl)
  | @decimal d n fmt args rest kind parses induction =>
      have turn := step_directive scanning fmtEq
      simp only [State.directive, conversion_eq_meaning, kind, argsEq] at turn
      exact .number turn ⟨rfl, rfl, rfl, rfl⟩ rfl (reverse_printintRev_signed n)
        fun _ => induction rfl rfl rfl
  | @unsigned d n fmt args rest kind parses induction =>
      have turn := step_directive scanning fmtEq
      simp only [State.directive, conversion_eq_meaning, kind, argsEq] at turn
      exact .number turn ⟨rfl, rfl, rfl, rfl⟩ rfl (reverse_printintRev_unsigned n _ (by decide))
        fun _ => induction rfl rfl rfl
  | @hexadecimal d n fmt args rest kind parses induction =>
      have turn := step_directive scanning fmtEq
      simp only [State.directive, conversion_eq_meaning, kind, argsEq] at turn
      exact .number turn ⟨rfl, rfl, rfl, rfl⟩ rfl (reverse_printintRev_unsigned n _ (by decide))
        fun _ => induction rfl rfl rfl
  | percent kind parses induction =>
      have turn := step_directive scanning fmtEq
      simp only [State.directive, conversion_eq_meaning, kind, State.putc_eq_emit] at turn
      exact .text (.single turn) ⟨rfl, rfl, rfl, rfl⟩ rfl (induction rfl rfl argsEq)
  | ignored kind parses induction =>
      have turn := step_directive scanning fmtEq
      simp only [State.directive, conversion_eq_meaning, kind] at turn
      exact .silent turn ⟨rfl, rfl, rfl, rfl⟩ rfl (induction rfl rfl argsEq)

theorem renders_of_parse {fmt : List UInt8} {args : List Arg} {pieces : List Piece} {st : State}
    (scanning : st.phase = .format) (fmtEq : st.fmt = fmt) (argsEq : st.args = args)
    (parsed : parseFormat fmt args = some pieces) : Renders st pieces :=
  renders_of_parses (parses_of_parse parsed) scanning fmtEq argsEq

theorem outcome_of_parse {fmt : List UInt8} {args : List Arg} {pieces : List Piece} {st : State}
    (scanning : st.phase = .format) (fmtEq : st.fmt = fmt) (argsEq : st.args = args)
    (parsed : parseFormat fmt args = some pieces) : Outcome st pieces :=
  (renders_of_parse scanning fmtEq argsEq parsed).outcome

end Yoctos.Common.Stdio
