import Yoctos.Common.CString
import Mathlib.Computability.StateTransition

/-! # Formatted output (`common/stdio.c`)

`vsnprintf` is modelled as a machine that takes one step for every turn of one
of its loops, so that a loop that never ends is a run that never ends.
-/

namespace Yoctos.Common.Stdio

open Yoctos.Stores

/-! ## Number conversion -/

/-- The table `digits` of `printint_rev`. -/
def digitChar (digit : Nat) : UInt8 :=
  if digit < 10 then UInt8.ofNat (48 + digit) else UInt8.ofNat (55 + digit)

/-- The `do … while ((x /= base) != 0)` loop: least significant digit first. -/
def digitLoop (base : Nat) (twoLe : 2 ≤ base) (x : Nat) : List UInt8 :=
  digitChar (x % base) :: if x / base ≠ 0 then digitLoop base twoLe (x / base) else []
termination_by x
decreasing_by
  rename_i continues
  refine Nat.div_lt_self (Nat.pos_of_ne_zero fun zero => continues ?_) twoLe
  simp [zero]

/-- The characters `printint_rev` stores from `buf[0]` on, before its final 0.
`-val` wraps for the most negative integer, as the compiled `neg` does. -/
def printintRev (val : BitVec 32) (base : Nat) (twoLe : 2 ≤ base) (sign : Bool) : List UInt8 :=
  let negative := sign && val.slt 0
  let x := if negative then -val else val
  digitLoop base twoLe x.toNat ++ if negative then [ch '-'] else []

/-! ## The format machine -/

/-- One variable argument. `%d`, `%u`, `%x` and `%c` all read 32 bits. -/
inductive Arg
  | int (value : BitVec 32)
  | str (value : CString)

inductive Conversion
  | char
  | string
  | decimal
  | unsigned
  | hexadecimal
  | percent
  | ignored
  deriving DecidableEq

def conversion (directive : UInt8) : Conversion :=
  if directive = ch 'c' then .char
  else if directive = ch 's' then .string
  else if directive = ch 'd' then .decimal
  else if directive = ch 'u' then .unsigned
  else if directive = ch 'x' then .hexadecimal
  else if directive = ch '%' then .percent
  else .ignored

inductive Phase
  | format
  | string (s : List UInt8)
  | digits (len : Nat)
  | returned
  deriving DecidableEq

/-- The local state of `vsnprintf`. `dest` is the offset from the `dest` the
caller passed; `stores` logs every store through it and `bufStores` every
store into the scratch array. -/
structure State where
  phase : Phase
  fmt : List UInt8
  args : List Arg
  buf : Nat → UInt8
  dest : Nat
  size : Nat
  count : Nat
  stores : List (Nat × UInt8)
  bufStores : List (Nat × UInt8)

namespace State

def putc (st : State) (c : UInt8) : State :=
  if 0 < st.size then
    { st with
      stores := st.stores ++ [(st.dest, c)]
      dest := st.dest + 1
      size := st.size - 1
      count := st.count + 1 }
  else st

def advance (st : State) : State :=
  { st with phase := .format, fmt := st.fmt.tail }

def finish (st : State) : State :=
  { st with phase := .returned, stores := st.stores ++ [(st.dest, 0)] }

def convert (st : State) (characters : List UInt8) : State :=
  { st with
    phase := .digits characters.length
    buf := writeAll st.buf (consecutive 0 (characters ++ [0]))
    bufStores := st.bufStores ++ consecutive 0 (characters ++ [0]) }

/-- The `switch`. Reading an argument that is missing or of another kind is
undefined. -/
def directive (st : State) (d : UInt8) : Option State :=
  match conversion d, st.args with
  | .char, .int c :: args =>
      some ({ st with args }.putc (UInt8.ofBitVec (c.setWidth 8))).advance
  | .string, .str s :: args => some { st with args, phase := .string s.bytes }
  | .decimal, .int n :: args =>
      some ({ st with args }.convert (printintRev n 10 (by decide) true))
  | .unsigned, .int n :: args =>
      some ({ st with args }.convert (printintRev n 10 (by decide) false))
  | .hexadecimal, .int n :: args =>
      some ({ st with args }.convert (printintRev n 16 (by decide) false))
  | .percent, _ => some (st.putc (ch '%')).advance
  | .ignored, _ => some st.advance
  | _, _ => none

end State

/-- One turn of the innermost active loop. In the digit loops `--len` stands
inside the macro argument, so it is evaluated only while room is left. -/
def step (st : State) : Option State :=
  match st.phase with
  | .returned => none
  | .string [] => some st.advance
  | .string (c :: s) => some { st.putc c with phase := .string s }
  | .digits 0 => some st.advance
  | .digits (len + 1) =>
      if 0 < st.size then some { st.putc (st.buf len) with phase := .digits len }
      else some st
  | .format =>
      match st.fmt with
      | [] => some st.finish
      | c :: fmt =>
          if c = ch '%' then
            match fmt with
            | [] => some { st with fmt }.finish
            | d :: _ => { st with fmt }.directive d
          else some (st.putc c).advance

/-- `vsnprintf(dest, size, fmt, args)` on entry. The scratch array is not
initialised; `scratch` is what its memory happens to hold. -/
def vsnprintf (scratch : Nat → UInt8) (size : Nat) (fmt : CString) (args : List Arg) : State where
  phase := .format
  fmt := fmt.bytes
  args := args
  buf := scratch
  dest := 0
  size := size
  count := 0
  stores := []
  bufStores := []

def snprintf (scratch : Nat → UInt8) (size : Nat) (fmt : CString) (args : List Arg) : State :=
  vsnprintf scratch size fmt args

def bufferSize : Nat := 1024

def printf (scratch : Nat → UInt8) (fmt : CString) (args : List Arg) : State :=
  vsnprintf scratch bufferSize fmt args

def Returns (start : State) : Prop :=
  ∃ final, StateTransition.Reaches step start final ∧ final.phase = .returned

/-- Every store made through `dest`, however far the run gets, lands in
`dest[0] .. dest[size-1]`. -/
def StoresWithin (start : State) (size : Nat) : Prop :=
  ∀ st, StateTransition.Reaches step start st → ∀ store ∈ st.stores, store.1 < size

end Yoctos.Common.Stdio
