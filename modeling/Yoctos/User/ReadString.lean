import Yoctos.Foundation.Counter
import Yoctos.Foundation.Region
import Yoctos.Common.CString

/-! # Line input (`user/ulibc.c`)

`read_string` is followed key by key. Its pointer is an offset from the start
of the caller's buffer, below or behind which nothing keeps it by itself.
-/

namespace Yoctos.User

open Yoctos.Common Yoctos.Counter Yoctos.Stores

/-! ## The function -/

def tabSize : Nat := 4

def backspace : BitVec 32 := 8
def tab : BitVec 32 := 9
def newline : BitVec 32 := 10

def toChar (c : BitVec 32) : UInt8 := UInt8.ofBitVec (c.setWidth 8)

/-- The pointer of `read_string`, what it has stored and what it has passed to
`putc`. -/
structure Reading where
  buf : Int
  stores : List (Int × UInt8)
  output : List UInt8

namespace Reading

def start : Reading := ⟨0, [], []⟩

def putc (st : Reading) (c : UInt8) : Reading := { st with output := st.output ++ [c] }

def append (st : Reading) (c : UInt8) : Reading :=
  { st.putc c with
    stores := st.stores ++ [(st.buf, c)]
    buf := st.buf + 1 }

/-- One turn of the loop, for any result of `getc` but a newline. -/
def turn (st : Reading) (c : BitVec 32) : Reading :=
  if c = 0 then st
  else if c = backspace then
    if 0 < st.buf then { st.putc (toChar c) with buf := st.buf - 1 } else st
  else if c = tab then (List.replicate tabSize (ch ' ')).foldl append st
  else st.append (toChar c)

def finish (st : Reading) : Reading := { st with stores := st.stores ++ [(st.buf, 0)] }

end Reading

def readString (st : Reading) : (keys : List (BitVec 32)) → Reading
  | [] => st
  | c :: keys => if c = newline then st.finish else readString (st.turn c) keys

structure TypedLine where
  keys : List (BitVec 32)
  unfinished : newline ∉ keys

def TypedLine.read (typed : TypedLine) : Reading :=
  readString .start (typed.keys ++ [newline])

private theorem readString_append {keys : List (BitVec 32)} (unfinished : newline ∉ keys)
    (st : Reading) (more : List (BitVec 32)) :
    readString st (keys ++ newline :: more) = (keys.foldl Reading.turn st).finish := by
  induction keys generalizing st with
  | nil => simp [readString]
  | cons key keys induction =>
      rw [List.mem_cons, not_or] at unfinished
      rw [List.cons_append, readString, if_neg (Ne.symm unfinished.1), induction unfinished.2]
      rfl

theorem TypedLine.read_eq (typed : TypedLine) :
    typed.read = (typed.keys.foldl Reading.turn .start).finish :=
  readString_append typed.unfinished .start []

/-! ## What a key does -/

def inserted (key : BitVec 32) : List UInt8 :=
  if key = 0 ∨ key = backspace then []
  else if key = tab then List.replicate tabSize (ch ' ')
  else [toChar key]

def width (key : BitVec 32) : Int := if key = backspace then -1 else (inserted key).length

namespace Reading

variable {st : Reading} {key : BitVec 32}

@[simp] theorem foldl_append_buf (bytes : List UInt8) (st : Reading) :
    (bytes.foldl append st).buf = st.buf + bytes.length := by
  induction bytes generalizing st with
  | nil => simp
  | cons byte bytes induction =>
      rw [List.foldl_cons, induction, List.length_cons, append]
      simp only
      omega

@[simp] theorem foldl_append_output (bytes : List UInt8) (st : Reading) :
    (bytes.foldl append st).output = st.output ++ bytes := by
  induction bytes generalizing st with
  | nil => simp
  | cons byte bytes induction =>
      rw [List.foldl_cons, induction]
      simp [append, putc]

theorem mem_foldl_append_stores {store : Int × UInt8} (bytes : List UInt8) (st : Reading) :
    store ∈ (bytes.foldl append st).stores ↔ store ∈ st.stores ∨
      ∃ index, ∃ occurs : index < bytes.length, store = (st.buf + index, bytes[index]) := by
  induction bytes generalizing st with
  | nil => simp
  | cons byte bytes induction =>
      rw [List.foldl_cons, induction]
      simp only [append, putc, List.mem_append, List.mem_singleton]
      constructor
      · rintro ((earlier | rfl) | ⟨index, occurs, rfl⟩)
        · exact .inl earlier
        · exact .inr ⟨0, by simp, by simp⟩
        · exact .inr ⟨index + 1, by simpa using occurs, by simp; omega⟩
      · rintro (earlier | ⟨index, occurs, rfl⟩)
        · exact .inl (.inl earlier)
        · cases index with
          | zero => exact .inl (.inr (by simp))
          | succ index => exact .inr ⟨index, by simpa using occurs, by simp; omega⟩

theorem turn_backspace (st : Reading) : st.turn backspace =
    if 0 < st.buf then { st.putc (toChar backspace) with buf := st.buf - 1 } else st := by
  rw [turn, if_neg (by decide), if_pos rfl]

theorem turn_insert (st : Reading) (inserts : key ≠ backspace) :
    st.turn key = (inserted key).foldl append st := by
  rw [turn, if_neg inserts]
  by_cases none : key = 0
  · rw [if_pos none, inserted, if_pos (.inl none)]
    rfl
  · rw [if_neg none, inserted, if_neg (not_or.mpr ⟨none, inserts⟩)]
    split <;> rfl

/-- The pointer moves as a counter that stops at 0. -/
theorem turn_buf (inside : 0 ≤ st.buf) (key : BitVec 32) :
    (st.turn key).buf = max 0 (st.buf + width key) := by
  by_cases erases : key = backspace
  · subst erases
    rw [turn_backspace, width, if_pos rfl]
    split
    · simp only
      omega
    · omega
  · rw [turn_insert st erases, foldl_append_buf, width, if_neg erases]
    omega

private theorem buf_eq_clamped (keys : List (BitVec 32)) :
    (keys.foldl turn start).buf = clamped (keys.map width) := by
  induction keys using List.reverseRecOn with
  | nil => rfl
  | append_singleton keys key induction =>
      have inside : 0 ≤ (keys.foldl turn start).buf := induction ▸ clamped_nonneg _
      rw [List.foldl_append, List.foldl_cons, List.foldl_nil, turn_buf inside, induction,
        List.map_append, List.map_singleton, clamped_concat]

end Reading

/-! ## Bounds -/

def Confined (size : Int) (st : Reading) : Prop :=
  ∀ store ∈ st.stores, 0 ≤ store.1 ∧ store.1 < size

def shellBufferSize : Int := 512

private theorem confined_finish {size : Int} {st : Reading} :
    Confined size st.finish ↔ Confined size st ∧ 0 ≤ st.buf ∧ st.buf < size := by
  simp only [Confined, Reading.finish, List.forall_mem_append, List.forall_mem_singleton]

private theorem Confined.of_turn {size : Int} {st : Reading} {key : BitVec 32}
    (within : Confined size (st.turn key)) : Confined size st := by
  by_cases erases : key = backspace
  · subst erases
    rw [Reading.turn_backspace] at within
    split at within <;> exact within
  · rw [Reading.turn_insert st erases] at within
    intro store earlier
    exact within store ((Reading.mem_foldl_append_stores _ _).mpr (.inl earlier))

private theorem confined_turn {size : Int} {st : Reading} (inside : 0 ≤ st.buf)
    (fits : st.buf ≤ size) (key : BitVec 32) :
    Confined size (st.turn key) ↔ Confined size st ∧ (st.turn key).buf ≤ size := by
  by_cases erases : key = backspace
  · subst erases
    rw [Reading.turn_backspace]
    split
    · exact (and_iff_left (by simp only; omega)).symm
    · exact (and_iff_left fits).symm
  · rw [Reading.turn_insert st erases, Reading.foldl_append_buf]
    simp only [Confined, Reading.mem_foldl_append_stores]
    constructor
    · intro within
      refine ⟨fun store earlier => within store (.inl earlier), ?_⟩
      by_cases empty : (inserted key).length = 0
      · omega
      · have last := within _ (.inr ⟨(inserted key).length - 1, by omega, rfl⟩)
        simp only at last
        omega
    · rintro ⟨within, room⟩ store (earlier | ⟨index, occurs, rfl⟩)
      · exact within store earlier
      · simp only
        omega

private theorem confined_iff_prefix {size : Int} (positive : 0 ≤ size) (keys : List (BitVec 32)) :
    Confined size (keys.foldl Reading.turn .start) ↔
      ∀ earlier, earlier <+: keys.map width → clamped earlier ≤ size := by
  induction keys using List.reverseRecOn with
  | nil => simpa [Confined, Reading.start, clamped] using positive
  | append_singleton keys key induction =>
      rw [List.foldl_append, List.foldl_cons, List.foldl_nil, List.map_append, List.map_singleton]
      simp only [List.prefix_concat_iff, or_imp, forall_and, forall_eq]
      have position := Reading.buf_eq_clamped keys
      have inside : 0 ≤ (keys.foldl Reading.turn .start).buf := position ▸ clamped_nonneg _
      have moved : ((keys.foldl Reading.turn .start).turn key).buf =
          clamped (keys.map width ++ [width key]) := by
        rw [Reading.turn_buf inside, position, clamped_concat]
      by_cases fits : (keys.foldl Reading.turn .start).buf ≤ size
      · rw [confined_turn inside fits, induction, moved, and_comm]
      · have outside : ¬ ∀ earlier, earlier <+: keys.map width → clamped earlier ≤ size :=
          fun within => fits (position ▸ within _ (List.prefix_refl _))
        exact iff_of_false (fun within => outside (induction.mp within.of_turn))
          fun within => outside within.2

/-- The line stays within a buffer: no stretch of the keys adds more characters
than it holds, and none at the end of the line leaves no room for the final 0. -/
structure TypedLine.Fits (size : Int) (typed : TypedLine) : Prop where
  stretches : ∀ stretch, stretch <:+: typed.keys.map width → stretch.sum ≤ size
  terminated : ∀ tail, tail <:+ typed.keys.map width → tail.sum < size

private theorem TypedLine.confined_iff {size : Int} (positive : 0 ≤ size) (typed : TypedLine) :
    Confined size typed.read ↔ typed.Fits size := by
  have position := Reading.buf_eq_clamped typed.keys
  have inside : 0 ≤ (typed.keys.foldl Reading.turn .start).buf := position ▸ clamped_nonneg _
  have terminated : (typed.keys.foldl Reading.turn .start).buf < size ↔
      ∀ tail, tail <:+ typed.keys.map width → tail.sum < size := by
    rw [position, ← Int.le_sub_one_iff, clamped_le_iff]
    simp only [Int.le_sub_one_iff]
  rw [typed.read_eq, confined_finish, confined_iff_prefix positive, clamped_prefix_le_iff,
    terminated]
  exact ⟨fun within => ⟨within.1, within.2.2⟩, fun fits => ⟨fits.1, inside, fits.2⟩⟩

/-- Nothing but the typist's restraint keeps a line in the shell's buffer. -/
theorem readString_confined_iff (typed : TypedLine) :
    Confined shellBufferSize typed.read ↔ typed.Fits shellBufferSize :=
  typed.confined_iff (by decide)

theorem not_confined : ¬ ∀ typed : TypedLine, Confined shellBufferSize typed.read := by
  intro always
  let typed : TypedLine := ⟨List.replicate 512 97, by decide +kernel⟩
  have fits := (typed.confined_iff (by decide)).mp (always typed)
  exact absurd (fits.terminated _ (List.suffix_refl _)) (by decide +kernel)

end Yoctos.User
