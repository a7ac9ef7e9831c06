import Yoctos.Common.Stdio
import Mathlib.Data.Nat.Digits.Lemmas

/-! # What a format means

The rendering of a format and its arguments, stated without buffers, sizes or
loops. Numbers are kept apart from other text because `vsnprintf` treats them
differently once room runs out.
-/

namespace Yoctos.Common.Stdio

/-! ## Numerals -/

def numeralChars : List UInt8 :=
  ['0', '1', '2', '3', '4', '5', '6', '7', '8', '9', 'A', 'B', 'C', 'D', 'E', 'F'].map ch

def numeralChar (digit : Nat) : UInt8 := (numeralChars[digit]?).getD 0

/-- The usual numeral of a natural number, most significant digit first. -/
def numeral (base x : Nat) : List UInt8 :=
  if x = 0 then [ch '0'] else ((Nat.digits base x).map numeralChar).reverse

def signedNumeral (n : BitVec 32) : List UInt8 :=
  if n.toInt < 0 then ch '-' :: numeral 10 n.toInt.natAbs else numeral 10 n.toInt.natAbs

/-- `printint_rev` prints the same characters. -/
theorem digitChar_eq_numeralChar {digit : Nat} (small : digit < 16) :
    digitChar digit = numeralChar digit := by
  have listed : ∀ digit < 16, digitChar digit = numeralChar digit := by decide
  exact listed digit small

private theorem digitLoop_eq_digits {base x : Nat} (twoLe : 2 ≤ base) (leSixteen : base ≤ 16)
    (positive : x ≠ 0) : digitLoop base twoLe x = (Nat.digits base x).map numeralChar := by
  induction x using Nat.strong_induction_on with
  | _ x induction =>
      have digit : x % base < 16 := Nat.lt_of_lt_of_le (Nat.mod_lt x (by omega)) leSixteen
      rw [digitLoop, Nat.digits_def' (by omega) (Nat.pos_of_ne_zero positive), List.map_cons,
        digitChar_eq_numeralChar digit]
      congr 1
      by_cases ends : x / base = 0
      · simp [ends]
      · rw [if_pos ends]
        exact induction (x / base) (Nat.div_lt_self (Nat.pos_of_ne_zero positive) twoLe) ends

private theorem reverse_digitLoop {base : Nat} (twoLe : 2 ≤ base) (leSixteen : base ≤ 16)
    (x : Nat) :
    (digitLoop base twoLe x).reverse = numeral base x := by
  by_cases zero : x = 0
  · subst zero
    have first : digitChar 0 = ch '0' := by decide
    rw [digitLoop, numeral]
    simp [first]
  · rw [numeral, if_neg zero, digitLoop_eq_digits twoLe leSixteen zero]

theorem reverse_printintRev_unsigned (n : BitVec 32) {base : Nat} (twoLe : 2 ≤ base)
    (leSixteen : base ≤ 16) :
    (printintRev n base twoLe false).reverse = numeral base n.toNat := by
  simp [printintRev, reverse_digitLoop twoLe leSixteen]

/-- `%d` prints the signed numeral, the most negative integer included. -/
theorem reverse_printintRev_signed (n : BitVec 32) :
    (printintRev n 10 (by decide) true).reverse = signedNumeral n := by
  have bound := n.isLt
  by_cases negative : n.toInt < 0
  · have slt : n.slt 0#32 = true := by simpa [BitVec.slt] using negative
    have magnitude : (-n).toNat = n.toInt.natAbs := by
      rw [BitVec.toNat_neg]
      rw [BitVec.toInt_eq_toNat_cond] at negative ⊢
      split at negative <;> rename_i small
      · omega
      · rw [if_neg small]
        omega
    simp [printintRev, signedNumeral, slt, negative, reverse_digitLoop, magnitude]
  · have slt : n.slt 0#32 = false := by simpa [BitVec.slt] using negative
    have magnitude : n.toNat = n.toInt.natAbs := by
      rw [BitVec.toInt_eq_toNat_cond] at negative ⊢
      split at negative <;> rename_i small
      · rw [if_pos small]
        omega
      · omega
    simp [printintRev, signedNumeral, slt, negative, reverse_digitLoop, magnitude]

theorem numeral_ne_nil (base x : Nat) : numeral base x ≠ [] := by
  rw [numeral]
  split
  next => exact List.cons_ne_nil _ _
  next positive => simpa [Nat.digits_eq_nil_iff_eq_zero] using positive

theorem signedNumeral_ne_nil (n : BitVec 32) : signedNumeral n ≠ [] := by
  rw [signedNumeral]
  split
  · simp
  · exact numeral_ne_nil 10 _

theorem length_numeral_le {base x width : Nat} (twoLe : 2 ≤ base) (positive : 0 < width)
    (bound : x < base ^ width) : (numeral base x).length ≤ width := by
  rw [numeral]
  split
  · exact positive
  · rw [List.length_reverse, List.length_map]
    exact (Nat.digits_length_le_iff twoLe _).mpr bound

theorem length_signedNumeral_le (n : BitVec 32) : (signedNumeral n).length ≤ 11 := by
  have magnitude : n.toInt.natAbs < 10 ^ 10 := by
    have lower : -2 ^ 31 ≤ n.toInt := BitVec.le_toInt n
    have upper : n.toInt < 2 ^ 31 := BitVec.toInt_lt
    omega
  have digits : (numeral 10 n.toInt.natAbs).length ≤ 10 :=
    length_numeral_le (by decide) (by decide) magnitude
  rw [signedNumeral]
  split
  · rw [List.length_cons]
    omega
  · omega

/-! ## Pieces of output -/

/-- The output of one format character or directive. A number has at least
one digit. -/
inductive Piece
  | text (bytes : List UInt8)
  | number (digits : List UInt8) (nonempty : digits ≠ [])

def Piece.bytes : Piece → List UInt8
  | .text bytes => bytes
  | .number digits _ => digits

def render (pieces : List Piece) : List UInt8 := pieces.flatMap Piece.bytes

@[simp] theorem render_cons (piece : Piece) (rest : List Piece) :
    render (piece :: rest) = piece.bytes ++ render rest := rfl

theorem render_append (left right : List Piece) :
    render (left ++ right) = render left ++ render right :=
  List.flatMap_append

theorem render_text (bytes : List UInt8) :
    render (bytes.map fun c => .text [c]) = bytes := by
  induction bytes with
  | nil => rfl
  | cons c bytes induction =>
      rw [List.map_cons, render_cons, induction]
      rfl

/-- What the character after a `%` stands for; the others stand for nothing. -/
def directives : List (UInt8 × Conversion) :=
  [(ch 'c', .char), (ch 's', .string), (ch 'd', .decimal), (ch 'u', .unsigned),
    (ch 'x', .hexadecimal), (ch '%', .percent)]

def meaning (d : UInt8) : Conversion := (directives.lookup d).getD .ignored

/-- The `switch` has these cases. -/
theorem conversion_eq_meaning (d : UInt8) : conversion d = meaning d := by
  simp only [conversion, meaning, directives, List.lookup_cons, List.lookup_nil]
  grind

/-- Read a format with its arguments; `none` when an argument a directive asks
for is missing or of the wrong kind. -/
def parseFormat : (fmt : List UInt8) → (args : List Arg) → Option (List Piece)
  | [], _ => some []
  | c :: fmt, args =>
      if c = ch '%' then
        match fmt with
        | [] => some []
        | d :: fmt =>
            match meaning d, args with
            | .char, .int c :: args =>
                (parseFormat fmt args).map (.text [UInt8.ofBitVec (c.setWidth 8)] :: ·)
            | .string, .str s :: args => (parseFormat fmt args).map (.text s.bytes :: ·)
            | .decimal, .int n :: args =>
                (parseFormat fmt args).map (.number (signedNumeral n) (signedNumeral_ne_nil n) :: ·)
            | .unsigned, .int n :: args =>
                (parseFormat fmt args).map
                  (.number (numeral 10 n.toNat) (numeral_ne_nil 10 _) :: ·)
            | .hexadecimal, .int n :: args =>
                (parseFormat fmt args).map
                  (.number (numeral 16 n.toNat) (numeral_ne_nil 16 _) :: ·)
            | .percent, args => (parseFormat fmt args).map (.text [ch '%'] :: ·)
            | .ignored, args => parseFormat fmt args
            | _, _ => none
      else (parseFormat fmt args).map (.text [c] :: ·)

private theorem parseFormat_char {c : UInt8} (plain : c ≠ ch '%') (fmt : List UInt8)
    (args : List Arg) :
    parseFormat (c :: fmt) args = (parseFormat fmt args).map (.text [c] :: ·) := by
  conv_lhs => unfold parseFormat
  exact if_neg plain

theorem parseFormat_decimal (fmt : List UInt8) (n : BitVec 32) (args : List Arg) :
    parseFormat (ch '%' :: ch 'd' :: fmt) (.int n :: args) =
      (parseFormat fmt args).map (.number (signedNumeral n) (signedNumeral_ne_nil n) :: ·) := by
  conv_lhs => unfold parseFormat
  exact if_pos rfl

theorem parseFormat_text {bytes : List UInt8} (plain : ch '%' ∉ bytes) (fmt : List UInt8)
    (args : List Arg) :
    parseFormat (bytes ++ fmt) args =
      (parseFormat fmt args).map (bytes.map (fun c => .text [c]) ++ ·) := by
  induction bytes with
  | nil => simp
  | cons c bytes induction =>
      rw [List.mem_cons, not_or] at plain
      rw [List.cons_append, parseFormat_char (Ne.symm plain.1), induction plain.2, Option.map_map]
      rfl

inductive Parses : List UInt8 → List Arg → List Piece → Prop
  | finish (args : List Arg) : Parses [] args []
  | dangling (args : List Arg) : Parses [ch '%'] args []
  | plain {c : UInt8} {fmt : List UInt8} {args : List Arg} {rest : List Piece} (plain : c ≠ ch '%')
      (parses : Parses fmt args rest) : Parses (c :: fmt) args (.text [c] :: rest)
  | char {d : UInt8} {c : BitVec 32} {fmt : List UInt8} {args : List Arg} {rest : List Piece}
      (kind : meaning d = .char) (parses : Parses fmt args rest) :
      Parses (ch '%' :: d :: fmt) (.int c :: args)
        (.text [UInt8.ofBitVec (c.setWidth 8)] :: rest)
  | string {d : UInt8} {s : CString} {fmt : List UInt8} {args : List Arg} {rest : List Piece}
      (kind : meaning d = .string) (parses : Parses fmt args rest) :
      Parses (ch '%' :: d :: fmt) (.str s :: args) (.text s.bytes :: rest)
  | decimal {d : UInt8} {n : BitVec 32} {fmt : List UInt8} {args : List Arg} {rest : List Piece}
      (kind : meaning d = .decimal) (parses : Parses fmt args rest) :
      Parses (ch '%' :: d :: fmt) (.int n :: args)
        (.number (signedNumeral n) (signedNumeral_ne_nil n) :: rest)
  | unsigned {d : UInt8} {n : BitVec 32} {fmt : List UInt8} {args : List Arg} {rest : List Piece}
      (kind : meaning d = .unsigned) (parses : Parses fmt args rest) :
      Parses (ch '%' :: d :: fmt) (.int n :: args)
        (.number (numeral 10 n.toNat) (numeral_ne_nil 10 _) :: rest)
  | hexadecimal {d : UInt8} {n : BitVec 32} {fmt : List UInt8} {args : List Arg}
      {rest : List Piece} (kind : meaning d = .hexadecimal) (parses : Parses fmt args rest) :
      Parses (ch '%' :: d :: fmt) (.int n :: args)
        (.number (numeral 16 n.toNat) (numeral_ne_nil 16 _) :: rest)
  | percent {d : UInt8} {fmt : List UInt8} {args : List Arg} {rest : List Piece}
      (kind : meaning d = .percent) (parses : Parses fmt args rest) :
      Parses (ch '%' :: d :: fmt) args (.text [ch '%'] :: rest)
  | ignored {d : UInt8} {fmt : List UInt8} {args : List Arg} {rest : List Piece}
      (kind : meaning d = .ignored) (parses : Parses fmt args rest) :
      Parses (ch '%' :: d :: fmt) args rest

private theorem parses_of_directive {d : UInt8} {fmt : List UInt8} {args : List Arg}
    {pieces : List Piece} (parsed : parseFormat (ch '%' :: d :: fmt) args = some pieces)
    (induction : ∀ {args : List Arg} {rest : List Piece}, parseFormat fmt args = some rest →
      Parses fmt args rest) :
    Parses (ch '%' :: d :: fmt) args pieces := by
  unfold parseFormat at parsed
  simp only [if_true] at parsed
  split at parsed
  case h_7 kind => exact .ignored kind (induction parsed)
  case h_8 => cases parsed
  all_goals
    rename meaning d = _ => kind
    rcases Option.map_eq_some_iff.mp parsed with ⟨rest, restParsed, rfl⟩
    have parses := induction restParsed
  case h_1 => exact .char kind parses
  case h_2 => exact .string kind parses
  case h_3 => exact .decimal kind parses
  case h_4 => exact .unsigned kind parses
  case h_5 => exact .hexadecimal kind parses
  case h_6 => exact .percent kind parses

theorem parses_of_parse {fmt : List UInt8} {args : List Arg} {pieces : List Piece}
    (parsed : parseFormat fmt args = some pieces) : Parses fmt args pieces := by
  -- A directive consumes two characters, so the induction is on the length of the format.
  induction length : fmt.length using Nat.strong_induction_on generalizing fmt args pieces with
  | _ size shorter =>
      rcases fmt with _ | ⟨c, fmt⟩
      · cases parsed
        exact .finish args
      rw [List.length_cons] at length
      by_cases percent : c = ch '%'
      · subst percent
        rcases fmt with _ | ⟨d, fmt⟩
        · cases parsed
          exact .dangling args
        · rw [List.length_cons] at length
          exact parses_of_directive parsed fun parsed =>
            shorter fmt.length (by omega) parsed rfl
      · rw [parseFormat_char percent] at parsed
        rcases Option.map_eq_some_iff.mp parsed with ⟨rest, restParsed, rfl⟩
        exact .plain percent (shorter fmt.length (by omega) restParsed rfl)

/-! ## The numbers of the output -/

def EveryNumber (property : List Piece → List UInt8 → Prop) (pieces : List Piece) : Prop :=
  ∀ before digits nonempty after, pieces = before ++ .number digits nonempty :: after →
    property before digits

theorem everyNumber_nil (property : List Piece → List UInt8 → Prop) :
    EveryNumber property [] := by
  intro before digits nonempty after equal
  simp at equal

theorem everyNumber_text (property : List Piece → List UInt8 → Prop) (bytes : List UInt8)
    (rest : List Piece) :
    EveryNumber property (.text bytes :: rest) ↔
      EveryNumber (fun before => property (.text bytes :: before)) rest := by
  constructor
  · intro every before digits nonempty after equal
    exact every (.text bytes :: before) digits nonempty after (by rw [equal]; rfl)
  · intro every before digits nonempty after equal
    cases before with
    | nil => simp at equal
    | cons head before =>
        simp only [List.cons_append, List.cons.injEq] at equal
        rcases equal with ⟨rfl, equal⟩
        exact every before digits nonempty after equal

theorem everyNumber_number (property : List Piece → List UInt8 → Prop) (digits : List UInt8)
    (nonempty : digits ≠ []) (rest : List Piece) :
    EveryNumber property (.number digits nonempty :: rest) ↔
      property [] digits ∧
        EveryNumber (fun before => property (.number digits nonempty :: before)) rest := by
  constructor
  · intro every
    refine ⟨every [] digits nonempty rest rfl, ?_⟩
    intro before later laterNonempty after equal
    exact every (.number digits nonempty :: before) later laterNonempty after (by rw [equal]; rfl)
  · rintro ⟨first, every⟩ before later laterNonempty after equal
    cases before with
    | nil =>
        simp only [List.nil_append, List.cons.injEq, Piece.number.injEq] at equal
        rcases equal with ⟨rfl, rfl⟩
        exact first
    | cons head before =>
        simp only [List.cons_append, List.cons.injEq] at equal
        rcases equal with ⟨rfl, equal⟩
        exact every before later laterNonempty after equal

/-- Every number of the output ends within its first `size` characters. -/
def NumbersFit (size : Nat) (pieces : List Piece) : Prop :=
  ∀ before digits nonempty after, pieces = before ++ .number digits nonempty :: after →
    (render before).length + digits.length ≤ size

theorem numbersFit_nil (size : Nat) : NumbersFit size [] := everyNumber_nil _

/-- The condition read from the front: the rest has what the first piece left
over. -/
theorem numbersFit_tail {size : Nat} {piece : Piece} {rest : List Piece} :
    NumbersFit (size - piece.bytes.length) rest ↔
      EveryNumber (fun before digits => (render (piece :: before)).length + digits.length ≤ size)
        rest := by
  constructor <;> intro fit before digits nonempty after equal
  all_goals
    have bound := fit before digits nonempty after equal
    have positive := List.length_pos_of_ne_nil nonempty
    simp only [render_cons, List.length_append] at bound ⊢
    omega

theorem numbersFit_text (size : Nat) (bytes : List UInt8) (rest : List Piece) :
    NumbersFit size (.text bytes :: rest) ↔ NumbersFit (size - bytes.length) rest := by
  rw [show bytes.length = (Piece.text bytes).bytes.length from rfl, numbersFit_tail]
  exact everyNumber_text _ bytes rest

theorem numbersFit_number (size : Nat) (digits : List UInt8) (nonempty : digits ≠ [])
    (rest : List Piece) :
    NumbersFit size (.number digits nonempty :: rest) ↔
      digits.length ≤ size ∧ NumbersFit (size - digits.length) rest := by
  rw [show digits.length = (Piece.number digits nonempty).bytes.length from rfl, numbersFit_tail]
  have first : (render []).length + digits.length ≤ size ↔ digits.length ≤ size := by
    simp [render]
  exact (everyNumber_number _ digits nonempty rest).trans (and_congr_left' first)

end Yoctos.Common.Stdio
