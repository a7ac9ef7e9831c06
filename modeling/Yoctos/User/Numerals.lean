import Yoctos.Common.Output
import Yoctos.User.Shell
import Mathlib.Data.Nat.Digits.Lemmas
import Mathlib.Tactic.Ring

/-! # Reading numbers back (`common/string.c`)

`vsnprintf` divides to find the digits of a number, last one first; `atoi`
multiplies, first digit first.
-/

namespace Yoctos.User

open Yoctos.Common Yoctos.Common.Stdio Yoctos.Stores
open StateTransition

/-! ## Decimal digits -/

def isDigit (c : UInt8) : Bool := ch '0' ≤ c ∧ c ≤ ch '9'

def digitValue (c : UInt8) : Nat := c.toNat - 48

def decimalValue (digits : List UInt8) : Nat := Nat.ofDigits 10 (digits.reverse.map digitValue)

private theorem decimalValue_cons (c : UInt8) (digits : List UInt8) :
    decimalValue (c :: digits) = digitValue c * 10 ^ digits.length + decimalValue digits := by
  rw [decimalValue, List.reverse_cons, List.map_append, Nat.ofDigits_append, List.map_singleton,
    Nat.ofDigits_singleton, List.length_map, List.length_reverse, decimalValue]
  ring

private theorem digitValue_numeralChar {digit : Nat} (small : digit < 10) :
    digitValue (numeralChar digit) = digit := by
  have listed : ∀ digit < 10, digitValue (numeralChar digit) = digit := by decide
  exact listed digit small

private theorem isDigit_numeralChar {digit : Nat} (small : digit < 10) :
    isDigit (numeralChar digit) = true := by
  have listed : ∀ digit < 10, isDigit (numeralChar digit) = true := by decide
  exact listed digit small

theorem isDigit_bounds {c : UInt8} (digit : isDigit c = true) : 48 ≤ c.toNat ∧ c.toNat ≤ 57 := by
  simpa [isDigit, UInt8.le_iff_toNat_le, ch] using digit

theorem numeral_isDigit (x : Nat) : ∀ c ∈ numeral 10 x, isDigit c = true := by
  intro c member
  rw [numeral] at member
  split at member
  · rw [List.mem_singleton.mp member]
    decide
  · rcases List.mem_map.mp (List.mem_reverse.mp member) with ⟨digit, occurs, rfl⟩
    exact isDigit_numeralChar (Nat.digits_lt_base (by decide) occurs)

private theorem decimalValue_numeral (x : Nat) : decimalValue (numeral 10 x) = x := by
  rw [numeral]
  split
  next zero =>
    subst zero
    decide
  next =>
    have digits : (Nat.digits 10 x).map (digitValue ∘ numeralChar) = Nat.digits 10 x := by
      conv_rhs => rw [← List.map_id (Nat.digits 10 x)]
      exact List.map_congr_left fun digit occurs =>
        digitValue_numeralChar (Nat.digits_lt_base (by decide) occurs)
    rw [decimalValue, List.reverse_reverse, List.map_map, digits, Nat.ofDigits_digits]

private theorem numeral_nonzero (x : Nat) : ∀ byte ∈ numeral 10 x, byte ≠ 0 := by
  rintro byte member rfl
  exact absurd (numeral_isDigit x 0 member) (by decide)

theorem signedNumeral_nonzero (n : BitVec 32) : ∀ byte ∈ signedNumeral n, byte ≠ 0 := by
  intro byte member
  rw [signedNumeral] at member
  split at member
  · rcases List.mem_cons.mp member with rfl | digit
    · decide
    · exact numeral_nonzero _ byte digit
  · exact numeral_nonzero _ byte member

/-! ## `atoi` -/

private theorem atoi_digit {c : UInt8} (digit : isDigit c = true) (n : BitVec 32) (s : List UInt8) :
    atoi n (c :: s) = atoi (n * 10 + BitVec.ofNat 32 (digitValue c)) s := by
  have bounds := isDigit_bounds digit
  have sum : c.toBitVec.setWidth 32 = BitVec.ofNat 32 (digitValue c) + 48 := by
    have zeroChar : (48 : BitVec 32).toNat = 48 := rfl
    apply BitVec.eq_of_toNat_eq
    rw [BitVec.toNat_setWidth, UInt8.toNat_toBitVec, BitVec.toNat_add, BitVec.toNat_ofNat,
      digitValue, zeroChar]
    omega
  rw [atoi, if_pos (by simpa [isDigit] using digit), sum, ← add_assoc, add_sub_cancel_right]

private theorem atoi_append (digits rest : List UInt8) (n : BitVec 32)
    (decimal : ∀ c ∈ digits, isDigit c = true) :
    atoi n (digits ++ rest) =
      atoi (n * BitVec.ofNat 32 (10 ^ digits.length) + BitVec.ofNat 32 (decimalValue digits))
        rest := by
  induction digits generalizing n with
  | nil => simp [decimalValue]
  | cons c digits induction =>
      rw [List.cons_append, atoi_digit (decimal c List.mem_cons_self),
        induction _ fun other member => decimal other (List.mem_cons_of_mem c member),
        decimalValue_cons, List.length_cons]
      congr 1
      have ten : BitVec.ofNat 32 10 = 10 := rfl
      rw [BitVec.ofNat_add, BitVec.ofNat_mul, Nat.pow_succ, BitVec.ofNat_mul, ten]
      ring

def NoDigitHead (rest : List UInt8) : Prop := ∀ c ∈ rest.head?, isDigit c = false

private theorem atoi_stops {rest : List UInt8} (stops : NoDigitHead rest) (n : BitVec 32) :
    atoi n rest = n := by
  cases rest with
  | nil => rfl
  | cons c rest =>
      have other : isDigit c = false := stops c rfl
      rw [atoi, if_neg (by simpa [isDigit] using other)]

theorem atoi_digits {digits rest : List UInt8} (decimal : ∀ c ∈ digits, isDigit c = true)
    (stops : NoDigitHead rest) :
    atoi 0 (digits ++ rest) = BitVec.ofNat 32 (decimalValue digits) := by
  rw [atoi_append digits rest 0 decimal, atoi_stops stops, zero_mul, zero_add]

private theorem noDigitHead_dropWhile (s : List UInt8) : NoDigitHead (s.dropWhile isDigit) := by
  intro c first
  have head := List.head?_dropWhile_not isDigit s
  rwa [Option.mem_def.mp first] at head

/-! ## The round trip -/

def fmtUnsigned : CString := ⟨[ch '%', ch 'u'], by decide +kernel⟩

private theorem vsnprintf_unsigned (scratch : Nat → UInt8) (size : Nat) (n : BitVec 32) :
    Outcome (vsnprintf scratch size fmtUnsigned [.int n])
      [.number (numeral 10 n.toNat) (numeral_ne_nil 10 _)] :=
  vsnprintf_outcome rfl

private theorem vsnprintf_unsigned_stores {scratch : Nat → UInt8} {size : Nat} {n : BitVec 32}
    {final : State} (run : Reaches step (vsnprintf scratch size fmtUnsigned [.int n]) final)
    (returned : final.phase = .returned) :
    final.stores = consecutive 0 (numeral 10 n.toNat ++ [0]) := by
  have outcome := vsnprintf_unsigned scratch size n
  have fit : (numeral 10 n.toNat).length ≤ size :=
    ((numbersFit_number _ _ _ _).mp (outcome.returns_iff.mp ⟨final, run, returned⟩)).1
  have output : render [.number (numeral 10 n.toNat) (numeral_ne_nil 10 _)] =
      numeral 10 n.toNat := List.append_nil _
  have parsed : parseFormat fmtUnsigned.bytes [.int n] = some _ := rfl
  have stores := (stores_of_returned parsed run returned).1
  rw [output, Nat.min_eq_right fit, List.take_length] at stores
  exact stores

/-- `atoi` reads a number that `%u` has printed, whatever else but a digit
follows it; and of any string it reads the digits in front, modulo `2 ^ 32`. -/
theorem atoi_reads_back :
    (∀ (scratch : Nat → UInt8) (size : Nat) (n : BitVec 32) (final : State),
      Reaches step (vsnprintf scratch size fmtUnsigned [.int n]) final → final.phase = .returned →
      ∃ text, final.stores = consecutive 0 (text ++ [0]) ∧
        ∀ rest, NoDigitHead rest → atoi 0 (text ++ rest) = n) ∧
    (∀ (scratch : Nat → UInt8) (size : Nat) (n : BitVec 32), 10 ≤ size →
      Returns (vsnprintf scratch size fmtUnsigned [.int n])) ∧
    ∀ s, atoi 0 s = BitVec.ofNat 32 (decimalValue (s.takeWhile isDigit)) := by
  refine ⟨fun scratch size n final run returned => ?_, fun scratch size n room => ?_, fun s => ?_⟩
  · refine ⟨numeral 10 n.toNat, vsnprintf_unsigned_stores run returned, fun rest stops => ?_⟩
    rw [atoi_digits (numeral_isDigit _) stops, decimalValue_numeral, BitVec.ofNat_toNat,
      BitVec.setWidth_eq]
  · rw [(vsnprintf_unsigned scratch size n).returns_iff, numbersFit_number]
    have bound := n.isLt
    have digits : (numeral 10 n.toNat).length ≤ 10 :=
      length_numeral_le (by decide) (by decide) (by omega)
    exact ⟨digits.trans room, numbersFit_nil _⟩
  · have digits : ∀ c ∈ s.takeWhile isDigit, isDigit c = true :=
      fun c member => List.mem_takeWhile_imp member
    have read := atoi_digits digits (noDigitHead_dropWhile s)
    rwa [List.takeWhile_append_dropWhile] at read

end Yoctos.User
