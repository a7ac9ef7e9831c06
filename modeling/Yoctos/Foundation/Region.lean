import Yoctos.Foundation.Stores

/-! # Values at consecutive addresses

Addresses are integers here: a pointer that leaves its buffer at either end can
still be written down.
-/

namespace Yoctos.Stores

variable {Value : Type u} {memory later : Int → Value} {base : Int} {values : List Value}

def HoldsAt (memory : Int → Value) (base : Int) (values : List Value) : Prop :=
  ∀ index, (occurs : index < values.length) → memory (base + index) = values[index]

@[simp] theorem holdsAt_nil (memory : Int → Value) (base : Int) : HoldsAt memory base [] := by
  intro index occurs
  simp at occurs

theorem holdsAt_append {left right : List Value} :
    HoldsAt memory base (left ++ right) ↔
      HoldsAt memory base left ∧ HoldsAt memory (base + left.length) right := by
  constructor
  · intro holds
    refine ⟨fun index occurs => ?_, fun index occurs => ?_⟩
    · rw [holds index (by simp; omega), List.getElem_append_left occurs]
    · have found := holds (left.length + index) (by simpa using occurs)
      rw [List.getElem_append_right (Nat.le_add_right _ _)] at found
      simpa [Int.add_assoc] using found
  · rintro ⟨first, second⟩ index occurs
    by_cases inside : index < left.length
    · rw [first index inside, List.getElem_append_left inside]
    · rw [List.length_append] at occurs
      have found := second (index - left.length) (by omega)
      rw [List.getElem_append_right (by omega), ← found]
      congr 1
      omega

theorem holdsAt_singleton {value : Value} : HoldsAt memory base [value] ↔ memory base = value := by
  constructor
  · intro holds
    simpa using holds 0 (by simp)
  · intro same index occurs
    have first : index = 0 := by simpa using occurs
    subst first
    simpa using same

theorem holdsAt_cons {value : Value} :
    HoldsAt memory base (value :: values) ↔
      memory base = value ∧ HoldsAt memory (base + 1) values := by
  rw [← List.singleton_append, holdsAt_append, holdsAt_singleton]
  rfl

theorem HoldsAt.congr (holds : HoldsAt memory base values)
    (same : ∀ address, base ≤ address → address < base + values.length →
      later address = memory address) : HoldsAt later base values := by
  intro index occurs
  rw [same _ (by omega) (by omega)]
  exact holds index occurs

theorem HoldsAt.write_outside {address : Int} {value : Value} (holds : HoldsAt memory base values)
    (outside : address < base ∨ base + values.length ≤ address) :
    HoldsAt (write memory (address, value)) base values := by
  refine holds.congr fun other _ _ => ?_
  exact Function.update_of_ne (by omega) _ _

theorem HoldsAt.concat (holds : HoldsAt memory base values) (value : Value) :
    HoldsAt (write memory (base + values.length, value)) base (values ++ [value]) := by
  rw [holdsAt_append, holdsAt_singleton]
  exact ⟨holds.write_outside (.inr (Int.le_refl _)), Function.update_self _ _ _⟩

theorem HoldsAt.dropLast (holds : HoldsAt memory base values) :
    HoldsAt memory base values.dropLast := by
  intro index occurs
  rw [List.getElem_dropLast]
  exact holds index (by rw [List.length_dropLast] at occurs; omega)

end Yoctos.Stores
