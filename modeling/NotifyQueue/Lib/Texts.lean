import Mathlib.Data.List.Basic
import Mathlib.Tactic.Common

/-! # Fields of a text

A text that joins two fields with a separator is read back by splitting it at the first
separator, whatever the second field holds, as long as the first has none.  A number written
out in digits is such a field. -/

namespace Texts

/-- What stands before the first separator, and what after it: Python's `str.partition`. -/
def partition (separator : Char) (text : String) : String × String :=
  (String.ofList (text.toList.takeWhile (· ≠ separator)),
    String.ofList ((text.toList.dropWhile (· ≠ separator)).drop 1))

theorem partition_join {separator : Char} {head rest : String}
    (absent : separator ∉ head.toList) :
    partition separator (head ++ separator.toString ++ rest) = (head, rest) := by
  have passes : ∀ c ∈ head.toList, (!decide (c = separator)) = true := by
    intro c member
    have other : c ≠ separator := fun same => absent (same ▸ member)
    simp [other]
  simp [partition, List.takeWhile_append_of_pos passes, List.dropWhile_append_of_pos passes]

/-- The digits of a number hold no separator. -/
theorem notMem_repr {separator : Char} (noDigit : separator.isDigit = false) (n : Nat) :
    separator ∉ n.repr.toList := by
  intro member
  rw [Nat.toList_repr] at member
  have digit := Nat.isDigit_of_mem_toDigits (by decide) (by decide) member
  rw [noDigit] at digit
  contradiction

/-- The number that a text of digits stands for. -/
def digits? (text : String) : Option Nat :=
  if text ≠ "" ∧ text.toList.all Char.isDigit then some (Nat.ofDigitChars 10 text.toList 0) else none

theorem digits?_repr (n : Nat) : digits? n.repr = some n := by
  have digits : n.repr.toList.all Char.isDigit = true := by
    rw [List.all_eq_true, Nat.toList_repr]
    intro c member
    exact Nat.isDigit_of_mem_toDigits (by decide) (by decide) member
  unfold digits?
  rw [if_pos ⟨Nat.repr_ne_empty, digits⟩, Nat.toList_repr, Nat.ofDigitChars_ten_toDigits]

theorem digits?_eq_none {text : String} {c : Char} (member : c ∈ text.toList)
    (noDigit : c.isDigit = false) : digits? text = none := by
  unfold digits?
  apply if_neg
  intro numeric
  have digit := List.all_eq_true.mp numeric.2 c member
  rw [noDigit] at digit
  contradiction

theorem repr_injective {n m : Nat} (same : n.repr = m.repr) : n = m := by
  have digits := congrArg digits? same
  rw [digits?_repr, digits?_repr] at digits
  exact Option.some.inj digits

/-- The number that a text of digits stands for, with or without a minus sign. -/
def integer? (text : String) : Option Int :=
  match text.toList with
  | '-' :: digits => (digits? (String.ofList digits)).map fun n => -(n : Int)
  | _ => (digits? text).map Int.ofNat

theorem notMem_toString {separator : Char} (noDigit : separator.isDigit = false)
    (noSign : separator ≠ '-') (v : Int) : separator ∉ (toString v).toList := by
  cases v with
  | ofNat n => exact notMem_repr noDigit n
  | negSucc n =>
    have text : (toString (Int.negSucc n)).toList = '-' :: (n + 1).repr.toList := by
      simp [toString, Int.repr]
    rw [text, List.mem_cons]
    intro member
    cases member with
    | inl sign => exact noSign sign
    | inr digit => exact notMem_repr noDigit (n + 1) digit

theorem integer?_toString (v : Int) : integer? (toString v) = some v := by
  cases v with
  | ofNat n =>
    have text : toString (Int.ofNat n) = n.repr := rfl
    rw [text]
    unfold integer?
    split
    · next digits signed =>
      have sign : '-' ∈ n.repr.toList := by rw [signed]; simp
      exact absurd sign (notMem_repr (by decide) n)
    · rw [digits?_repr]
      rfl
  | negSucc n =>
    have text : (toString (Int.negSucc n)).toList = '-' :: (n + 1).repr.toList := by
      simp [toString, Int.repr]
    have digits : String.ofList (n + 1).repr.toList = (n + 1).repr := String.ofList_toList
    simp only [integer?, text, digits, digits?_repr]
    rfl

end Texts
