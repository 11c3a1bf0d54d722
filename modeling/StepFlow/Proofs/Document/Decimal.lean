import Mathlib.Data.List.TakeWhile
import StepFlow.Document.Shape

/-!
# Integers as texts

The decimal text of an integer, and what it is read as: the integer itself, as long as it fits a word with or
without sign (`Document.parse_decimal`).
-/

namespace StepFlow

/-- The digits of an integer, after a sign if it is negative. -/
def decimal : Int → List Char
  | .ofNat n => Nat.toDigits 10 n
  | .negSucc n => '-' :: Nat.toDigits 10 (n + 1)

/-! ### Digits -/

theorem isDigit_of_mem_toDigits {n : Nat} {c : Char} (h : c ∈ Nat.toDigits 10 n) : c.isDigit :=
  Nat.isDigit_of_mem_toDigits (by decide) (by decide) h

theorem digitsValue_toDigits (n : Nat) : Text.digitsValue (Nat.toDigits 10 n) = n := by
  calc Text.digitsValue (Nat.toDigits 10 n) = Nat.ofDigitChars 10 (Nat.toDigits 10 n) 0 := by
        simp only [Text.digitsValue, Nat.ofDigitChars, Nat.mul_comm 10]
        rfl
    _ = n := Nat.ofDigitChars_toDigits (by decide) (by decide)

theorem digitChar_ne_zero : ∀ n < 10, 0 < n → n.digitChar ≠ '0' := by decide

theorem toNat_of_isDigit {c : Char} (h : c.isDigit) : 48 ≤ c.toNat ∧ c.toNat ≤ 57 := by
  simpa [Char.isDigit, UInt32.le_iff_toNat_le] using h

/-- The decimal digits one by one. -/
theorem mem_digits_of_isDigit {c : Char} (h : c.isDigit) :
    c ∈ ['0', '1', '2', '3', '4', '5', '6', '7', '8', '9'] := by
  have hall : ∀ n ≤ 57, 48 ≤ n → Char.ofNat n ∈ ['0', '1', '2', '3', '4', '5', '6', '7', '8', '9'] := by decide
  simpa using hall c.toNat (toNat_of_isDigit h).2 (toNat_of_isDigit h).1

/-- Only zero starts with the digit zero. -/
theorem head_toDigits {n : Nat} (h : 0 < n) : ∀ c ∈ (Nat.toDigits 10 n).head?, c ≠ '0' := by
  induction n using Nat.strongRecOn with
  | ind n ih =>
    by_cases hn : n < 10
    · rw [Nat.toDigits_of_lt_base hn]
      rintro c ⟨⟩
      exact digitChar_ne_zero n hn h
    · have hmore := ih (n / 10) (by omega) (by omega)
      obtain ⟨d, ds, hds⟩ := List.exists_cons_of_ne_nil (@Nat.toDigits_ne_nil (n / 10) 10)
      rw [Nat.toDigits_of_base_le (by decide) (Nat.le_of_not_lt hn), hds]
      rwa [hds] at hmore

namespace Numeral

theorem le_foldl (s : Nat) (ds : List Nat) : s ≤ ds.foldl (fun n d => n * 10 + d) s := by
  induction ds generalizing s with
  | nil => exact Nat.le_refl s
  | cons d ds ih => exact Nat.le_trans (by omega) (ih (s * 10 + d))

/-- Digits whose value is a word are all taken. -/
theorem accumulate_eq {s : Nat} {ds : List Nat} (h : ds.foldl (fun n d => n * 10 + d) s ≤ maxWord) :
    accumulate s ds = (ds.foldl (fun n d => n * 10 + d) s, []) := by
  induction ds generalizing s with
  | nil => rfl
  | cons d ds ih =>
    rw [accumulate, if_pos (Nat.le_trans (le_foldl _ ds) h)]
    exact ih h

end Numeral

/-- The digits of a number, as they are taken for its value. -/
def digitValues (n : Nat) : List Nat := (Nat.toDigits 10 n).map (·.toNat - 48)

theorem foldl_digitValues (n : Nat) : (digitValues n).foldl (fun n d => n * 10 + d) 0 = n := by
  rw [digitValues, List.foldl_map]
  exact digitsValue_toDigits n

theorem Numeral.value?_eq {neg : Bool} {n : Nat} (hn : n ≤ maxWord) (hneg : neg → 0 < n ∧ n ≤ Nat.pow 2 63) :
    Numeral.value? ⟨neg, digitValues n, [], none⟩ = some (.int (if neg then -n else n)) := by
  have haccumulate : accumulate 0 (digitValues n) = (n, []) := by
    rw [accumulate_eq (by rwa [foldl_digitValues]), foldl_digitValues]
  cases neg with
  | false => simp [Numeral.value?, haccumulate]
  | true => simp [Numeral.value?, haccumulate, hneg rfl]

namespace Draft

theorem digits_toDigits (n : Nat) : digits (Nat.toDigits 10 n) = (digitValues n, []) := by
  have htake : (Nat.toDigits 10 n).takeWhile Char.isDigit = Nat.toDigits 10 n :=
    List.takeWhile_eq_self_iff.2 fun c => isDigit_of_mem_toDigits
  have hdrop : (Nat.toDigits 10 n).dropWhile Char.isDigit = [] :=
    List.dropWhile_eq_nil_iff.2 fun c => isDigit_of_mem_toDigits
  rw [digits, htake, hdrop, digitValues]

theorem digitValues_ne (n : Nat) : digitValues n ≠ [] := by
  simp [digitValues, Nat.toDigits_ne_nil]

/-- No zero stands before other digits. -/
theorem digitValues_ne_zero (n : Nat) (d : Nat) (ds : List Nat) : digitValues n ≠ 0 :: d :: ds := by
  intro h
  by_cases hn : n = 0
  · subst hn
    cases h
  · cases hdigits : Nat.toDigits 10 n with
    | nil => exact Nat.toDigits_ne_nil hdigits
    | cons c cs =>
      have hc : c ≠ '0' := head_toDigits (Nat.pos_of_ne_zero hn) c (by rw [hdigits]; rfl)
      have hdigit := toNat_of_isDigit (isDigit_of_mem_toDigits (by rw [hdigits]; exact List.mem_cons_self ..))
      rw [digitValues, hdigits] at h
      have hzero : c.toNat - 48 = 0 := (List.cons.inj h).1
      have : c.toNat = '0'.toNat := Nat.le_antisymm (Nat.sub_eq_zero_iff_le.1 hzero) hdigit.1
      exact hc (Char.toNat_inj.1 this)

theorem numeral_toDigits (neg : Bool) (n : Nat) :
    numeral neg (Nat.toDigits 10 n) = (num ⟨neg, digitValues n, [], none⟩, []) := by
  rw [numeral, digits_toDigits]
  dsimp only
  split
  · rename_i h
    exact absurd h (digitValues_ne n)
  · rename_i h
    exact absurd h (digitValues_ne_zero n _ _)
  · rfl

theorem value_digit (fuel : Nat) {c : Char} (h : c.isDigit) (cs : List Char) :
    value (fuel + 1) (c :: cs) = numeral false (c :: cs) := by
  have hc := mem_digits_of_isDigit h
  simp only [List.mem_cons, List.not_mem_nil, or_false] at hc
  rcases hc with rfl | rfl | rfl | rfl | rfl | rfl | rfl | rfl | rfl | rfl <;> rfl

theorem ofText_decimal (i : Int) : ofText (String.ofList (decimal i)) =
    (num ⟨i < 0, digitValues i.natAbs, [], none⟩, []) := by
  rw [ofText, String.toList_ofList]
  cases i with
  | ofNat n =>
    cases hdigits : Nat.toDigits 10 n with
    | nil => exact absurd hdigits Nat.toDigits_ne_nil
    | cons c cs =>
      have hc : c.isDigit := isDigit_of_mem_toDigits (by rw [hdigits]; exact List.mem_cons_self ..)
      rw [decimal, hdigits, value_digit _ hc, ← hdigits, numeral_toDigits]
      rfl
  | negSucc n =>
    calc value _ ('-' :: Nat.toDigits 10 (n + 1)) = numeral true (Nat.toDigits 10 (n + 1)) := rfl
      _ = (num ⟨true, digitValues (n + 1), [], none⟩, []) := numeral_toDigits true (n + 1)
      _ = _ := by rw [decide_eq_true (Int.negSucc_lt_zero n)]; rfl

end Draft

/-- An integer that fits a word, with or without sign, is read from its text. -/
theorem Document.parse_decimal {i : Int} (hmin : -(Nat.pow 2 63) ≤ i) (hmax : i ≤ Numeral.maxWord) :
    Document.parse (String.ofList (decimal i)) = .ok (.num (.int i)) := by
  have hvalue : Numeral.value? ⟨i < 0, digitValues i.natAbs, [], none⟩ = some (.int i) := by
    have hword : Nat.pow 2 63 ≤ Numeral.maxWord := by decide
    have hneg : decide (i < 0) = true → 0 < i.natAbs ∧ i.natAbs ≤ Nat.pow 2 63 := by
      rw [decide_eq_true_iff]
      omega
    rw [Numeral.value?_eq (by omega) hneg]
    simp only [decide_eq_true_iff]
    split <;> congr <;> omega
  rw [Document.parse, Shape.read, Draft.ofText_decimal]
  simp only [Shape.any, Draft.content, hvalue]
  rfl

end StepFlow
