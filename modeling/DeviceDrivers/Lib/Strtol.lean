import Mathlib.Data.List.TakeWhile
import DeviceDrivers.Lib.Inet

/-!
# Numbers as text

`strtol` in base ten and `std::stoi` on it. The texts that are accepted are blanks, a sign, leading zeros and a decimal
number, and anything at all behind it that does not begin with a digit; the result is that number (`stoi_eq_ok_iff`).
-/

namespace Strtol

open Inet (decimal)

/-- `isspace` in the C locale. -/
def isSpace (ch : Char) : Bool := ch ∈ [' ', '\t', '\n', '\x0b', '\x0c', '\r']

def isDigit (ch : Char) : Bool := '0' ≤ ch ∧ ch ≤ '9'

/-- Whether the number is negative, and what follows the sign. -/
def sign : List Char → Bool × List Char
  | [] => (false, [])
  | ch :: rest => if ch = '-' then (true, rest) else if ch = '+' then (false, rest) else (false, ch :: rest)

/-- The loop over the digits. -/
def number : List Char → Nat → Nat
  | [], value => value
  | ch :: rest, value => if isDigit ch then number rest (10 * value + (ch.toNat - '0'.toNat)) else value

/-- `strtol(text, &end, 10)` without a bound on the result; `none` is `end == text`. -/
def strtol (text : List Char) : Option Int :=
  let (negative, rest) := sign (text.dropWhile isSpace)
  if rest.head?.any isDigit then
    some (if negative then -(number rest 0 : Int) else number rest 0)
  else none

inductive StoiError
  | invalidArgument
  | outOfRange
  deriving DecidableEq

/-- From `INT_MIN` to `INT_MAX`. -/
def IsInt (value : Int) : Prop := -2147483648 ≤ value ∧ value ≤ 2147483647

instance (value : Int) : Decidable (IsInt value) := inferInstanceAs (Decidable (_ ∧ _))

/-- `std::stoi`. The values that `strtol` cannot return are none of an `int` either. -/
def stoi (text : List Char) : Except StoiError Int :=
  match strtol text with
  | none => .error .invalidArgument
  | some value => if IsInt value then .ok value else .error .outOfRange

/-! ### The texts of a number -/

/-- The signs, and whether they make the number negative. -/
def signTexts : List (List Char × Bool) := [([], false), (['+'], false), (['-'], true)]

/-- The text begins with this number. -/
inductive Denotes : List Char → Int → Prop
  | mk {blanks signs tail : List Char} {negative : Bool} (zeros n : Nat)
      (hblanks : ∀ ch ∈ blanks, isSpace ch = true)
      (hsigns : (signs, negative) ∈ signTexts)
      (htail : ∀ ch ∈ tail.head?, isDigit ch = false) :
      Denotes (blanks ++ (signs ++ (List.replicate zeros '0' ++ decimal n ++ tail)))
        (if negative then -(n : Int) else n)

theorem isDigit_iff {ch : Char} : isDigit ch = true ↔ '0' ≤ ch ∧ ch ≤ '9' := decide_eq_true_iff

theorem number_append {digits tail : List Char} (hdigits : ∀ ch ∈ digits, isDigit ch = true)
    (htail : ∀ ch ∈ tail.head?, isDigit ch = false) (value : Nat) :
    number (digits ++ tail) value = Nat.ofDigitChars 10 digits value := by
  induction digits generalizing value with
  | nil =>
    cases tail with
    | nil => rfl
    | cons ch tail =>
      have hch : isDigit ch = false := htail ch rfl
      rw [List.nil_append, number, hch]
      rfl
  | cons ch digits ih =>
    rw [List.forall_mem_cons] at hdigits
    rw [List.cons_append, number, if_pos hdigits.1, ih hdigits.2, Nat.ofDigitChars_cons]

theorem eq_zeros_append_decimal {digits : List Char} (hne : digits ≠ []) (hdigits : ∀ ch ∈ digits, isDigit ch = true) :
    ∃ zeros, digits = List.replicate zeros '0' ++ decimal (Nat.ofDigitChars 10 digits 0) := by
  induction digits using List.reverseRecOn with
  | nil => exact (hne rfl).elim
  | append_singleton digits ch ih =>
    rw [List.forall_mem_append, List.forall_mem_singleton] at hdigits
    have hrange := isDigit_iff.mp hdigits.2
    obtain ⟨hlow, hhigh⟩ := Inet.toNat_of_range hrange
    have hch := Inet.digitChar_of_range hrange
    have hvalue : Nat.ofDigitChars 10 (digits ++ [ch]) 0 =
        Nat.ofDigitChars 10 digits 0 * 10 + (ch.toNat - 48) := by
      rw [Nat.ofDigitChars_append, Nat.ofDigitChars_cons, Nat.ofDigitChars_nil, Nat.mul_comm]
      rfl
    rw [hvalue]
    by_cases hnil : digits = []
    · subst hnil
      refine ⟨0, ?_⟩
      rw [Nat.ofDigitChars_nil, Nat.zero_mul, Nat.zero_add, Inet.decimal_of_lt (by omega), hch]
      rfl
    · obtain ⟨zeros, hzeros⟩ := ih hnil hdigits.1
      by_cases hpos : 0 < Nat.ofDigitChars 10 digits 0
      · refine ⟨zeros, ?_⟩
        rw [Inet.decimal_append hpos (by omega), hch, ← List.append_assoc, ← hzeros]
      · -- a number that begins with zeros only
        have hzero : Nat.ofDigitChars 10 digits 0 = 0 := Nat.eq_zero_of_not_pos hpos
        refine ⟨zeros + 1, ?_⟩
        rw [hzero] at hzeros ⊢
        rw [Nat.zero_mul, Nat.zero_add, Inet.decimal_of_lt (by omega), hch, List.replicate_succ', hzeros]
        rfl

theorem isDigit_decimal (n : Nat) : ∀ ch ∈ decimal n, isDigit ch = true := by
  intro ch hch
  have hdigit := Nat.isDigit_of_mem_toDigits (by decide) (by decide) hch
  simpa [isDigit, Char.isDigit, Char.le_def] using hdigit

theorem sign_eq (text : List Char) :
    ∃ signs, text = signs ++ (sign text).2 ∧ (signs, (sign text).1) ∈ signTexts := by
  cases text with
  | nil => exact ⟨[], rfl, by simp [sign, signTexts]⟩
  | cons ch rest =>
    rw [sign]
    split_ifs with hminus hplus
    · exact ⟨['-'], by rw [hminus]; rfl, by simp [signTexts]⟩
    · exact ⟨['+'], by rw [hplus]; rfl, by simp [signTexts]⟩
    · exact ⟨[], rfl, by simp [signTexts]⟩

theorem sign_append {signs rest : List Char} {negative : Bool} {ch : Char} (hch : isDigit ch = true)
    (hsigns : (signs, negative) ∈ signTexts) :
    sign (signs ++ ch :: rest) = (negative, ch :: rest) := by
  have hminus : ch ≠ '-' := by
    rintro rfl
    cases hch
  have hplus : ch ≠ '+' := by
    rintro rfl
    cases hch
  simp only [signTexts, List.mem_cons, List.not_mem_nil, or_false, Prod.mk.injEq] at hsigns
  obtain ⟨rfl, rfl⟩ | ⟨rfl, rfl⟩ | ⟨rfl, rfl⟩ := hsigns
  · simp [sign, hminus, hplus]
  · rfl
  · rfl

theorem exists_cons_not_isSpace {signs rest : List Char} {negative : Bool} {ch : Char} (hch : isDigit ch = true)
    (hsigns : (signs, negative) ∈ signTexts) :
    ∃ first tail, signs ++ ch :: rest = first :: tail ∧ isSpace first = false := by
  simp only [signTexts, List.mem_cons, List.not_mem_nil, or_false, Prod.mk.injEq] at hsigns
  obtain ⟨rfl, -⟩ | ⟨rfl, -⟩ | ⟨rfl, -⟩ := hsigns
  · refine ⟨ch, rest, rfl, ?_⟩
    cases hspace : isSpace ch with
    | false => rfl
    | true =>
      -- no blank is a digit
      simp only [isSpace, decide_eq_true_eq, List.mem_cons, List.not_mem_nil, or_false] at hspace
      rcases hspace with rfl | rfl | rfl | rfl | rfl | rfl <;> cases hch
  · exact ⟨'+', ch :: rest, rfl, rfl⟩
  · exact ⟨'-', ch :: rest, rfl, rfl⟩

theorem strtol_denotes {blanks signs tail : List Char} {negative : Bool} (zeros n : Nat)
    (hblanks : ∀ ch ∈ blanks, isSpace ch = true)
    (hsigns : (signs, negative) ∈ signTexts)
    (htail : ∀ ch ∈ tail.head?, isDigit ch = false) :
    strtol (blanks ++ (signs ++ (List.replicate zeros '0' ++ decimal n ++ tail))) =
      some (if negative then -(n : Int) else n) := by
  have hdigits : ∀ ch ∈ List.replicate zeros '0' ++ decimal n, isDigit ch = true := by
    rw [List.forall_mem_append]
    refine ⟨?_, isDigit_decimal n⟩
    intro ch hch
    rw [List.eq_of_mem_replicate hch]
    rfl
  have hnumber := number_append hdigits htail 0
  have hvalue : Nat.ofDigitChars 10 (List.replicate zeros '0' ++ decimal n) 0 = n := by
    rw [Nat.ofDigitChars_append, Nat.ofDigitChars_replicate_zero, Nat.mul_zero]
    exact Nat.ofDigitChars_ten_toDigits
  rw [hvalue] at hnumber
  have hne : List.replicate zeros '0' ++ decimal n ≠ [] := by
    intro hnil
    exact Nat.toDigits_ne_nil (List.append_eq_nil_iff.mp hnil).2
  obtain ⟨ch, rest, hrest⟩ := List.exists_cons_of_ne_nil hne
  rw [hrest, List.forall_mem_cons] at hdigits
  rw [hrest, List.cons_append] at hnumber ⊢
  obtain ⟨first, behind, hfirst, hspace⟩ := @exists_cons_not_isSpace signs (rest ++ tail) negative ch hdigits.1 hsigns
  unfold strtol
  rw [List.dropWhile_append_of_pos hblanks, hfirst, List.dropWhile_cons_of_neg (by simp [hspace]), ← hfirst,
    sign_append hdigits.1 hsigns]
  dsimp only
  rw [if_pos (show (ch :: (rest ++ tail)).head?.any isDigit = true from hdigits.1), hnumber]

/-- The texts that `strtol` converts, and to what. -/
theorem strtol_eq_some_iff {text : List Char} {value : Int} : strtol text = some value ↔ Denotes text value := by
  constructor
  · intro h
    obtain ⟨signs, hsign, hsigns⟩ := sign_eq (text.dropWhile isSpace)
    unfold strtol at h
    generalize sign (text.dropWhile isSpace) = r at h hsign hsigns
    obtain ⟨negative, rest⟩ := r
    dsimp only at h hsign hsigns
    have hhead : rest.head?.any isDigit = true := by
      by_contra hhead
      rw [if_neg hhead] at h
      cases h
    rw [if_pos hhead] at h
    obtain rfl := Option.some.inj h
    have hblanks : ∀ ch ∈ text.takeWhile isSpace, isSpace ch = true := fun ch hch => List.mem_takeWhile_imp hch
    have hdigits : ∀ ch ∈ rest.takeWhile isDigit, isDigit ch = true := fun ch hch => List.mem_takeWhile_imp hch
    have htail : ∀ ch ∈ (rest.dropWhile isDigit).head?, isDigit ch = false := by
      intro ch hch
      have hnot := List.head?_dropWhile_not isDigit rest
      rw [hch] at hnot
      exact hnot
    have hne : rest.takeWhile isDigit ≠ [] := by
      cases rest with
      | nil => cases hhead
      | cons ch rest =>
        have hch : isDigit ch = true := hhead
        rw [List.takeWhile_cons_of_pos hch]
        exact List.cons_ne_nil _ _
    have hnumber := number_append hdigits htail 0
    rw [List.takeWhile_append_dropWhile] at hnumber
    obtain ⟨zeros, hzeros⟩ := eq_zeros_append_decimal hne hdigits
    have htext : text = text.takeWhile isSpace ++ (signs ++ (rest.takeWhile isDigit ++ rest.dropWhile isDigit)) := by
      rw [List.takeWhile_append_dropWhile, ← hsign, List.takeWhile_append_dropWhile]
    rw [htext, hnumber]
    generalize Nat.ofDigitChars 10 (rest.takeWhile isDigit) 0 = n at hzeros ⊢
    rw [hzeros]
    exact .mk zeros n hblanks hsigns htail
  · rintro ⟨zeros, n, hblanks, hsigns, htail⟩
    exact strtol_denotes zeros n hblanks hsigns htail

theorem stoi_eq_ok_iff {text : List Char} {value : Int} :
    stoi text = .ok value ↔ Denotes text value ∧ IsInt value := by
  rw [← strtol_eq_some_iff]
  unfold stoi
  cases strtol text with
  | none => simp
  | some v =>
    dsimp only
    split_ifs with hint
    · constructor
      · intro h
        obtain rfl := Except.ok.inj h
        exact ⟨rfl, hint⟩
      · rintro ⟨h, -⟩
        rw [Option.some.inj h]
    · constructor
      · intro h
        cases h
      · rintro ⟨h, hvalue⟩
        rw [← Option.some.inj h] at hvalue
        exact (hint hvalue).elim

end Strtol
