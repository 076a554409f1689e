import ReactiveScript.Json.Reading

/-!
# Numerals and numbers

The decimal digits of a number denote the number, and the first of several digits is not zero. A
JSON reader that meets the numeral of a 64-bit integer takes all its digits and gives the integer.
-/

namespace ReactiveScript

namespace Text

theorem isDigit_of_mem_toDigits {n : Nat} {c : Char} (h : c ∈ Nat.toDigits 10 n) : c.isDigit :=
  Nat.isDigit_of_mem_toDigits (by decide) (by decide) h

/-- The first digit of a positive number is not zero. -/
theorem head?_toDigits {n : Nat} (pos : 0 < n) : (Nat.toDigits 10 n).head? ≠ some '0' := by
  have single : ∀ d < 10, 0 < d → [d.digitChar].head? ≠ some '0' := by decide
  induction n using Nat.strongRecOn with
  | ind n ih =>
    by_cases small : n < 10
    · rw [Nat.toDigits_of_lt_base small]
      exact single n small pos
    · have first := ih (n / 10) (by omega) (by omega)
      rw [Nat.toDigits_of_base_le (by decide) (Nat.le_of_not_lt small)]
      cases digits : Nat.toDigits 10 (n / 10) with
      | nil => exact absurd digits Nat.toDigits_ne_nil
      | cons c ds => rwa [digits] at first

theorem length_or_head?_toDigits (n : Nat) :
    (Nat.toDigits 10 n).length = 1 ∨ (Nat.toDigits 10 n).head? ≠ some '0' := by
  by_cases h : n = 0
  · subst h
    exact .inl rfl
  · exact .inr (head?_toDigits (Nat.pos_of_ne_zero h))

end Text

namespace Json

theorem le_foldl_digits (n : Nat) (ds : List Char) :
    n ≤ ds.foldl (fun n c => 10 * n + Text.digitValue c) n := by
  induction ds generalizing n with
  | nil => exact Nat.le_refl n
  | cons c ds ih => exact Nat.le_trans (by omega) (ih (10 * n + Text.digitValue c))

/-- Digits are all taken if the number that they denote has 64 bits. -/
theorem takeDigits_of_lt {n : Nat} {ds : List Char} (count : Nat)
    (h : ds.foldl (fun n c => 10 * n + Text.digitValue c) n < UInt64.size) :
    takeDigits n count ds =
      (ds.foldl (fun n c => 10 * n + Text.digitValue c) n, count + ds.length, []) := by
  induction ds generalizing n count with
  | nil => rfl
  | cons c ds ih =>
    rw [takeDigits, if_pos (Nat.lt_of_le_of_lt (le_foldl_digits _ ds) h), ih _ h,
      List.length_cons, Nat.add_right_comm, List.foldl_cons]
    rfl

/-- A character that continues a number. -/
def continuesNumber (c : Char) : Bool := c.isDigit || c == '.' || c == 'e' || c == 'E'

/-- What follows a number does not continue it. -/
def Delimits (rest : List Char) : Prop := ∀ c ∈ rest.head?, continuesNumber c = false

theorem delimits_cons {c : Char} (h : continuesNumber c = false) (rest : List Char) :
    Delimits (c :: rest) := by
  intro c' h'
  cases h'
  exact h

theorem takeWhile_isDigit {ds rest : List Char} (digits : ∀ c ∈ ds, c.isDigit)
    (h : Delimits rest) :
    (ds ++ rest).takeWhile Char.isDigit = ds ∧ (ds ++ rest).dropWhile Char.isDigit = rest := by
  rw [List.takeWhile_append_of_pos digits, List.dropWhile_append_of_pos digits]
  cases rest with
  | nil => simp
  | cons c rest =>
    have other : c.isDigit = false := by
      have := h c rfl
      simp only [continuesNumber, Bool.or_eq_false_iff] at this
      exact this.1.1.1
    simp [other]

/-- What delimits a number neither goes on with a fraction nor with an exponent. -/
theorem Delimits.marks {rest : List Char} (h : Delimits rest) :
    (∀ cs, rest ≠ '.' :: cs) ∧ (rest.head? == some 'e' || rest.head? == some 'E') = false := by
  cases rest with
  | nil => simp
  | cons c cs =>
    have := h c rfl
    simp only [continuesNumber, Bool.or_eq_false_iff, beq_eq_false_iff_ne] at this
    obtain ⟨⟨⟨-, point⟩, small⟩, great⟩ := this
    simp [point, small, great]

theorem readMagnitude_toDigits {negative : Bool} {n : Nat} {rest : List Char}
    (fits : Text.fitsInt64 (Text.signed negative n)) (positive : negative = true → n ≠ 0)
    (h : Delimits rest) :
    readMagnitude negative (Nat.toDigits 10 n ++ rest) =
      some (.int (Text.signed negative n), rest) := by
  have digits : ∀ c ∈ Nat.toDigits 10 n, c.isDigit := fun _ => Text.isDigit_of_mem_toDigits
  obtain ⟨taken, left⟩ := takeWhile_isDigit digits h
  have numeral : ((Nat.toDigits 10 n).isEmpty ||
      ((Nat.toDigits 10 n).length != 1 && (Nat.toDigits 10 n).head? == some '0')) = false := by
    have nonempty : Nat.toDigits 10 n ≠ [] := Nat.toDigits_ne_nil
    rcases Text.length_or_head?_toDigits n with single | first
    · simp [single, nonempty]
    · simp [first, nonempty]
  have size : n < UInt64.size := by
    have bounds : Int64.minValue.toInt = -2 ^ 63 ∧ Int64.maxValue.toInt = 2 ^ 63 - 1 := by decide
    simp only [Text.fitsInt64, Text.signed, bounds, Bool.and_eq_true, decide_eq_true_eq] at fits
    have : UInt64.size = 2 ^ 64 := rfl
    split at fits <;> omega
  have whole : takeDigits 0 0 (Nat.toDigits 10 n) = (n, (Nat.toDigits 10 n).length, []) := by
    have value := Text.natOfDigits_toDigits n
    rw [Text.natOfDigits] at value
    rw [takeDigits_of_lt 0 (by rwa [value]), value, Nat.zero_add]
  have exact : (negative && (n == 0 || !Text.fitsInt64 (-n))) = false := by
    cases negative with
    | false => rfl
    | true =>
      have fits : Text.fitsInt64 (-n) = true := fits
      simp [positive rfl, fits]
  obtain ⟨point, mark⟩ := h.marks
  unfold readMagnitude
  simp only [taken, left, numeral, whole, mark, exact, List.isEmpty_nil, Bool.not_true,
    Bool.or_false, Bool.false_eq_true, if_false]

/-- Reading the numeral of a 64-bit integer gives the integer, whatever follows that does not
continue the numeral. -/
theorem readNumber_ofInt {n : Int} {rest : List Char} (fits : Text.fitsInt64 n)
    (h : Delimits rest) : readNumber ((Text.ofInt n).toList ++ rest) = some (.int n, rest) := by
  rw [Text.ofInt, String.toList_ofList]
  split
  · next negative =>
    have value : n = Text.signed true n.natAbs := by
      show n = -(n.natAbs : Int)
      omega
    rw [value] at fits
    exact (readMagnitude_toDigits fits (fun _ => by omega) h).trans (by rw [← value])
  · next positive =>
    have value : n = Text.signed false n.natAbs := by
      show n = (n.natAbs : Int)
      omega
    rw [value] at fits
    have read := (readMagnitude_toDigits fits (fun h => nomatch h) h).trans (by rw [← value])
    rw [readNumber]
    · exact read
    · intro cs minus
      have first : '-' ∈ Nat.toDigits 10 n.natAbs := by
        cases digits : Nat.toDigits 10 n.natAbs with
        | nil => exact absurd digits Nat.toDigits_ne_nil
        | cons c ds =>
          rw [digits] at minus
          rw [(List.cons.inj minus).1]
          exact List.mem_cons_self
      exact absurd (Text.isDigit_of_mem_toDigits first) (by decide)

end Json
end ReactiveScript
