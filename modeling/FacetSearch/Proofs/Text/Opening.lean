import FacetSearch.Proofs.Text.RoundTrip
import Mathlib.Data.List.TakeWhile

/-! How a text that holds an integer opens: with blanks, at most one sign and a run of digits. The
leading integer is the number that sign and run denote, or the end of the range on its side. Counted
in bytes, the run is as long as the text of its digits. A decimal integer is its own leading
integer: it begins with no blank, its digits reach to the end, and its value is in range. -/
namespace FacetSearch.Text

theorem solidDigit : ∀ n < 58, 48 ≤ n → isBlank (Char.ofNat n) = false := by decide

theorem digitSolid {c : Char} (h : c.isDigit = true) : isBlank c = false := by
  simp only [Char.isDigit, Bool.and_eq_true, decide_eq_true_eq] at h
  have low : 48 ≤ c.toNat := h.1
  have high : c.toNat ≤ 57 := h.2
  have solid := solidDigit c.toNat (by omega) low
  rwa [Char.ofNat_toNat] at solid

theorem decimalSolid {n : Int64} {c : Char} (h : c ∈ decimal n) : isBlank c = false := by
  rcases decimalChars h with rfl | digit
  · rfl
  · exact digitSolid digit

theorem dropSolid {cs : List Char} (solid : ∀ c ∈ cs, isBlank c = false) : dropBlank cs = cs := by
  rw [dropBlank, List.dropWhile_eq_self_iff]
  intro filled
  simp [solid _ (List.getElem_mem filled)]

theorem decimalNotBlank (n : Int64) : allBlank (String.ofList (decimal n)) = false := by
  have kept := dropSolid fun c (member : c ∈ decimal n) => decimalSolid member
  have filled : decimal n ≠ [] := by
    intro empty
    have number := decimalIsInteger n
    rw [empty] at number
    cases number
  rw [← kept, ne_eq, dropBlankEqNil] at filled
  simpa [allBlank] using filled

theorem clampInRange {z : Int} (h : InRange z) : clamp z = Int64.ofInt z := by
  rw [clamp, Int.min_eq_right h.2, Int.max_eq_right h.1]

theorem leadingOfDecimal (n : Int64) : leadingInteger? (String.ofList (decimal n)) = some n := by
  have kept := dropSolid fun c (member : c ∈ decimal n) => decimalSolid member
  have digits : (magnitude n).takeWhile Char.isDigit = magnitude n :=
    List.takeWhile_eq_self_iff.mpr (magnitudeDigits n)
  simp only [leadingInteger?, String.toList_ofList, kept, splitSignDecimal, digits]
  rw [signedMagnitude, clampInRange (inRangeToInt n), Int64.ofInt_toInt, if_neg]
  simp [magnitudeFilled]

/-- All leading blanks, a sign if one follows, the longest run of digits, and the rest. -/
structure Opens (cs blanks sign digits rest : List Char) : Prop where
  whole : cs = blanks ++ (sign ++ (digits ++ rest))
  blank : ∀ c ∈ blanks, isBlank c = true
  solid : ∀ c ∈ (sign ++ (digits ++ rest)).head?, isBlank c = false
  signs : sign = ['-'] ∨ sign = ['+'] ∨
    sign = [] ∧ ∀ c ∈ (digits ++ rest).head?, c ≠ '-' ∧ c ≠ '+'
  digit : ∀ c ∈ digits, c.isDigit = true
  longest : ∀ c ∈ rest.head?, c.isDigit = false

theorem headFails {p : Char → Bool} {cs : List Char} (h : ∀ c ∈ cs.head?, p c = false) :
    cs.takeWhile p = [] ∧ cs.dropWhile p = cs := by
  cases cs with
  | nil => exact ⟨rfl, rfl⟩
  | cons c cs =>
    have fails := h c rfl
    simp [fails]

theorem signSplit (cs : List Char) : ∃ sign, cs = sign ++ (splitSign cs).2 ∧
    (sign = ['-'] ∨ sign = ['+'] ∨
      sign = [] ∧ ∀ c ∈ (splitSign cs).2.head?, c ≠ '-' ∧ c ≠ '+') := by
  unfold splitSign
  split
  · exact ⟨['-'], rfl, .inl rfl⟩
  · exact ⟨['+'], rfl, .inr (.inl rfl)⟩
  · rename_i negative positive
    refine ⟨[], rfl, .inr (.inr ⟨rfl, ?_⟩)⟩
    intro c first
    obtain ⟨tail, rfl⟩ := List.head?_eq_some_iff.mp first
    exact ⟨fun minus => negative tail (by rw [minus]), fun plus => positive tail (by rw [plus])⟩

theorem opensSomehow (cs : List Char) :
    ∃ blanks sign digits rest, Opens cs blanks sign digits rest := by
  obtain ⟨sign, trimmed, signs⟩ := signSplit (dropBlank cs)
  let run := (splitSign (dropBlank cs)).2
  have parts : run.takeWhile Char.isDigit ++ run.dropWhile Char.isDigit = run :=
    List.takeWhile_append_dropWhile
  refine ⟨cs.takeWhile isBlank, sign, run.takeWhile Char.isDigit, run.dropWhile Char.isDigit, ?_⟩
  exact {
    whole := by
      rw [parts, ← trimmed, dropBlank, List.takeWhile_append_dropWhile]
    blank := fun c member => List.mem_takeWhile_imp member
    solid := by
      rw [parts, ← trimmed]
      exact fun c first => headDropped first
    signs := by
      rw [parts]
      exact signs
    digit := fun c member => List.mem_takeWhile_imp member
    longest := fun c first => headDropped first }

section
variable {cs blanks sign digits rest : List Char} (h : Opens cs blanks sign digits rest)
include h

theorem dropOpening : dropBlank cs = sign ++ (digits ++ rest) := by
  rw [h.whole, dropBlank, List.dropWhile_append_of_pos h.blank]
  exact (headFails h.solid).2

theorem splitOpening : splitSign (dropBlank cs) = (decide (sign = ['-']), digits ++ rest) := by
  rw [dropOpening h]
  rcases h.signs with rfl | rfl | ⟨rfl, unsigned⟩
  · rfl
  · rfl
  · exact splitUnsigned unsigned

theorem runOpening : (digits ++ rest).takeWhile Char.isDigit = digits := by
  rw [List.takeWhile_append_of_pos h.digit, (headFails h.longest).1, List.append_nil]

end

theorem leadingOpening {text : String} {blanks sign digits rest : List Char}
    (h : Opens text.toList blanks sign digits rest) : leadingInteger? text =
      if digits = [] then none else some (clamp (signed (sign = ['-']) (digitsValue digits))) := by
  simp only [leadingInteger?, splitOpening h, runOpening h, List.isEmpty_iff]

theorem rangeToInt {z : Int} (h : InRange z) : (Int64.ofInt z).toInt = z :=
  Int64.toInt_ofInt_of_le h.1 (Int.lt_add_one_of_le h.2)

theorem clampToInt (z : Int) :
    (clamp z).toInt = max Int64.minValue.toInt (min Int64.maxValue.toInt z) := by
  have ordered : Int64.minValue.toInt ≤ Int64.maxValue.toInt := by decide
  refine rangeToInt ⟨Int.le_max_left _ _, ?_⟩
  exact Int.max_le.mpr ⟨ordered, Int.min_le_left _ _⟩

theorem clampOutside {negative : Bool} {n : Nat} (h : ¬ InRange (signed negative n)) :
    clamp (signed negative n) = if negative then Int64.minValue else Int64.maxValue := by
  have low : Int64.minValue.toInt < 0 := by decide
  have high : 0 < Int64.maxValue.toInt := by decide
  have far : ¬ (Int64.minValue.toInt ≤ signed negative n ∧
    signed negative n ≤ Int64.maxValue.toInt) := h
  cases negative with
  | true =>
    have below : signed true n < Int64.minValue.toInt := by
      simp only [signed, if_true] at far ⊢
      omega
    rw [clamp, Int.min_eq_right (by omega), Int.max_eq_left (by omega), Int64.ofInt_toInt]
    rfl
  | false =>
    have above : Int64.maxValue.toInt < signed false n := by
      simp only [signed, Bool.false_eq_true, if_false] at far ⊢
      omega
    rw [clamp, Int.min_eq_left (by omega), Int.max_eq_right (by omega), Int64.ofInt_toInt]
    rfl

def isDigitByte (b : UInt8) : Bool :=
  48 ≤ b.toNat && b.toNat ≤ 57

theorem isDigitByteOfNat {n : Nat} (small : n < 256) :
    isDigitByte (UInt8.ofNat n) = decide (48 ≤ n ∧ n ≤ 57) := by
  rw [isDigitByte, UInt8.toNat_ofNat_of_lt' small, Bool.decide_and]

theorem isDigitIff (c : Char) : c.isDigit = decide (48 ≤ c.val.toNat ∧ c.val.toNat ≤ 57) := by
  rw [Char.isDigit, Bool.decide_and]
  rfl

/-- A digit is one byte. The first byte of a longer form is at least 192, beyond the digits. -/
theorem encodedStarts (c : Char) : ∃ b bytes, String.utf8EncodeChar c = b :: bytes ∧
    isDigitByte b = c.isDigit ∧ (c.isDigit = true → bytes = []) := by
  have bound {n : Nat} (small : n < 256) (same : 48 ≤ n ∧ n ≤ 57 ↔
      48 ≤ c.val.toNat ∧ c.val.toNat ≤ 57) : isDigitByte (UInt8.ofNat n) = c.isDigit := by
    rw [isDigitByteOfNat small, isDigitIff, decide_eq_decide]
    exact same
  have wide (h : ¬ c.val.toNat ≤ 127) : c.isDigit ≠ true := by
    rw [isDigitIff, ne_eq, decide_eq_true_eq]
    omega
  rw [String.utf8EncodeChar]
  split
  · exact ⟨_, _, rfl, bound (by omega) Iff.rfl, fun _ => rfl⟩
  · rename_i long
    split
    · exact ⟨_, _, rfl, bound (by omega) (by omega), fun digit => absurd digit (wide long)⟩
    · split
      · exact ⟨_, _, rfl, bound (by omega) (by omega), fun digit => absurd digit (wide long)⟩
      · exact ⟨_, _, rfl, bound (by omega) (by omega), fun digit => absurd digit (wide long)⟩

theorem digitBytes (cs : List Char) :
    (cs.flatMap String.utf8EncodeChar).takeWhile isDigitByte =
      (cs.takeWhile Char.isDigit).flatMap String.utf8EncodeChar := by
  induction cs with
  | nil => rfl
  | cons c cs ih =>
    obtain ⟨b, bytes, encoded, same, alone⟩ := encodedStarts c
    cases digit : c.isDigit with
    | true =>
      rw [digit] at same
      rw [alone digit] at encoded
      simp [digit, encoded, same, ih]
    | false =>
      rw [digit] at same
      simp [digit, encoded, same]

def digitCount (text : String) : Nat :=
  (text.toByteArray.data.toList.takeWhile isDigitByte).length

theorem digitCountSize (cs : List Char) :
    digitCount (String.ofList cs) = (String.ofList (cs.takeWhile Char.isDigit)).utf8ByteSize := by
  have bytes (cs : List Char) :
      (String.ofList cs).toByteArray.data.toList = cs.flatMap String.utf8EncodeChar := by
    rw [String.toByteArray_ofList, List.utf8Encode, List.data_toByteArray]
  rw [digitCount, bytes, digitBytes, ← bytes, ← String.size_toByteArray]
  rfl

end FacetSearch.Text
