import FacetSearch.Proofs.Criterion.Restoring
import FacetSearch.Proofs.Query.Cursor
import FacetSearch.Proofs.Text.Spelling

/-! Bounds as integers. A bound is measured in bytes: its leading digits are counted, the text is
cut behind them, and the piece is read as a 64-bit integer, where failure stands for the end of the
range on the side of the sign. Main statement: the cut is never inside of a character, the result is
the whole signed number held within the range, and it is stable when written and read again. -/
namespace FacetSearch
open Text

def integerOrEnd (negative : Bool) (digits : String) : Int64 :=
  match integer? (minus negative ++ digits.toList) with
  | some n => n
  | none => if negative then Int64.minValue else Int64.maxValue

/-- The value of a bound by byte counts, or nothing where a cut would fall inside of a character. -/
def measured? (bound : String) : Option Value :=
  let (negative, trimmed) := splitSign (dropBlank bound.toList)
  let text := String.ofList trimmed
  let count := digitCount text
  if count = 0 then some .notANumber
  else (Cursor.upTo? text count).map fun digits => .integer (integerOrEnd negative digits)

theorem integerClamped (negative : Bool) {digits : List Char} (filled : digits ≠ [])
    (digit : ∀ c ∈ digits, c.isDigit = true) :
    integerOrEnd negative (String.ofList digits) =
      clamp (signed negative (digitsValue digits)) := by
  rw [integerOrEnd, String.toList_ofList, integerOfDigits digit negative filled]
  by_cases inside : InRange (signed negative (digitsValue digits))
  · simp only [if_pos inside, clampInRange inside]
  · simp only [if_neg inside, clampOutside inside]

section
variable {bound : String} {blanks sign digits rest : List Char}
  (h : Opens bound.toList blanks sign digits rest)
include h

theorem boundOpening : boundValue bound = if digits = [] then .notANumber
    else .integer (clamp (signed (sign = ['-']) (digitsValue digits))) := by
  rw [boundValue, leadingOpening h]
  by_cases none : digits = []
  · simp only [if_pos none]
  · simp only [if_neg none]

theorem measuredOpening : measured? bound = some (boundValue bound) := by
  have count : digitCount (String.ofList (digits ++ rest)) =
      (String.ofList digits).utf8ByteSize := by
    rw [digitCountSize, runOpening h]
  have cut : Cursor.upTo? (String.ofList (digits ++ rest)) (String.ofList digits).utf8ByteSize =
      some (String.ofList digits) := by
    rw [String.ofList_append, Cursor.upToCut]
  have empty : (String.ofList digits).utf8ByteSize = 0 ↔ digits = [] := by
    rw [String.utf8ByteSize_eq_zero_iff, String.ofList_eq_empty_iff]
  simp only [measured?, splitOpening h, count, cut, empty, boundOpening h, Option.map_some]
  by_cases none : digits = []
  · simp only [if_pos none]
  · simp only [if_neg none, integerClamped _ none h.digit]

end

theorem boundWritten (bound : String) :
    (boundValue bound).text? = some (argText (some (boundValue bound))) := by
  unfold boundValue
  split <;> rfl

theorem boundsExactly (bound : String) :
    (∃ blanks sign digits rest, Opens bound.toList blanks sign digits rest) ∧
    (∀ blanks sign digits rest, Opens bound.toList blanks sign digits rest →
      (digits = [] → boundValue bound = .notANumber) ∧
      (digits ≠ [] → ∃ n, boundValue bound = .integer n ∧ n.toInt =
        max Int64.minValue.toInt (min Int64.maxValue.toInt
          (signed (sign = ['-']) (digitsValue digits))))) ∧
    measured? bound = some (boundValue bound) ∧
    ∃ written, (boundValue bound).text? = some written ∧
      boundValue written = boundValue bound := by
  obtain ⟨blanks, sign, digits, rest, opening⟩ := opensSomehow bound.toList
  refine ⟨⟨blanks, sign, digits, rest, opening⟩, ?_, measuredOpening opening, ?_⟩
  · intro blanks sign digits rest opening
    have value := boundOpening opening
    refine ⟨fun none => ?_, fun filled => ?_⟩
    · rwa [if_pos none] at value
    · rw [if_neg filled] at value
      exact ⟨_, value, clampToInt _⟩
  · exact ⟨_, boundWritten bound, (boundAgain bound).2⟩

/-- Below the range by one, behind zeros and a blank that is not ASCII. -/
theorem boundsExactlyBeyond :
    boundValue "\u00a0-0009223372036854775809kg" = .integer Int64.minValue := by
  have opening : Opens "\u00a0-0009223372036854775809kg".toList
      ['\u00a0'] ['-'] "0009223372036854775809".toList ['k', 'g'] := {
    whole := rfl
    blank := List.all_eq_true.mp rfl
    solid := by rintro c ⟨⟩; rfl
    signs := .inl rfl
    digit := List.all_eq_true.mp rfl
    longest := by rintro c ⟨⟩; rfl }
  obtain ⟨n, value, same⟩ :=
    ((boundsExactly "\u00a0-0009223372036854775809kg").2.1 _ _ _ _ opening).2 (by decide)
  rw [value, ← Int64.ofInt_toInt n, same]
  decide

end FacetSearch
