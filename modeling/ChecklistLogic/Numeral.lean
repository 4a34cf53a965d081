/-!
# ChecklistLogic — numerals

How the numbers of a rule are written and read. Numbers have 32 bits.

* `Numeral.text` writes decimal digits without a leading zero.
* `Numeral.read?` reads one or more decimal digits, leading zeros allowed, after at most one `+`,
  and refuses a value that needs more than 32 bits.
* `Numeral.read?_text`: every number reads back from its own digits.
-/

namespace ChecklistLogic.Numeral

/-- The decimal digits of a number. -/
def text (n : UInt32) : String :=
  toString n.toNat

/-- The characters after one leading `+`, if there is one. -/
def unsigned : List Char → List Char
  | '+' :: rest => rest
  | chars => chars

/-- The number that a run of decimal digits stands for, if it fits into 32 bits. -/
def ofDigits? (digits : List Char) : Option UInt32 :=
  if digits ≠ [] ∧ digits.all Char.isDigit then
    let value := Nat.ofDigitChars 10 digits 0
    if value < UInt32.size then some (UInt32.ofNat value) else none
  else none

/-- Reads a number: at most one `+`, then one or more decimal digits. -/
def read? (text : String) : Option UInt32 :=
  ofDigits? (unsigned text.toList)

theorem toList_text (n : UInt32) : (text n).toList = Nat.toDigits 10 n.toNat := by
  simp [text]

theorem isDigit_of_mem_text {n : UInt32} {c : Char} (hMem : c ∈ (text n).toList) :
    c.isDigit = true := by
  rw [toList_text] at hMem
  exact Nat.isDigit_of_mem_toDigits (by decide) (by decide) hMem

theorem toList_text_ne_nil (n : UInt32) : (text n).toList ≠ [] := by
  rw [toList_text]
  exact Nat.toDigits_ne_nil

/-- A run of digits is read as it stands. -/
theorem unsigned_of_all_isDigit {digits : List Char} (hDigits : ∀ c ∈ digits, c.isDigit = true) :
    unsigned digits = digits := by
  cases digits with
  | nil => rfl
  | cons c rest =>
    by_cases hPlus : c = '+'
    · subst hPlus
      exact absurd (hDigits '+' (by simp)) (by decide)
    · simp [unsigned, hPlus]

@[simp]
theorem read?_text (n : UInt32) : read? (text n) = some n := by
  have hDigits : ∀ c ∈ (text n).toList, c.isDigit = true := fun _ => isDigit_of_mem_text
  have hValue : Nat.ofDigitChars 10 (text n).toList 0 = n.toNat := by
    rw [toList_text, Nat.ofDigitChars_ten_toDigits]
  have hBound : n.toNat < UInt32.size := n.toNat_lt_size
  rw [read?, unsigned_of_all_isDigit hDigits, ofDigits?, if_pos, hValue, if_pos hBound]
  · simp
  · exact ⟨toList_text_ne_nil n, by simpa using hDigits⟩

end ChecklistLogic.Numeral
