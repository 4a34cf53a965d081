import ChecklistLogic.Form.Expr
import ChecklistLogic.Token.Lexeme
import Mathlib.Algebra.Order.Field.Rat
import Mathlib.Tactic.IntervalCases
import Mathlib.Tactic.Ring

/-!
# ChecklistLogic — tokens of XPath expressions

The text of a form expression as an XPath processor sees it: literals, numbers, references to
fields, names, signs, brackets and commas. The reading is a machine that looks at one character at
a time. Location paths, unions and variables are no part of it, since a form refers to its questions
as fields. A name has the characters of a field name, and colons.

* **Pending tokens** — a name, a number or one of the signs `<` and `>` ends only where the next
  character does not lengthen it. `Mode` holds what is pending and `Mode.flush` completes it.
* **Texts that end clearly** — a text `Closes` if nothing is pending behind it; then anything may
  follow. A text that merely `Scans` may have a last token pending; then a blank, a bracket or a
  comma has to follow (`Scans.append`).
-/

namespace ChecklistLogic.XPath

open Form

-- ---------------------------------------------------------------------------
-- Operators and tokens
-- ---------------------------------------------------------------------------

/-- The binary operators. -/
inductive Operator where
  | connective (connective : Connective)
  | relation (relation : Relation)
  | unequal
  | plus
  | minus
  | times
  | divided
  | modulo
  deriving DecidableEq

/-- How tightly an operator binds. -/
def Operator.level : Operator → Nat
  | .connective .or => 0
  | .connective .and => 1
  | .relation .equal | .unequal => 2
  | .relation (.order _) => 3
  | .plus | .minus => 4
  | .times | .divided | .modulo => 5

/-- A token of an expression. -/
inductive Token where
  /-- A text in quotes. -/
  | literal (text : String)
  | number (value : Rat)
  /-- A field by its name in braces behind a dollar sign. -/
  | field (field : FormField)
  /-- The name of a function or of an operator. -/
  | name (name : String)
  | sign (operator : Operator)
  | opening
  | closing
  | comma
  deriving DecidableEq

/-- The operators that are written as names. -/
def Operator.named : List (String × Operator) :=
  [(Connective.or.word, .connective .or), (Connective.and.word, .connective .and),
    ("div", .divided), ("mod", .modulo)]

/-- The operator that a token stands for behind an operand. -/
def Token.operator? : Token → Option Operator
  | .sign op => some op
  | .name word => Operator.named.lookup word
  | _ => none

@[simp]
theorem Token.operator?_word (connective : Connective) :
    operator? (.name connective.word) = some (.connective connective) := by
  cases connective <;> rfl

-- ---------------------------------------------------------------------------
-- Reading characters
-- ---------------------------------------------------------------------------

/-- What has been read of a token that is not complete. -/
inductive Mode where
  /-- Nothing. -/
  | start
  | name (chars : List Char)
  /-- Digits before a decimal point. -/
  | whole (digits : List Char)
  /-- A decimal point without digits before it. -/
  | point
  /-- Digits before and behind a decimal point. -/
  | places (digits fraction : List Char)
  /-- A quotation mark and what follows it. -/
  | literal (mark : Char) (chars : List Char)
  | dollar
  /-- A dollar sign, an opening brace and what follows it. -/
  | reference (chars : List Char)
  /-- The beginning of a sign, which may be a sign of its own. With `=` behind it it is `longer`. -/
  | sign (alone : Option Operator) (longer : Operator)

/-- Whether a name may go on with this character. -/
def isNamePart (c : Char) : Bool :=
  FormField.isNamePart c || c = ':'

/-- The number that is written with these digits before and behind its decimal point. -/
def decimal (digits fraction : List Char) : Rat :=
  (Nat.ofDigitChars 10 (digits ++ fraction) 0 : Rat) / (10 ^ fraction.length : Nat)

/-- The pending token, if it may end here. -/
def Mode.flush : Mode → Option (List Token)
  | .start => some []
  | .name chars => some [.name (String.ofList chars)]
  | .whole digits => some [.number (decimal digits [])]
  | .places digits fraction => some [.number (decimal digits fraction)]
  | .sign alone _ => alone.map fun operator => [.sign operator]
  | .point | .literal _ _ | .dollar | .reference _ => none

/-- Reads a character where no token is pending. -/
def begin (c : Char) : Option (List Token × Mode) :=
  if isBlank c then some ([], .start)
  else if FormField.isNameStart c then some ([], .name [c])
  else if c.isDigit then some ([], .whole [c])
  else match c with
    | '\'' | '"' => some ([], .literal c [])
    | '.' => some ([], .point)
    | '$' => some ([], .dollar)
    | '(' => some ([.opening], .start)
    | ')' => some ([.closing], .start)
    | ',' => some ([.comma], .start)
    | '=' => some ([.sign (.relation .equal)], .start)
    | '+' => some ([.sign .plus], .start)
    | '-' => some ([.sign .minus], .start)
    | '*' => some ([.sign .times], .start)
    | '!' => some ([], .sign none .unequal)
    | '<' => some ([], .sign (some (.relation (.order .lessThan))) (.relation (.order .atMost)))
    | '>' => some ([], .sign (some (.relation (.order .moreThan))) (.relation (.order .atLeast)))
    | _ => none

/-- Ends the pending token and reads a character behind it. -/
def Mode.leave (mode : Mode) (c : Char) : Option (List Token × Mode) := do
  let tokens ← mode.flush
  let (more, next) ← begin c
  some (tokens ++ more, next)

/-- Reads one character. -/
def Mode.step (mode : Mode) (c : Char) : Option (List Token × Mode) :=
  match mode with
  | .start => begin c
  | .name chars => if isNamePart c then some ([], .name (chars ++ [c])) else mode.leave c
  | .whole digits =>
    if c.isDigit then some ([], .whole (digits ++ [c]))
    else if c = '.' then some ([], .places digits [])
    else mode.leave c
  | .point => if c.isDigit then some ([], .places [] [c]) else none
  | .places digits fraction =>
    if c.isDigit then some ([], .places digits (fraction ++ [c])) else mode.leave c
  | .literal mark chars =>
    if c = mark then some ([.literal (String.ofList chars)], .start)
    else some ([], .literal mark (chars ++ [c]))
  | .dollar => if c = '\x7b' then some ([], .reference []) else none
  | .reference chars =>
    if c = '\x7d' then
      (FormField.ofName? (String.ofList chars)).map fun field => ([.field field], .start)
    else some ([], .reference (chars ++ [c]))
  | .sign _ longer => if c = '=' then some ([.sign longer], .start) else mode.leave c

/-- Reads characters one after the other. -/
def Mode.run : Mode → List Char → Option (List Token × Mode)
  | mode, [] => some ([], mode)
  | mode, c :: rest => do
    let (tokens, next) ← mode.step c
    let (more, last) ← next.run rest
    some (tokens ++ more, last)

/-- The tokens of a text. -/
def Token.ofText? (text : String) : Option (List Token) := do
  let (tokens, last) ← Mode.start.run text.toList
  let more ← last.flush
  some (tokens ++ more)

/-- What is read behind a text depends on what that text leaves pending, and on nothing else. -/
theorem Mode.run_append_of {mode middle : Mode} {front : List Char} {tokens : List Token}
    (hFront : mode.run front = some (tokens, middle)) (back : List Char) :
    mode.run (front ++ back) = (middle.run back).map fun more => (tokens ++ more.1, more.2) := by
  induction front generalizing mode tokens with
  | nil =>
    obtain ⟨rfl, rfl⟩ : [] = tokens ∧ mode = middle := by simpa [run] using hFront
    cases hBack : mode.run back <;> simp [hBack]
  | cons c rest ih =>
    simp only [run, Option.bind_eq_bind, Option.bind_eq_some_iff, Option.some.injEq, Prod.mk.injEq,
      Prod.exists] at hFront
    obtain ⟨first, next, hStep, others, stop, hRest, rfl, rfl⟩ := hFront
    cases hBack : stop.run back <;> simp [run, hStep, ih hRest, hBack]

theorem Mode.run_append {mode middle last : Mode} {front back : List Char}
    {tokens more : List Token} (hFront : mode.run front = some (tokens, middle))
    (hBack : middle.run back = some (more, last)) :
    mode.run (front ++ back) = some (tokens ++ more, last) := by
  rw [run_append_of hFront, hBack]
  rfl

/-- Characters that only lengthen the pending token. -/
theorem Mode.run_of_step {pending : List Char → Mode} {chars : List Char}
    (hStep : ∀ before, ∀ c ∈ chars, (pending before).step c = some ([], pending (before ++ [c])))
    (before : List Char) : (pending before).run chars = some ([], pending (before ++ chars)) := by
  induction chars generalizing before with
  | nil => simp [run]
  | cons c rest ih =>
    have hRest : ∀ before, ∀ d ∈ rest, (pending before).step d =
        some ([], pending (before ++ [d])) := fun before d hMem => hStep before d (by simp [hMem])
    have hFirst := hStep before c (by simp)
    simp [run, hFirst, ih hRest]

-- ---------------------------------------------------------------------------
-- Putting texts together
-- ---------------------------------------------------------------------------

/-- The text gives the tokens. -/
def Scans (text : String) (tokens : List Token) : Prop :=
  Token.ofText? text = some tokens

/-- The text gives the tokens and leaves nothing pending. -/
def Closes (text : String) (tokens : List Token) : Prop :=
  Mode.start.run text.toList = some (tokens, .start)

/-- A character that ends whatever may end. -/
def isBreak (c : Char) : Bool :=
  c = ' ' || c = '(' || c = ')' || c = ','

theorem Mode.step_of_isBreak {mode : Mode} {tokens : List Token} {c : Char}
    (hFlush : mode.flush = some tokens) (hBreak : isBreak c = true) :
    mode.step c = (begin c).map fun next => (tokens ++ next.1, next.2) := by
  have hLeave : mode.leave c = (begin c).map fun next => (tokens ++ next.1, next.2) := by
    unfold leave
    rw [hFlush]
    cases begin c <;> rfl
  rw [← hLeave]
  have hCases : c = ' ' ∨ c = '(' ∨ c = ')' ∨ c = ',' := by
    simpa [isBreak, or_assoc] using hBreak
  have hName : isNamePart c = false := by rcases hCases with rfl | rfl | rfl | rfl <;> decide
  have hDigit : c.isDigit = false := by rcases hCases with rfl | rfl | rfl | rfl <;> decide
  have hPoint : c ≠ '.' := by rcases hCases with rfl | rfl | rfl | rfl <;> decide
  have hEquals : c ≠ '=' := by rcases hCases with rfl | rfl | rfl | rfl <;> decide
  cases mode with
  | start =>
    obtain rfl : [] = tokens := by simpa [flush] using hFlush
    rw [hLeave]
    cases hBegin : begin c <;> simp [step, hBegin]
  | name => simp [step, hName]
  | whole => simp [step, hDigit, hPoint]
  | places => simp [step, hDigit]
  | sign => simp [step, hEquals]
  | point | literal | dollar | reference => simp [flush] at hFlush

theorem Closes.scans {text : String} {tokens : List Token} (hText : Closes text tokens) :
    Scans text tokens := by
  unfold Closes at hText
  simp [Scans, Token.ofText?, hText, Mode.flush]

theorem Closes.append {front back : String} {tokens more : List Token}
    (hFront : Closes front tokens) (hBack : Closes back more) :
    Closes (front ++ back) (tokens ++ more) := by
  unfold Closes at *
  rw [String.toList_append]
  exact Mode.run_append hFront hBack

/-- Behind a text that leaves nothing pending, a text is read as it is by itself. -/
theorem Closes.ofText?_append {front : String} {tokens : List Token}
    (hFront : Closes front tokens) (back : String) :
    Token.ofText? (front ++ back) = (Token.ofText? back).map fun more => tokens ++ more := by
  have hRun := Mode.run_append_of hFront back.toList
  unfold Token.ofText?
  rw [String.toList_append, hRun]
  cases hBack : Mode.start.run back.toList with
  | none => rfl
  | some read =>
    obtain ⟨more, last⟩ := read
    cases hFlush : last.flush <;> simp [hFlush]

theorem Closes.append_scans {front back : String} {tokens more : List Token}
    (hFront : Closes front tokens) (hBack : Scans back more) :
    Scans (front ++ back) (tokens ++ more) := by
  unfold Scans at *
  rw [hFront.ofText?_append, hBack]
  rfl

/-- A text with a token pending ends where the next text begins with a break. -/
theorem Scans.append {front back : String} {tokens more : List Token} (hFront : Scans front tokens)
    (hBack : Closes back more) (hBreak : ∃ c ∈ back.toList.head?, isBreak c = true) :
    Closes (front ++ back) (tokens ++ more) := by
  obtain ⟨c, hHead, hBreak⟩ := hBreak
  obtain ⟨rest, hChars⟩ := List.head?_eq_some_iff.1 hHead
  unfold Closes at hBack ⊢
  simp only [Scans, Token.ofText?, Option.bind_eq_bind, Option.bind_eq_some_iff, Option.some.injEq,
    Prod.exists] at hFront
  obtain ⟨first, last, hRun, pending, hFlush, rfl⟩ := hFront
  rw [String.toList_append, List.append_assoc]
  refine Mode.run_append hRun ?_
  rw [hChars] at hBack ⊢
  simp only [Mode.run, Option.bind_eq_bind, Option.bind_eq_some_iff, Option.some.injEq,
    Prod.mk.injEq, Prod.exists] at hBack ⊢
  obtain ⟨second, next, hBegin, others, stop, hRest, rfl, rfl⟩ := hBack
  refine ⟨pending ++ second, next, ?_, others, _, hRest, by simp, rfl⟩
  rw [Mode.step_of_isBreak hFlush hBreak]
  rw [show begin c = some (second, next) from hBegin]
  rfl

-- ---------------------------------------------------------------------------
-- Literals, references and numbers
-- ---------------------------------------------------------------------------

/-- No apostrophe is among the characters of the text. -/
def NoApostrophe (text : String) : Prop :=
  ∀ c ∈ text.toList, c ≠ '\''

theorem closes_quote {text : String} (hText : NoApostrophe text) :
    Closes (quote text) [.literal text] := by
  have hPending : ∀ before, ∀ c ∈ text.toList, (Mode.literal '\'' before).step c =
      some ([], .literal '\'' (before ++ [c])) := by
    intro before c hMem
    simp [Mode.step, hText c hMem]
  have hOpen : Mode.start.run ['\''] = some ([], .literal '\'' []) := rfl
  have hBody := Mode.run_of_step hPending []
  have hEnd : (Mode.literal '\'' text.toList).run ['\''] = some ([.literal text], .start) := by
    simp [Mode.run, Mode.step]
  have hChars : (quote text).toList = ['\''] ++ (text.toList ++ ['\'']) := by
    simp [quote]
  unfold Closes
  rw [hChars]
  exact Mode.run_append hOpen (Mode.run_append hBody hEnd)

theorem closes_reference (field : FormField) : Closes field.reference [.field field] := by
  have hPending : ∀ before, ∀ c ∈ field.name.toList, (Mode.reference before).step c =
      some ([], .reference (before ++ [c])) := by
    intro before c hMem
    have hBrace : c ≠ '\x7d' := by
      rintro rfl
      exact absurd (field.isNamePart_of_mem_name hMem) (by decide)
    simp [Mode.step, hBrace]
  have hOpen : Mode.start.run ['$', '\x7b'] = some ([], .reference []) := rfl
  have hBody := Mode.run_of_step hPending []
  have hEnd : (Mode.reference field.name.toList).run ['\x7d'] = some ([.field field], .start) := by
    simp [Mode.run, Mode.step]
  have hChars : field.reference.toList = ['$', '\x7b'] ++ (field.name.toList ++ ['\x7d']) := by
    simp [FormField.reference]
  unfold Closes
  rw [hChars]
  exact Mode.run_append hOpen (Mode.run_append hBody hEnd)

theorem run_toDigits (n : Nat) :
    Mode.start.run (Nat.toDigits 10 n) = some ([], .whole (Nat.toDigits 10 n)) := by
  have hDigits : ∀ c ∈ Nat.toDigits 10 n, c.isDigit = true := fun c hMem =>
    Nat.isDigit_of_mem_toDigits (by decide) (by decide) hMem
  cases hText : Nat.toDigits 10 n with
  | nil => exact absurd hText Nat.toDigits_ne_nil
  | cons first more =>
    rw [hText] at hDigits
    have hFirst : first.isDigit = true := hDigits first (by simp)
    have hPending : ∀ before, ∀ c ∈ more, (Mode.whole before).step c =
        some ([], .whole (before ++ [c])) := by
      intro before c hMem
      simp [Mode.step, hDigits c (by simp [hMem])]
    have hBegin : begin first = some ([], .whole [first]) := by
      have hBlank : isBlank first = false := by
        refine Bool.eq_false_iff.2 fun hBlank => ?_
        have hCases : first = ' ' ∨ first = '\t' ∨ first = '\r' ∨ first = '\n' := by
          simpa [isBlank, or_assoc] using hBlank
        rcases hCases with rfl | rfl | rfl | rfl <;> exact absurd hFirst (by decide)
      have hUnderscore : first ≠ '_' := by
        rintro rfl
        exact absurd hFirst (by decide)
      simp [begin, hBlank, FormField.isNameStart, Lexeme.isAlpha_eq_false_of_isDigit hFirst,
        hUnderscore, hFirst]
    have hOpen : Mode.start.run [first] = some ([], .whole [first]) := by
      simp [Mode.run, Mode.step, hBegin]
    exact Mode.run_append hOpen (Mode.run_of_step hPending [first])

theorem digitChar_ne_zero {digit : Nat} (hPositive : 0 < digit) (hLess : digit < 10) :
    digit.digitChar ≠ '0' := by
  interval_cases digit <;> decide

/-- The decimal places of a number of hundredths below one: at most two, and the last of them is
not zero. -/
theorem exists_places {count : Nat} (hCount : count < 100) :
    ∃ fraction : List Char,
      (Hundredths.places count).toList = (if fraction = [] then [] else '.' :: fraction) ∧
      (∀ c ∈ fraction, c.isDigit = true) ∧
      Nat.ofDigitChars 10 fraction 0 * 100 = count * 10 ^ fraction.length ∧
      fraction.length ≤ 2 ∧ fraction.getLast? ≠ some '0' := by
  have hDigits : ∀ n, ∀ c ∈ Nat.toDigits 10 n, c.isDigit = true := fun n c hMem =>
    Nat.isDigit_of_mem_toDigits (by decide) (by decide) hMem
  unfold Hundredths.places
  by_cases hZero : count = 0
  · refine ⟨[], ?_, ?_, ?_, ?_, ?_⟩ <;> simp [hZero]
  · rw [if_neg hZero]
    by_cases hTens : count % 10 = 0
    · rw [if_pos hTens]
      have hSingle : Nat.toDigits 10 (count / 10) = [(count / 10).digitChar] :=
        Nat.toDigits_of_lt_base (by omega)
      have hLast : (count / 10).digitChar ≠ '0' := digitChar_ne_zero (by omega) (by omega)
      refine ⟨Nat.toDigits 10 (count / 10), by simp, hDigits _, ?_, ?_, ?_⟩
      · rw [Nat.ofDigitChars_ten_toDigits, hSingle, List.length_singleton]
        omega
      · simp [hSingle]
      · rw [hSingle]
        simpa using hLast
    · rw [if_neg hTens]
      by_cases hSmall : count < 10
      · rw [if_pos hSmall]
        have hSingle : Nat.toDigits 10 count = [count.digitChar] :=
          Nat.toDigits_of_lt_base hSmall
        have hLast : count.digitChar ≠ '0' := digitChar_ne_zero (by omega) hSmall
        refine ⟨'0' :: Nat.toDigits 10 count, by simp, ?_, ?_, ?_, ?_⟩
        · intro c hMem
          rcases List.mem_cons.1 hMem with rfl | hRest
          · rfl
          · exact hDigits _ c hRest
        · have hValue : Nat.ofDigitChars 10 ('0' :: Nat.toDigits 10 count) 0 = count := by
            rw [Nat.ofDigitChars_cons]
            exact Nat.ofDigitChars_ten_toDigits
          rw [hValue, hSingle, List.length_cons, List.length_singleton]
          omega
        · simp [hSingle]
        · rw [hSingle]
          simpa using hLast
      · rw [if_neg hSmall]
        have hPair : Nat.toDigits 10 count = [(count / 10).digitChar, (count % 10).digitChar] := by
          rw [Nat.toDigits_of_base_le (by decide) (by omega), Nat.toDigits_of_lt_base (by omega)]
          rfl
        have hLast : (count % 10).digitChar ≠ '0' := digitChar_ne_zero (by omega) (by omega)
        refine ⟨Nat.toDigits 10 count, by simp, hDigits _, ?_, ?_, ?_⟩
        · rw [Nat.ofDigitChars_ten_toDigits, hPair, List.length_cons, List.length_singleton]
          omega
        · simp [hPair]
        · rw [hPair]
          simpa using hLast

/-- The value of a number of hundredths. -/
def hundredthsValue (n : Hundredths) : Rat :=
  n.count / 100

/-- A number of hundredths has the value that is written with its whole part and its decimal
places. -/
theorem decimal_hundredths {n : Hundredths} {fraction : List Char}
    (hPlaces : Nat.ofDigitChars 10 fraction 0 * 100 = n.count % 100 * 10 ^ fraction.length) :
    decimal (Nat.toDigits 10 (n.count / 100)) fraction = hundredthsValue n := by
  have hScale : ((10 ^ fraction.length : Nat) : Rat) ≠ 0 := by
    have hPositive : 0 < 10 ^ fraction.length := Nat.pow_pos (by decide)
    exact_mod_cast hPositive.ne'
  have hCount : 100 * (n.count / 100) + n.count % 100 = n.count := by omega
  have hWhole : Nat.ofDigitChars 10 (Nat.toDigits 10 (n.count / 100)) 0 = n.count / 100 :=
    Nat.ofDigitChars_ten_toDigits
  have hValue : Nat.ofDigitChars 10 (Nat.toDigits 10 (n.count / 100) ++ fraction) 0 * 100 =
      n.count * 10 ^ fraction.length := by
    rw [Nat.ofDigitChars_append, hWhole, Nat.ofDigitChars_eq_ofDigitChars_zero, Nat.add_mul,
      hPlaces]
    generalize 10 ^ fraction.length = scale
    calc scale * (n.count / 100) * 100 + n.count % 100 * scale
        = (100 * (n.count / 100) + n.count % 100) * scale := by ring
      _ = n.count * scale := by rw [hCount]
  unfold decimal hundredthsValue
  rw [div_eq_div_iff hScale (by decide)]
  exact_mod_cast hValue

theorem scans_hundredths (n : Hundredths) : Scans n.text [.number (hundredthsValue n)] := by
  have hWhole := run_toDigits (n.count / 100)
  have hText : n.text.toList =
      Nat.toDigits 10 (n.count / 100) ++ (Hundredths.places (n.count % 100)).toList := by
    simp [Hundredths.text]
  obtain ⟨fraction, hPlaces, hDigits, hValue, -, -⟩ :=
    exists_places (Nat.mod_lt n.count (by decide : 100 > 0))
  have hSame := decimal_hundredths hValue
  unfold Scans Token.ofText?
  rw [hText, hPlaces]
  cases fraction with
  | nil =>
    -- no decimal point: the digits are still pending at the end
    simp [hWhole, Mode.flush, hSame]
  | cons first more =>
    have hPoint : (Mode.whole (Nat.toDigits 10 (n.count / 100))).run ['.'] =
        some ([], .places (Nat.toDigits 10 (n.count / 100)) []) := by
      simp [Mode.run, Mode.step]
    have hPending : ∀ before, ∀ c ∈ first :: more,
        (Mode.places (Nat.toDigits 10 (n.count / 100)) before).step c =
          some ([], .places (Nat.toDigits 10 (n.count / 100)) (before ++ [c])) := by
      intro before c hMem
      simp [Mode.step, hDigits c hMem]
    have hRun := Mode.run_append hWhole (Mode.run_append hPoint (Mode.run_of_step hPending []))
    have hChars : (if first :: more = [] then [] else '.' :: first :: more) =
        ['.'] ++ (first :: more) := rfl
    rw [hChars, hRun]
    simp [Mode.flush, hSame]

end ChecklistLogic.XPath
