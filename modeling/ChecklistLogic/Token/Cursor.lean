import ChecklistLogic.Token.Lexeme

/-!
# ChecklistLogic — reading tokens

A cursor reads the tokens of a text one at a time. After the last token it yields one end marker;
at a character of no lexeme it yields an error instead. After either it yields nothing more until
it is restarted.

* `Cursor.next?` is the next item together with the cursor behind it.
* `Cursor.items` is all that a cursor still has to yield.
* `Cursor.drain` takes all of it and `Cursor.count` counts it, both by taking one item at a time.
* `Token.ofText` is the whole token list of a text, or the error that stops it.
-/

namespace ChecklistLogic

/-- A character that belongs to no lexeme. The position counts the bytes before it. -/
structure LexError where
  position : Nat
  character : Char
  deriving DecidableEq

/-- The report of a character that belongs to no lexeme. -/
def LexError.message (e : LexError) : String :=
  "lex error at offset " ++ toString e.position ++ ": unexpected character '" ++
    String.singleton e.character ++ "'"

/-- What a cursor yields. -/
abbrev LexItem := Except LexError Token

/-- A place in a text from which tokens are read. -/
structure Cursor where
  /-- The whole text. -/
  source : List Char
  /-- What is left of it. -/
  rest : List Char
  /-- The number of bytes before `rest`. -/
  position : Nat
  /-- Whether the end marker or an error has been yielded. -/
  finished : Bool
  deriving DecidableEq

namespace Cursor

/-- A cursor at the start of a text. -/
def start (text : String) : Cursor :=
  ⟨text.toList, text.toList, 0, false⟩

/-- Goes back to the start of the text. -/
def restart (cursor : Cursor) : Cursor :=
  { cursor with rest := cursor.source, position := 0, finished := false }

/-- Passes over blanks. Each of them is one byte long. -/
def skipBlanks (cursor : Cursor) : Cursor :=
  { cursor with
    rest := cursor.rest.dropWhile isBlank
    position := cursor.position + (cursor.rest.takeWhile isBlank).length }

/-- Yields nothing more. -/
def finish (cursor : Cursor) : Cursor :=
  { cursor with finished := true }

/-- The item at a cursor that stands on no blank, and the cursor behind it. -/
def step (cursor : Cursor) : LexItem × Cursor :=
  match cursor.rest with
  | [] => (.ok (.endAt cursor.position), cursor.finish)
  | character :: _ =>
    match Lexeme.split? cursor.rest with
    | none => (.error ⟨cursor.position, character⟩, cursor.finish)
    | some (lexeme, rest) =>
      let token := lexeme.token cursor.position
      (.ok token, { cursor with rest, position := token.stop })

/-- The next item and the cursor behind it, unless the cursor is finished. -/
def next? (cursor : Cursor) : Option (LexItem × Cursor) :=
  if cursor.finished then none else some cursor.skipBlanks.step

/-- A bound on the number of items still to come. -/
def remaining (cursor : Cursor) : Nat :=
  if cursor.finished then 0 else cursor.rest.length + 1

theorem remaining_skipBlanks_le (cursor : Cursor) :
    cursor.skipBlanks.remaining ≤ cursor.remaining := by
  have hRest := (List.dropWhile_suffix isBlank : _ <:+ cursor.rest).length_le
  cases hFinished : cursor.finished <;> simp [remaining, skipBlanks, hFinished, hRest]

theorem remaining_step_lt {cursor : Cursor} (hOpen : cursor.finished = false) :
    cursor.step.2.remaining < cursor.remaining := by
  unfold step
  split
  · simp [remaining, finish, hOpen]
  · split
    · simp [remaining, finish, hOpen]
    · rename_i hSplit
      simpa [remaining, hOpen] using Lexeme.length_lt_of_split? hSplit

theorem remaining_lt_of_next? {cursor after : Cursor} {item : LexItem}
    (hNext : cursor.next? = some (item, after)) : after.remaining < cursor.remaining := by
  unfold next? at hNext
  split at hNext
  · simp at hNext
  · rename_i hOpen
    have hAfter : cursor.skipBlanks.step.2 = after := by simp_all
    have hBlanksOpen : cursor.skipBlanks.finished = false := by simpa [skipBlanks] using hOpen
    have hStep := remaining_step_lt hBlanksOpen
    have hBlanks := cursor.remaining_skipBlanks_le
    rw [hAfter] at hStep
    omega

/-- All items that are still to come. -/
def items (cursor : Cursor) : List LexItem :=
  match _hNext : cursor.next? with
  | none => []
  | some (item, after) => item :: after.items
termination_by cursor.remaining
decreasing_by exact remaining_lt_of_next? _hNext

/-- Takes all items that are still to come, one after the other. -/
def drain (cursor : Cursor) : List LexItem × Cursor :=
  match _hNext : cursor.next? with
  | none => ([], cursor)
  | some (item, after) =>
    let (items, last) := after.drain
    (item :: items, last)
termination_by cursor.remaining
decreasing_by exact remaining_lt_of_next? _hNext

/-- Counts all items that are still to come, and takes them. -/
def count (cursor : Cursor) : Nat × Cursor :=
  let (items, last) := cursor.drain
  (items.length, last)

@[simp]
theorem next?_finish (cursor : Cursor) : cursor.finish.next? = none := rfl

theorem items_of_next?_eq_none {cursor : Cursor} (hNext : cursor.next? = none) :
    cursor.items = [] := by
  rw [items]
  split <;> simp_all

theorem items_of_next?_eq_some {cursor after : Cursor} {item : LexItem}
    (hNext : cursor.next? = some (item, after)) : cursor.items = item :: after.items := by
  rw [items]
  split <;> simp_all

theorem drain_of_next?_eq_none {cursor : Cursor} (hNext : cursor.next? = none) :
    cursor.drain = ([], cursor) := by
  rw [drain]
  split <;> simp_all

theorem drain_of_next?_eq_some {cursor after : Cursor} {item : LexItem}
    (hNext : cursor.next? = some (item, after)) :
    cursor.drain = (item :: after.drain.1, after.drain.2) := by
  rw [drain]
  split <;> simp_all

/-- A cursor that is finished yields nothing more. -/
@[simp]
theorem items_finish (cursor : Cursor) : cursor.finish.items = [] :=
  items_of_next?_eq_none (next?_finish cursor)

end Cursor

/-- The tokens of a text with the end marker behind them, unless some character belongs to no
lexeme. -/
def Token.ofText (text : String) : Except LexError (List Token) :=
  (Cursor.start text).items.mapM id

end ChecklistLogic
