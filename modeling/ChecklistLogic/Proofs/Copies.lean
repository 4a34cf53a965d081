import ChecklistLogic.Proofs.Foreign
import Mathlib.Logic.Function.Basic

/-!
# ChecklistLogic — copies of a cursor

Cursors may be copied, and every copy goes on by itself: it is asked for its next item, restarted,
counted or drained, in any order. What comes of this can be told from the items of the text, which
are the same for all copies, and from the number of items that a copy has taken.

* **The items of a text** — `IsStream` has one case for a text that scans and one for a text with a
  foreign character. Every text has one stream, the items of a cursor at its start
  (`isStream_iff`).
* **One operation** — a cursor that has taken some items of a text (`Cursor.HasTaken`) replies as
  `Use.reply` says, and has then taken as many more as it has given (`Cursor.HasTaken.use`).
* **Many operations** — `Copies.run` operates on cursors, and `Tally.run` on numbers of items taken.
  Their replies are the same (`Copies.run_of_hasTaken`).

Main result: `Copies.replies_eq_tally`.
-/

namespace ChecklistLogic

-- ---------------------------------------------------------------------------
-- The items of a text
-- ---------------------------------------------------------------------------

/-- The items that a text yields: its tokens and the end marker, or the tokens in front of the first
foreign character and the error for it. -/
inductive IsStream (text : String) : List LexItem → Prop where
  | whole {body : List Token} {stop : Nat} (hScan : Scan 0 text.toList body stop) :
      IsStream text (body.map .ok ++ [.ok (.endAt stop)])
  | broken {front rest : List Char} {c : Char} {body : List Token} {position : Nat}
      (hText : text.toList = front ++ c :: rest) (hForeign : Lexeme.isForeign c = true)
      (hScan : Scan 0 front body position) :
      IsStream text (body.map .ok ++ [.error ⟨position, c⟩])

variable {text : String} {stream : List LexItem}

/-- A text has one stream, which a cursor at its start has before it. -/
theorem isStream_iff : IsStream text stream ↔ stream = (Cursor.start text).items := by
  constructor
  · rintro (hScan | ⟨hText, hForeign, hScan⟩)
    · exact (hScan.items text.toList).symm
    · exact (Cursor.items_start_of_isForeign hText hForeign hScan).symm
  · rintro rfl
    rcases Scan.exists_or_isForeign 0 text.toList with
      ⟨body, hScan⟩ | ⟨front, c, rest, body, hText, hForeign, hScan⟩
    · rw [Cursor.start, hScan.items]
      exact .whole hScan
    · rw [Cursor.items_start_of_isForeign hText hForeign hScan]
      exact .broken hText hForeign hScan

namespace IsStream

/-- The tokens of a text are its stream, if that has no error in it. -/
theorem ofText_eq_ok_iff (hStream : IsStream text stream) {tokens : List Token} :
    Token.ofText text = .ok tokens ↔ stream = tokens.map .ok := by
  have hInjective : Function.Injective (Except.ok : Token → LexItem) := fun _ _ => Except.ok.inj
  cases hStream with
  | @whole body stop hScan =>
    have hMarked : (body.map .ok ++ [.ok (.endAt stop)] : List LexItem) =
        (body ++ [Token.endAt stop]).map .ok := by simp
    rw [Token.ofText_of_scan hScan, hMarked, (List.map_injective_iff.2 hInjective).eq_iff,
      Except.ok.injEq]
  | @broken front rest c body position hText hForeign hScan =>
    rw [Token.ofText_of_isForeign hText hForeign hScan]
    constructor
    · intro hOk
      cases hOk
    · intro hSame
      have hMem : (.error ⟨position, c⟩ : LexItem) ∈ tokens.map Except.ok := by simp [← hSame]
      simp at hMem

/-- An error in a stream is its last item. -/
theorem error_mem_iff (hStream : IsStream text stream) {e : LexError} :
    .error e ∈ stream ↔ stream.getLast? = some (.error e) := by
  cases hStream <;> simp [eq_comm]

/-- A text has no tokens if there is an error in its stream, which is the one reported. -/
theorem ofText_eq_error_iff (hStream : IsStream text stream) {e : LexError} :
    Token.ofText text = .error e ↔ .error e ∈ stream := by
  cases hStream with
  | whole hScan => simp [Token.ofText_of_scan hScan]
  | broken hText hForeign hScan =>
    simp [Token.ofText_of_isForeign hText hForeign hScan, eq_comm]

end IsStream

-- ---------------------------------------------------------------------------
-- One operation on a cursor
-- ---------------------------------------------------------------------------

namespace Cursor

/-- What a cursor is used for. -/
inductive Use where
  | next
  | restart
  | count
  | drain
  deriving DecidableEq

/-- What a use gives. -/
inductive Reply where
  | item (item? : Option LexItem)
  | done
  | number (n : Nat)
  | items (given : List LexItem)
  deriving DecidableEq

/-- Uses a cursor, which gives a reply and the cursor behind it. -/
def use (cursor : Cursor) : Use → Reply × Cursor
  | .next =>
    match cursor.next? with
    | none => (.item none, cursor)
    | some (item, after) => (.item (some item), after)
  | .restart => (.done, cursor.restart)
  | .count => (.number cursor.count.1, cursor.count.2)
  | .drain => (.items cursor.drain.1, cursor.drain.2)

/-- How many items a reply gives away. -/
def Reply.taken : Reply → Nat
  | .item none | .done => 0
  | .item (some _) => 1
  | .number n => n
  | .items given => given.length

/-- The reply to a use after some items of a stream have been taken. -/
def Use.reply (stream : List LexItem) (taken : Nat) : Use → Reply
  | .next => .item stream[taken]?
  | .restart => .done
  | .count => .number (stream.drop taken).length
  | .drain => .items (stream.drop taken)

/-- How many items have been taken since the last restart, after one more reply. -/
def Use.tally (taken : Nat) (reply : Reply) : Use → Nat
  | .restart => 0
  | _ => taken + reply.taken

/-- Whether a cursor is one of a text, with the number of bytes in front of what is left of it for
its position. -/
structure StandsIn (text : String) (cursor : Cursor) : Prop where
  source : cursor.source = text.toList
  rest : ∃ front, text.toList = front ++ cursor.rest ∧ cursor.position = byteCount front

/-- Whether a cursor stands in a text behind so many of its items. -/
structure HasTaken (text : String) (taken : Nat) (cursor : Cursor) : Prop where
  stands : cursor.StandsIn text
  items : cursor.items = (start text).items.drop taken

theorem hasTaken_start (text : String) : (start text).HasTaken text 0 :=
  ⟨⟨rfl, [], rfl, rfl⟩, rfl⟩

namespace StandsIn

variable {cursor after : Cursor}

theorem skipBlanks (hStands : cursor.StandsIn text) : cursor.skipBlanks.StandsIn text := by
  obtain ⟨hSource, front, hText, hPosition⟩ := hStands
  have hBlank : ∀ c ∈ cursor.rest.takeWhile isBlank, isBlank c = true := fun _ =>
    List.mem_takeWhile_imp
  refine ⟨hSource, front ++ cursor.rest.takeWhile isBlank, ?_, ?_⟩
  · rw [hText, List.append_assoc]
    exact congrArg _ List.takeWhile_append_dropWhile.symm
  · rw [byteCount_append, byteCount_of_isBlank hBlank, ← hPosition]
    rfl

theorem step (hStands : cursor.StandsIn text) : cursor.step.2.StandsIn text := by
  obtain ⟨hSource, front, hText, hPosition⟩ := hStands
  unfold Cursor.step
  split
  · exact ⟨hSource, front, hText, hPosition⟩
  · split
    · exact ⟨hSource, front, hText, hPosition⟩
    · rename_i lexeme rest hSplit
      refine ⟨hSource, front ++ lexeme.chars, ?_, ?_⟩
      · rw [hText, List.append_assoc, Lexeme.chars_append_of_split? hSplit]
      · rw [byteCount_append, ← hPosition]
        exact Lexeme.stop_token lexeme cursor.position

theorem of_next? {item : LexItem} (hStands : cursor.StandsIn text)
    (hNext : cursor.next? = some (item, after)) : after.StandsIn text := by
  unfold next? at hNext
  split at hNext
  · cases hNext
  · have hAfter : cursor.skipBlanks.step.2 = after := by simp_all
    rw [← hAfter]
    exact hStands.skipBlanks.step

end StandsIn

namespace HasTaken

variable {cursor after : Cursor} {taken : Nat}

theorem restart (hTaken : cursor.HasTaken text taken) : cursor.restart.HasTaken text 0 := by
  have hStart : cursor.restart = start text := by
    simp only [Cursor.restart, start, hTaken.stands.source]
  rw [hStart]
  exact hasTaken_start text

/-- What comes next is the first item of those that have not been taken. -/
theorem of_next? {item : LexItem} (hTaken : cursor.HasTaken text taken)
    (hNext : cursor.next? = some (item, after)) :
    (start text).items.drop taken = item :: (start text).items.drop (taken + 1) ∧
      after.HasTaken text (taken + 1) := by
  have hItems : (start text).items.drop taken = item :: after.items := by
    rw [← hTaken.items, items_of_next?_eq_some hNext]
  have hAfter : after.items = (start text).items.drop (taken + 1) := by
    rw [← List.tail_drop, hItems]
    rfl
  exact ⟨hAfter ▸ hItems, hTaken.stands.of_next? hNext, hAfter⟩

/-- Nothing comes next if all items have been taken. -/
theorem of_next?_eq_none (hTaken : cursor.HasTaken text taken) (hNext : cursor.next? = none) :
    (start text).items.drop taken = [] := by
  rw [← hTaken.items, items_of_next?_eq_none hNext]

/-- Draining takes all items that have not been taken. -/
theorem drain (hTaken : cursor.HasTaken text taken) :
    cursor.drain.1 = (start text).items.drop taken ∧
      cursor.drain.2.HasTaken text (taken + cursor.drain.1.length) := by
  induction cursor using Cursor.drain.induct generalizing taken with
  | case1 cursor hNext =>
    rw [drain_of_next?_eq_none hNext]
    exact ⟨(hTaken.of_next?_eq_none hNext).symm, hTaken⟩
  | case2 cursor item after hNext _ _ _ ih =>
    obtain ⟨hItem, hAfter⟩ := hTaken.of_next? hNext
    obtain ⟨hItems, hLast⟩ := ih hAfter
    rw [drain_of_next?_eq_some hNext]
    refine ⟨?_, ?_⟩
    · rw [hItem, hItems]
    · rwa [List.length_cons, Nat.add_comm _ 1, ← Nat.add_assoc]

/-- The reply to a use is told by the number of items taken before, and gives the number after. -/
theorem use (hTaken : cursor.HasTaken text taken) (use : Use) :
    (cursor.use use).1 = use.reply (start text).items taken ∧
      (cursor.use use).2.HasTaken text (use.tally taken (cursor.use use).1) := by
  cases use with
  | next =>
    unfold Cursor.use
    cases hNext : cursor.next? with
    | none =>
      have hNone := hTaken.of_next?_eq_none hNext
      refine ⟨congrArg Reply.item ?_, hTaken⟩
      rw [← List.head?_drop, hNone]
      rfl
    | some pair =>
      obtain ⟨hItem, hAfter⟩ := hTaken.of_next? hNext
      refine ⟨congrArg Reply.item ?_, hAfter⟩
      rw [← List.head?_drop, hItem]
      rfl
  | restart => exact ⟨rfl, hTaken.restart⟩
  | count =>
    obtain ⟨hItems, hLast⟩ := hTaken.drain
    exact ⟨congrArg (fun items : List LexItem => Reply.number items.length) hItems, hLast⟩
  | drain =>
    obtain ⟨hItems, hLast⟩ := hTaken.drain
    exact ⟨congrArg Reply.items hItems, hLast⟩

end HasTaken

/-- A cursor that has nothing more to yield stays so, but for a restart. -/
theorem use_of_next?_eq_none {cursor : Cursor} (hNext : cursor.next? = none) {use : Use}
    (hUse : use ≠ .restart) : (cursor.use use).2 = cursor := by
  cases use with
  | restart => exact absurd rfl hUse
  | next =>
    unfold Cursor.use
    rw [hNext]
  | count => exact congrArg Prod.snd (drain_of_next?_eq_none hNext)
  | drain => exact congrArg Prod.snd (drain_of_next?_eq_none hNext)

end Cursor

-- ---------------------------------------------------------------------------
-- Operations on many copies
-- ---------------------------------------------------------------------------

open Cursor

variable {Name : Type} [DecidableEq Name]

/-- What is done with named cursors. -/
inductive Operation (Name : Type) where
  /-- One of them is used. -/
  | use (name : Name) (use : Use)
  /-- A copy of one of them gets a name, which may have been that of another cursor. -/
  | copy (source target : Name)
  deriving DecidableEq

namespace Operation

/-- The cursor that an operation changes. -/
def target : Operation Name → Name
  | .use name _ => name
  | .copy _ target => target

/-- Whether an operation uses a cursor, but does not restart it. -/
def Continues (name : Name) (operation : Operation Name) : Prop :=
  ∃ use, operation = .use name use ∧ use ≠ .restart

end Operation

/-- Cursors by their names. -/
abbrev Copies (Name : Type) := Name → Cursor

namespace Copies

/-- The cursors that all stand at the start of a text. -/
def start (text : String) : Copies Name :=
  fun _ => Cursor.start text

/-- One operation: its reply and the cursors afterwards. -/
def operate (copies : Copies Name) : Operation Name → Reply × Copies Name
  | .use name use =>
    (((copies name).use use).1, Function.update copies name ((copies name).use use).2)
  | .copy source target => (.done, Function.update copies target (copies source))

/-- Operations one after the other: their replies and the cursors after all of them. -/
def run (copies : Copies Name) : List (Operation Name) → List Reply × Copies Name
  | [] => ([], copies)
  | operation :: rest =>
    let (reply, after) := copies.operate operation
    let (replies, last) := after.run rest
    (reply :: replies, last)

end Copies

/-- How many items each copy has taken since it was restarted. A copy has taken what the cursor had
taken of which it is one. -/
abbrev Tally (Name : Type) := Name → Nat

namespace Tally

/-- The tally after one more operation and its reply. -/
def record (tally : Tally Name) (reply : Reply) : Operation Name → Tally Name
  | .use name use => Function.update tally name (use.tally (tally name) reply)
  | .copy source target => Function.update tally target (tally source)

/-- The reply to an operation on copies that share a stream. -/
def reply (stream : List LexItem) (tally : Tally Name) : Operation Name → Reply
  | .use name use => use.reply stream (tally name)
  | .copy _ _ => .done

/-- The replies to operations one after the other. -/
def replies (stream : List LexItem) (tally : Tally Name) : List (Operation Name) → List Reply
  | [] => []
  | operation :: rest =>
    let reply := tally.reply stream operation
    reply :: (tally.record reply operation).replies stream rest

end Tally

namespace Copies

variable {copies : Copies Name} {tally : Tally Name} {name : Name}

theorem operate_of_hasTaken (hTaken : ∀ name, (copies name).HasTaken text (tally name))
    (operation : Operation Name) :
    (copies.operate operation).1 = tally.reply (Cursor.start text).items operation ∧
      ∀ name, ((copies.operate operation).2 name).HasTaken text
        (tally.record (copies.operate operation).1 operation name) := by
  cases operation with
  | use used use =>
    obtain ⟨hReply, hAfter⟩ := (hTaken used).use use
    refine ⟨hReply, fun name => ?_⟩
    by_cases hName : name = used
    · subst hName
      simpa [operate, Tally.record] using hAfter
    · simpa [operate, Tally.record, hName] using hTaken name
  | copy source target =>
    refine ⟨rfl, fun name => ?_⟩
    by_cases hName : name = target
    · subst hName
      simpa [operate, Tally.record] using hTaken source
    · simpa [operate, Tally.record, hName] using hTaken name

/-- The replies are those that the tally tells, and every copy is left in its text. -/
theorem run_of_hasTaken (hTaken : ∀ name, (copies name).HasTaken text (tally name))
    (operations : List (Operation Name)) :
    (copies.run operations).1 = tally.replies (Cursor.start text).items operations ∧
      ∀ name, ∃ taken, ((copies.run operations).2 name).HasTaken text taken := by
  induction operations generalizing copies tally with
  | nil => exact ⟨rfl, fun name => ⟨_, hTaken name⟩⟩
  | cons operation rest ih =>
    obtain ⟨hReply, hAfter⟩ := operate_of_hasTaken hTaken operation
    obtain ⟨hReplies, hLast⟩ := ih hAfter
    refine ⟨?_, hLast⟩
    rw [Tally.replies, ← hReply, ← hReplies]
    rfl

/-- An operation on another copy leaves a copy as it is. -/
theorem operate_of_target_ne {operation : Operation Name} (hTarget : operation.target ≠ name) :
    (copies.operate operation).2 name = copies name := by
  cases operation with
  | use used use => exact Function.update_of_ne hTarget.symm _ _
  | copy source target => exact Function.update_of_ne hTarget.symm _ _

/-- So does any operation but a restart and a new copy, if nothing is left of its items. -/
theorem operate_of_continues {operation : Operation Name} (hNext : (copies name).next? = none)
    (hOperation : operation.Continues name) : (copies.operate operation).2 name = copies name := by
  obtain ⟨use, rfl, hUse⟩ := hOperation
  show Function.update copies name _ name = _
  rw [Function.update_self, use_of_next?_eq_none hNext hUse]

/-- Operations leave a copy as it is if each of them does. -/
theorem run_eq_of_forall {operations : List (Operation Name)}
    (hEach : ∀ operation ∈ operations, operation.target ≠ name ∨
      (copies name).next? = none ∧ operation.Continues name) :
    (copies.run operations).2 name = copies name := by
  induction operations generalizing copies with
  | nil => rfl
  | cons operation rest ih =>
    obtain ⟨hFirst, hRest⟩ := List.forall_mem_cons.1 hEach
    have hSame : (copies.operate operation).2 name = copies name := by
      rcases hFirst with hTarget | ⟨hNext, hOperation⟩
      · exact operate_of_target_ne hTarget
      · exact operate_of_continues hNext hOperation
    rw [← hSame] at hRest ⊢
    exact ih hRest

/--
**A cursor is an index into one stream of items.** A text has one stream: its tokens and the end
marker, or the tokens in front of its first foreign character and the error for that. Whatever is
done, in whatever order, with cursors that start at the text, with copies of them and with copies of
copies, each reply is told by the stream and by the number of items that the copy has taken since it
was restarted. No operation changes another copy than its own, and a copy that has nothing more to
yield stays as it is until it is restarted or replaced; a copy's position is always the number of
bytes in front of what is left of the text. The tokens of a text are its stream if there is no error
in it, and otherwise its last item is the error.
-/
theorem replies_eq_tally (text : String) :
    ∃ stream, (∀ other, IsStream text other ↔ other = stream) ∧
      (∀ operations : List (Operation Name),
        (run (start text) operations).1 = Tally.replies stream (fun _ => 0) operations ∧
        ∀ name, ((run (start text) operations).2 name).StandsIn text) ∧
      (∀ (copies : Copies Name) (operations : List (Operation Name)) (name : Name),
        (∀ operation ∈ operations, operation.target ≠ name ∨
          (copies name).next? = none ∧ operation.Continues name) →
        (copies.run operations).2 name = copies name) ∧
      (∀ tokens, Token.ofText text = .ok tokens ↔ stream = tokens.map .ok) ∧
      (∀ e, Token.ofText text = .error e ↔ .error e ∈ stream) ∧
      ∀ e, .error e ∈ stream ↔ stream.getLast? = some (.error e) := by
  have hStream : IsStream text (Cursor.start text).items := isStream_iff.2 rfl
  refine ⟨(Cursor.start text).items, fun _ => isStream_iff, fun operations => ?_,
    fun _ _ _ => run_eq_of_forall, fun _ => hStream.ofText_eq_ok_iff,
    fun _ => hStream.ofText_eq_error_iff, fun _ => hStream.error_mem_iff⟩
  have hStart : ∀ name : Name, (start text name).HasTaken text 0 := fun _ => hasTaken_start text
  obtain ⟨hReplies, hLast⟩ := run_of_hasTaken hStart operations
  refine ⟨hReplies, fun name => ?_⟩
  obtain ⟨taken, hTaken⟩ := hLast name
  exact hTaken.stands

/-- A cursor is copied behind its first item and drained up to a foreign character; the copy goes
on. -/
theorem replies_eq_tally_drained :
    let text := "≥3 @"
    let copies : Copies Bool :=
      (run (start text) [.use false .next, .copy false true, .use false .drain]).2
    let operations : List (Operation Bool) :=
      [.use true .next, .use false .next, .copy false true, .use false .count]
    (∀ operation ∈ operations, operation.target ≠ false ∨
      (copies false).next? = none ∧ operation.Continues false) ∧
    (copies.run operations).1 =
      [.item (some (.ok ⟨.digits, "3", 3⟩)), .item none, .done, .number 0] ∧
    (copies.run operations).2 false = copies false := by
  intro text copies operations
  have hNext : (copies false).next? = none := by decide +kernel
  have hEach : ∀ operation ∈ operations, operation.target ≠ false ∨
      (copies false).next? = none ∧ operation.Continues false := by
    simp [operations, Operation.target, Operation.Continues, hNext]
  obtain ⟨-, -, -, hSame, -⟩ := @replies_eq_tally Bool _ text
  exact ⟨hEach, by decide +kernel, hSame copies operations false hEach⟩

end Copies

end ChecklistLogic
