import ChecklistLogic.Proofs.XPath.Token

/-!
# ChecklistLogic — XPath expressions as trees

Which tree a token list stands for. `Written` is the grammar: an operand of a level may be joined
by operators of that level or a higher one, and every binary operator associates to the left. The
grammar does not say how to find the tree; `Reader` finds it with a stack of what waits for an
operand, looking at each token once.

* **Levels vs stack** — the grammar descends from loose operators to tight ones, the reader
  decides only when the next operator comes. `reduce` completes what binds more tightly than that
  operator; `Stacked` says which tokens a stack stands for.

Main results:

* `Written.reads` — a reader that has read an operand holds its tree, up to what it has yet to
  reduce.
* `Stacked.reduce` / `Reader.reads_of_step` — a reader never holds a tree that is not written by
  the tokens it has read.
* `Term.ofTokens?_eq_some_iff` — so reading finds a tree if and only if the tokens write it, and no
  token list writes two of them.
-/

namespace ChecklistLogic.XPath

-- ---------------------------------------------------------------------------
-- The grammar
-- ---------------------------------------------------------------------------

/-- An expression. -/
inductive Term where
  | literal (text : String)
  | number (value : Rat)
  | field (field : FormField)
  | negate (operand : Term)
  | binary (operator : Operator) (left right : Term)
  | call (function : String) (arguments : List Term)

/-- The level of an operand behind a minus sign. It is above that of every binary operator. -/
def unaryLevel : Nat := 6

/-- What a part of a token list can write. -/
inductive Phrase where
  /-- An operand that is joined only by operators of the level or a higher one. -/
  | operand (level : Nat) (term : Term)
  /-- The arguments of a function, of which there is at least one. -/
  | arguments (terms : List Term)

/-- The token lists that write a phrase. -/
inductive Written : Phrase → List Token → Prop where
  | literal {level : Nat} (text : String) :
      Written (.operand level (.literal text)) [.literal text]
  | number {level : Nat} (value : Rat) : Written (.operand level (.number value)) [.number value]
  | field {level : Nat} (field : FormField) :
      Written (.operand level (.field field)) [.field field]
  | group {level : Nat} {term : Term} {tokens : List Token}
      (hTerm : Written (.operand 0 term) tokens) :
      Written (.operand level term) (.opening :: tokens ++ [.closing])
  | negate {level : Nat} {term : Term} {tokens : List Token} (hLevel : level ≤ unaryLevel)
      (hTerm : Written (.operand unaryLevel term) tokens) :
      Written (.operand level (.negate term)) (.sign .minus :: tokens)
  | binary {level : Nat} {operator : Operator} {left right : Term} {front back : List Token}
      {sign : Token} (hLevel : level ≤ operator.level) (hSign : sign.operator? = some operator)
      (hLeft : Written (.operand operator.level left) front)
      (hRight : Written (.operand (operator.level + 1) right) back) :
      Written (.operand level (.binary operator left right)) (front ++ sign :: back)
  | callEmpty {level : Nat} (function : String) :
      Written (.operand level (.call function [])) [.name function, .opening, .closing]
  | call {level : Nat} {function : String} {arguments : List Term} {tokens : List Token}
      (hArguments : Written (.arguments arguments) tokens) :
      Written (.operand level (.call function arguments))
        (.name function :: .opening :: tokens ++ [.closing])
  | single {term : Term} {tokens : List Token} (hTerm : Written (.operand 0 term) tokens) :
      Written (.arguments [term]) tokens
  | more {arguments : List Term} {term : Term} {front back : List Token}
      (hArguments : Written (.arguments arguments) front)
      (hTerm : Written (.operand 0 term) back) :
      Written (.arguments (arguments ++ [term])) (front ++ .comma :: back)

theorem Operator.level_lt_unaryLevel (operator : Operator) : operator.level < unaryLevel := by
  unfold level unaryLevel
  split <;> omega

-- ---------------------------------------------------------------------------
-- The reader
-- ---------------------------------------------------------------------------

/-- What waits for an operand. -/
inductive Frame where
  /-- An operator with its left operand. -/
  | operand (operator : Operator) (left : Term)
  /-- A minus sign. -/
  | negation
  /-- An opening bracket. -/
  | group
  /-- The name of a function with the arguments before the one that is read. -/
  | call (function : String) (earlier : List Term)

/-- Completes what binds at least as tightly as an operator of the level. A minus sign binds more
tightly than every operator. -/
def reduce (level : Nat) : List Frame → Term → List Frame × Term
  | .operand operator left :: rest, term =>
    if level ≤ operator.level then reduce level rest (.binary operator left term)
    else (.operand operator left :: rest, term)
  | .negation :: rest, term => reduce level rest (.negate term)
  | stack, term => (stack, term)

/-- The state between two tokens. -/
inductive Reader where
  /-- An operand has to follow. -/
  | wanting (stack : List Frame)
  /-- The name of a function has been read. -/
  | named (stack : List Frame) (function : String)
  /-- An operand has been read. -/
  | holding (stack : List Frame) (term : Term)

namespace Reader

/-- Reads a token where an operand has to begin. -/
def open? (stack : List Frame) : Token → Option Reader
  | .literal text => some (.holding stack (.literal text))
  | .number value => some (.holding stack (.number value))
  | .field field => some (.holding stack (.field field))
  | .sign .minus => some (.wanting (.negation :: stack))
  | .opening => some (.wanting (.group :: stack))
  | .name function => some (.named stack function)
  | .closing =>
    match stack with
    | .call function [] :: rest => some (.holding rest (.call function []))
    | _ => none
  | _ => none

/-- Reads a token behind an operand. -/
def close? (stack : List Frame) (term : Term) : Token → Option Reader
  | .closing =>
    match reduce 0 stack term with
    | (.group :: rest, whole) => some (.holding rest whole)
    | (.call function earlier :: rest, last) =>
      some (.holding rest (.call function (earlier ++ [last])))
    | _ => none
  | .comma =>
    match reduce 0 stack term with
    | (.call function earlier :: rest, last) =>
      some (.wanting (.call function (earlier ++ [last]) :: rest))
    | _ => none
  | token =>
    token.operator?.map fun operator =>
      let (rest, left) := reduce operator.level stack term
      .wanting (.operand operator left :: rest)

/-- Reads one token. -/
def step : Reader → Token → Option Reader
  | .wanting stack, token => open? stack token
  | .named stack function, .opening => some (.wanting (.call function [] :: stack))
  | .named _ _, _ => none
  | .holding stack term, token => close? stack term token

/-- Reads tokens one after the other. -/
def run (reader : Reader) (tokens : List Token) : Option Reader :=
  tokens.foldlM step reader

/-- The tree that has been read at the end of an expression. -/
def finish : Reader → Option Term
  | .holding stack term =>
    match reduce 0 stack term with
    | ([], whole) => some whole
    | _ => none
  | _ => none

end Reader

/-- The tree that a token list stands for. -/
def Term.ofTokens? (tokens : List Token) : Option Term := do
  let reader ← (Reader.wanting []).run tokens
  reader.finish

/-- The tree that a text stands for, unless it has a location path, a union or a variable in it. -/
def Term.ofText? (text : String) : Option Term := do
  let tokens ← Token.ofText? text
  Term.ofTokens? tokens

-- ---------------------------------------------------------------------------
-- Completeness: what is written is read
-- ---------------------------------------------------------------------------

/-- The stack waits for nothing that binds as tightly as an operator of the level. -/
def Below (level : Nat) : List Frame → Prop
  | .operand operator _ :: _ => operator.level < level
  | .negation :: _ => unaryLevel ≤ level
  | _ => True

theorem Below.mono {level more : Nat} {stack : List Frame} (hBelow : Below level stack)
    (hLevel : level ≤ more) : Below more stack := by
  unfold Below at *
  split
  · exact Nat.lt_of_lt_of_le hBelow hLevel
  · exact Nat.le_trans hBelow hLevel
  · trivial

/-- Nothing is reduced where nothing binds tightly enough. -/
theorem reduce_of_below {level : Nat} {stack : List Frame} (hBelow : Below level stack)
    (hLevel : level < unaryLevel) (term : Term) : reduce level stack term = (stack, term) := by
  unfold Below at hBelow
  split at hBelow
  · rw [reduce, if_neg (by omega)]
  · omega
  · rename_i hOperand hNegation
    unfold reduce
    split
    · exact absurd rfl (hOperand _ _ _)
    · exact absurd rfl (hNegation _)
    · rfl

/-- What a reader that wants an operand makes of a phrase. It may hold the last part of the operand
only; what is left to reduce is then on the stack. -/
def Phrase.Reads : Phrase → List Token → Prop
  | .operand level term, tokens => ∀ stack, Below level stack →
      ∃ more last, (Reader.wanting stack).run tokens = some (.holding more last) ∧
        ∀ lower ≤ level, lower ≤ unaryLevel → reduce lower more last = reduce lower stack term
  | .arguments terms, tokens => ∀ function stack, ∃ more last,
      (Reader.wanting (.call function [] :: stack)).run tokens = some (.holding more last) ∧
        ∃ earlier whole, terms = earlier ++ [whole] ∧
          reduce 0 more last = (.call function earlier :: stack, whole)

theorem Reader.run_append {first second : Reader} {front back : List Token}
    (hFront : first.run front = some second) : first.run (front ++ back) = second.run back := by
  unfold run at *
  rw [List.foldlM_append, hFront]
  rfl

theorem Reader.run_cons {first second : Reader} {token : Token} {rest : List Token}
    (hStep : first.step token = some second) : first.run (token :: rest) = second.run rest := by
  unfold run
  rw [List.foldlM_cons, hStep]
  rfl

/-- An operator behind an operand. -/
theorem Reader.close?_operator {stack : List Frame} {term : Term} {sign : Token}
    {operator : Operator} (hSign : sign.operator? = some operator) :
    close? stack term sign =
      some (.wanting (.operand operator (reduce operator.level stack term).2 ::
        (reduce operator.level stack term).1)) := by
  cases sign with
  | closing | comma => cases hSign
  | _ => simp [close?, hSign]

theorem Written.reads {phrase : Phrase} {tokens : List Token} (hWritten : Written phrase tokens) :
    phrase.Reads tokens := by
  induction hWritten with
  | literal text => exact fun stack _ => ⟨stack, .literal text, rfl, fun _ _ _ => rfl⟩
  | number value => exact fun stack _ => ⟨stack, .number value, rfl, fun _ _ _ => rfl⟩
  | field field => exact fun stack _ => ⟨stack, .field field, rfl, fun _ _ _ => rfl⟩
  | callEmpty function => exact fun stack _ => ⟨stack, .call function [], rfl, fun _ _ _ => rfl⟩
  | @group level term tokens _ ih =>
    intro stack _
    -- inside brackets nothing before them can bind, so the operand may be of any level
    obtain ⟨more, last, hRun, hReduce⟩ := ih (.group :: stack) trivial
    have hWhole : reduce 0 more last = (.group :: stack, term) := hReduce 0 le_rfl (by decide)
    have hOpen : (Reader.wanting stack).step .opening = some (.wanting (.group :: stack)) := rfl
    have hClose : (Reader.holding more last).step .closing = some (.holding stack term) := by
      simp [Reader.step, Reader.close?, hWhole]
    refine ⟨stack, term, ?_, fun _ _ _ => rfl⟩
    rw [List.cons_append, Reader.run_cons hOpen, Reader.run_append hRun, Reader.run_cons hClose]
    rfl
  | @negate level term tokens hLevel _ ih =>
    intro stack _
    -- the minus sign stays on the stack until the operator behind its operand comes
    obtain ⟨more, last, hRun, hReduce⟩ := ih (.negation :: stack) le_rfl
    have hOpen : (Reader.wanting stack).step (.sign .minus) =
        some (.wanting (.negation :: stack)) := rfl
    refine ⟨more, last, ?_, fun lower _ hUnary => ?_⟩
    · rw [Reader.run_cons hOpen, hRun]
    · rw [hReduce lower hUnary hUnary, reduce]
  | @binary level operator left right front back sign hLevel hSign _ _ ihLeft ihRight =>
    intro stack hBelow
    -- the operator completes all of its left operand and nothing that stood before it
    have hBelowOwn : Below operator.level stack := hBelow.mono hLevel
    have hUnary : operator.level < unaryLevel := operator.level_lt_unaryLevel
    obtain ⟨more, last, hRun, hReduce⟩ := ihLeft stack hBelowOwn
    have hLeft : reduce operator.level more last = (stack, left) := by
      rw [hReduce operator.level le_rfl hUnary.le, reduce_of_below hBelowOwn hUnary]
    have hSignStep : (Reader.holding more last).step sign =
        some (.wanting (.operand operator left :: stack)) := by
      rw [Reader.step, Reader.close?_operator hSign, hLeft]
    -- its right operand is one level up: an operator of the same level does not go into it
    obtain ⟨moreRight, lastRight, hRunRight, hReduceRight⟩ :=
      ihRight (.operand operator left :: stack) (Nat.lt_succ_self _)
    refine ⟨moreRight, lastRight, ?_, fun lower hLower hLowerUnary => ?_⟩
    · rw [Reader.run_append hRun, Reader.run_cons hSignStep, hRunRight]
    · rw [hReduceRight lower (by omega) hLowerUnary, reduce, if_pos (by omega)]
  | @call level function arguments tokens _ ih =>
    intro stack _
    -- the last argument is still to be reduced when the bracket closes
    obtain ⟨more, last, hRun, earlier, whole, rfl, hReduce⟩ := ih function stack
    have hName : (Reader.wanting stack).step (.name function) =
        some (.named stack function) := rfl
    have hOpen : (Reader.named stack function).step .opening =
        some (.wanting (.call function [] :: stack)) := rfl
    have hClose : (Reader.holding more last).step .closing =
        some (.holding stack (.call function (earlier ++ [whole]))) := by
      simp [Reader.step, Reader.close?, hReduce]
    refine ⟨stack, _, ?_, fun _ _ _ => rfl⟩
    rw [List.cons_append, List.cons_append, Reader.run_cons hName, Reader.run_cons hOpen,
      Reader.run_append hRun, Reader.run_cons hClose]
    rfl
  | @single term tokens _ ih =>
    intro function stack
    obtain ⟨more, last, hRun, hReduce⟩ := ih (.call function [] :: stack) trivial
    exact ⟨more, last, hRun, [], term, rfl, hReduce 0 le_rfl (by decide)⟩
  | @more arguments term front back _ _ ihFront ihTerm =>
    intro function stack
    obtain ⟨more, last, hRun, earlier, whole, rfl, hReduce⟩ := ihFront function stack
    have hComma : (Reader.holding more last).step .comma =
        some (.wanting (.call function (earlier ++ [whole]) :: stack)) := by
      simp [Reader.step, Reader.close?, hReduce]
    obtain ⟨moreTerm, lastTerm, hRunTerm, hReduceTerm⟩ :=
      ihTerm (.call function (earlier ++ [whole]) :: stack) trivial
    refine ⟨moreTerm, lastTerm, ?_, earlier ++ [whole], term, rfl,
      hReduceTerm 0 le_rfl (by decide)⟩
    rw [Reader.run_append hRun, Reader.run_cons hComma, hRunTerm]

-- ---------------------------------------------------------------------------
-- Soundness: what is read is written
-- ---------------------------------------------------------------------------

/-- The level at which an operand has to be written to go on a stack. -/
def demand : List Frame → Nat
  | .operand operator _ :: _ => operator.level + 1
  | .negation :: _ => unaryLevel
  | _ => 0

theorem demand_le_unaryLevel (stack : List Frame) : demand stack ≤ unaryLevel := by
  unfold demand
  split
  · exact Operator.level_lt_unaryLevel _
  · exact le_rfl
  · exact Nat.zero_le _

/-- The token lists that write the arguments before one more, with the comma behind them. -/
def EarlierWritten (earlier : List Term) (tokens : List Token) : Prop :=
  earlier = [] ∧ tokens = [] ∨
    ∃ front, Written (.arguments earlier) front ∧ tokens = front ++ [.comma]

theorem EarlierWritten.arguments {earlier : List Term} {last : Term} {front back : List Token}
    (hEarlier : EarlierWritten earlier front) (hLast : Written (.operand 0 last) back) :
    Written (.arguments (earlier ++ [last])) (front ++ back) := by
  rcases hEarlier with ⟨rfl, rfl⟩ | ⟨tokens, hTokens, rfl⟩
  · exact .single hLast
  · rw [List.append_assoc]
    exact .more hTokens hLast

theorem Written.arguments_ne_nil {terms : List Term} {tokens : List Token}
    (hWritten : Written (.arguments terms) tokens) : terms ≠ [] := by
  cases hWritten <;> simp

/-- The token lists that lead to a stack. An operator stands on a stack only where the operand that
it makes may go. -/
inductive Stacked : List Frame → List Token → Prop where
  | nil : Stacked [] []
  | operand {stack : List Frame} {operator : Operator} {left : Term} {front back : List Token}
      {sign : Token} (hStack : Stacked stack front) (hDemand : demand stack ≤ operator.level)
      (hLeft : Written (.operand operator.level left) back)
      (hSign : sign.operator? = some operator) :
      Stacked (.operand operator left :: stack) (front ++ (back ++ [sign]))
  | negation {stack : List Frame} {front : List Token} (hStack : Stacked stack front) :
      Stacked (.negation :: stack) (front ++ [.sign .minus])
  | group {stack : List Frame} {front : List Token} (hStack : Stacked stack front) :
      Stacked (.group :: stack) (front ++ [.opening])
  | call {stack : List Frame} {function : String} {earlier : List Term} {front back : List Token}
      (hStack : Stacked stack front) (hEarlier : EarlierWritten earlier back) :
      Stacked (.call function earlier :: stack) (front ++ .name function :: .opening :: back)

/-- Reducing moves tokens from the stack to the operand. Behind it the stack takes an operator of
the level. -/
theorem Stacked.reduce {level : Nat} {stack rest : List Frame} {term whole : Term}
    {front back : List Token} (hStack : Stacked stack front) (hLevel : level ≤ unaryLevel)
    (hTerm : Written (.operand (demand stack) term) back)
    (hOwn : Written (.operand level term) back)
    (hReduce : XPath.reduce level stack term = (rest, whole)) :
    ∃ frontRest backRest, front ++ back = frontRest ++ backRest ∧ Stacked rest frontRest ∧
      Written (.operand level whole) backRest ∧ demand rest ≤ level := by
  induction hStack generalizing term back with
  | nil =>
    obtain ⟨rfl, rfl⟩ : [] = rest ∧ term = whole := by simpa [XPath.reduce] using hReduce
    exact ⟨[], back, rfl, .nil, hOwn, Nat.zero_le _⟩
  | @operand stack operator left front middle sign hStack hDemand hLeft hSign ih =>
    unfold XPath.reduce at hReduce
    split at hReduce
    · rename_i hTight
      -- the operator is completed, and what it makes goes on
      have hJoined : ∀ lower ≤ operator.level,
          Written (.operand lower (.binary operator left term)) (middle ++ sign :: back) :=
        fun lower hLower => .binary hLower hSign hLeft hTerm
      obtain ⟨frontRest, backRest, hTokens, hRest⟩ :=
        ih (hJoined _ hDemand) (hJoined _ hTight) hReduce
      refine ⟨frontRest, backRest, ?_, hRest⟩
      rw [← hTokens]
      simp
    · rename_i hLoose
      obtain ⟨rfl, rfl⟩ : .operand operator left :: stack = rest ∧ term = whole := by
        simpa using hReduce
      refine ⟨_, back, rfl, .operand hStack hDemand hLeft hSign, hOwn, ?_⟩
      show operator.level + 1 ≤ level
      omega
  | @negation stack front hStack ih =>
    have hNegated : ∀ lower ≤ unaryLevel,
        Written (.operand lower (.negate term)) (.sign .minus :: back) :=
      fun lower hLower => .negate hLower hTerm
    obtain ⟨frontRest, backRest, hTokens, hRest⟩ :=
      ih (hNegated _ (demand_le_unaryLevel stack)) (hNegated _ hLevel) hReduce
    refine ⟨frontRest, backRest, ?_, hRest⟩
    rw [← hTokens]
    simp
  | @group stack front hStack ih =>
    obtain ⟨rfl, rfl⟩ : .group :: stack = rest ∧ term = whole := by
      simpa [XPath.reduce] using hReduce
    exact ⟨_, back, rfl, .group hStack, hOwn, Nat.zero_le _⟩
  | @call stack function earlier front middle hStack hEarlier ih =>
    obtain ⟨rfl, rfl⟩ : .call function earlier :: stack = rest ∧ term = whole := by
      simpa [XPath.reduce] using hReduce
    exact ⟨_, back, rfl, .call hStack hEarlier, hOwn, Nat.zero_le _⟩

/-- The token lists that lead to a reader. What a reader holds is written at every level. -/
def Reader.Reads : Reader → List Token → Prop
  | .wanting stack, tokens => Stacked stack tokens
  | .named stack function, tokens =>
    ∃ front, Stacked stack front ∧ tokens = front ++ [.name function]
  | .holding stack term, tokens => ∃ front back, Stacked stack front ∧
      (∀ level, Written (.operand level term) back) ∧ tokens = front ++ back

/-- A reader that holds an operand reduces to an operand on a smaller stack. -/
theorem Reader.Reads.reduce {level : Nat} {stack rest : List Frame} {term whole : Term}
    {tokens : List Token} (hReads : (Reader.holding stack term).Reads tokens)
    (hLevel : level ≤ unaryLevel) (hReduce : XPath.reduce level stack term = (rest, whole)) :
    ∃ front back, tokens = front ++ back ∧ Stacked rest front ∧
      Written (.operand level whole) back ∧ demand rest ≤ level := by
  obtain ⟨front, back, hStack, hTerm, rfl⟩ := hReads
  exact hStack.reduce hLevel (hTerm _) (hTerm _) hReduce

theorem Reader.reads_of_open? {stack : List Frame} {token : Token} {next : Reader}
    {tokens : List Token} (hStack : Stacked stack tokens) (hOpen : open? stack token = some next) :
    next.Reads (tokens ++ [token]) := by
  unfold open? at hOpen
  split at hOpen
  · cases hOpen
    exact ⟨tokens, _, hStack, fun _ => .literal _, rfl⟩
  · cases hOpen
    exact ⟨tokens, _, hStack, fun _ => .number _, rfl⟩
  · cases hOpen
    exact ⟨tokens, _, hStack, fun _ => .field _, rfl⟩
  · cases hOpen
    exact .negation hStack
  · cases hOpen
    exact .group hStack
  · cases hOpen
    exact ⟨tokens, hStack, rfl⟩
  · -- a closing bracket right behind the opening one
    split at hOpen
    · cases hOpen
      cases hStack with
      | call hRest hEarlier =>
        rcases hEarlier with ⟨-, rfl⟩ | ⟨_, hArguments, -⟩
        · refine ⟨_, _, hRest, fun _ => .callEmpty _, ?_⟩
          simp
        · exact absurd rfl hArguments.arguments_ne_nil
    · cases hOpen
  · cases hOpen

theorem Reader.reads_of_close? {stack : List Frame} {term : Term} {token : Token} {next : Reader}
    {tokens : List Token} (hReads : (Reader.holding stack term).Reads tokens)
    (hClose : close? stack term token = some next) : next.Reads (tokens ++ [token]) := by
  unfold close? at hClose
  split at hClose
  · -- a closing bracket
    split at hClose
    · rename_i hReduce
      cases hClose
      obtain ⟨front, back, rfl, hStack, hWhole, -⟩ := hReads.reduce (Nat.zero_le _) hReduce
      cases hStack with
      | group hRest =>
        refine ⟨_, _, hRest, fun _ => .group hWhole, ?_⟩
        simp
    · rename_i hReduce
      cases hClose
      obtain ⟨front, back, rfl, hStack, hLast, -⟩ := hReads.reduce (Nat.zero_le _) hReduce
      cases hStack with
      | call hRest hEarlier =>
        refine ⟨_, _, hRest, fun _ => .call (hEarlier.arguments hLast), ?_⟩
        simp
    · cases hClose
  · -- a comma
    split at hClose
    · rename_i function earlier rest last hReduce
      cases hClose
      obtain ⟨front, back, rfl, hStack, hLast, -⟩ := hReads.reduce (Nat.zero_le _) hReduce
      cases hStack with
      | call hRest hEarlier =>
        have hMore : EarlierWritten (earlier ++ [last]) _ :=
          .inr ⟨_, hEarlier.arguments hLast, rfl⟩
        have hNext : Stacked (.call function (earlier ++ [last]) :: rest) _ := .call hRest hMore
        simpa [Reads] using hNext
    · cases hClose
  · -- an operator
    obtain ⟨operator, hSign, rfl⟩ := Option.map_eq_some_iff.1 hClose
    obtain ⟨front, back, rfl, hStack, hLeft, hDemand⟩ :=
      hReads.reduce operator.level_lt_unaryLevel.le rfl
    rw [List.append_assoc]
    exact .operand hStack hDemand hLeft hSign

/-- One step keeps track of the tokens. -/
theorem Reader.reads_of_step {reader next : Reader} {token : Token} {tokens : List Token}
    (hReads : reader.Reads tokens) (hStep : reader.step token = some next) :
    next.Reads (tokens ++ [token]) := by
  unfold step at hStep
  split at hStep
  · exact reads_of_open? hReads hStep
  · cases hStep
    obtain ⟨front, hStack, rfl⟩ := hReads
    rw [List.append_assoc]
    exact .call hStack (.inl ⟨rfl, rfl⟩)
  · cases hStep
  · exact reads_of_close? hReads hStep

theorem Reader.reads_of_run {reader last : Reader} {before tokens : List Token}
    (hReads : reader.Reads before) (hRun : reader.run tokens = some last) :
    last.Reads (before ++ tokens) := by
  induction tokens generalizing reader before with
  | nil =>
    cases hRun
    rwa [List.append_nil]
  | cons token rest ih =>
    unfold run at hRun
    rw [List.foldlM_cons] at hRun
    obtain ⟨next, hStep, hRest⟩ := Option.bind_eq_some_iff.1 hRun
    have hNext := ih (reads_of_step hReads hStep) hRest
    rwa [List.append_assoc] at hNext

-- ---------------------------------------------------------------------------
-- Reading expressions
-- ---------------------------------------------------------------------------

/-- Reading finds a tree if and only if the tokens write it. -/
theorem Term.ofTokens?_eq_some_iff {tokens : List Token} {term : Term} :
    Term.ofTokens? tokens = some term ↔ Written (.operand 0 term) tokens := by
  constructor
  · intro hRead
    obtain ⟨last, hRun, hFinish⟩ := Option.bind_eq_some_iff.1 hRead
    have hStart : (Reader.wanting []).Reads [] := Stacked.nil
    have hReads := Reader.reads_of_run hStart hRun
    unfold Reader.finish at hFinish
    split at hFinish
    · split at hFinish
      · rename_i hReduce
        cases hFinish
        obtain ⟨front, back, hTokens, hStack, hWhole, -⟩ := hReads.reduce (Nat.zero_le _) hReduce
        cases hStack
        obtain rfl : tokens = back := hTokens
        exact hWhole
      · cases hFinish
    · cases hFinish
  · intro hWritten
    obtain ⟨more, last, hRun, hReduce⟩ := hWritten.reads [] trivial
    have hWhole : reduce 0 more last = ([], term) := hReduce 0 le_rfl (Nat.zero_le _)
    unfold Term.ofTokens?
    rw [hRun]
    simp [Reader.finish, hWhole]

/-- Tight operators go under loose ones, and operators of one level associate to the left. -/
example : Term.ofText? "'a' or 'b' and -'c' - 'd' - 'e'" =
    some (.binary (.connective .or) (.literal "a")
      (.binary (.connective .and) (.literal "b")
        (.binary .minus (.binary .minus (.negate (.literal "c")) (.literal "d"))
          (.literal "e")))) := rfl

/-- No token list writes two trees. -/
theorem Written.unique {first second : Term} {tokens : List Token}
    (hFirst : Written (.operand 0 first) tokens) (hSecond : Written (.operand 0 second) tokens) :
    first = second := by
  have hFound := Term.ofTokens?_eq_some_iff.2 hFirst
  rw [Term.ofTokens?_eq_some_iff.2 hSecond] at hFound
  exact (Option.some.inj hFound).symm

end ChecklistLogic.XPath
