import ChecklistLogic.Proofs.Grammar
import ChecklistLogic.Violation

/-!
# ChecklistLogic — nesting to the left

The text of a tree of comparisons has no brackets, so it keeps the comparisons and the connectives
in order and forgets the shape of the tree. `leftNested` is the tree that reading gives back: the
one with the same comparisons and connectives in which every join associates to the left.

`ComparisonTree.first` and `ComparisonTree.links` are what the text of a tree depends on
(`text_eq_chainText`); the comparisons of a tree, and so its violations, depend on them too.

Main results, each for trees and then for rules:

* `leftNested_eq_self_iff` — nesting to the left changes nothing exactly if no right operand is a
  join.
* `text_leftNested` / `Rule.validate_leftNested` — the text and the violations stay the same.
* `Spelled.isLeftNested` — what has been read associates to the left.
-/

namespace ChecklistLogic

-- ---------------------------------------------------------------------------
-- Left-nested trees
-- ---------------------------------------------------------------------------

namespace ComparisonTree

/-- The first comparison of a tree. -/
def first : ComparisonTree → Comparison
  | .atom c => c
  | .join _ left _ => left.first

/-- The comparisons behind the first one, each of them with the connective before it. -/
def links : ComparisonTree → List (Connective × Comparison)
  | .atom _ => []
  | .join connective left right => left.links ++ (connective, right.first) :: right.links

/-- The tree with the same comparisons and connectives in which every join associates to the
left. -/
def leftNested (tree : ComparisonTree) : ComparisonTree :=
  chain tree.first tree.links

/-- No right operand in the tree is a join. -/
def IsLeftNested : ComparisonTree → Prop
  | .atom _ => True
  | .join _ left right => left.IsLeftNested ∧ ∃ last, right = .atom last

theorem first_foldl_append (tree : ComparisonTree) (more : List (Connective × Comparison)) :
    (more.foldl append tree).first = tree.first := by
  induction more generalizing tree with
  | nil => rfl
  | cons link rest ih => rw [List.foldl_cons, ih]; rfl

theorem links_foldl_append (tree : ComparisonTree) (more : List (Connective × Comparison)) :
    (more.foldl append tree).links = tree.links ++ more := by
  induction more generalizing tree with
  | nil => simp
  | cons link rest ih => simp [ih, append, links, first]

@[simp]
theorem first_chain (comparison : Comparison) (more : List (Connective × Comparison)) :
    (chain comparison more).first = comparison :=
  first_foldl_append _ _

@[simp]
theorem links_chain (comparison : Comparison) (more : List (Connective × Comparison)) :
    (chain comparison more).links = more :=
  links_foldl_append _ _

theorem isLeftNested_foldl_append {tree : ComparisonTree} (hTree : tree.IsLeftNested)
    (more : List (Connective × Comparison)) : (more.foldl append tree).IsLeftNested := by
  induction more generalizing tree with
  | nil => exact hTree
  | cons link rest ih => exact ih ⟨hTree, link.2, rfl⟩

theorem isLeftNested_leftNested (tree : ComparisonTree) : tree.leftNested.IsLeftNested := by
  have hAtom : (ComparisonTree.atom tree.first).IsLeftNested := trivial
  exact isLeftNested_foldl_append hAtom tree.links

/-- Nesting to the left changes nothing exactly if there is nothing to change. -/
theorem leftNested_eq_self_iff (tree : ComparisonTree) :
    tree.leftNested = tree ↔ tree.IsLeftNested := by
  constructor
  · intro hSame
    rw [← hSame]
    exact tree.isLeftNested_leftNested
  · intro hTree
    induction tree with
    | atom => rfl
    | join connective left right ihLeft _ =>
      obtain ⟨hLeft, last, rfl⟩ := hTree
      have hChain : chain left.first left.links = left := ihLeft hLeft
      show chain left.first (left.links ++ [(connective, last)]) = _
      rw [chain_concat, hChain]
      rfl

theorem atoms_eq (tree : ComparisonTree) : tree.atoms = tree.first :: tree.links.map Prod.snd := by
  induction tree with
  | atom => rfl
  | join _ left right ihLeft ihRight => simp [atoms, first, links, ihLeft, ihRight]

theorem atoms_leftNested (tree : ComparisonTree) : tree.leftNested.atoms = tree.atoms := by
  rw [leftNested, atoms_chain, atoms_eq]

theorem violation?_leftNested (tree : ComparisonTree) :
    tree.leftNested.violation? = tree.violation? := by
  unfold violation?
  rw [atoms_leftNested]

/-- A text with links written behind it. -/
def chainText (front : String) (links : List (Connective × Comparison)) : String :=
  links.foldl (fun text link => text ++ " " ++ link.1.word ++ " " ++ link.2.text) front

theorem chainText_append (before front : String) (links : List (Connective × Comparison)) :
    chainText (before ++ front) links = before ++ chainText front links := by
  induction links generalizing front with
  | nil => rfl
  | cons link rest ih =>
    simp only [chainText, List.foldl_cons] at ih ⊢
    rw [← ih]
    simp only [String.append_assoc]

/-- The text of a tree depends on its first comparison and its links only. -/
theorem text_eq_chainText (tree : ComparisonTree) :
    tree.text = chainText tree.first.text tree.links := by
  induction tree with
  | atom => rfl
  | join connective left right ihLeft ihRight =>
    -- the links of the right operand are written behind all of the left one
    have hSplit : chainText left.first.text
          (left.links ++ (connective, right.first) :: right.links) =
        chainText (chainText left.first.text left.links ++ " " ++ connective.word ++ " " ++
          right.first.text) right.links := by
      simp only [chainText, List.foldl_append, List.foldl_cons]
    simp only [text, first, links]
    rw [hSplit, chainText_append, ← ihLeft, ← ihRight]

theorem text_leftNested (tree : ComparisonTree) : tree.leftNested.text = tree.text := by
  rw [text_eq_chainText, text_eq_chainText tree, leftNested, first_chain, links_chain]

theorem Spelled.isLeftNested {tree : ComparisonTree} {tokens : List Token}
    (hSpelled : tree.Spelled tokens) : tree.IsLeftNested := by
  induction hSpelled with
  | atom => trivial
  | join _ _ _ ih => exact ⟨ih, _, rfl⟩

end ComparisonTree

-- ---------------------------------------------------------------------------
-- Left-nested rules
-- ---------------------------------------------------------------------------

/-- A condition with its comparisons nested to the left. -/
def Condition.leftNested : Condition → Condition
  | .comparison tree => .comparison tree.leftNested
  | other => other

/-- A condition with its comparisons nested to the left. -/
def ScoringCondition.leftNested : ScoringCondition → ScoringCondition
  | .common c => .common c.leftNested
  | other => other

/-- The comparisons that a condition is made of, if it is made of comparisons. -/
def Condition.tree? : Condition → Option ComparisonTree
  | .comparison tree => some tree
  | _ => none

namespace Rule

/-- A rule with its comparisons nested to the left. -/
def leftNested : Rule → Rule
  | .scoring rule => .scoring ⟨rule.condition.leftNested, rule.target⟩
  | .skip rule => .skip ⟨rule.condition.leftNested, rule.target⟩

/-- The comparisons that the condition of a rule is made of, if it is made of comparisons. -/
def tree? : Rule → Option ComparisonTree
  | .scoring ⟨.common condition, _⟩ => condition.tree?
  | .skip rule => rule.condition.tree?
  | _ => none

/-- The options among which the condition of a rule selects, if it is a selection. -/
def selection? : Rule → Option Selection
  | .scoring ⟨.selection selection, _⟩ => some selection
  | _ => none

/-- No right operand among the comparisons of a rule is a join. -/
def IsLeftNested (rule : Rule) : Prop :=
  ∀ tree ∈ rule.tree?, tree.IsLeftNested

/-- If a rule selects among options, then there is at least one. -/
def HasOptions (rule : Rule) : Prop :=
  ∀ selection ∈ rule.selection?, selection.options ≠ []

end Rule

theorem Condition.leftNested_eq_self_iff (condition : Condition) :
    condition.leftNested = condition ↔ ∀ tree ∈ condition.tree?, tree.IsLeftNested := by
  cases condition with
  | comparison tree => simp [leftNested, tree?, ComparisonTree.leftNested_eq_self_iff]
  | _ => simp [leftNested, tree?]

theorem Condition.text_leftNested (condition : Condition) :
    condition.leftNested.text = condition.text := by
  cases condition with
  | comparison tree => exact tree.text_leftNested
  | _ => rfl

theorem Condition.violation?_leftNested (condition : Condition) :
    condition.leftNested.violation? = condition.violation? := by
  cases condition with
  | comparison tree => exact tree.violation?_leftNested
  | _ => rfl

theorem ScoringCondition.text_leftNested (condition : ScoringCondition) :
    condition.leftNested.text = condition.text := by
  cases condition with
  | common c => exact c.text_leftNested
  | _ => rfl

theorem ScoringCondition.violation?_leftNested (policy : Policy) (condition : ScoringCondition) :
    condition.leftNested.violation? policy = condition.violation? policy := by
  cases condition with
  | common c => exact c.violation?_leftNested
  | _ => rfl

namespace Rule

theorem leftNested_eq_self_iff (rule : Rule) : rule.leftNested = rule ↔ rule.IsLeftNested := by
  cases rule with
  | skip rule =>
    obtain ⟨condition, target⟩ := rule
    simp [leftNested, IsLeftNested, tree?, Condition.leftNested_eq_self_iff]
  | scoring rule =>
    obtain ⟨condition, target⟩ := rule
    cases condition with
    | common condition =>
      simp [leftNested, ScoringCondition.leftNested, IsLeftNested, tree?,
        Condition.leftNested_eq_self_iff]
    | _ => simp [leftNested, ScoringCondition.leftNested, IsLeftNested, tree?]

theorem text_leftNested (rule : Rule) : rule.leftNested.text = rule.text := by
  cases rule with
  | scoring rule =>
    simp only [leftNested, text, ScoringRule.text, ScoringCondition.text_leftNested]
  | skip rule => simp only [leftNested, text, SkipRule.text, Condition.text_leftNested]

/-- A rule and its left-nested form make sense under the same policies, or fail for the same
reason. -/
theorem validate_leftNested (policy : Policy) (rule : Rule) :
    rule.leftNested.validate policy = rule.validate policy := by
  unfold validate
  cases rule with
  | scoring rule =>
    simp only [leftNested, violation?, ScoringCondition.violation?_leftNested]
  | skip rule => simp only [leftNested, violation?, Condition.violation?_leftNested]

theorem Spelled.isLeftNested {rule : Rule} {tokens : List Token} (hSpelled : rule.Spelled tokens) :
    rule.IsLeftNested := by
  have hCommon : ∀ {condition : Condition} {body : List Token}, condition.Spelled body →
      ∀ tree ∈ condition.tree?, tree.IsLeftNested := by
    intro condition body hCondition tree hTree
    cases hCondition with
    | comparison hSpelledTree =>
      obtain rfl : _ = tree := by simpa [Condition.tree?] using hTree
      exact hSpelledTree.isLeftNested
    | _ => simp [Condition.tree?] at hTree
  cases hSpelled with
  | skip _ hCondition => exact hCommon hCondition
  | scoring _ hCondition =>
    cases hCondition with
    | common hCondition => exact hCommon hCondition
    | _ => simp [IsLeftNested, tree?]

theorem Spelled.hasOptions {rule : Rule} {tokens : List Token} (hSpelled : rule.Spelled tokens) :
    rule.HasOptions := by
  intro selection hMem
  cases hSpelled with
  | skip => simp [selection?] at hMem
  | scoring _ hCondition =>
    cases hCondition with
    | selection hOptions =>
      obtain rfl : _ = selection := by simpa [selection?] using hMem
      exact hOptions.ne_nil
    | _ => simp [selection?] at hMem

end Rule

end ChecklistLogic
