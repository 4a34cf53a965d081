import ChecklistLogic.Numeral

/-!
# ChecklistLogic — comparisons

A comparison sets a threshold, such as `>=80%`, against the answers to a question. Comparisons are
joined by `and` and `or` into a tree.

* `Comparison` is one atom and `ComparisonTree` a tree of them.
* `ComparisonTree.text` writes a tree without brackets, so it shows the atoms and the connectives
  in order and not the shape of the tree.
* `ComparisonTree.chain` is the tree that such a text stands for: both connectives bind equally
  and associate to the left.
-/

namespace ChecklistLogic

/-- How two conditions are joined. -/
inductive Connective where
  | and
  | or
  deriving DecidableEq

/-- The word that joins two conditions, in rule text and in form expressions alike. -/
def Connective.word : Connective → String
  | .and => "and"
  | .or => "or"

/-- On which side of its threshold a comparison holds. -/
inductive Comparator where
  | atLeast
  | moreThan
  | atMost
  | lessThan
  deriving DecidableEq

namespace Comparator

/-- Every comparator, in the order in which reports list them. -/
def all : List Comparator := [.atLeast, .moreThan, .atMost, .lessThan]

/-- The sign of a comparator in rule text. -/
def sign : Comparator → String
  | .atLeast => ">="
  | .moreThan => ">"
  | .atMost => "=<"
  | .lessThan => "<"

theorem mem_all (comparator : Comparator) : comparator ∈ all := by
  cases comparator <;> simp [all]

end Comparator

/-- One threshold on a count of answers or, if `isPercent`, on a percentage. -/
structure Comparison where
  comparator : Comparator
  threshold : UInt32
  isPercent : Bool
  deriving DecidableEq

/-- A comparison as it is written, such as `>=80%` or `=<3`. -/
def Comparison.text (c : Comparison) : String :=
  c.comparator.sign ++ Numeral.text c.threshold ++ (if c.isPercent then "%" else "")

/-- Comparisons joined by `and` and `or`. -/
inductive ComparisonTree where
  | atom (comparison : Comparison)
  | join (connective : Connective) (left right : ComparisonTree)
  deriving DecidableEq

namespace ComparisonTree

/-- The comparisons of a tree, from left to right. -/
def atoms : ComparisonTree → List Comparison
  | .atom c => [c]
  | .join _ left right => left.atoms ++ right.atoms

/-- A tree as it is written: its atoms in order with the connectives between them. -/
def text : ComparisonTree → String
  | .atom c => c.text
  | .join connective left right => left.text ++ " " ++ connective.word ++ " " ++ right.text

/-- Joins one more comparison to the right of a tree. -/
def append (tree : ComparisonTree) (link : Connective × Comparison) : ComparisonTree :=
  .join link.1 tree (.atom link.2)

/-- The tree of a written chain: each link joins all that stands before it to one more atom. -/
def chain (first : Comparison) (links : List (Connective × Comparison)) : ComparisonTree :=
  links.foldl append (.atom first)

@[simp]
theorem chain_nil (first : Comparison) : chain first [] = .atom first := rfl

@[simp]
theorem chain_concat (first : Comparison) (links : List (Connective × Comparison))
    (link : Connective × Comparison) :
    chain first (links ++ [link]) = (chain first links).append link := by
  simp [chain]

theorem atoms_foldl_append (tree : ComparisonTree) (links : List (Connective × Comparison)) :
    (links.foldl append tree).atoms = tree.atoms ++ links.map Prod.snd := by
  induction links generalizing tree with
  | nil => simp
  | cons link rest ih => simp [ih, append, atoms]

/-- A chain has the atoms it is written with, in that order. -/
theorem atoms_chain (first : Comparison) (links : List (Connective × Comparison)) :
    (chain first links).atoms = first :: links.map Prod.snd := by
  simp [chain, atoms_foldl_append, atoms]

end ComparisonTree

end ChecklistLogic
