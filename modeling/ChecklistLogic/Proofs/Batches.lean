import ChecklistLogic.Batch
import ChecklistLogic.Proofs.Except
import Mathlib.Data.List.Perm.Basic

/-!
# ChecklistLogic — batches, cell by cell

Cells are taken into a batch one after the other. What a cell comes to depends on no other cell, so
the lists and the log of a batch can be told from its cells one by one, and batches may be split up
and put together again.

* `Translator.addCell_eq` — the step: a cell adds its translation or its failure to the batch, and
  its record to the log. Nothing that is in the batch is changed.
* `Translator.foldl_addCell` — the run: the same for all cells from any batch on.
* `Translator.result_origin` — a translated cell says where it comes from, as a failure does.

Main result: `Translator.translateBatch_cell_by_cell`.
-/

namespace ChecklistLogic

namespace Translator

variable (t : Translator)

/-- The failure of a cell, if it fails. -/
def failure? (cell : LogicCell) : Option CellFailure :=
  match t.translateCell cell with
  | .ok _ => none
  | .error e => some ⟨cell.row, cell.column, cell.fieldName, e⟩

/-- The translation of a cell, if it does not fail. -/
def translation? (cell : LogicCell) : Option TranslatedCell :=
  (t.translateCell cell).toOption

theorem translation?_eq_some_iff {cell : LogicCell} {result : TranslatedCell} :
    t.translation? cell = some result ↔ t.translateCell cell = .ok result := by
  unfold translation?
  cases t.translateCell cell <;> simp [Except.toOption]

theorem failure?_eq_some_iff {cell : LogicCell} {failure : CellFailure} :
    t.failure? cell = some failure ↔ ∃ e, t.translateCell cell = .error e ∧
      ⟨cell.row, cell.column, cell.fieldName, e⟩ = failure := by
  unfold failure?
  cases t.translateCell cell <;> simp

/-- What a log says of a cell: its row, its column and its field, and then its expression or why
there is none. -/
def cellRecord (cell : LogicCell) : LogRecord :=
  match t.translateCell cell with
  | .ok result =>
    ⟨.debug, "row " ++ toString cell.row.toNat ++ " " ++ cell.column.name ++ " of '" ++
      cell.fieldName ++ "': " ++ result.expression⟩
  | .error e =>
    ⟨.warn, "skipping cell: row " ++ toString cell.row.toNat ++ ", " ++ cell.column.name ++
      " of '" ++ cell.fieldName ++ "': " ++ e.message⟩

/-- A translated cell has the row, the column and the field of the cell that it comes from. -/
theorem result_origin {cell : LogicCell} {result : TranslatedCell}
    (hCell : t.translateCell cell = .ok result) :
    result.row = cell.row ∧ result.column = cell.column ∧ result.fieldName = cell.fieldName := by
  obtain ⟨content, -, rfl⟩ := Except.map_eq_ok_iff.1 hCell
  exact ⟨rfl, rfl, rfl⟩

/-- A cell is translated or fails, and adds to a batch accordingly. -/
theorem addCell_eq (batch : Batch) (cell : LogicCell) :
    t.addCell batch cell =
      ⟨batch.translated ++ (t.translation? cell).toList,
        batch.failures ++ (t.failure? cell).toList, batch.records ++ [t.cellRecord cell]⟩ := by
  unfold addCell translation? failure? cellRecord
  cases t.translateCell cell with
  | ok result => simp [Except.toOption]
  | error e =>
    simp only [Except.toOption, CellFailure.message, Option.toList_none, Option.toList_some,
      List.append_nil, ← String.append_assoc]
    rfl

theorem foldl_addCell (batch : Batch) (cells : List LogicCell) :
    cells.foldl t.addCell batch =
      ⟨batch.translated ++ cells.filterMap t.translation?,
        batch.failures ++ cells.filterMap t.failure?,
        batch.records ++ cells.map t.cellRecord⟩ := by
  induction cells generalizing batch with
  | nil => simp
  | cons cell rest ih =>
    rw [List.foldl_cons, ih, addCell_eq]
    cases hTranslation : t.translation? cell <;> cases hFailure : t.failure? cell <;>
      simp [hTranslation, hFailure]

theorem translateBatch_eq (cells : List LogicCell) :
    t.translateBatch cells =
      ⟨cells.filterMap t.translation?, cells.filterMap t.failure?, cells.map t.cellRecord⟩ :=
  t.foldl_addCell .empty cells

/-- Every cell is in one of the two lists. -/
theorem length_filterMap_add_length_filterMap (cells : List LogicCell) :
    (cells.filterMap t.translation?).length + (cells.filterMap t.failure?).length =
      cells.length := by
  induction cells with
  | nil => rfl
  | cons cell rest ih =>
    cases hCell : t.translateCell cell <;>
      simp only [List.filterMap_cons, translation?, failure?, hCell, Except.toOption,
        List.length_cons] at ih ⊢ <;> omega

/--
**A batch is the translation of its cells one by one.** It holds the translations of the cells that
have one and the failures of all others, both in the order of the cells, and together they are as
many as the cells. So the batch of two lists one behind the other consists of the batches of both,
and if cells change their order, their translations and their failures do no more than that. The
log has one record for each cell, in order, which names the cell, and the two counts at its end,
like those at the head of the summary, are the lengths of the two lists.
-/
theorem translateBatch_cell_by_cell (cells : List LogicCell) :
    let batch := t.translateBatch cells
    batch.translated = cells.filterMap t.translation? ∧
    batch.failures = cells.filterMap t.failure? ∧
    batch.translated.length + batch.failures.length = cells.length ∧
    (∀ more,
      (t.translateBatch (cells ++ more)).translated =
        batch.translated ++ (t.translateBatch more).translated ∧
      (t.translateBatch (cells ++ more)).failures =
        batch.failures ++ (t.translateBatch more).failures) ∧
    (∀ others, cells.Perm others →
      batch.translated.Perm (t.translateBatch others).translated ∧
      batch.failures.Perm (t.translateBatch others).failures) ∧
    batch.log = cells.map t.cellRecord ++
      [⟨.info, "translated " ++ toString batch.translated.length ++ " logic cells, " ++
        toString batch.failures.length ++ " failed"⟩] ∧
    batch.summary = "translated: " ++ toString batch.translated.length ++ ", failed: " ++
      toString batch.failures.length ++
        String.join (batch.failures.map fun failure => "\n  " ++ failure.message) := by
  intro batch
  have hBatch : batch = ⟨cells.filterMap t.translation?, cells.filterMap t.failure?,
      cells.map t.cellRecord⟩ := t.translateBatch_eq cells
  refine ⟨by rw [hBatch], by rw [hBatch], ?_, fun more => ?_, fun others hPerm => ?_, ?_, rfl⟩
  · rw [hBatch]
    exact t.length_filterMap_add_length_filterMap cells
  · simp only [hBatch, translateBatch_eq, List.filterMap_append, and_self]
  · simp only [hBatch, translateBatch_eq]
    exact ⟨hPerm.filterMap _, hPerm.filterMap _⟩
  · unfold Batch.log
    rw [hBatch]
    rfl

/-- Three cells, the second of which fails, and the same cells in reverse. -/
theorem translateBatch_cell_by_cell_reverse :
    let cells : List LogicCell := [⟨1, .scoring, "Q1", "If Y = Green"⟩,
      ⟨2, .skip, "Q2", "If Y = Green"⟩, ⟨3, .skip, "Q3", "If N, then Q5"⟩]
    (translateBatch {} cells).failures =
      [⟨2, .skip, "Q2", .parse ⟨5, .unexpected [.comma] "="⟩⟩] ∧
    cells.Perm cells.reverse ∧
    (translateBatch {} cells).translated.Perm (translateBatch {} cells.reverse).translated := by
  intro cells
  have hFailures : (translateBatch {} cells).failures =
      [⟨2, .skip, "Q2", .parse ⟨5, .unexpected [.comma] "="⟩⟩] := by decide +kernel
  have hPerm : cells.Perm cells.reverse := (List.reverse_perm cells).symm
  exact ⟨hFailures, hPerm, ((translateBatch_cell_by_cell {} cells).2.2.2.2.1 _ hPerm).1⟩

end Translator

end ChecklistLogic
