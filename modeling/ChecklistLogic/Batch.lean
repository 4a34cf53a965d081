import ChecklistLogic.Cell

/-!
# ChecklistLogic — batches

Many cells are translated one after the other. A cell that fails does not stop the others: it is
reported with its row, its column and its field.

* `Batch` collects the cells that were translated and those that were not, each in order, and what
  is logged on the way. `Translator.addCell` takes in one more cell.
* `Batch.summary` is the report of a batch, `Batch.log` the account of its cells one by one.
-/

namespace ChecklistLogic

/-- A cell that was not translated, and why. -/
structure CellFailure where
  row : UInt64
  column : LogicColumn
  fieldName : String
  error : LogicError
  deriving DecidableEq

/-- The report of a failing cell. -/
def CellFailure.message (failure : CellFailure) : String :=
  "row " ++ toString failure.row.toNat ++ ", " ++ failure.column.name ++ " of '" ++
    failure.fieldName ++ "': " ++ failure.error.message

/-- How much a log record matters. -/
inductive LogLevel where
  | debug
  | warn
  | info
  deriving DecidableEq

/-- The name of a level in a log. -/
def LogLevel.name : LogLevel → String
  | .debug => "DEBUG"
  | .warn => "WARN"
  | .info => "INFO"

/-- One line of a log. -/
structure LogRecord where
  level : LogLevel
  message : String
  deriving DecidableEq

/-- A log record as it is written. -/
def LogRecord.line (entry : LogRecord) : String :=
  entry.level.name ++ " " ++ entry.message

/-- What became of the cells of a checklist, and the log records of those cells. -/
structure Batch where
  /-- The cells that were translated. -/
  translated : List TranslatedCell
  /-- The cells that were not translated. -/
  failures : List CellFailure
  records : List LogRecord
  deriving DecidableEq

namespace Batch

/-- A batch of no cells. -/
def empty : Batch := ⟨[], [], []⟩

/-- Whether every cell was translated. -/
def isClean (batch : Batch) : Bool :=
  batch.failures.isEmpty

/-- The report of a batch: two counts, and a line for each failing cell. -/
def summary (batch : Batch) : String :=
  "translated: " ++ toString batch.translated.length ++ ", failed: " ++
    toString batch.failures.length ++
    String.join (batch.failures.map fun failure => "\n  " ++ failure.message)

/-- The last record of a batch's log. -/
def closingRecord (batch : Batch) : LogRecord :=
  ⟨.info, "translated " ++ toString batch.translated.length ++ " logic cells, " ++
    toString batch.failures.length ++ " failed"⟩

/-- The log of a batch: a record for each cell and one for all of them. -/
def log (batch : Batch) : List LogRecord :=
  batch.records ++ [batch.closingRecord]

end Batch

namespace Translator

/-- Translates one more cell and takes it in as what it turns out to be. -/
def addCell (t : Translator) (batch : Batch) (cell : LogicCell) : Batch :=
  match t.translateCell cell with
  | .ok result =>
    let entry : LogRecord := ⟨.debug, "row " ++ toString cell.row.toNat ++ " " ++
      cell.column.name ++ " of '" ++ cell.fieldName ++ "': " ++ result.expression⟩
    { batch with
      translated := batch.translated ++ [result]
      records := batch.records ++ [entry] }
  | .error error =>
    let failure : CellFailure := ⟨cell.row, cell.column, cell.fieldName, error⟩
    let entry : LogRecord := ⟨.warn, "skipping cell: " ++ failure.message⟩
    { batch with
      failures := batch.failures ++ [failure]
      records := batch.records ++ [entry] }

/-- Translates cells one after the other. -/
def translateBatch (t : Translator) (cells : List LogicCell) : Batch :=
  cells.foldl t.addCell .empty

end Translator

end ChecklistLogic
