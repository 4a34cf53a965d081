import ChecklistLogic.Batch
import ChecklistLogic.Rule.Descent
import ChecklistLogic.Serial.Cell
import ChecklistLogic.Serial.Settings
import ChecklistLogic.Proofs.Canonical
import ChecklistLogic.Proofs.Outcome
import ChecklistLogic.Proofs.Sentences
import ChecklistLogic.Proofs.Section
import ChecklistLogic.Proofs.Leniency
import ChecklistLogic.Proofs.Location
import ChecklistLogic.Proofs.Batches
import ChecklistLogic.Proofs.CellGrammar
import ChecklistLogic.Proofs.Storage
import ChecklistLogic.Proofs.CanonicalCell
import ChecklistLogic.Proofs.Beginnings
import ChecklistLogic.Proofs.Segmentation
import ChecklistLogic.Proofs.Foreign
import ChecklistLogic.Proofs.Spacing
import ChecklistLogic.Proofs.FollowSets
import ChecklistLogic.Proofs.Validity
import ChecklistLogic.Proofs.RuleTexts
import ChecklistLogic.Proofs.Columns
import ChecklistLogic.Proofs.Spellings
import ChecklistLogic.Proofs.SingleRules
import ChecklistLogic.Proofs.Stages
import ChecklistLogic.Proofs.Fractions
import ChecklistLogic.Proofs.ChoiceNames
import ChecklistLogic.Proofs.Copies
import ChecklistLogic.Proofs.Descent
