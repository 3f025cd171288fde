import ScenarioForest.Journal
import ScenarioForest.Options.Setting
import ScenarioForest.Proofs.AddedComments
import ScenarioForest.Proofs.Agreement
import ScenarioForest.Proofs.Alignment
import ScenarioForest.Proofs.Concatenation
import ScenarioForest.Proofs.Conjunction
import ScenarioForest.Proofs.Continuation
import ScenarioForest.Proofs.Entries
import ScenarioForest.Proofs.FixedPoint
import ScenarioForest.Proofs.Grouping
import ScenarioForest.Proofs.History
import ScenarioForest.Proofs.NamePath
import ScenarioForest.Proofs.Open
import ScenarioForest.Proofs.Pattern
import ScenarioForest.Proofs.RowComment
import ScenarioForest.Proofs.RowPattern
import ScenarioForest.Proofs.Runs
import ScenarioForest.Proofs.StepPattern
import ScenarioForest.Report
import ScenarioForest.Summary
