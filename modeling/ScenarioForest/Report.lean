import ScenarioForest.Keyword
import ScenarioForest.Options
import ScenarioForest.Storage
import ScenarioForest.Text.Quoted
set_option autoImplicit false

/-!
Errors in words: the message of each error, its written form with all fields, and the messages of
its causes.
-/

namespace ScenarioForest

/-- An error in words. Some errors have no written form. -/
structure Report where
  message : Text
  detail : Option Text
  causes : List Text
  deriving DecidableEq, Repr

def UnevenRow.message (e : UnevenRow) : Text :=
  "data table row ".toList ++ Text.ofNat e.rowNumber ++ " has ".toList ++ Text.ofNat e.actual ++
    " cells but expected ".toList ++ Text.ofNat e.expected

def UnevenRow.detail (e : UnevenRow) : Text :=
  Text.record "UnevenRow" [("row_number", Text.ofNat e.rowNumber),
    ("expected", Text.ofNat e.expected), ("actual", Text.ofNat e.actual)]

def UnevenRow.report (e : UnevenRow) : Report := ⟨e.message, some e.detail, []⟩

def Fault.name : Fault → String
  | .unparseable _ => "UnparseableLine"
  | .invalidIndentation _ => "InvalidIndentation"
  | .excessiveIndentation _ => "ExcessiveIndentation"
  | .featureMisplaced _ => "FeatureLineMisplaced"
  | .conjunctionWithoutStep _ => "ConjunctionWithoutStep"
  | .stepOutsideScenario _ => "StepOutsideScenario"
  | .dataRowWithoutStep _ => "DataRowWithoutStep"
  | .unevenDataRow _ => "UnevenDataRow"

def Fault.opening : Fault → Text
  | .unparseable _ => "Unable to parse line ".toList
  | .invalidIndentation _ => "Invalid indentation at line ".toList
  | .excessiveIndentation _ => "Excessive indentation at line ".toList
  | .featureMisplaced _ =>
    "Feature line is allowed only at beginning of file but was encountered at line ".toList
  | .conjunctionWithoutStep _ => "Conjunction without preceding step at line ".toList
  | .stepOutsideScenario _ => "Step outside of any scenario at line ".toList
  | .dataRowWithoutStep _ => "Data table row without step at line ".toList
  | .unevenDataRow _ => "Uneven data table row at line ".toList

def Fault.subject : Fault → Text
  | .unparseable line | .invalidIndentation line | .featureMisplaced line
  | .conjunctionWithoutStep line | .stepOutsideScenario line | .dataRowWithoutStep line => line
  | .excessiveIndentation scenario => scenarioMark ++ scenario
  | .unevenDataRow row => row.message

def Fault.field : Fault → String × Text
  | .unparseable line | .invalidIndentation line | .featureMisplaced line
  | .conjunctionWithoutStep line | .stepOutsideScenario line | .dataRowWithoutStep line =>
    ("line", Text.quoted line)
  | .excessiveIndentation scenario => ("scenario", Text.quoted scenario)
  | .unevenDataRow row => ("source", row.detail)

def Fault.causes : Fault → List Text
  | .unevenDataRow row => [row.message]
  | _ => []

def ParseError.message (e : ParseError) : Text :=
  e.fault.opening ++ Text.ofNat e.lineNo ++ ": ".toList ++ e.fault.subject

def ParseError.report (e : ParseError) : Report :=
  ⟨e.message, some (Text.record e.fault.name [("line_no", Text.ofNat e.lineNo), e.fault.field]),
    e.fault.causes⟩

def OptionError.message : OptionError → Text
  | .invalidMode value =>
    "unknown flattening mode '".toList ++ value ++ "', expected one of: strict, relaxed".toList
  | .invalidBool key value =>
    "invalid boolean '".toList ++ value ++ "' for ".toList ++ key

def OptionError.detail : OptionError → Text
  | .invalidMode value => Text.tagged "InvalidMode" (Text.quoted value)
  | .invalidBool key value =>
    Text.record "InvalidBool" [("key", Text.quoted key), ("value", Text.quoted value)]

def OptionError.report (e : OptionError) : Report := ⟨e.message, some e.detail, []⟩

def UnknownKeyword.message (e : UnknownKeyword) : Text := "invalid step keyword: ".toList ++ e.text

def UnknownKeyword.report (e : UnknownKeyword) : Report :=
  ⟨e.message, some (Text.tagged "StepKeywordParseError" (Text.quoted e.text)), []⟩

def UnsupportedType.message (e : UnsupportedType) : Text :=
  "unsupported step type: ".toList ++ e.name

def UnsupportedType.report (e : UnsupportedType) : Report :=
  ⟨e.message, some (Text.tagged "UnsupportedStepType" e.name), []⟩

def FileFault.message : FileFault → Text
  | .missing => "No such file or directory (os error 2)".toList
  | .isFolder => "Is a directory (os error 21)".toList
  | .notFolder => "Not a directory (os error 20)".toList
  | .nameTooLong => "File name too long (os error 36)".toList
  | .nulInPath => "file name contained an unexpected NUL byte".toList
  | .notText => "stream did not contain valid UTF-8".toList

def FileAccess.verb : FileAccess → Text
  | .read => "read".toList
  | .write => "write".toList

def FileError.message (e : FileError) : Text :=
  "failed to ".toList ++ e.access.verb ++ ' ' :: e.path ++ ": ".toList ++ e.fault.message

def FileError.report (e : FileError) : Report := ⟨e.message, none, [e.fault.message]⟩

def LoadError.report : LoadError → Report
  | .file e => e.report
  | .document e => e.report

end ScenarioForest
