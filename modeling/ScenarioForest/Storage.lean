import ScenarioForest.Document
import ScenarioForest.Folder
import ScenarioForest.Forest.Draft
set_option autoImplicit false

/-!
Forests that come from files, and flat documents that go into files.
-/

namespace ScenarioForest

inductive FileAccess where
  | read
  | write
  deriving DecidableEq, Repr

structure FileError where
  access : FileAccess
  path : Text
  fault : FileFault
  deriving DecidableEq, Repr

inductive LoadError where
  | file (e : FileError)
  | document (e : ParseError)
  deriving DecidableEq, Repr

/-- Reads a file as a document. All of it has to be text before the first line counts. -/
def Forest.load (d : Folder) (path : Text) (o : ParseOptions) : Except LoadError Forest :=
  match d.read path with
  | .error fault => .error (.file ⟨.read, path, fault⟩)
  | .ok bytes =>
    match Text.decode bytes with
    | none => .error (.file ⟨.read, path, .notText⟩)
    | some t =>
      match Forest.parse o t with
      | .error e => .error (.document e)
      | .ok f => .ok f

def Forest.save (f : Forest) (d : Folder) (path : Text) (o : FlattenOptions) :
    Except FileError Folder :=
  match d.write path (Text.encode (f.render o).1) with
  | .error fault => .error ⟨.write, path, fault⟩
  | .ok d => .ok d

end ScenarioForest
