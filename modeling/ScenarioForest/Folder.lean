import ScenarioForest.Text.Blank
set_option autoImplicit false

/-!
Files below a folder. A path may lead outside, where no file and no folder has a name that is
known.
-/

namespace ScenarioForest

structure Folder where
  folders : List (List Text)
  files : List (List Text × ByteArray)

inductive FileFault where
  | missing
  | isFolder
  | notFolder
  | nameTooLong
  | nulInPath
  | notText
  deriving DecidableEq, Repr

def maxNameBytes : Nat := 255

def maxPathBytes : Nat := 4095

def Text.byteLength (t : Text) : Nat := (String.ofList t).utf8ByteSize

def sameFolder : Text := ['.']

def folderAbove : Text := ['.', '.']

def isDots (name : Text) : Bool := name == sameFolder || name == folderAbove

/-- The place that an absolute path starts from, named by what no name may hold. -/
def outermost : List Text := [['/']]

/-- One folder up. Places outside are named by the way up to them, and nothing is above the
outermost one. -/
def goUp (here : List Text) : List Text :=
  if here == outermost then here
  else if here.isEmpty || here.getLast? == some folderAbove then here ++ [folderAbove]
  else here.dropLast

def Folder.enter (d : Folder) (here : List Text) : List Text → Except FileFault (List Text)
  | [] => .ok here
  | name :: rest =>
    if name == sameFolder then d.enter here rest
    else if name == folderAbove then d.enter (goUp here) rest
    else if maxNameBytes < Text.byteLength name then .error .nameTooLong
    else if d.folders.contains (here ++ [name]) then d.enter (here ++ [name]) rest
    else if d.files.any (·.1 == here ++ [name]) then .error .notFolder
    else .error .missing

/-- The folder that a path leads to, the last name of the path, and whether that name has to be
a folder's. The path as a whole is checked before any of its names. -/
def Folder.locate (d : Folder) (path : Text) : Except FileFault (List Text × Text × Bool) :=
  if path.contains '\x00' then .error .nulInPath
  else if maxPathBytes < Text.byteLength path then .error .nameTooLong
  else
    let start := if path.head? == some '/' then outermost else []
    match ((path.splitOn '/').filter (!·.isEmpty)).reverse with
    | [] => .error (if path.isEmpty then .missing else .isFolder)
    | last :: above =>
      (d.enter start above.reverse).map fun here =>
        (here, last, isDots last || path.getLast? == some '/')

def Folder.read (d : Folder) (path : Text) : Except FileFault ByteArray := do
  let (here, last, isFolder) ← d.locate path
  if isDots last then .error .isFolder
  else if maxNameBytes < Text.byteLength last then .error .nameTooLong
  else if d.folders.contains (here ++ [last]) then .error .isFolder
  else
    match d.files.lookup (here ++ [last]) with
    | none => .error .missing
    | some content => if isFolder then .error .notFolder else .ok content

def Folder.write (d : Folder) (path : Text) (content : ByteArray) : Except FileFault Folder := do
  let (here, last, isFolder) ← d.locate path
  if isFolder then .error .isFolder
  else if maxNameBytes < Text.byteLength last then .error .nameTooLong
  else if d.folders.contains (here ++ [last]) then .error .isFolder
  else
    .ok { d with files :=
      (here ++ [last], content) :: d.files.filter (·.1 != here ++ [last]) }

def Text.decode (bytes : ByteArray) : Option Text := (String.fromUTF8? bytes).map String.toList

def Text.encode (t : Text) : ByteArray := (String.ofList t).toUTF8

theorem Text.decode_encode (t : Text) : Text.decode (Text.encode t) = some t := by
  have h : String.fromUTF8? (String.ofList t).toUTF8 = some (String.ofList t) := by
    unfold String.fromUTF8?
    exact dif_pos (String.ofList t).isValidUTF8
  rw [decode, encode, h, Option.map_some, String.toList_ofList]

end ScenarioForest
