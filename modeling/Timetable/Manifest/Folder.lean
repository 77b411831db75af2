import Timetable.Json.Parser
import Timetable.Manifest.Registry

/-!
# Folders of manifests

A folder holds files with the extension `json`, each with one manifest or an array of them. They are read
in the order of their names; other files and folders within are passed over.
-/

namespace Timetable

/-- The entries of a folder: a text for a file, nothing for a folder within. -/
structure Folder where
  path : String
  entries : List (String × Option String)

inductive FolderError
  | missing (path : String)
  | notJson (path : String)
  | badManifest (index : Nat) (path : String) (cause : ObjectError)
  deriving DecidableEq

/-- Where the error arose. -/
def FolderError.context : FolderError → String
  | .missing path => s!"failed to read manifest dir {path}"
  | .notJson path => s!"invalid JSON in {path}"
  | .badManifest index path _ => s!"invalid manifest #{index} in {path}"

namespace Folder

/-- Whether a file name ends in `.json` and has something before that. -/
def isManifest (name : String) : Bool :=
  let start := (name.toList.reverse.drop ".json".length).reverse
  start ++ ".json".toList == name.toList && !start.isEmpty

def manifests (f : Folder) : List (String × String) :=
  (f.entries.filterMap fun (name, text) =>
    if isManifest name then text.map (name, ·) else none).mergeSort fun a b => a.1 ≤ b.1

def loadFile (r : Registry) (stamp : Stamp) (path text : String) :
    Except FolderError (List Object) :=
  match Json.parse? text with
  | none => .error (.notJson path)
  | some value =>
    let items := match value with
      | .arr items => items
      | single => [single]
    items.zipIdx.mapM fun (manifest, i) =>
      (r.decode stamp manifest).mapError (.badManifest i path)

/-- The objects of all files; the stamp stands in for UIDs and creation times that are left out. -/
def load (r : Registry) (stamp : Stamp) (f : Folder) : Except FolderError (List Object) := do
  let loaded ← f.manifests.mapM fun (name, text) => loadFile r stamp (f.path ++ "/" ++ name) text
  .ok loaded.flatten

end Folder

/-- Reads the folder at a path, if there is one. -/
def Folder.loadFrom (r : Registry) (stamp : Stamp) (path : String) :
    Option (List (String × Option String)) → Except FolderError (List Object)
  | none => .error (.missing path)
  | some entries => Folder.load r stamp ⟨path, entries⟩

end Timetable
