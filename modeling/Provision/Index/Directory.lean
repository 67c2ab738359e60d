import Provision.GlobalConfig
import Provision.Catalog
import Provision.Profile
import Provision.Recipe.Manifest

/-!
Recipes, profiles and configurations in files, and recipe indexes in directories. A directory
gives the recipes of its files with the extension `toml`, entered in the order of their names.
-/

namespace Provision

inductive FileContent
  | absent
  | directory
  | bytes (content : ByteArray)

namespace FileContent

def ofText (s : String) : FileContent := .bytes s.toUTF8

def text? : FileContent → Option String
  | .bytes content => String.fromUTF8? content
  | _ => none

def isPresent : FileContent → Bool
  | .absent => false
  | _ => true

end FileContent

/-- Why a file could not be used: it could not be read as text, or its text is not as it should
be. -/
inductive FileError (ε : Type)
  | unreadable
  | content (error : ε)
deriving DecidableEq, Repr

def FileContent.readWith {α ε : Type} (read : String → Except ε α) (file : FileContent) :
    Except (FileError ε) α :=
  match file.text? with
  | none => .error .unreadable
  | some content => (read content).mapError .content

/-- Whether a file name has the extension `toml`: it ends in `.toml`, and something comes before
the last dot. -/
def isRecipeFile (name : String) : Bool :=
  match Text.cutLast '.' name with
  | some (stem, extension) => extension == "toml" && !stem.isEmpty
  | none => false

abbrev Directory := Option (List (String × FileContent))

def RecipeIndex.load (directory : Directory) : Except (FileError ManifestError) RecipeIndex := do
  let some files := directory | throw .unreadable
  let files := (files.filter (isRecipeFile ·.1)).mergeSort fun a b => (compare a.1 b.1).isLE
  let recipes ← files.mapM fun (_, file) => file.readWith Recipe.parse
  return recipes.foldl RecipeIndex.upsert ∅

def GlobalConfig.load (file : FileContent) : Except (FileError ManifestError) GlobalConfig :=
  if file.isPresent then file.readWith fun content => orMalformed (parse? content)
  else .ok default

end Provision
