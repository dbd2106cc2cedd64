import Wordflow.Files.Selections
import Wordflow.Library.Decimal

namespace Wordflow.Files

open Wordflow.Library Wordflow.Library.Fallible Wordflow.Library.FileTree Objects

/-- The moves of entries into a folder. `targets` are those of the moves before. -/
def plan (t : Contents) (folder : Path) : List Path → List Path → Except Error (List (Move String))
  | _, [] => .ok []
  | targets, source :: rest =>
      if source <+: folder then .error (.invalid "A folder cannot be moved inside itself")
      else
        match source.getLast? with
        | none => .error (.invalid "Choose a file or folder")
        | some name =>
            if folder ++ [name] = source then plan t folder targets rest
            else if t (folder ++ [name]) ≠ none ∨ folder ++ [name] ∈ targets then
              .error ⟨"file_exists", "The destination contains a file or folder with the same name"⟩
            else (plan t folder ((folder ++ [name]) :: targets) rest).map ((source, folder ++ [name]) :: ·)

def planned (t : Contents) (names : List String) (destination : String) : Except Error (List (Move String)) := do
  let selected ← selections t .data names
  let folder ← path t .data destination
  if t folder ≠ some .folder then .error (.invalid "Choose an existing destination folder")
  else plan t folder [] (selected.map Prod.snd)

/-- `fails` says which renames fail, counted over the whole call. -/
def moveFiles (t : Contents) (names : List String) (destination : String) (fails : Nat → Bool) :
    Except Error Unit × Contents :=
  match planned t names destination with
  | .error e => (.error e, t)
  | .ok moves =>
      match renameEach fails 0 [] moves t with
      | .all t => (.ok (), t)
      | .restored t => (.error ioError, t)
      | .stuck t => (.error ioError, t)

/-- What the system does with a deletion. -/
structure System where
  /-- The name of the temporary directory, if one can be created. -/
  tempdir : Option String
  /-- Whether a rename fails, counted over the whole call. -/
  fails : Nat → Bool
  /-- What a failed removal of the temporary directory leaves in it. -/
  removal : Option (Path → Bool)

/-- Where an entry goes in the temporary directory. -/
def place (trash : String) (index : Nat) : Path := [trash, String.ofList (Decimal.digits index)]

def createDir (t : Contents) (trash : String) : Contents := fun p => if p = [trash] then some .folder else t p

def removeDir (removal : Option (Path → Bool)) (trash : String) (t : Contents) : Contents := fun p =>
  if [trash] <+: p then
    match removal with
    | none => none
    | some left => if p = [trash] ∨ left p then t p else none
  else t p

def trashMoves (trash : String) (sources : List Path) : List (Move String) :=
  sources.mapIdx fun index source => (source, place trash index)

def deleteFiles (t : Contents) (library : Library) (names : List String) (s : System) : Except Error Unit × Contents :=
  match selections t library names with
  | .error e => (.error e, t)
  | .ok selected =>
      match s.tempdir with
      | none => (.error ioError, t)
      | some trash =>
          if t [trash] ≠ none then (.error ioError, t)
          else
            match renameEach s.fails 0 [] (trashMoves trash (selected.map Prod.snd)) (createDir t trash) with
            | .all t => (if s.removal.isNone then .ok () else .error ioError, removeDir s.removal trash t)
            -- The directory is removed when it goes out of scope, also where entries could not be renamed back.
            | .restored t => (.error ioError, removeDir s.removal trash t)
            | .stuck t => (.error ioError, removeDir s.removal trash t)

end Wordflow.Files
