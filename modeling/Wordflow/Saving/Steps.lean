import Wordflow.Library.HardLinks
import Wordflow.Library.Run
import Wordflow.Objects

namespace Wordflow.Saving

open Library.HardLinks Library.Run Objects

/-- A path: the entry that it leads to, links and letter case followed as the
file system follows them, and its last component as it is written. -/
structure Path (Name : Type) where
  name : Name
  fileName : String
  deriving DecidableEq

/-- A file of the directories that programs share, or of the private folder of a
save. -/
inductive Place (Name : Type)
  | path (name : Name)
  | staged (folder : Nat)
  | original (folder : Nat)
  deriving DecidableEq

def Place.shared {Name : Type} : Place Name → Bool
  | .path _ => true
  | .staged _ | .original _ => false

/-- A call of `save_to`, with the file and the path that the runtime has then. -/
structure Work (Name : Type) where
  path : Path Name
  rename : Bool
  sameFile : Bool
  folder : Nat
  ownedPath : Path Name
  ownedFile : Nat

/-- What `save_to` does next. `lock` is the file that it holds at the destination,
`copy` the file that it has made. -/
inductive Stage
  | checkpointHere
  | lockDestination
  | checkpoint (lock : Option Nat)
  | stage (lock : Option Nat)
  | copyFile (lock : Option Nat)
  | prepare (lock : Option Nat) (copy : Nat)
  | setAside (lock : Option Nat) (copy : Nat)
  | install (lock : Option Nat) (copy : Nat)
  | reopen (copy : Nat)
  | discard (copy : Nat) (error : Error)
  | restore (error : Error)
  | moveAway (copy : Nat)
  | withdraw (copy : Nat) (error : Error)
  | replace (copy : Nat)
  | info
  | leave (result : Except Error Unit)

/-- A folder that is kept for the original, with what it then holds and what was
committed by then. -/
structure Backup (V : Type) where
  folder : Nat
  contents : List V
  committed : List V

structure Answer (Name : Type) where
  work : Work Name
  result : Except Error Unit

/-- The runtime with the file it has open, whose log is not yet in the file, and
the disk. `committed` are all changes that were committed, `answers` the calls
that returned. -/
structure State (Name V : Type) where
  disk : Disk (Place Name) (List V)
  path : Path Name
  temporary : Bool
  file : Nat
  log : List V
  folders : Nat
  work : Option (Work Name × Stage)
  committed : List V
  backups : List (Backup V)
  answers : List (Answer Name)

/-- An operation of a save may fail with an error of its own. -/
inductive Event (Name V : Type)
  | commit (change : V)
  | checkpoint
  | save (path : Path Name) (rename : Bool)
  | proceed (fails : Bool) (error : Error)
  | other (act : Act (Place Name) (List V))

def fileExists : Error := ⟨"file_exists", "Choose an unused project filename."⟩

/-- `restore` is the text of what the link back failed with. -/
def renameFailed (error : Error) (restore backup : String) : Error :=
  ⟨"rename_failed", error.code ++ ": " ++ error.message ++ ". Could not restore the original filename: " ++ restore ++
    ". The original project is retained at " ++ backup⟩

variable {Name V : Type}

def Stage.made : Stage → Option Nat
  | .prepare _ copy | .setAside _ copy | .install _ copy | .reopen copy | .discard copy _ | .moveAway copy
  | .withdraw copy _ | .replace copy => some copy
  | .checkpointHere | .lockDestination | .checkpoint _ | .stage _ | .copyFile _ | .restore _ | .info | .leave _ => none

namespace State

variable (s : State Name V)

def goto (w : Work Name) (stage : Stage) : State Name V := { s with work := some (w, stage) }

def fail (w : Work Name) (error : Error) : State Name V := s.goto w (.leave (.error error))

/-- The files that the runtime has open or has just made, and those it retains. -/
def held (i : Nat) : Bool :=
  i == s.file || s.work.any (fun work => work.2.made == some i) ||
    s.backups.any fun backup => s.disk.entry (.original backup.folder) == some i

/-- CHECKPOINT: the log goes into the file. -/
def checkpoint : State Name V :=
  { s with disk := s.disk.write s.file (s.disk.contents s.file ++ s.log), log := [] }

end State

variable [DecidableEq Name]

section SaveTo

variable (s : State Name V)

/-- `save_to` up to the lock, the project being open. -/
def saveTo (path : Path Name) (rename : Bool) : State Name V :=
  let present := (s.disk.entry (.path path.name)).isSome
  let sameFile := present && path.name == s.path.name
  let w : Work Name := ⟨path, rename, sameFile, s.folders, s.path, s.file⟩
  let s := { s with folders := s.folders + 1 }
  if sameFile && (!rename || path.fileName == s.path.fileName) then s.goto w .checkpointHere
  else if rename && present && !sameFile then s.fail w fileExists
  else s.goto w .lockDestination

variable (display : Nat → String) (w : Work Name) (fails : Bool) (error : Error)

/-- `lock_destination`: there is nothing to lock where the destination is free. -/
def lockDestination : State Name V :=
  if w.rename then s.goto w (.checkpoint none)
  else if fails then s.fail w error
  else s.goto w (.checkpoint (s.disk.entry (.path w.path.name)))

def copyFile (lock : Option Nat) : State Name V :=
  match if fails then none else s.disk.entry (.path s.path.name) with
  | some i =>
      { s with disk := s.disk.create (.staged w.folder) (s.disk.contents i) }.goto w (.prepare lock s.disk.next)
  | none => s.fail w error

/-- The runtime excludes all work during Rename, which keeps the original until
its replacement is open. -/
def setAside (lock : Option Nat) (copy : Nat) : State Name V :=
  if w.rename && w.sameFile then
    match if fails then none else s.disk.rename (.path s.path.name) (.original w.folder) with
    | some disk => { s with disk }.goto w (.install lock copy)
    | none => s.fail w error
  else s.goto w (.install lock copy)

/-- A locked destination is replaced; a file that came there since is not. -/
def install (lock : Option Nat) (copy : Nat) : State Name V :=
  match
    if fails then none
    else if lock.isSome then s.disk.rename (.staged w.folder) (.path w.path.name)
    else s.disk.hardLink (.staged w.folder) (.path w.path.name) with
  | some disk => { s with disk }.goto w (.reopen copy)
  | none => if w.rename then s.goto w (.restore error) else s.fail w error

/-- `Self::open` and the settings that follow it. -/
def reopen (copy : Nat) : State Name V :=
  match if fails then none else s.disk.entry (.path w.path.name) with
  | some i => if w.rename && !w.sameFile then s.goto w (.moveAway i) else s.goto w (.replace i)
  | none => if w.rename then s.goto w (.discard copy error) else s.fail w error

/-- Removing the copy from the destination; that it fails is ignored. -/
def removeCopy : State Name V :=
  { s with disk := if fails then s.disk else (s.disk.remove (.path w.path.name)).getD s.disk }

/-- The folder is kept with the original that could not be linked back. -/
def retain (first : Error) : State Name V :=
  { s with
    work := none
    backups := s.backups ++
      [⟨w.folder, ((s.disk.entry (.original w.folder)).map s.disk.contents).getD [], s.committed⟩]
    answers := s.answers ++ [⟨w, .error (renameFailed first error.message (display w.folder))⟩] }

def restore (first : Error) : State Name V :=
  if w.sameFile then
    match if fails then none else s.disk.hardLink (.original w.folder) (.path s.path.name) with
    | some disk => { s with disk }.fail w first
    | none => retain s display w error first
  else s.fail w first

def moveAway (copy : Nat) : State Name V :=
  match if fails then none else s.disk.rename (.path s.path.name) (.original w.folder) with
  | some disk => { s with disk }.goto w (.replace copy)
  | none => s.goto w (.withdraw copy error)

/-- `*self = saved`, with which the folder of an Untitled project goes. -/
def replace (copy : Nat) : State Name V :=
  { s with
    disk := if s.temporary then s.disk.unlink (.path s.path.name) else s.disk
    path := w.path
    temporary := false
    file := copy
    log := [] }.goto w .info

/-- The private folder goes when `save_to` returns. -/
def leave (result : Except Error Unit) : State Name V :=
  { s with
    disk := if fails then s.disk else (s.disk.unlink (.staged w.folder)).unlink (.original w.folder)
    work := none
    answers := s.answers ++ [⟨w, result⟩] }

def perform : Stage → State Name V
  | .checkpointHere => if fails then s.fail w error else s.checkpoint.goto w .info
  | .lockDestination => lockDestination s w fails error
  | .checkpoint lock => if fails then s.fail w error else s.checkpoint.goto w (.stage lock)
  | .stage lock => if fails then s.fail w error else s.goto w (.copyFile lock)
  | .copyFile lock => copyFile s w fails error lock
  | .prepare lock copy => if fails then s.fail w error else s.goto w (.setAside lock copy)
  | .setAside lock copy => setAside s w fails error lock copy
  | .install lock copy => install s w fails error lock copy
  | .reopen copy => reopen s w fails error copy
  | .discard _ first => (removeCopy s w fails).goto w (.restore first)
  | .restore first => restore s display w fails error first
  | .moveAway copy => moveAway s w fails error copy
  | .withdraw _ first => (removeCopy s w fails).fail w first
  | .replace copy => replace s w copy
  | .info => s.goto w (.leave (if fails then .error error else .ok ()))
  | .leave result => leave s w fails result

/-- The runtime commits and saves one at a time; other programs act at any
moment. A project without a file of its own is never renamed. -/
def step (s : State Name V) : Event Name V → Option (State Name V)
  | .commit change =>
      if s.work.isNone then some { s with log := s.log ++ [change], committed := s.committed ++ [change] } else none
  | .checkpoint => if s.work.isNone then some s.checkpoint else none
  | .save path rename => if s.work.isNone && !(rename && s.temporary) then some (saveTo s path rename) else none
  | .proceed fails error => s.work.map fun work => perform s display work.1 fails error work.2
  | .other act => (others s.held Place.shared s.disk act).map fun disk => { s with disk }

end SaveTo

section Cases

variable (s : State Name V) (w : Work Name) (fails : Bool) (error first : Error) (lock : Option Nat) (copy : Nat)
  (display : Nat → String)

omit [DecidableEq Name] in
theorem lockDestination_cases :
    (w.rename = true ∧ lockDestination s w fails error = s.goto w (.checkpoint none)) ∨
    (w.rename = false ∧ lockDestination s w fails error = s.goto w (.checkpoint (s.disk.entry (.path w.path.name)))) ∨
    lockDestination s w fails error = s.fail w error := by
  unfold lockDestination
  cases hrename : w.rename
  · cases fails
    · exact .inr (.inl ⟨rfl, rfl⟩)
    · exact .inr (.inr rfl)
  · exact .inl ⟨rfl, rfl⟩

theorem copyFile_cases :
    (∃ i, s.disk.entry (.path s.path.name) = some i ∧
      copyFile s w fails error lock =
        { s with disk := s.disk.create (.staged w.folder) (s.disk.contents i) }.goto w (.prepare lock s.disk.next)) ∨
    copyFile s w fails error lock = s.fail w error := by
  unfold copyFile
  cases fails with
  | true => exact .inr rfl
  | false =>
      cases hentry : s.disk.entry (.path s.path.name) with
      | none => exact .inr rfl
      | some i => exact .inl ⟨i, rfl, rfl⟩

theorem setAside_cases :
    (∃ i, (w.rename && w.sameFile) = true ∧ s.disk.entry (.path s.path.name) = some i ∧
      setAside s w fails error lock copy =
        { s with disk := (s.disk.point (.path s.path.name) (.original w.folder)).unlink (.path s.path.name) }.goto w
          (.install lock copy)) ∨
    ((w.rename && w.sameFile) = false ∧ setAside s w fails error lock copy = s.goto w (.install lock copy)) ∨
    setAside s w fails error lock copy = s.fail w error := by
  unfold setAside
  cases hsame : w.rename && w.sameFile with
  | false => exact .inr (.inl ⟨rfl, rfl⟩)
  | true =>
      cases fails with
      | true => exact .inr (.inr rfl)
      | false =>
          cases hdisk : s.disk.rename (.path s.path.name) (.original w.folder) with
          | none => exact .inr (.inr (by simp))
          | some disk =>
              obtain ⟨⟨i, hi⟩, rfl⟩ := (Disk.rename_eq (by simp)).mp hdisk
              exact .inl ⟨i, rfl, hi, by simp⟩

theorem install_cases :
    (∃ i, lock.isSome = true ∧ s.disk.entry (.staged w.folder) = some i ∧
      install s w fails error lock copy =
        { s with disk := (s.disk.point (.staged w.folder) (.path w.path.name)).unlink (.staged w.folder) }.goto w
          (.reopen copy)) ∨
    (∃ i, s.disk.entry (.path w.path.name) = none ∧ s.disk.entry (.staged w.folder) = some i ∧
      install s w fails error lock copy =
        { s with disk := s.disk.point (.staged w.folder) (.path w.path.name) }.goto w (.reopen copy)) ∨
    (w.rename = true ∧ install s w fails error lock copy = s.goto w (.restore error)) ∨
    (w.rename = false ∧ install s w fails error lock copy = s.fail w error) := by
  have hfailed : (w.rename = true ∧ (if w.rename then s.goto w (.restore error) else s.fail w error) = s.goto w (.restore error)) ∨
      (w.rename = false ∧ (if w.rename then s.goto w (.restore error) else s.fail w error) = s.fail w error) := by
    cases w.rename
    · exact .inr ⟨rfl, rfl⟩
    · exact .inl ⟨rfl, rfl⟩
  unfold install
  cases fails with
  | true => exact .inr (.inr hfailed)
  | false =>
      cases hlock : lock.isSome with
      | true =>
          cases hdisk : s.disk.rename (.staged w.folder) (.path w.path.name) with
          | none => exact .inr (.inr (by simpa [hdisk] using hfailed))
          | some disk =>
              obtain ⟨⟨i, hi⟩, rfl⟩ := (Disk.rename_eq (by simp)).mp hdisk
              exact .inl ⟨i, rfl, hi, by simp⟩
      | false =>
          cases hdisk : s.disk.hardLink (.staged w.folder) (.path w.path.name) with
          | none => exact .inr (.inr (by simpa [hdisk] using hfailed))
          | some disk =>
              obtain ⟨⟨i, hi⟩, hfree, rfl⟩ := Disk.hardLink_eq.mp hdisk
              exact .inr (.inl ⟨i, hfree, hi, by simp⟩)

omit [DecidableEq Name] in
theorem reopen_cases :
    (∃ i, s.disk.entry (.path w.path.name) = some i ∧
      reopen s w fails error copy =
        s.goto w (if w.rename && !w.sameFile then .moveAway i else .replace i)) ∨
    reopen s w fails error copy = s.goto w (if w.rename then .discard copy error else .leave (.error error)) := by
  unfold reopen
  cases fails with
  | true => exact .inr (by cases w.rename <;> rfl)
  | false =>
      cases hentry : s.disk.entry (.path w.path.name) with
      | none => exact .inr (by cases w.rename <;> simp [State.fail])
      | some i => exact .inl ⟨i, rfl, by cases w.rename <;> cases w.sameFile <;> simp⟩

theorem removeCopy_cases :
    removeCopy s w fails = s ∨ removeCopy s w fails = { s with disk := s.disk.unlink (.path w.path.name) } := by
  unfold removeCopy
  cases fails with
  | true => exact .inl rfl
  | false =>
      cases hdisk : s.disk.remove (.path w.path.name) with
      | none => exact .inl (by simp)
      | some disk =>
          obtain ⟨-, rfl⟩ := Disk.remove_eq.mp hdisk
          exact .inr (by simp)

theorem restore_cases :
    (∃ i, w.sameFile = true ∧ s.disk.entry (.original w.folder) = some i ∧ s.disk.entry (.path s.path.name) = none ∧
      restore s display w fails error first =
        { s with disk := s.disk.point (.original w.folder) (.path s.path.name) }.fail w first) ∨
    (w.sameFile = true ∧ restore s display w fails error first = retain s display w error first) ∨
    (w.sameFile = false ∧ restore s display w fails error first = s.fail w first) := by
  unfold restore
  cases hsame : w.sameFile with
  | false => exact .inr (.inr ⟨rfl, rfl⟩)
  | true =>
      cases fails with
      | true => exact .inr (.inl ⟨rfl, rfl⟩)
      | false =>
          cases hdisk : s.disk.hardLink (.original w.folder) (.path s.path.name) with
          | none => exact .inr (.inl ⟨rfl, by simp⟩)
          | some disk =>
              obtain ⟨⟨i, hi⟩, hfree, rfl⟩ := Disk.hardLink_eq.mp hdisk
              exact .inl ⟨i, rfl, hi, hfree, by simp⟩

theorem moveAway_cases :
    (∃ i, s.disk.entry (.path s.path.name) = some i ∧
      moveAway s w fails error copy =
        { s with disk := (s.disk.point (.path s.path.name) (.original w.folder)).unlink (.path s.path.name) }.goto w
          (.replace copy)) ∨
    moveAway s w fails error copy = s.goto w (.withdraw copy error) := by
  unfold moveAway
  cases fails with
  | true => exact .inr rfl
  | false =>
      cases hdisk : s.disk.rename (.path s.path.name) (.original w.folder) with
      | none => exact .inr (by simp)
      | some disk =>
          obtain ⟨⟨i, hi⟩, rfl⟩ := (Disk.rename_eq (by simp)).mp hdisk
          exact .inl ⟨i, hi, by simp⟩

end Cases

end Wordflow.Saving
