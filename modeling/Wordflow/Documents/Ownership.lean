import Mathlib.Data.Nat.Basic
import Wordflow.Library.OrderedMap
import Wordflow.Library.Run
import Wordflow.Objects

namespace Wordflow.Ownership

open Library.OrderedMap Library.Run Objects

abbrev Label := Nat

/-- A window's runtime with the file it is started with or has open, none for an
Untitled project in its private temporary folder. -/
inductive Runtime (Path : Type)
  | starting (path : Option Path)
  | ready (file : Option Path)
  | failed
  | stopped
  deriving DecidableEq

structure Document (Path : Type) where
  path : Option Path
  runtime : Runtime Path
  deriving DecidableEq

/-- Who holds the opening gate, with the canonical path it opens, the
destination it saves to or the target it exports to. -/
inductive Gate (Path : Type)
  | opening (path : Option Path)
  | saving (label : Label) (destination : Option Path)
  | exporting (target : Path) (replace : Bool)
  deriving DecidableEq

/-- `files` are the canonical paths of the files that exist, those in the private
folders of Untitled projects apart. -/
structure State (Path : Type) where
  windows : Map Label (Document Path)
  sequence : Nat
  files : List Path
  gate : Option (Gate Path)

/-- Where saving to another file fails: before it installs its copy, before it
switches to it, or after. -/
inductive Fault
  | before (error : Error)
  | installed (error : Error)
  | after (error : Error)
  deriving DecidableEq

def projectBusy : Error :=
  ⟨"project_busy", "This destination is open in another Wordflow window. Close it before replacing the file."⟩

def exportBusy : Error := ⟨"project_busy",
  "The export destination is an open project. Choose a different file or close that project first."⟩

def projectClosed : Error := ⟨"project_closed", "Open a project first"⟩

def untitled : Error := .invalid "Choose a destination for this Untitled project"

def Fault.error : Fault → Error
  | .before error | .installed error | .after error => error

variable {Path : Type} [DecidableEq Path]

/-- The path of `ProjectInfo`, known from the start for a runtime yet to open it. -/
def Runtime.path : Runtime Path → Option Path
  | .starting path | .ready path => path
  | .failed | .stopped => none

def Runtime.alive : Runtime Path → Bool
  | .starting _ | .ready _ => true
  | .failed | .stopped => false

/-- `resolve` follows the linked folders of a path. -/
def canonicalize (resolve : Path → Path) (s : State Path) (path : Path) : Option Path :=
  if resolve path ∈ s.files then some (resolve path) else none

section Steps

variable (resolve : Path → Path) (s : State Path)

/-- The windows that have a path registered. -/
def owners (path : Path) : List Label :=
  s.windows.entries.filterMap fun e => if e.2.path = some path then some e.1 else none

def openWindow (path : Option Path) : Option (State Path) :=
  match path with
  | none => some { s with gate := some (.opening none) }
  | some path => (canonicalize resolve s path).map fun path => { s with gate := some (.opening (some path)) }

/-- The rest of `open_window`: a registered path is shown, another is registered
and its runtime started, unless the window cannot be built. -/
def insert (path : Option Path) (built : Bool) : State Path :=
  let s := { s with gate := none }
  if path.any fun path => !(owners s path).isEmpty then s
  else
    let s := { s with sequence := s.sequence + 1 }
    if built then { s with windows := s.windows.insert (s.sequence - 1) ⟨path, .starting path⟩ } else s

/-- `Project::save_to` for Save As: the files, the file then open and the path it
reports. -/
def saveTo (file : Option Path) (path : Path) (fault : Option Fault) :
    List Path × Option Path × Except Error (Option Path) :=
  if file.isSome ∧ canonicalize resolve s path = file then
    (s.files, file,
      match fault with
      | some fault => .error fault.error
      | none => .ok file)
  else
    match fault with
    | some (.before error) => (s.files, file, .error error)
    | some (.installed error) => (resolve path :: s.files, file, .error error)
    | some (.after error) => (resolve path :: s.files, some (resolve path), .error error)
    | none => (resolve path :: s.files, some (resolve path), .ok (some (resolve path)))

/-- `ProjectRuntime::save`. -/
def save (runtime : Runtime Path) (destination : Option Path) (fault : Option Fault) :
    List Path × Runtime Path × Except Error (Option Path) :=
  match runtime, destination with
  | .ready file, some path =>
      let (files, file, result) := saveTo resolve s file path fault
      (files, .ready file, result)
  | .ready none, none => (s.files, runtime, .error untitled)
  | .ready (some file), none =>
      (s.files, runtime,
        match fault with
        | some fault => .error fault.error
        | none => .ok (some file))
  | _, _ => (s.files, runtime, .error projectClosed)

/-- The check of `save_project` under the gate. -/
def saveProject (label : Label) (destination : Option Path) : Except Error (State Path) :=
  match destination with
  | none => .ok { s with gate := some (.saving label none) }
  | some path =>
      if (owners s ((canonicalize resolve s path).getD path)).any fun other => other ≠ label then .error projectBusy
      else .ok { s with gate := some (.saving label (some path)) }

/-- The save itself; the registered path follows only a save that succeeds. -/
def saved (label : Label) (document : Document Path) (destination : Option Path) (fault : Option Fault) : State Path :=
  let (files, runtime, result) := save resolve s document.runtime destination fault
  let path := match result with
    | .ok path => path
    | .error _ => document.path
  { s with
    windows := s.windows.insert label ⟨path, runtime⟩
    files := files
    gate := none }

def exportTo (target : Path) (replace : Bool) : Except Error (State Path) :=
  match canonicalize resolve s target with
  | none => .ok { s with gate := some (.exporting target replace) }
  | some path =>
      if (owners s path).isEmpty then .ok { s with gate := some (.exporting target replace) } else .error exportBusy

/-- `download::install`; without `replace` an existing target is an error. -/
def install (target : Path) (replace : Bool) (success : Bool) : State Path :=
  let s := { s with gate := none }
  if success && (replace || (canonicalize resolve s target).isNone) then { s with files := resolve target :: s.files }
  else s

end Steps

/-- `started` and `startFailed` are the runtime's; `stop` and `close` are the two
halves of closing a window; `created` and `removed` are other processes at work. -/
inductive Event (Path : Type)
  | openWindow (path : Option Path)
  | insert (built : Bool)
  | leave
  | started (label : Label)
  | startFailed (label : Label)
  | saveProject (label : Label) (destination : Option Path)
  | saved (fault : Option Fault)
  | exportTo (target : Path) (replace : Bool)
  | installed (success : Bool)
  | stop (label : Label)
  | close (label : Label)
  | created (path : Path)
  | removed (path : Path)
  deriving DecidableEq

section Step

variable (resolve : Path → Path)

def setRuntime (s : State Path) (label : Label) (runtime : Runtime Path) : State Path :=
  { s with windows := s.windows.modify label fun document => { document with runtime := runtime } }

/-- A save holds the actions of its window. -/
def saving (s : State Path) (label : Label) : Bool :=
  match s.gate with
  | some (.saving other _) => other = label
  | _ => false

/-- A window has the file registered or open, or is about to. -/
def inUse (s : State Path) (path : Path) : Bool :=
  (s.windows.entries.any fun e => e.2.path = some path ∨ e.2.runtime.path = some path) ||
    s.gate = some (.opening (some path))

def step (s : State Path) : Event Path → Option (State Path)
  | .openWindow path => if s.gate = none then openWindow resolve s path else none
  | .insert built =>
      match s.gate with
      | some (.opening path) => some (insert s path built)
      | _ => none
  | .leave =>
      match s.gate with
      | some (.opening _) => some { s with gate := none }
      | _ => none
  | .started label =>
      match (s.windows.get? label).map Document.runtime with
      | some (.starting (some path)) =>
          (canonicalize resolve s path).map fun path => setRuntime s label (.ready (some path))
      | some (.starting none) => some (setRuntime s label (.ready none))
      | _ => none
  | .startFailed label =>
      match (s.windows.get? label).map Document.runtime with
      | some (.starting _) => some (setRuntime s label .failed)
      | _ => none
  | .saveProject label destination =>
      if s.gate = none ∧ s.windows.contains label then
        some (match saveProject resolve s label destination with
          | .ok t => t
          | .error _ => s)
      else none
  | .saved fault =>
      match s.gate with
      | some (.saving label destination) =>
          (s.windows.get? label).map fun document => saved resolve s label document destination fault
      | _ => none
  | .exportTo target replace =>
      if s.gate = none then
        some (match exportTo resolve s target replace with
          | .ok t => t
          | .error _ => s)
      else none
  | .installed success =>
      match s.gate with
      | some (.exporting target replace) => some (install resolve s target replace success)
      | _ => none
  | .stop label =>
      if saving s label then none else (s.windows.get? label).map fun _ => setRuntime s label .stopped
  | .close label =>
      if saving s label then none
      else
        match (s.windows.get? label).map Document.runtime with
        | some .stopped | some .failed => some { s with windows := s.windows.remove label }
        | _ => none
  | .created path => if resolve path = path then some { s with files := path :: s.files } else none
  | .removed path => if inUse s path then none else some { s with files := s.files.filter (· ≠ path) }

end Step

end Wordflow.Ownership
