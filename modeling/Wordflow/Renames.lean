import Wordflow.Library.Json
import Wordflow.Objects

namespace Wordflow.Renames

open Library Library.Identifier Objects

inductive Rename
  | table (source : Relation) (name : String)
  | column (source : Relation) (before after : String)
  deriving DecidableEq

namespace Rename

def source : Rename → Relation
  | .table source _ | .column source _ _ => source

/-- Whether a recognised reference names the renamed source. -/
def recognizes (rename : Rename) (target : ObjectTarget) : Bool :=
  eqIgnoreAsciiCase target.name rename.source.name &&
    eqIgnoreAsciiCase (target.schema.getD "data") rename.source.schema

def target (rename : Rename) (target : ObjectTarget) : ObjectTarget :=
  match rename with
  | .table _ name => { target with name := name }
  | .column _ _ _ => target

def field (rename : Rename) (name : String) : String :=
  match rename with
  | .table _ _ => name
  | .column _ before after => if eqIgnoreAsciiCase name before then after else name

end Rename

def renameField (before after : String) (value : Json) : Json :=
  value.mapStrings fun name => if eqIgnoreAsciiCase name before then after else name

def plotFields (kind : String) : List String :=
  match kind with
  | "trends" => ["axis", "groups", "value"]
  | "compare" => ["category", "stack", "value"]
  | "scatter" => ["x", "y", "color", "size", "label"]
  | "heatmap" => ["row", "column", "value"]
  | "sankey" => ["stages", "value"]
  | _ => []

namespace Rename

/-- Rewrite one input of a request. The flag says that its source is the
renamed one. -/
def input (rename : Rename) (value : Json) (fields : List String) : Bool × Json :=
  match value.get? "source" with
  | none => (false, value)
  | some source =>
      match ((source.get? "name").bind Json.asStr?).or ((source.get? "table_name").bind Json.asStr?) with
      | none => (false, value)
      | some name =>
          let schema := ((source.get? "schema").bind Json.asStr?).getD "data"
          if !eqIgnoreAsciiCase name rename.source.name || !eqIgnoreAsciiCase schema rename.source.schema then
            (false, value)
          else
            match rename with
            | .table _ name =>
                let field := if (source.get? "name").isSome then "name" else "table_name"
                (true, value.set "source" (source.set field (.str name)))
            | .column _ before after =>
                (true, fields.foldl (fun value field => value.modify field (renameField before after)) value)

/-- Rewrite the value of a key that is present. -/
def part (value : Json) (key : String) (f : Json → Bool × Json) : Bool × Json :=
  match value.get? key with
  | some v => ((f v).1, value.set key (f v).2)
  | none => (false, value)

def setup (rename : Rename) (value : Json) : Bool × Json :=
  let setup := rename.input value ["document", "annotation", "correction"]
  let codebook := part setup.2 "codebook" fun v => rename.input v ["code", "description"]
  (setup.1 || codebook.1, codebook.2)

/-- Rewrite what a request of the given kind says about the renamed source. -/
def request (rename : Rename) (kind : String) (value : Json) : Bool × Json :=
  match kind with
  | "frequency" | "concordance" | "topic-modeling" =>
      match value.get? "inputs" with
      | some (.arr inputs) =>
          let renamed := inputs.map fun v => rename.input v ["column"]
          (renamed.any Prod.fst, value.set "inputs" (.arr (renamed.map Prod.snd)))
      | _ => (false, value)
  | "annotation" =>
      let setup := part value "setup" rename.setup
      let codebook := part setup.2 "codebook" fun v => rename.input v ["code", "description"]
      let examples := part codebook.2 "examples" fun v => rename.input v ["text", "label"]
      (setup.1 || codebook.1 || examples.1, examples.2)
  | "quotation" => part value "input" fun v => rename.input v ["column"]
  | "trends" | "compare" | "scatter" | "heatmap" | "sankey" => rename.input value (plotFields kind)
  | _ => (false, value)

end Rename

end Wordflow.Renames
