import Mathlib.Data.List.Sort
import Mathlib.Data.String.Basic
import Wordflow.Library.Fallible
import Wordflow.Library.Json

namespace Wordflow.Crates

open Library Library.Fallible

/-- The fields of an entity, in the order the metadata has them. -/
abbrev Entity := List (String × Json)

inductive Error
  | invalidInput (message : String)
  | conversion (message : String)
  deriving DecidableEq

def asList : Json → List Json
  | .null => []
  | .arr items => items
  | value => [value]

mutual

def jsonldValue : Json → Json
  | .arr items =>
      match jsonldValues items with
      | [value] => value
      | values => .arr values
  | .obj fields => ((Json.lookup fields "@value").or (Json.lookup fields "@id")).getD (.obj fields)
  | value => value

def jsonldValues : List Json → List Json
  | [] => []
  | value :: rest => jsonldValue value :: jsonldValues rest

end

def escape (c : Char) : String :=
  match c.toNat with
  | 0x08 => "\\b"
  | 0x09 => "\\t"
  | 0x0a => "\\n"
  | 0x0c => "\\f"
  | 0x0d => "\\r"
  | 0x22 => "\\\""
  | 0x5c => "\\\\"
  | n => if n < 0x20 then "\\u00" ++ String.ofList [Nat.digitChar (n / 16), Nat.digitChar (n % 16)] else c.toString

def quoted (s : String) : String := "\"" ++ String.join (s.toList.map escape) ++ "\""

mutual

def canonicalJson (spaces : Bool) : Json → String
  | .null => "null"
  | .bool b => if b then "true" else "false"
  | .num text => text
  | .str s => quoted s
  | .arr items => "[" ++ (if spaces then ", " else ",").intercalate (canonicalItems spaces items) ++ "]"
  | .obj fields =>
      let keys := (canonicalFields spaces fields).insertionSort fun a b => a.1 ≤ b.1
      let texts := keys.map fun field => quoted field.1 ++ (if spaces then ": " else ":") ++ field.2
      "\x7b" ++ (if spaces then ", " else ",").intercalate texts ++ "\x7d"

def canonicalItems (spaces : Bool) : List Json → List String
  | [] => []
  | value :: rest => canonicalJson spaces value :: canonicalItems spaces rest

def canonicalFields (spaces : Bool) : List (String × Json) → List (String × String)
  | [] => []
  | (key, value) :: rest => (key, canonicalJson spaces value) :: canonicalFields spaces rest

end

def pythonString : Json → String
  | .str s => s
  | .bool true => "True"
  | .bool false => "False"
  | .null => "None"
  | value => canonicalJson true value

def firstString (value : Option Json) : Option String :=
  match value.map jsonldValue with
  | none => none
  | some .null => none
  | some (.arr values) => (values.find? fun v => v ≠ .null ∧ v ≠ .str "").map pythonString
  | some value => some (pythonString value)

def strings (value : Option Json) : List String :=
  (asList ((value.map jsonldValue).getD .null)).map pythonString

def entityTypes (entity : Entity) : List String := strings (Json.lookup entity "@type")

def reference : Json → Option String
  | .obj fields =>
      match Json.lookup fields "@id" with
      | some (.str id) => if id = "" then none else some id
      | _ => none
  | _ => none

/-- The entities of a crate by their identifiers, in the order of the graph. -/
structure RoCrate where
  entities : List (String × Entity)
  distinct : (entities.map Prod.fst).Nodup
  identified : ∀ e ∈ entities, Json.lookup e.2 "@id" = some (.str e.1)

namespace RoCrate

def entity (krate : RoCrate) (id : String) : Option Entity := (krate.entities.find? fun e => e.1 = id).map Prod.snd

def empty : RoCrate := ⟨[], List.nodup_nil, fun _ he => nomatch he⟩

def noIdentifier : Error := .invalidInput "RO-Crate entities must have a non-empty @id"

def addEntity (krate : RoCrate) (entry : Json) : Except Error RoCrate :=
  match entry with
  | .obj object =>
      match hid : Json.lookup object "@id" with
      | some (.str id) =>
          if id = "" then .error noIdentifier
          else if hnew : id ∈ krate.entities.map Prod.fst then
            .error (.invalidInput ("RO-Crate contains a duplicate entity ID: " ++ id))
          else
            .ok {
              entities := krate.entities ++ [(id, object)]
              distinct := by
                rw [List.map_append]
                refine List.nodup_append.mpr ⟨krate.distinct, List.nodup_singleton id, ?_⟩
                rintro a ha b hb rfl
                have heq : a = id := List.mem_singleton.mp hb
                exact hnew (heq ▸ ha)
              identified := by
                intro e he
                rcases List.mem_append.mp he with he | he
                · exact krate.identified e he
                · cases List.mem_singleton.mp he
                  exact hid }
      | _ => .error noIdentifier
  | _ => .error (.invalidInput "RO-Crate @graph entries must be objects")

def fromValue (original : Json) : Except Error RoCrate :=
  match original.get? "@graph" with
  | some (.arr graph) => graph.foldlM addEntity empty
  | _ => .error (.invalidInput "RO-Crate metadata must contain an @graph array")

end RoCrate

end Wordflow.Crates
