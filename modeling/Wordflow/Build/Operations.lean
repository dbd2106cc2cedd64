import Mathlib.Data.List.DropRight
import Wordflow.Build.Tokens
import Wordflow.Library.Identifier
import Wordflow.Library.Quoting

namespace Wordflow.Build

open Library.Quoting

section Types

inductive BuildType
  | number
  | text
  | boolean
  | date
  | time
  | timestamp
  | unknown
  | unsupported
  | null
  | list (element : BuildType)
  deriving DecidableEq

namespace BuildType

def family : BuildType → String
  | number => "number"
  | text => "text"
  | boolean => "boolean"
  | date => "date"
  | time => "time"
  | timestamp => "timestamp"
  | unknown => "unknown"
  | unsupported => "unsupported"
  | null => "null"
  | list _ => "list"

def isList : BuildType → Bool
  | list _ => true
  | _ => false

def element : BuildType → BuildType
  | list element => element
  | _ => unknown

def scalar (t : BuildType) : Bool := t ≠ unknown && t ≠ unsupported && !t.isList && t ≠ null
def numeric (t : BuildType) : Bool := t = number
def textual (t : BuildType) : Bool := t = text
def logical (t : BuildType) : Bool := t = boolean
def numericList (t : BuildType) : Bool := t.isList && t.element.numeric
def textList (t : BuildType) : Bool := t.isList && t.element.textual
def temporal (t : BuildType) : Bool := t = date || t = time || t = timestamp
def dateOrTimestamp (t : BuildType) : Bool := t = date || t = timestamp

end BuildType

mutual

/-- The types of Apache Arrow that the builder tells apart. -/
inductive ArrowType
  | int
  | float
  | decimal
  | bool
  | utf8
  | largeUtf8
  | utf8View
  | date
  | time
  | timestamp
  | dictionary (values : ArrowType)
  | list (child : Option ArrowField)
  | fixedSizeList (child : Option ArrowField)
  | other

/-- A field with the name of its extension. -/
inductive ArrowField
  | mk (extension : Option String) (type : ArrowType)

end

mutual

def buildTypeOf : ArrowType → BuildType
  | .utf8 | .largeUtf8 | .utf8View | .dictionary .utf8 => .text
  | .int | .float | .decimal => .number
  | .bool => .boolean
  | .date => .date
  | .time => .time
  | .timestamp => .timestamp
  | .list none | .fixedSizeList none => .list .unsupported
  | .list (some child) | .fixedSizeList (some child) => .list (buildType child)
  | .dictionary _ | .other => .unsupported

/-- Menu families of the fields. -/
def buildType : ArrowField → BuildType
  | .mk extension type => if (extension.any fun name => name ≠ "") then .unsupported else buildTypeOf type

end

end Types

section Literals

/-- What `trim` takes off the ends of a text. -/
def isSpace (c : Char) : Bool :=
  c.toNat ∈ [9, 10, 11, 12, 13, 32, 160, 5760, 8232, 8233, 8239, 8287, 12288, 65279] || 8192 ≤ c.toNat && c.toNat ≤ 8202

def trim (s : List Char) : List Char := (s.dropWhile isSpace).rdropWhile isSpace

def dropSign : List Char → List Char
  | c :: s => if c = '+' ∨ c = '-' then s else c :: s
  | [] => []

/-- `^[+-]?\d+$`. -/
def isInteger (s : List Char) : Bool := dropSign s ≠ [] && (dropSign s).all Char.isDigit

/-- An exponent as far as the end. -/
def isExponent : List Char → Bool
  | [] => true
  | e :: s => (e = 'e' || e = 'E') && isInteger s

/-- `^[+-]?(?:\d+(?:\.\d*)?|\.\d+)(?:e[+-]?\d+)?$` without regard to case. -/
def isNumber (s : List Char) : Bool :=
  let whole := (dropSign s).takeWhile Char.isDigit
  match (dropSign s).dropWhile Char.isDigit with
  | '.' :: rest => (whole ≠ [] || rest.takeWhile Char.isDigit ≠ []) && isExponent (rest.dropWhile Char.isDigit)
  | rest => whole ≠ [] && isExponent rest

def literal (value : String) : List Char := enclose '\'' value.toList

def identifier (name : String) : List Char := enclose '"' name.toList

end Literals

section Catalogue

inductive BuildArgument
  | value
  | digits
  | exponent
  | start
  | length
  | end_
  | replacement
  | delimiter
  | format
  | part
  | unit
  | direction
  | index
  deriving DecidableEq

def BuildArgument.name : BuildArgument → String
  | .value => "value"
  | .digits => "digits"
  | .exponent => "exponent"
  | .start => "start"
  | .length => "length"
  | .end_ => "end"
  | .replacement => "replacement"
  | .delimiter => "delimiter"
  | .format => "format"
  | .part => "part"
  | .unit => "unit"
  | .direction => "direction"
  | .index => "index"

abbrev Arguments := BuildArgument → Option String

structure OperationParameter where
  name : BuildArgument
  label : String
  value : String := ""
  options : Option (List String) := none
  optional : Bool := false
  integer : Bool := false

structure Definition where
  label : String
  accepts : BuildType → Bool
  result : BuildType → BuildType
  sql : List Char → Arguments → BuildType → Except String (List Char)
  summary : Bool := false
  parameters : BuildType → List OperationParameter := fun _ => []

/-- A type that is unknown stays so unless the operation accepts any. -/
def Definition.resultOf (definition : Definition) (type : BuildType) : BuildType :=
  if type = .unknown && !definition.accepts type then .unknown else definition.result type

def arg (arguments : Arguments) (name : BuildArgument) : Except String String :=
  match arguments name with
  | some value => .ok value
  | none => .error ("Enter " ++ name.name)

def integer (value : String) : Except String (List Char) :=
  if isInteger (trim value.toList) then .ok (trim value.toList) else .error "Expected an integer"

def numericLiteral (value : String) : Except String (List Char) :=
  if isNumber (trim value.toList) then .ok (trim value.toList) else .error "Expected a number"

/-- Values are true and false in capitals and small letters. -/
def scalarLiteral (value : String) (type : BuildType) : Except String (List Char) :=
  if type.numeric then numericLiteral value
  else if type.logical then
    if value.toList.map Char.toUpper ∈ ["TRUE".toList, "FALSE".toList] then .ok (value.toList.map Char.toUpper)
    else .error "Choose true or false"
  else .ok (literal value)

def scalarParameter (type : BuildType) : List OperationParameter :=
  [{ name := .value
     label := "Value"
     value := if type.numeric then "0" else if type.logical then "false" else ""
     options := if type.logical then some ["true", "false"] else none }]

/-- Parts with a separator between them. -/
def join (separator : String) (parts : List (List Char)) : List Char := separator.toList.intercalate parts

/-- A function of its inputs, written out. -/
def call (name : String) (inputs : List (List Char)) : List Char := name.toList ++ '(' :: (join ", " inputs ++ [')'])

def parenthesized (e : List Char) : List Char := '(' :: (e ++ [')'])

def fn (label name : String) (accepts : BuildType → Bool) (result : BuildType → BuildType) (summary : Bool) : Definition where
  label := label
  accepts := accepts
  result := result
  sql e _ _ := .ok (call name [e])
  summary := summary

def count (label : String) (sql : List Char → List Char) : Definition where
  label := label
  accepts _ := true
  result _ := .number
  sql e _ _ := .ok (sql e)
  summary := true

def numericFunction (label name : String) : Definition := fn label name BuildType.numeric (fun _ => .number) false

def numericSummary (label name : String) : Definition := fn label name BuildType.numeric (fun _ => .number) true

def textFunction (label name : String) (result : BuildType) : Definition := fn label name BuildType.textual (fun _ => result) false

def listFunction (label name : String) (result : BuildType → BuildType) (accepts : BuildType → Bool) : Definition :=
  fn label name accepts result false

def dateParts (type : BuildType) : List String :=
  (if type ≠ .time then ["year", "quarter", "month", "day", "isodow", "dayofyear", "week"] else []) ++
    if type ≠ .date then ["hour", "minute", "second"] else []

def units (type : BuildType) : List String :=
  ["year", "quarter", "month", "week", "day"] ++ if type = .timestamp then ["hour", "minute", "second"] else []

/-- A function whose second input is an integer. -/
def withInteger (name : String) (argument : BuildArgument) (e : List Char) (arguments : Arguments) :
    Except String (List Char) := do
  let value ← arg arguments argument
  let digits ← integer value
  return call name [e, digits]

/-- A function whose second input is a text. -/
def withText (name : String) (argument : BuildArgument) (e : List Char) (arguments : Arguments) :
    Except String (List Char) := do
  let value ← arg arguments argument
  return call name [e, literal value]

inductive BuildOperationKind
  | isNull
  | isNotNull
  | fillNull
  | count
  | countNull
  | countDistinct
  | min
  | max
  | abs
  | sign
  | round
  | trunc
  | floor
  | ceil
  | sqrt
  | power
  | ln
  | log10
  | exp
  | sum
  | mean
  | median
  | stddev
  | variance
  | lower
  | upper
  | trim
  | ltrim
  | rtrim
  | stripAccents
  | textLength
  | textReverse
  | substring
  | replace
  | contains
  | startsWith
  | endsWith
  | split
  | parseDatetime
  | datePart
  | dateTrunc
  | formatDatetime
  | not
  | isTrue
  | isFalse
  | countTrue
  | countFalse
  | allTrue
  | anyTrue
  | listLength
  | listCount
  | listDistinct
  | listSort
  | listReverse
  | listExtract
  | listSlice
  | listContains
  | listJoin
  | listSum
  | listMean
  | listMin
  | listMax
  deriving DecidableEq

def BuildOperationKind.name : BuildOperationKind → String
  | .isNull => "is_null"
  | .isNotNull => "is_not_null"
  | .fillNull => "fill_null"
  | .count => "count"
  | .countNull => "count_null"
  | .countDistinct => "count_distinct"
  | .min => "min"
  | .max => "max"
  | .abs => "abs"
  | .sign => "sign"
  | .round => "round"
  | .trunc => "trunc"
  | .floor => "floor"
  | .ceil => "ceil"
  | .sqrt => "sqrt"
  | .power => "power"
  | .ln => "ln"
  | .log10 => "log10"
  | .exp => "exp"
  | .sum => "sum"
  | .mean => "mean"
  | .median => "median"
  | .stddev => "stddev"
  | .variance => "variance"
  | .lower => "lower"
  | .upper => "upper"
  | .trim => "trim"
  | .ltrim => "ltrim"
  | .rtrim => "rtrim"
  | .stripAccents => "strip_accents"
  | .textLength => "text_length"
  | .textReverse => "text_reverse"
  | .substring => "substring"
  | .replace => "replace"
  | .contains => "contains"
  | .startsWith => "starts_with"
  | .endsWith => "ends_with"
  | .split => "split"
  | .parseDatetime => "parse_datetime"
  | .datePart => "date_part"
  | .dateTrunc => "date_trunc"
  | .formatDatetime => "format_datetime"
  | .not => "not"
  | .isTrue => "is_true"
  | .isFalse => "is_false"
  | .countTrue => "count_true"
  | .countFalse => "count_false"
  | .allTrue => "all_true"
  | .anyTrue => "any_true"
  | .listLength => "list_length"
  | .listCount => "list_count"
  | .listDistinct => "list_distinct"
  | .listSort => "list_sort"
  | .listReverse => "list_reverse"
  | .listExtract => "list_extract"
  | .listSlice => "list_slice"
  | .listContains => "list_contains"
  | .listJoin => "list_join"
  | .listSum => "list_sum"
  | .listMean => "list_mean"
  | .listMin => "list_min"
  | .listMax => "list_max"

/-- The catalogue of operations. -/
def operationDefinition : BuildOperationKind → Definition
  | .isNull => { label := "Is NULL", accepts := fun _ => true, result := fun _ => .boolean
                 sql := fun e _ _ => .ok (parenthesized e ++ " IS NULL".toList) }
  | .isNotNull => { label := "Is not NULL", accepts := fun _ => true, result := fun _ => .boolean
                    sql := fun e _ _ => .ok (parenthesized e ++ " IS NOT NULL".toList) }
  | .fillNull => { label := "Fill NULL", accepts := BuildType.scalar, result := id, parameters := scalarParameter
                   sql := fun e a t => do
                     let value ← arg a .value
                     let value ← scalarLiteral value t
                     return call "coalesce" [e, value] }
  | .count => Build.count "Count non-NULL" fun e => call "count" [e]
  | .countNull => Build.count "Count NULL" fun e => call "countif" [parenthesized e ++ " IS NULL".toList]
  | .countDistinct =>
      { Build.count "Count distinct" fun e => "count(DISTINCT ".toList ++ (e ++ [')']) with
        accepts := fun t => t ≠ .unknown && t ≠ .unsupported }
  | .min => fn "Minimum" "min" BuildType.scalar id true
  | .max => fn "Maximum" "max" BuildType.scalar id true
  | .abs => numericFunction "Absolute value" "abs"
  | .sign => numericFunction "Sign" "sign"
  | .round => { numericFunction "Round" "round" with
      parameters := fun _ => [{ name := .digits, label := "Decimal places", value := "0", integer := true }]
      sql := fun e a _ => withInteger "round" .digits e a }
  | .trunc => { numericFunction "Truncate" "trunc" with
      parameters := fun _ => [{ name := .digits, label := "Decimal places", value := "0", integer := true }]
      sql := fun e a _ => withInteger "trunc" .digits e a }
  | .floor => numericFunction "Floor" "floor"
  | .ceil => numericFunction "Ceiling" "ceil"
  | .sqrt => numericFunction "Square root" "sqrt"
  | .power => { numericFunction "Power" "power" with
      parameters := fun _ => [{ name := .exponent, label := "Exponent", value := "2" }]
      sql := fun e a _ => do
        let value ← arg a .exponent
        let value ← numericLiteral value
        return call "power" [e, value] }
  | .ln => numericFunction "Natural logarithm" "ln"
  | .log10 => numericFunction "Base-10 logarithm" "log10"
  | .exp => numericFunction "Exponential" "exp"
  | .sum => numericSummary "Sum" "sum"
  | .mean => numericSummary "Mean" "avg"
  | .median => numericSummary "Median" "median"
  | .stddev => numericSummary "Sample standard deviation" "stddev_samp"
  | .variance => numericSummary "Sample variance" "var_samp"
  | .lower => textFunction "Lowercase" "lower" .text
  | .upper => textFunction "Uppercase" "upper" .text
  | .trim => textFunction "Trim both ends" "trim" .text
  | .ltrim => textFunction "Trim left" "ltrim" .text
  | .rtrim => textFunction "Trim right" "rtrim" .text
  | .stripAccents => textFunction "Strip accents" "strip_accents" .text
  | .textLength => textFunction "Character length" "length" .number
  | .textReverse => textFunction "Reverse text" "reverse" .text
  | .substring => { textFunction "Substring" "substring" .text with
      parameters := fun _ => [
        { name := .start, label := "Start (1-based; negatives count from end)", value := "1", integer := true },
        { name := .length, label := "Length (blank means remainder)", optional := true, integer := true }]
      sql := fun e a _ => do
        let start ← arg a .start
        let start ← integer start
        match a .length with
        | none => return call "substring" [e, start]
        | some length =>
            if length = "" then return call "substring" [e, start]
            else
              let length ← integer length
              return call "substring" [e, start, length] }
  | .replace => { textFunction "Replace literal text" "replace" .text with
      parameters := fun _ => [{ name := .value, label := "Find text" }, { name := .replacement, label := "Replacement" }]
      sql := fun e a _ => do
        let value ← arg a .value
        let replacement ← arg a .replacement
        return call "replace" [e, literal value, literal replacement] }
  | .contains => { textFunction "Contains" "contains" .boolean with
      parameters := fun _ => [{ name := .value, label := "Text" }]
      sql := fun e a _ => withText "contains" .value e a }
  | .startsWith => { textFunction "Starts with" "starts_with" .boolean with
      parameters := fun _ => [{ name := .value, label := "Text" }]
      sql := fun e a _ => withText "starts_with" .value e a }
  | .endsWith => { textFunction "Ends with" "ends_with" .boolean with
      parameters := fun _ => [{ name := .value, label := "Text" }]
      sql := fun e a _ => withText "ends_with" .value e a }
  | .split => { textFunction "Split" "string_split" (.list .text) with
      parameters := fun _ => [{ name := .delimiter, label := "Delimiter", value := " " }]
      sql := fun e a _ => withText "string_split" .delimiter e a }
  | .parseDatetime => { textFunction "Parse datetime" "strptime" .timestamp with
      parameters := fun _ => [{ name := .format, label := "DuckDB datetime format", value := "%Y-%m-%d %H:%M:%S" }]
      sql := fun e a _ => withText "strptime" .format e a }
  | .datePart => { label := "Extract date/time part", accepts := BuildType.temporal, result := fun _ => .number
                   parameters := fun t =>
                     [{ name := .part, label := "Part", value := (dateParts t).headD "", options := some (dateParts t) }]
                   sql := fun e a _ => do
                     let part ← arg a .part
                     return call "date_part" [literal part, e] }
  | .dateTrunc => { label := "Truncate date/time", accepts := BuildType.dateOrTimestamp, result := fun _ => .timestamp
                    parameters := fun t => [{ name := .unit, label := "Unit", value := "day", options := some (units t) }]
                    sql := fun e a _ => do
                      let unit ← arg a .unit
                      return call "date_trunc" [literal unit, e] }
  | .formatDatetime => { label := "Format date/time", accepts := BuildType.dateOrTimestamp, result := fun _ => .text
                         parameters := fun _ =>
                           [{ name := .format, label := "DuckDB datetime format", value := "%Y-%m-%d" }]
                         sql := fun e a _ => withText "strftime" .format e a }
  | .not => { label := "NOT", accepts := BuildType.logical, result := fun _ => .boolean
              sql := fun e _ _ => .ok ("NOT ".toList ++ parenthesized e) }
  | .isTrue => { label := "Is true", accepts := BuildType.logical, result := fun _ => .boolean
                 sql := fun e _ _ => .ok (parenthesized e ++ " IS TRUE".toList) }
  | .isFalse => { label := "Is false", accepts := BuildType.logical, result := fun _ => .boolean
                  sql := fun e _ _ => .ok (parenthesized e ++ " IS FALSE".toList) }
  | .countTrue => { Build.count "Count true" fun e => call "countif" [e] with accepts := BuildType.logical }
  | .countFalse =>
      { Build.count "Count false" fun e => call "countif" ["NOT ".toList ++ parenthesized e] with accepts := BuildType.logical }
  | .allTrue => fn "All true" "bool_and" BuildType.logical (fun _ => .boolean) true
  | .anyTrue => fn "Any true" "bool_or" BuildType.logical (fun _ => .boolean) true
  | .listLength => listFunction "List length" "length" (fun _ => .number) BuildType.isList
  | .listCount => listFunction "Non-NULL element count" "list_count" (fun _ => .number) BuildType.isList
  | .listDistinct => listFunction "Distinct elements" "list_distinct" id BuildType.isList
  | .listSort => { listFunction "Sort elements" "list_sort" id BuildType.isList with
      parameters := fun _ => [{ name := .direction, label := "Direction", value := "ASC", options := some ["ASC", "DESC"] }]
      sql := fun e a _ => withText "list_sort" .direction e a }
  | .listReverse => listFunction "Reverse elements" "list_reverse" id BuildType.isList
  | .listExtract => { listFunction "Element at index" "list_extract" BuildType.element BuildType.isList with
      parameters := fun _ =>
        [{ name := .index, label := "Index (1-based; negatives count from end)", value := "1", integer := true }]
      sql := fun e a _ => withInteger "list_extract" .index e a }
  | .listSlice => { listFunction "Slice elements" "list_slice" id BuildType.isList with
      parameters := fun _ => [{ name := .start, label := "Start (inclusive)", value := "1", integer := true },
        { name := .end_, label := "End (inclusive)", value := "-1", integer := true }]
      sql := fun e a _ => do
        let start ← arg a .start
        let start ← integer start
        let last ← arg a .end_
        let last ← integer last
        return call "list_slice" [e, start, last] }
  | .listContains =>
      { listFunction "Contains element" "list_contains" (fun _ => .boolean) fun t => t.isList && t.element.scalar with
        parameters := fun t => scalarParameter t.element
        sql := fun e a t => do
          let value ← arg a .value
          let value ← scalarLiteral value t.element
          return call "list_contains" [e, value] }
  | .listJoin => { listFunction "Join text elements" "array_to_string" (fun _ => .text) BuildType.textList with
      parameters := fun _ => [{ name := .delimiter, label := "Delimiter", value := " " }]
      sql := fun e a _ => withText "array_to_string" .delimiter e a }
  | .listSum => listFunction "Sum elements" "list_sum" (fun _ => .number) BuildType.numericList
  | .listMean => listFunction "Mean of elements" "list_avg" (fun _ => .number) BuildType.numericList
  | .listMin => listFunction "Minimum element" "list_min" (fun _ => .number) BuildType.numericList
  | .listMax => listFunction "Maximum element" "list_max" (fun _ => .number) BuildType.numericList

end Catalogue

section Chains

inductive BuildSummary
  | window
  | scalar (source : List String)
  deriving DecidableEq

structure BuildOperation where
  kind : BuildOperationKind
  arguments : Arguments
  summary : Option BuildSummary

structure BuildChain where
  sql : List Char
  type : BuildType
  summarized : Bool

def checkParameter (arguments : Arguments) (p : OperationParameter) : Except String Unit := do
  let value ← arg arguments p.name
  if (p.options.any fun options => value ∉ options) then .error ("Choose a valid " ++ p.label)
  else if p.integer && (!p.optional || value ≠ "") then (integer value).map fun _ => ()
  else .ok ()

/-- Render the catalogue's SQL independently of eligibility validation. -/
def renderBuildOperation (chain : BuildChain) (operation : BuildOperation) : Except String BuildChain := do
  let definition := operationDefinition operation.kind
  let sql ← definition.sql chain.sql operation.arguments chain.type
  let sql :=
    if definition.summary then
      match operation.summary with
      | some (.scalar source) =>
          parenthesized ("SELECT ".toList ++ (sql ++ (" FROM ".toList ++ join "." (source.map identifier))))
      | _ => parenthesized (sql ++ " OVER ()".toList)
    else sql
  return {
    sql := parenthesized sql
    type := definition.resultOf chain.type
    summarized := chain.summarized || definition.summary }

def applyBuildOperation (chain : BuildChain) (operation : BuildOperation) : Except String BuildChain :=
  let definition := operationDefinition operation.kind
  if !definition.accepts chain.type && chain.type ≠ .unknown then
    .error (definition.label ++ " is not available for " ++ chain.type.family)
  else if definition.summary && chain.summarized then .error "Only one column summary is allowed in a chain"
  else do
    (definition.parameters chain.type).forM (checkParameter operation.arguments)
    renderBuildOperation chain operation

end Chains

end Wordflow.Build
