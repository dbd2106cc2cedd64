import Wordflow.Build.Expression
import Wordflow.Build.Moves
import Wordflow.Library.Fallible
import Wordflow.Library.SqlWriting

namespace Wordflow.Build

open Library.Fallible Library.Quoting Library.SqlExpression

section Readings

/-- What a part says, and the type that its menu goes by. -/
structure Reading where
  expression : Expression
  type : BuildType

def numberExpression : List Char → Expression
  | [] => .number []
  | c :: s => if c = '-' then .sign true (.number s) else if c = '+' then .sign false (.number s) else .number (c :: s)

def truthExpression (w : List Char) : Expression := .constant (if w.map Char.toUpper = Truth.true.word then .true else .false)

def scalarExpression (value : String) (type : BuildType) : Expression :=
  if type.numeric then numberExpression (trim value.toList)
  else if type.logical then truthExpression value.toList
  else .string value.toList

def argument (a : Arguments) (name : BuildArgument) : String := (a name).getD ""

def numberArgument (a : Arguments) (name : BuildArgument) : Expression := numberExpression (trim (argument a name).toList)

def textArgument (a : Arguments) (name : BuildArgument) : Expression := .string (argument a name).toList

/-- What an operation says of an expression, with a window or not where it summarizes a column. -/
def operationExpression (kind : BuildOperationKind) (e : Expression) (a : Arguments) (t : BuildType) (window : Bool) : Expression :=
  let call (name : String) (inputs : List Expression) := Expression.call name.toList false inputs window
  match kind with
  | .isNull => .is e false .null
  | .isNotNull => .is e true .null
  | .fillNull => call "coalesce" [e, scalarExpression (argument a .value) t]
  | .count => call "count" [e]
  | .countNull => call "countif" [.is e false .null]
  | .countDistinct => .call "count".toList true [e] window
  | .min => call "min" [e]
  | .max => call "max" [e]
  | .abs => call "abs" [e]
  | .sign => call "sign" [e]
  | .round => call "round" [e, numberArgument a .digits]
  | .trunc => call "trunc" [e, numberArgument a .digits]
  | .floor => call "floor" [e]
  | .ceil => call "ceil" [e]
  | .sqrt => call "sqrt" [e]
  | .power => call "power" [e, numberArgument a .exponent]
  | .ln => call "ln" [e]
  | .log10 => call "log10" [e]
  | .exp => call "exp" [e]
  | .sum => call "sum" [e]
  | .mean => call "avg" [e]
  | .median => call "median" [e]
  | .stddev => call "stddev_samp" [e]
  | .variance => call "var_samp" [e]
  | .lower => call "lower" [e]
  | .upper => call "upper" [e]
  | .trim => call "trim" [e]
  | .ltrim => call "ltrim" [e]
  | .rtrim => call "rtrim" [e]
  | .stripAccents => call "strip_accents" [e]
  | .textLength => call "length" [e]
  | .textReverse => call "reverse" [e]
  | .substring =>
      call "substring" (e :: numberArgument a .start :: if argument a .length = "" then [] else [numberArgument a .length])
  | .replace => call "replace" [e, textArgument a .value, textArgument a .replacement]
  | .contains => call "contains" [e, textArgument a .value]
  | .startsWith => call "starts_with" [e, textArgument a .value]
  | .endsWith => call "ends_with" [e, textArgument a .value]
  | .split => call "string_split" [e, textArgument a .delimiter]
  | .parseDatetime => call "strptime" [e, textArgument a .format]
  | .datePart => call "date_part" [textArgument a .part, e]
  | .dateTrunc => call "date_trunc" [textArgument a .unit, e]
  | .formatDatetime => call "strftime" [e, textArgument a .format]
  | .not => .not e
  | .isTrue => .is e false .true
  | .isFalse => .is e false .false
  | .countTrue => call "countif" [e]
  | .countFalse => call "countif" [.not e]
  | .allTrue => call "bool_and" [e]
  | .anyTrue => call "bool_or" [e]
  | .listLength => call "length" [e]
  | .listCount => call "list_count" [e]
  | .listDistinct => call "list_distinct" [e]
  | .listSort => call "list_sort" [e, textArgument a .direction]
  | .listReverse => call "list_reverse" [e]
  | .listExtract => call "list_extract" [e, numberArgument a .index]
  | .listSlice => call "list_slice" [e, numberArgument a .start, numberArgument a .end_]
  | .listContains => call "list_contains" [e, scalarExpression (argument a .value) t.element]
  | .listJoin => call "array_to_string" [e, textArgument a .delimiter]
  | .listSum => call "list_sum" [e]
  | .listMean => call "list_avg" [e]
  | .listMin => call "list_min" [e]
  | .listMax => call "list_max" [e]

def operationReading (r : Reading) (operation : BuildOperation) : Reading where
  expression :=
    let said := operationExpression operation.kind r.expression operation.arguments r.type
    if (operationDefinition operation.kind).summary then
      match operation.summary with
      | some (.scalar source) => .scalar (said false) (source.map String.toList)
      | _ => said true
    else said false
  type := (operationDefinition operation.kind).resultOf r.type

/-- The inputs from the first to the last. -/
def chained (operator : BinaryOperator) : List Expression → Expression
  | [] => .constant .null
  | first :: rest => rest.foldl (.binary operator) first

def combinedExpression (combination : Combination) (inputs : List Expression) : Expression :=
  let call (name : String) (inputs : List Expression) := Expression.call name.toList false inputs false
  match combination.kind with
  | .text => call "concat_ws" (.string combination.separator.toList :: inputs)
  | .add => chained .add inputs
  | .subtract => chained .subtract inputs
  | .multiply => chained .multiply inputs
  | .divide => chained .divide inputs
  | .and => chained .and inputs
  | .or => chained .or inputs
  | .greatest => call "greatest" inputs
  | .least => call "least" inputs
  | .coalesce => call "coalesce" inputs
  | .list => call "list_value" inputs
  | .listConcat => call "list_concat" inputs

def combinedReading (combination : Option Combination) (inputs : List Reading) : Reading :=
  match combination with
  | none => { expression := .constant .null, type := .unknown }
  | some combination => {
      expression := combinedExpression combination (inputs.map Reading.expression)
      type := combinedType combination.kind (inputs.map Reading.type) }

def literalReading (literalType : LiteralType) (value : String) : Reading :=
  match literalType with
  | .number => { expression := numberExpression (trim value.toList), type := .number }
  | .boolean => { expression := truthExpression value.toList, type := .boolean }
  | .text => { expression := .string value.toList, type := .text }
  | .null => { expression := .constant .null, type := .null }

def columnType (columns : List ColumnInfo) (column : String) : BuildType :=
  ((columns.find? fun c => c.name = column).map fun c => buildType c.field).getD .unsupported

mutual

/-- The structure of a part, which nothing that its texts hold can change. -/
def reading (columns : List ColumnInfo) : Part → Reading
  | .column _ operations column =>
      operations.foldl operationReading { expression := .column column.toList, type := columnType columns column }
  | .combination _ operations combination children =>
      operations.foldl operationReading (combinedReading combination (readings columns children))
  | .sql _ operations _ => operations.foldl operationReading { expression := .constant .null, type := .unknown }
  | .literal _ operations literalType value => operations.foldl operationReading (literalReading literalType value)

def readings (columns : List ColumnInfo) : List Part → List Reading
  | [] => []
  | part :: rest => reading columns part :: readings columns rest

end

end Readings

section Literals

theorem isExponent_read {s : List Char} (h : isExponent s = true) : readExponent s = (s, []) := by
  cases s with
  | nil => rfl
  | cons e s =>
      rw [isExponent, Bool.and_eq_true, Bool.or_eq_true, decide_eq_true_eq, decide_eq_true_eq, isInteger, Bool.and_eq_true,
        decide_eq_true_eq] at h
      obtain ⟨he, hne, hdigits⟩ := h
      have hsign : readSign s = ((readSign s).1, dropSign s) ∧ (readSign s).1 ++ dropSign s = s := by
        cases s with
        | nil => exact ⟨rfl, rfl⟩
        | cons c s =>
            rw [readSign, dropSign]
            split
            · exact ⟨rfl, rfl⟩
            · exact ⟨rfl, rfl⟩
      have htake : readDigits (dropSign s) = (dropSign s, []) := by
        rw [readDigits, List.takeWhile_eq_self_iff.mpr (List.all_eq_true.mp hdigits),
          List.dropWhile_eq_nil_iff.mpr (List.all_eq_true.mp hdigits)]
      have hsecond : (readSign s).2 = dropSign s := congrArg Prod.snd hsign.1
      simp only [readExponent]
      rw [hsecond, htake, if_pos ⟨he, hne⟩, hsign.2]

/-- A number without its sign is read whole. -/
theorem isNumber_read {s : List Char} (h : isNumber s = true) : readNumber (dropSign s) = some (dropSign s, []) := by
  generalize hbody : dropSign s = body at *
  unfold isNumber at h
  rw [hbody] at h
  have hwhole := List.takeWhile_append_dropWhile (p := Char.isDigit) (l := body)
  dsimp only at h
  split at h
  · rename_i rest hrest
    rw [Bool.and_eq_true, Bool.or_eq_true, decide_eq_true_eq, decide_eq_true_eq] at h
    obtain ⟨hdigits, hexponent⟩ := h
    have hfraction := List.takeWhile_append_dropWhile (p := Char.isDigit) (l := rest)
    have hsome : ¬(body.takeWhile Char.isDigit = [] ∧ ('.' :: rest.takeWhile Char.isDigit).length ≤ 1) := by
      rintro ⟨hnil, hlength⟩
      rcases hdigits with hne | hne
      · exact hne hnil
      · exact hne (List.length_eq_zero_iff.mp (by rw [List.length_cons] at hlength; omega))
    simp only [readNumber, readDigits, hrest, readFraction, if_true, isExponent_read hexponent]
    rw [if_neg hsome, List.cons_append, hfraction, ← hrest, hwhole]
  · rename_i hpoint
    rw [Bool.and_eq_true, decide_eq_true_eq] at h
    obtain ⟨hdigits, hexponent⟩ := h
    have hfraction : readFraction (body.dropWhile Char.isDigit) = ([], body.dropWhile Char.isDigit) := by
      cases hrest : body.dropWhile Char.isDigit with
      | nil => rfl
      | cons c rest =>
          rw [readFraction, if_neg]
          rintro rfl
          exact hpoint rest hrest
    simp only [readNumber, readDigits, hfraction, isExponent_read hexponent]
    rw [if_neg (fun hnil => hdigits hnil.1), List.nil_append, hwhole]

theorem expresses_number {s : List Char} (h : isNumber s = true) : Expresses s (numberExpression s) := by
  have hread := isNumber_read h
  cases s with
  | nil => cases h
  | cons c s =>
      rw [numberExpression]
      by_cases hminus : c = '-'
      · rw [dropSign, if_pos (.inr hminus)] at hread
        rw [if_pos hminus, hminus]
        exact .sign true hread
      · by_cases hplus : c = '+'
        · rw [dropSign, if_pos (.inl hplus)] at hread
          rw [if_neg hminus, if_pos hplus, hplus]
          exact .sign false hread
        · rw [dropSign, if_neg (not_or.mpr ⟨hplus, hminus⟩)] at hread
          rw [if_neg hminus, if_neg hplus]
          exact (Primary.number hread).expresses

theorem isNumber_of_isInteger {s : List Char} (h : isInteger s = true) : isNumber s = true := by
  rw [isInteger, Bool.and_eq_true, decide_eq_true_eq] at h
  obtain ⟨hne, hdigits⟩ := h
  have htake : (dropSign s).takeWhile Char.isDigit = dropSign s := List.takeWhile_eq_self_iff.mpr (List.all_eq_true.mp hdigits)
  have hdrop : (dropSign s).dropWhile Char.isDigit = [] := List.dropWhile_eq_nil_iff.mpr (List.all_eq_true.mp hdigits)
  simp only [isNumber, htake, hdrop]
  simp [hne, isExponent]

theorem expresses_text (value : String) : Expresses (literal value) (.string value.toList) := (Primary.string _).expresses

/-- A word that is true or false in any case. -/
theorem expresses_truth {w : List Char} (h : w.map Char.toUpper ∈ ["TRUE".toList, "FALSE".toList]) :
    Expresses (w.map Char.toUpper) (truthExpression w) := by
  rw [truthExpression]
  rcases List.mem_pair.mp h with h | h
  · rw [h]
    exact (Primary.constant .true).expresses
  · rw [h]
    exact (Primary.constant .false).expresses

theorem expresses_scalar {value : String} {type : BuildType} {text : List Char} (h : scalarLiteral value type = .ok text) :
    Expresses text (scalarExpression value type) := by
  rw [scalarLiteral] at h
  rw [scalarExpression]
  split
  · rename_i hnumeric
    rw [if_pos hnumeric, numericLiteral] at h
    split at h
    · rename_i hnumber
      cases h
      exact expresses_number hnumber
    · cases h
  · rename_i hnumeric
    rw [if_neg hnumeric] at h
    split
    · rename_i hlogical
      rw [if_pos hlogical] at h
      split at h
      · rename_i hword
        cases h
        exact expresses_truth hword
      · cases h
    · rename_i hlogical
      rw [if_neg hlogical] at h
      cases h
      exact expresses_text value

variable {a : Arguments} {name : BuildArgument} {value : String} {text : List Char}

theorem arg_ok (h : arg a name = .ok value) : argument a name = value := by
  rw [arg] at h
  rw [argument]
  split at h
  · rename_i hname
    cases h
    rw [hname, Option.getD_some]
  · cases h

theorem expresses_integer (h : arg a name = .ok value) (hinteger : integer value = .ok text) :
    Expresses text (numberArgument a name) := by
  rw [numberArgument, arg_ok h]
  rw [integer] at hinteger
  split at hinteger
  · rename_i hdigits
    cases hinteger
    exact expresses_number (isNumber_of_isInteger hdigits)
  · cases hinteger

theorem expresses_textArgument (h : arg a name = .ok value) : Expresses (literal value) (textArgument a name) := by
  rw [textArgument, arg_ok h]
  exact expresses_text value

end Literals

section Operations

variable {a : Arguments} {t : BuildType} {e text : List Char} {said : Expression} {inputs : List (List Char)} {es : List Expression}
  {name : String} {x : BuildArgument}

/-- A text that says an expression, and with a window after it what the expression is over a window. -/
def Means (text : List Char) (said : Bool → Expression) (summary : Bool) : Prop :=
  Expresses text (said false) ∧ (summary = true → Expresses (text ++ " OVER ()".toList) (said true))

/-- A name that a call can start with. -/
def Callable (name : String) : Prop := isWordText name.toList = true ∧ isFunction name.toList = true

theorem call_means (hname : Callable name) (h : List.Forall₂ Expresses inputs es) (hne : inputs ≠ []) (summary : Bool) :
    Means (call name inputs) (fun window => .call name.toList false es window) summary := by
  have hcalls := (lists_intercalate h hne).calls hname.1 hname.2
  exact ⟨hcalls.expresses, fun _ => hcalls.window⟩

theorem call_one (hname : Callable name) (h : Expresses e said) (summary : Bool) :
    Means (call name [e]) (fun window => .call name.toList false [said] window) summary :=
  call_means hname (.cons h .nil) (List.cons_ne_nil _ _) summary

theorem withText_means (hname : Callable name) (h : Expresses e said) (hsql : withText name x e a = .ok text) :
    Means text (fun window => .call name.toList false [said, textArgument a x] window) false := by
  obtain ⟨value, hvalue, hcall⟩ := bind_eq_ok.mp hsql
  cases hcall
  exact call_means hname (.cons h (.cons (expresses_textArgument hvalue) .nil)) (List.cons_ne_nil _ _) false

theorem withInteger_means (hname : Callable name) (h : Expresses e said) (hsql : withInteger name x e a = .ok text) :
    Means text (fun window => .call name.toList false [said, numberArgument a x] window) false := by
  obtain ⟨value, hvalue, hrest⟩ := bind_eq_ok.mp hsql
  obtain ⟨digits, hdigits, hcall⟩ := bind_eq_ok.mp hrest
  cases hcall
  exact call_means hname (.cons h (.cons (expresses_integer hvalue hdigits) .nil)) (List.cons_ne_nil _ _) false

theorem substring_means (h : Expresses e said) (hsql : (operationDefinition .substring).sql e a t = .ok text) :
    Means text (operationExpression .substring said a t) false := by
  obtain ⟨value, hvalue, hrest⟩ := bind_eq_ok.mp hsql
  obtain ⟨start, hstart, hlength⟩ := bind_eq_ok.mp hrest
  have hfirst := expresses_integer hvalue hstart
  have htwo : Means (call "substring" [e, start])
      (fun window => .call "substring".toList false [said, numberArgument a .start] window) false :=
    call_means ⟨rfl, rfl⟩ (.cons h (.cons hfirst .nil)) (List.cons_ne_nil _ _) false
  change Means text (fun window => .call "substring".toList false
    (said :: numberArgument a .start :: if argument a .length = "" then [] else [numberArgument a .length]) window) false
  cases hargument : a .length with
  | none =>
      rw [hargument] at hlength
      cases hlength
      have hempty : argument a .length = "" := by rw [argument, hargument, Option.getD_none]
      simp only [hempty, if_true]
      exact htwo
  | some length =>
      simp only [hargument] at hlength
      have hgiven : argument a .length = length := by rw [argument, hargument, Option.getD_some]
      by_cases hempty : length = ""
      · rw [if_pos hempty] at hlength
        cases hlength
        simp only [hgiven, hempty, if_true]
        exact htwo
      · rw [if_neg hempty] at hlength
        obtain ⟨digits, hdigits, hcall⟩ := bind_eq_ok.mp hlength
        cases hcall
        have hfound : arg a .length = .ok length := by rw [arg, hargument]
        have hsecond := expresses_integer hfound hdigits
        simp only [hgiven, hempty, if_false]
        exact call_means ⟨rfl, rfl⟩ (.cons h (.cons hfirst (.cons hsecond .nil))) (List.cons_ne_nil _ _) false

/-- The catalogue's SQL says what its operation means. -/
theorem operation_means {kind : BuildOperationKind} (h : Expresses e said)
    (hsql : (operationDefinition kind).sql e a t = .ok text) :
    Means text (operationExpression kind said a t) (operationDefinition kind).summary := by
  cases kind with
  | isNull => cases hsql; exact ⟨h.parenthesized.is false .null, nofun⟩
  | isNotNull => cases hsql; exact ⟨h.parenthesized.is true .null, nofun⟩
  | isTrue => cases hsql; exact ⟨h.parenthesized.is false .true, nofun⟩
  | isFalse => cases hsql; exact ⟨h.parenthesized.is false .false, nofun⟩
  | not => cases hsql; exact ⟨h.parenthesized.not, nofun⟩
  | countNull => cases hsql; exact call_one ⟨rfl, rfl⟩ (h.parenthesized.is false .null) _
  | countFalse => cases hsql; exact call_one ⟨rfl, rfl⟩ h.parenthesized.not _
  | countDistinct =>
      cases hsql
      have hcount : Callable "count" := ⟨rfl, rfl⟩
      have hcalls := h.lists.callsDistinct hcount.1 hcount.2
      exact ⟨hcalls.expresses, fun _ => hcalls.window⟩
  | count | countTrue | min | max | abs | sign | floor | ceil | sqrt | ln | log10 | exp | sum | mean | median | stddev | variance
  | lower | upper | trim | ltrim | rtrim | stripAccents | textLength | textReverse | allTrue | anyTrue | listLength | listCount
  | listDistinct | listReverse | listSum | listMean | listMin | listMax =>
      cases hsql
      exact call_one ⟨rfl, rfl⟩ h _
  | contains | startsWith | endsWith | split | parseDatetime | formatDatetime | listSort | listJoin =>
      exact withText_means ⟨rfl, rfl⟩ h hsql
  | round | trunc | listExtract => exact withInteger_means ⟨rfl, rfl⟩ h hsql
  | substring => exact substring_means h hsql
  | fillNull =>
      obtain ⟨value, hvalue, hrest⟩ := bind_eq_ok.mp hsql
      obtain ⟨literal, hliteral, hcall⟩ := bind_eq_ok.mp hrest
      cases hcall
      have hscalar : Expresses literal (scalarExpression (argument a .value) t) := by
        rw [arg_ok hvalue]
        exact expresses_scalar hliteral
      exact call_means ⟨rfl, rfl⟩ (.cons h (.cons hscalar .nil)) (List.cons_ne_nil _ _) false
  | listContains =>
      obtain ⟨value, hvalue, hrest⟩ := bind_eq_ok.mp hsql
      obtain ⟨literal, hliteral, hcall⟩ := bind_eq_ok.mp hrest
      cases hcall
      have hscalar : Expresses literal (scalarExpression (argument a .value) t.element) := by
        rw [arg_ok hvalue]
        exact expresses_scalar hliteral
      exact call_means ⟨rfl, rfl⟩ (.cons h (.cons hscalar .nil)) (List.cons_ne_nil _ _) false
  | power =>
      obtain ⟨value, hvalue, hrest⟩ := bind_eq_ok.mp hsql
      obtain ⟨digits, hdigits, hcall⟩ := bind_eq_ok.mp hrest
      cases hcall
      have hnumber : Expresses digits (numberArgument a .exponent) := by
        rw [numberArgument, arg_ok hvalue]
        rw [numericLiteral] at hdigits
        split at hdigits
        · rename_i hnumber
          cases hdigits
          exact expresses_number hnumber
        · cases hdigits
      exact call_means ⟨rfl, rfl⟩ (.cons h (.cons hnumber .nil)) (List.cons_ne_nil _ _) false
  | replace =>
      obtain ⟨value, hvalue, hrest⟩ := bind_eq_ok.mp hsql
      obtain ⟨replacement, hreplacement, hcall⟩ := bind_eq_ok.mp hrest
      cases hcall
      exact call_means ⟨rfl, rfl⟩ (.cons h (.cons (expresses_textArgument hvalue) (.cons (expresses_textArgument hreplacement) .nil)))
        (List.cons_ne_nil _ _) false
  | datePart | dateTrunc =>
      obtain ⟨value, hvalue, hcall⟩ := bind_eq_ok.mp hsql
      cases hcall
      exact call_means ⟨rfl, rfl⟩ (.cons (expresses_textArgument hvalue) (.cons h .nil)) (List.cons_ne_nil _ _) false
  | listSlice =>
      obtain ⟨value, hvalue, hrest⟩ := bind_eq_ok.mp hsql
      obtain ⟨start, hstart, hrest⟩ := bind_eq_ok.mp hrest
      obtain ⟨value', hvalue', hrest⟩ := bind_eq_ok.mp hrest
      obtain ⟨last, hlast, hcall⟩ := bind_eq_ok.mp hrest
      cases hcall
      exact call_means ⟨rfl, rfl⟩ (.cons h (.cons (expresses_integer hvalue hstart) (.cons (expresses_integer hvalue' hlast) .nil)))
        (List.cons_ne_nil _ _) false

end Operations

end Wordflow.Build
