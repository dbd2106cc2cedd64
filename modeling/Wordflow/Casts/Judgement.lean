import Mathlib.Data.List.Nodup
import Wordflow.Casts.Conversion
import Wordflow.Library.Fallible

namespace Wordflow.Casts

open Library.Quoting Library.Fallible

/-- What a column is converted by: a cast, a cast of its text to a new type, or a format. -/
inductive Form
  | direct (type : List Char)
  | categorical (type : List Char)
  | formatted (format : List Char)

def Form.term (column : List Char) : Form → Term
  | .direct type => .cast false (.column column) type
  | .categorical type => .cast false (.cast false (.column column) VARCHAR) type
  | .formatted format => .strptime false (.cast false (.column column) VARCHAR) format

/-- The same conversion as an attempt. -/
def Form.tried (column : List Char) : Form → Term
  | .direct type => .cast true (.column column) type
  | .categorical type => .cast true (.cast false (.column column) VARCHAR) type
  | .formatted format => .strptime true (.cast true (.column column) VARCHAR) format

/-- The name and the type hold no call that the substitution takes for the conversion's own. -/
def Form.Clear (column : List Char) : Form → Prop
  | .direct type => ¬STRPTIME <:+: column ∧ ¬STRPTIME <:+: type
  | .categorical type => ¬STRPTIME <:+: column ∧ ¬STRPTIME <:+: type
  | .formatted _ => True

def Form.WellTyped : Form → Prop
  | .direct type => Closed type
  | .categorical type => Closed type
  | .formatted _ => True

section Text

variable {column type format rest : List Char} {form : Form}

theorem replaceFirst_strptime {s : List Char} (hs : 's' ∉ s) (rest : List Char) :
    replaceFirst STRPTIME TRY_STRPTIME (s ++ rest) = s ++ replaceFirst STRPTIME TRY_STRPTIME rest :=
  replaceFirst_append 's' rfl hs rest

theorem checkedText_cast (rest : List Char) : checkedText (CAST ++ rest) = TRY_CAST ++ replaceFirst STRPTIME TRY_STRPTIME rest := by
  rw [checkedText, replaceFirst_head (by decide), replaceFirst_strptime (by decide)]

theorem checkedText_strptime (rest : List Char) : checkedText (STRPTIME ++ (CAST ++ rest)) = TRY_STRPTIME ++ (TRY_CAST ++ rest) := by
  rw [checkedText, replaceFirst_append 'C' rfl (by decide), replaceFirst_head (by decide), replaceFirst_head (by decide)]

theorem infix_target : STRPTIME <:+: quote column ++ (AS ++ (type ++ ')' :: rest)) ↔
    STRPTIME <:+: column ∨ STRPTIME <:+: type ∨ STRPTIME <:+: rest := by
  have hsplit : quote column ++ (AS ++ (type ++ ')' :: rest)) =
      quote column ++ ' ' :: (['A', 'S'] ++ ' ' :: (type ++ ')' :: rest)) := rfl
  have has : ¬STRPTIME <:+: ['A', 'S'] := by decide
  rw [hsplit, infix_append_cons (by decide), infix_append_cons (by decide), infix_append_cons (by decide), quote,
    infix_enclose (by decide) (by decide), or_iff_right has]

/-- The tail that the second substitution works on. -/
def Form.tail (column : List Char) : Form → List Char
  | .direct type => quote column ++ (AS ++ (type ++ [')']))
  | .categorical type => quote column ++ (AS ++ (VARCHAR ++ ')' :: (AS ++ (type ++ [')']))))
  | .formatted _ => []

theorem Form.clear_iff (form : Form) (column : List Char) : form.Clear column ↔ ¬STRPTIME <:+: form.tail column := by
  have hnil : ¬STRPTIME <:+: [] := by decide
  have hvarchar : ¬STRPTIME <:+: VARCHAR := by decide
  cases form with
  | direct type =>
      rw [Form.Clear, Form.tail, infix_target, or_iff_left hnil, not_or]
  | categorical type =>
      have hsplit : AS ++ (type ++ [')']) = [] ++ ' ' :: (['A', 'S'] ++ ' ' :: (type ++ ')' :: [])) := rfl
      have has : ¬STRPTIME <:+: ['A', 'S'] := by decide
      rw [Form.Clear, Form.tail, infix_target, or_iff_right hvarchar, hsplit, infix_append_cons (by decide), infix_append_cons (by decide),
        infix_append_cons (by decide), or_iff_right hnil, or_iff_right has, or_iff_left hnil, not_or]
  | formatted format =>
      rw [Form.Clear, Form.tail]
      exact ⟨fun _ => hnil, fun _ => trivial⟩

/-- What comes before the tail once it is an attempt. -/
def Form.head : Form → List Char
  | .direct _ => TRY_CAST
  | .categorical _ => TRY_CAST ++ CAST
  | .formatted _ => []

theorem Form.checkedText_render (form : Form) (column : List Char) :
    (∃ format, form = .formatted format ∧ checkedText (form.term column).render = (form.tried column).render) ∨
      checkedText (form.term column).render = form.head ++ replaceFirst STRPTIME TRY_STRPTIME (form.tail column) ∧
        (form.tried column).render = form.head ++ form.tail column := by
  cases form with
  | direct type =>
      refine .inr ⟨?_, ?_⟩
      · simp only [Form.term, Term.render, Bool.false_eq_true, if_false, List.append_assoc]
        rw [checkedText_cast]
        rfl
      · simp only [Form.tried, Term.render, if_true, List.append_assoc]
        rfl
  | categorical type =>
      refine .inr ⟨?_, ?_⟩
      · simp only [Form.term, Term.render, Bool.false_eq_true, if_false, List.append_assoc]
        rw [checkedText_cast, replaceFirst_strptime (by decide), Form.head, List.append_assoc]
        rfl
      · simp only [Form.tried, Term.render, if_true, Bool.false_eq_true, if_false, List.append_assoc, Form.head]
        rfl
  | formatted format =>
      refine .inl ⟨format, rfl, ?_⟩
      simp only [Form.term, Form.tried, Term.render, Bool.false_eq_true, if_false, if_true, List.append_assoc]
      rw [checkedText_strptime]

theorem Form.tried_wellTyped (h : form.WellTyped) (column : List Char) : (form.tried column).WellTyped := by
  cases form with
  | direct type => exact ⟨trivial, h⟩
  | categorical type => exact ⟨⟨trivial, by decide⟩, h⟩
  | formatted format => exact ⟨trivial, by decide⟩

theorem Form.term_wellTyped (h : form.WellTyped) (column : List Char) : (form.term column).WellTyped := by
  cases form with
  | direct type => exact ⟨trivial, h⟩
  | categorical type => exact ⟨⟨trivial, by decide⟩, h⟩
  | formatted format => exact ⟨trivial, by decide⟩

/-- The text that is checked is read as the attempt of the conversion just where the substitution hits nothing else. -/
theorem Form.read_checked (h : form.WellTyped) (column : List Char) :
    read (checkedText (form.term column).render) = some (form.tried column) ↔ form.Clear column := by
  rcases form.checkedText_render column with ⟨format, rfl, hchecked⟩ | ⟨hchecked, htried⟩
  · rw [hchecked, read_render (tried_wellTyped h column)]
    exact ⟨fun _ => trivial, fun _ => rfl⟩
  · rw [Form.clear_iff]
    constructor
    · intro hread hinfix
      have hlength := congrArg List.length (read_exact hread)
      rw [hchecked, htried, List.length_append, List.length_append] at hlength
      have hreplaced := @length_replaceFirst STRPTIME TRY_STRPTIME _ hinfix (by decide)
      have hpat : STRPTIME.length = 9 := rfl
      have hnew : TRY_STRPTIME.length = 13 := rfl
      omega
    · intro hclear
      rw [hchecked, replaceFirst_of_not hclear, ← htried]
      exact read_render (tried_wellTyped h column)

end Text

section Values

variable {V : Type} {db : Engine V} {columns : List (List Char)} {column requested : List Char} {i : Nat} {row : Row V}

theorem applied_true (f : V → Option V) (cell : Option V) : applied true f cell = .ok (cell.bind f) := by
  cases cell with
  | none => rfl
  | some v =>
      rw [applied, Option.bind_some]
      cases f v with
      | none => rfl
      | some w => rfl

theorem column?_of_getElem? (hdistinct : (columns.map lower).Nodup) (hi : columns[i]? = some column)
    (hrequested : lower requested = lower column) : column? columns requested = some i := by
  obtain ⟨hlt, hget⟩ := List.getElem?_eq_some_iff.mp hi
  rw [column?, List.findIdx?_eq_some_iff_getElem]
  refine ⟨hlt, ?_, fun j hj => ?_⟩
  · rw [hget, hrequested]
    exact decide_eq_true rfl
  · rw [decide_eq_true_iff, hrequested, ← hget]
    intro heq
    have hj' : j < (columns.map lower).length := by
      rw [List.length_map]
      exact hj.trans hlt
    have hlt' : i < (columns.map lower).length := by rwa [List.length_map]
    have hsame : (columns.map lower)[j] = (columns.map lower)[i] := by rw [List.getElem_map, List.getElem_map, heq]
    exact absurd (hdistinct.getElem_inj_iff.mp hsame) (Nat.ne_of_lt hj)

/-- A conversion, value by value. -/
def Form.convert (db : Engine V) : Form → V → Option V
  | .direct type => fun v => (db.cast type).bind fun f => f v
  | .categorical _ => fun v => (db.cast VARCHAR).bind fun f => f v
  | .formatted format => fun v => ((db.cast VARCHAR).bind fun f => f v).bind fun w => (db.strptime format).bind fun f => f w

/-- The database knows what a conversion uses, and every value has a text. -/
structure Known (db : Engine V) (form : Form) : Prop where
  varchar : ∃ f, db.cast VARCHAR = some f ∧ ∀ v, ∃ w, f v = some w
  target : match form with
    | .direct type => ∃ f, db.cast type = some f
    | .categorical _ => True
    | .formatted format => ∃ f, db.strptime format = some f

theorem eval_column (h : column? columns column = some i) (row : Row V) :
    eval db columns row (.column column) = .ok ((row[i]?).join) := by
  rw [eval, h, Option.bind_some]

theorem eval_cast {type : List Char} {f : V → Option V} (hi : column? columns column = some i) (htype : db.cast type = some f)
    (attempt : Bool) (row : Row V) : eval db columns row (.cast attempt (.column column) type) = applied attempt f ((row[i]?).join) := by
  rw [eval, eval_column hi]
  simp only [htype]
  rfl

/-- Conversions and their attempts on the cells of a column. -/
structure Agrees (db : Engine V) (columns : List (List Char)) (i : Nat) (rows : List (Row V)) (term tried : Term)
    (convert : V → Option V) : Prop where
  term : ∀ row ∈ rows, eval db columns row term = applied false convert ((row[i]?).join)
  tried : ∀ row ∈ rows, eval db columns row tried = applied true convert ((row[i]?).join)

theorem Agrees.direct {type : List Char} (hi : column? columns column = some i) (h : Known db (.direct type)) (rows : List (Row V)) :
    Agrees db columns i rows ((Form.direct type).term column) ((Form.direct type).tried column) ((Form.direct type).convert db) := by
  obtain ⟨f, hf⟩ := h.target
  have hconvert : (Form.direct type).convert db = f := by
    funext v
    rw [Form.convert, hf]
    rfl
  rw [hconvert]
  exact ⟨fun row _ => eval_cast hi hf false row, fun row _ => eval_cast hi hf true row⟩

theorem Agrees.formatted {format : List Char} (hi : column? columns column = some i) (h : Known db (.formatted format))
    (rows : List (Row V)) : Agrees db columns i rows ((Form.formatted format).term column) ((Form.formatted format).tried column)
      ((Form.formatted format).convert db) := by
  obtain ⟨g, hg, htotal⟩ := h.varchar
  obtain ⟨f, hf⟩ := h.target
  have hconvert : (Form.formatted format).convert db = fun v => (g v).bind f := by
    funext v
    rw [Form.convert, hg, hf]
    rfl
  have heval : ∀ attempt row, eval db columns row (.strptime attempt (.cast attempt (.column column) VARCHAR) format) =
      applied attempt (fun v => (g v).bind f) ((row[i]?).join) := by
    intro attempt row
    rw [eval, eval_cast hi hg]
    simp only [hf]
    cases (row[i]?).join with
    | none => rfl
    | some v =>
        obtain ⟨w, hw⟩ := htotal v
        simp only [applied, hw, Option.bind_some]
        rfl
  rw [hconvert]
  exact ⟨fun row _ => heval false row, fun row _ => heval true row⟩

theorem binds_direct {type : List Char} (hi : column? columns column = some i) (h : Known db (.direct type)) (attempt : Bool) :
    binds db columns (.cast attempt (.column column) type) = true := by
  obtain ⟨f, hf⟩ := h.target
  rw [binds, binds, hi, hf]
  rfl

theorem binds_formatted {format : List Char} (hi : column? columns column = some i) (h : Known db (.formatted format))
    (attempt : Bool) : binds db columns (.strptime attempt (.cast attempt (.column column) VARCHAR) format) = true := by
  obtain ⟨f, hf⟩ := h.target
  obtain ⟨g, hg, -⟩ := h.varchar
  rw [binds, binds, binds, hi, hf, hg]
  rfl

variable [DecidableEq V]

theorem Agrees.categorical {type : List Char} {members : List V} {rows : List (Row V)} {g : V → Option V}
    (hi : column? columns column = some i) (htype : VARCHAR ≠ type) (hg : db.cast VARCHAR = some g)
    (hmembers : ∀ row ∈ rows, ∀ v w, (row[i]?).join = some v → g v = some w → w ∈ members) (htotal : ∀ v, ∃ w, g v = some w) :
    Agrees (db.createEnum type members) columns i rows ((Form.categorical type).term column) ((Form.categorical type).tried column)
      ((Form.categorical type).convert db) := by
  have hvarchar : (db.createEnum type members).cast VARCHAR = some g := (db.createEnum_of_ne htype members).trans hg
  have henum := db.createEnum_self type members
  have hconvert : (Form.categorical type).convert db = g := by
    funext v
    rw [Form.convert, hg]
    rfl
  have heval : ∀ attempt, ∀ row ∈ rows, eval (db.createEnum type members) columns row
      (.cast attempt (.cast false (.column column) VARCHAR) type) = applied attempt g ((row[i]?).join) := by
    intro attempt row hrow
    rw [eval, eval_cast hi hvarchar]
    simp only [henum]
    cases hcell : (row[i]?).join with
    | none => rfl
    | some v =>
        obtain ⟨w, hw⟩ := htotal v
        have hmem := hmembers row hrow v w hcell hw
        have hfirst : applied false g (some v) = .ok (some w) := by rw [applied, hw]
        have hsecond : applied attempt (fun v => if v ∈ members then some v else none) (some w) = .ok (some w) := by
          rw [applied, if_pos hmem]
        have hboth : applied attempt g (some v) = .ok (some w) := by rw [applied, hw]
        rw [hfirst, hboth]
        exact hsecond
  rw [hconvert]
  exact ⟨heval false, heval true⟩

end Values

section Runs

variable {V : Type} {db : Engine V} {columns : List (List Char)} {i : Nat} {rows : List (Row V)} {term tried : Term}
  {convert : V → Option V}

/-- The rows whose value is there and is not converted. -/
def unconverted (convert : V → Option V) (i : Nat) (rows : List (Row V)) : List (Row V) :=
  rows.filter fun row => ((row[i]?).join).any fun v => (convert v).isNone

def converted (convert : V → Option V) (i : Nat) (row : Row V) : Row V := row.set i (((row[i]?).join).bind convert)

theorem Agrees.tail {row : Row V} (h : Agrees db columns i (row :: rows) term tried convert) :
    Agrees db columns i rows term tried convert :=
  ⟨fun r hr => h.term r (List.mem_cons_of_mem _ hr), fun r hr => h.tried r (List.mem_cons_of_mem _ hr)⟩

/-- The rows that are counted are those that are not converted. -/
theorem invalidRows_run (h : Agrees db columns i rows term tried convert) :
    invalidRows db columns i tried rows = .ok (unconverted convert i rows) := by
  induction rows with
  | nil => rfl
  | cons row rows ih =>
      have hcons : unconverted convert i (row :: rows) = if (((row[i]?).join).any fun v => (convert v).isNone) = true then
          row :: unconverted convert i rows else unconverted convert i rows := List.filter_cons
      rw [invalidRows, h.tried row List.mem_cons_self, applied_true, ih h.tail, hcons]
      have hsame : (((row[i]?).join).isSome = true ∧ (((row[i]?).join).bind convert).isNone = true) ↔
          (((row[i]?).join).any fun v => (convert v).isNone) = true := by
        cases (row[i]?).join with
        | none => simp
        | some v => simp
      by_cases hbad : (((row[i]?).join).any fun v => (convert v).isNone) = true
      · rw [if_pos hbad]
        exact congrArg Except.ok (if_pos (hsame.mpr hbad))
      · rw [if_neg hbad]
        exact congrArg Except.ok (if_neg (mt hsame.mp hbad))

theorem applied_false {f : V → Option V} {cell : Option V} (h : (cell.any fun v => (f v).isNone) = false) :
    applied false f cell = .ok (cell.bind f) := by
  cases cell with
  | none => rfl
  | some v =>
      rw [applied, Option.bind_some]
      cases hv : f v with
      | none => simp [hv] at h
      | some w => rfl

/-- Where every value is converted, every row is. -/
theorem replaceCell_run (h : Agrees db columns i rows term tried convert) (hall : unconverted convert i rows = []) :
    rows.mapM (replaceCell db columns i term) = .ok (rows.map (converted convert i)) := by
  rw [mapM_eq_ok, List.forall₂_map_right_iff, List.forall₂_same]
  intro row hrow
  have hgood : (((row[i]?).join).any fun v => (convert v).isNone) = false := by
    have hnot := List.filter_eq_nil_iff.mp hall row hrow
    exact Bool.eq_false_iff.mpr hnot
  rw [replaceCell, h.term row hrow, applied_false hgood]
  rfl

theorem bound_render (htyped : term.WellTyped) (hbinds : binds db columns term = true) :
    bound db columns term.render = .ok term := by
  rw [bound, read_render htyped]
  simp only [hbinds, if_true]

variable {relation : Relation V} {form : Form}

theorem editView_run (hcolumn : ¬Reserved column) (htyped : form.WellTyped) (hbinds : binds db relation.columns (form.term column) = true)
    (h : Agrees db relation.columns i relation.rows (form.term column) (form.tried column) convert)
    (hall : unconverted convert i relation.rows = []) : editView db relation column i (form.term column).render =
      .ok ⟨relation.columns, .ok (relation.rows.map (converted convert i))⟩ := by
  rw [editView, if_neg hcolumn, bound_render (Form.term_wellTyped htyped column) hbinds]
  exact congrArg (fun rows => Except.ok (Changed.mk relation.columns rows)) (replaceCell_run h hall)

theorem alterTable_run (htyped : form.WellTyped) (hbinds : binds db relation.columns (form.term column) = true)
    (h : Agrees db relation.columns i relation.rows (form.term column) (form.tried column) convert)
    (hall : unconverted convert i relation.rows = []) : alterTable db relation i (form.term column).render =
      .ok ⟨relation.columns, .ok (relation.rows.map (converted convert i))⟩ := by
  rw [alterTable, bound_render (Form.term_wellTyped htyped column) hbinds]
  simp only [bind, Except.bind, replaceCell_run h hall]
  rfl

end Runs

section Changes

variable {V : Type} [DecidableEq V] {db : Engine V} {parse : List Char → Except Failure Parsed} {hex column : List Char}
  {found : Except Failure (Option (List Char))} {relation : Relation V} {target : CastType} {format : Option (List Char)} {form : Form}
  {i : Nat}

/-- What a target stands for. -/
def formOf (parse : List Char → Except Failure Parsed) (hex : List Char) (found : Except Failure (Option (List Char)))
    (target : CastType) (format : Option (List Char)) : Except Failure Form :=
  match target with
  | .shortcut .string => .ok (.direct VARCHAR)
  | .shortcut .integer => .ok (.direct BIGINT)
  | .shortcut .float => .ok (.direct DOUBLE)
  | .shortcut .datetime => (selectFormat found (format.filter fun f => f ≠ [])).map fun selected => selected.elim (.direct TIMESTAMP) .formatted
  | .shortcut .categorical => .ok (.categorical (enumName hex))
  | .sql input => (castType parse input).map .direct

theorem VARCHAR_ne_enumName (hex : List Char) : VARCHAR ≠ enumName hex := by
  intro h
  have hhead : VARCHAR.head? = (enumName hex).head? := congrArg List.head? h
  cases hhead

theorem binds_categorical {members : List V} {g : V → Option V} (hi : column? relation.columns column = some i)
    (hg : db.cast VARCHAR = some g) (attempt : Bool) : binds (db.createEnum (enumName hex) members) relation.columns
      (.cast attempt (.cast false (.column column) VARCHAR) (enumName hex)) = true := by
  have hvarchar := (db.createEnum_of_ne (VARCHAR_ne_enumName hex) members).trans hg
  rw [binds, binds, binds, hi, hvarchar, db.createEnum_self]
  rfl

/-- The type, the database and the text of a conversion. -/
theorem prepared (hform : formOf parse hex found target format = .ok form) (hknown : Known db form)
    (hi : column? relation.columns column = some i) : ∃ type db', sqlType db parse hex relation i target = .ok (type, db') ∧
      expression found (quote column) type target format = .ok (form.term column).render ∧
      Agrees db' relation.columns i relation.rows (form.term column) (form.tried column) (form.convert db) ∧
      binds db' relation.columns (form.term column) = true ∧ binds db' relation.columns (form.tried column) = true := by
  have hdirect : ∀ type, form = .direct type → Agrees db relation.columns i relation.rows (form.term column) (form.tried column)
      (form.convert db) ∧ binds db relation.columns (form.term column) = true ∧ binds db relation.columns (form.tried column) = true := by
    rintro type rfl
    exact ⟨.direct hi hknown _, binds_direct hi hknown false, binds_direct hi hknown true⟩
  cases target with
  | sql input =>
      obtain ⟨type, htype, rfl⟩ := map_eq_ok.mp hform
      refine ⟨type, db, ?_, ?_, hdirect type rfl⟩
      · rw [sqlType, htype]
        rfl
      · simp only [expression, Form.term, Term.render, Bool.false_eq_true, if_false]
  | shortcut shortcut =>
      cases shortcut with
      | string | integer | float =>
          cases hform
          exact ⟨_, db, rfl, rfl, hdirect _ rfl⟩
      | datetime =>
          obtain ⟨selected, hselected, rfl⟩ := map_eq_ok.mp hform
          refine ⟨TIMESTAMP, db, rfl, ?_⟩
          have htext : expression found (quote column) TIMESTAMP (.shortcut .datetime) format =
              .ok ((Form.term column (selected.elim (.direct TIMESTAMP) .formatted)).render) := by
            rw [expression, datetimeExpression, hselected]
            cases selected with
            | none => rfl
            | some chosen =>
                change Except.ok _ = _
                simp only [Option.elim_some, Form.term, Term.render, Bool.false_eq_true, if_false, List.append_assoc]
          cases selected with
          | none => exact ⟨htext, hdirect _ rfl⟩
          | some chosen =>
              exact ⟨htext, .formatted hi hknown _, binds_formatted hi hknown false, binds_formatted hi hknown true⟩
      | categorical =>
          cases hform
          obtain ⟨g, hg, htotal⟩ := hknown.varchar
          have htexts : ((relation.rows.filterMap fun row => (row[i]?).join).mapM fun v =>
              (g v).elim (Except.error Failure.conversion) Except.ok) =
              .ok ((relation.rows.filterMap fun row => (row[i]?).join).map fun v => (g v).getD v) := by
            rw [mapM_eq_ok, List.forall₂_map_right_iff, List.forall₂_same]
            intro v _
            obtain ⟨w, hw⟩ := htotal v
            rw [hw]
            rfl
          refine ⟨enumName hex, db.createEnum (enumName hex) ((relation.rows.filterMap fun row => (row[i]?).join).map
            fun v => (g v).getD v), ?_, ?_, ?_, binds_categorical hi hg false, binds_categorical hi hg true⟩
          · rw [sqlType, hg]
            simp only
            rw [htexts]
            rfl
          · simp only [expression, Form.term, Term.render, Bool.false_eq_true, if_false, List.append_assoc]
          · refine .categorical hi (VARCHAR_ne_enumName hex) hg (fun row hrow v w hv hw => ?_) htotal
            refine List.mem_map.mpr ⟨v, List.mem_filterMap.mpr ⟨row, hrow, hv⟩, ?_⟩
            rw [hw, Option.getD_some]

/-- A conversion is judged by what it does: the text that is checked is its attempt, the change succeeds where every value
that is there converts, the column then holds the converted values, and the failures are counted. -/
structure Judged (db : Engine V) (parse : List Char → Except Failure Parsed) (hex : List Char)
    (found : Except Failure (Option (List Char))) (view : Bool) (column : List Char) (target : CastType) (format : Option (List Char))
    (form : Form) : Prop where
  reads : read (checkedText (form.term column).render) = some (form.tried column)
  converts : ∀ (relation : Relation V) (i : Nat) (requested : List Char), relation.view = view → relation.columns[i]? = some column →
    lower requested = lower column → unconverted (form.convert db) i relation.rows = [] →
    changeColumn db parse hex found relation requested target format =
      .ok ⟨relation.columns, .ok (relation.rows.map (converted (form.convert db) i))⟩
  counts : ∀ (relation : Relation V) (i : Nat) (requested : List Char), relation.view = view → relation.columns[i]? = some column →
    lower requested = lower column → unconverted (form.convert db) i relation.rows ≠ [] → ∃ error examples,
    changeColumn db parse hex found relation requested target format =
      .error (.unconverted error (unconverted (form.convert db) i relation.rows).length examples)

variable {requested : List Char}

/-- A conversion whose text is clear comes to the edit of the View or the Table, or to its count of failures. -/
theorem changeColumn_run (hform : formOf parse hex found target format = .ok form) (hknown : Known db form) (htyped : form.WellTyped)
    (hclear : form.Clear column) (hcolumn : relation.columns[i]? = some column) (hrequested : lower requested = lower column) :
    ∃ db', Agrees db' relation.columns i relation.rows (form.term column) (form.tried column) (form.convert db) ∧
      binds db' relation.columns (form.term column) = true ∧
      (unconverted (form.convert db) i relation.rows = [] →
        changeColumn db parse hex found relation requested target format =
          if relation.view then editView db' relation column i (form.term column).render
          else alterTable db' relation i (form.term column).render) ∧
      (unconverted (form.convert db) i relation.rows ≠ [] → ∃ error examples,
        changeColumn db parse hex found relation requested target format =
          .error (.unconverted error (unconverted (form.convert db) i relation.rows).length examples)) := by
  have hi := column?_of_getElem? relation.distinct hcolumn rfl
  obtain ⟨type, db', htype, htext, hagrees, hbinds, hbinds'⟩ := prepared hform hknown hi
  have hbound : bound db' relation.columns (checkedText (form.term column).render) = .ok (form.tried column) := by
    rw [bound, (Form.read_checked htyped column).mpr hclear]
    simp only [hbinds', if_true]
  have hgetD : relation.columns.getD i [] = column := by rw [List.getD_eq_getElem?_getD, hcolumn, Option.getD_some]
  refine ⟨db', hagrees, hbinds, fun hall => ?_, fun hsome => ?_⟩
  · rw [changeColumn, column?_of_getElem? relation.distinct hcolumn hrequested]
    simp only [hgetD, htype, htext, bound_render (Form.term_wellTyped htyped column) hbinds, hbound, invalidRows_run hagrees, hall,
      bind, Except.bind]
    rfl
  · rw [changeColumn, column?_of_getElem? relation.distinct hcolumn hrequested]
    simp only [hgetD, htype, htext, bound_render (Form.term_wellTyped htyped column) hbinds, hbound, invalidRows_run hagrees,
      bind, Except.bind]
    rw [if_pos hsome]
    exact ⟨_, _, rfl⟩

theorem closed_enumName (hhex : ∀ c ∈ hex, c.isAlphanum = true) : Closed (enumName hex) := by
  have hplain : ∀ c ∈ hex, c ∉ ['"', '\'', '(', ')'] := by
    intro c hc hquote
    have hletter : ∀ d ∈ ['"', '\'', '(', ')'], d.isAlphanum = false := by
      simp only [List.forall_mem_cons, List.not_mem_nil, false_imp_iff, implies_true, and_true]
      exact ⟨rfl, rfl, rfl, rfl⟩
    exact absurd (hhex c hc) (by rw [hletter c hquote]; decide)
  have hdoubled : doubled '"' hex = hex := by
    have hne : ∀ c ∈ hex, (if c = '"' then ['"', '"'] else [c]) = [c] := by
      intro c hc
      rw [if_neg]
      rintro rfl
      exact hplain _ hc (by decide)
    rw [doubled, List.flatMap_congr hne, List.flatMap_singleton']
  have hsplit : enumName hex = (['w', 'o', 'r', 'd', 'f', 'l', 'o', 'w', '.', '"', 'e', 'n', 'u', 'm', '_'] ++ hex) ++ ['"'] := by
    have hparts : enumName hex =
        ['w', 'o', 'r', 'd', 'f', 'l', 'o', 'w', '.', '"', 'e', 'n', 'u', 'm', '_'] ++ (doubled '"' hex ++ ['"']) := rfl
    rw [hparts, hdoubled, List.append_assoc]
  have hopen : (['w', 'o', 'r', 'd', 'f', 'l', 'o', 'w', '.', '"', 'e', 'n', 'u', 'm', '_'] : List Char).foldlM Nesting.step
      ((0, none) : Nesting) = some (0, some '"') := by decide
  have hinside : hex.foldlM Nesting.step ((0, some '"') : Nesting) = some (0, some '"') := by
    refine nesting_plain (fun q hq => ?_) hplain
    cases hq
    exact .inl rfl
  rw [Closed, hsplit, List.foldlM_append, List.foldlM_append, hopen]
  change ((hex.foldlM Nesting.step ((0, some '"') : Nesting)).bind fun n => ['"'].foldlM Nesting.step n) = _
  rw [hinside]
  decide

/-- The types of targets close what they open. -/
theorem formOf_wellTyped (hparse : ∀ input type, castType parse input = .ok type → Closed type)
    (hhex : ∀ c ∈ hex, c.isAlphanum = true) (hform : formOf parse hex found target format = .ok form) : form.WellTyped := by
  cases target with
  | sql input =>
      obtain ⟨type, htype, rfl⟩ := map_eq_ok.mp hform
      exact hparse input type htype
  | shortcut shortcut =>
      cases shortcut with
      | string =>
          cases hform
          exact (by decide : Closed VARCHAR)
      | integer =>
          cases hform
          exact (by decide : Closed BIGINT)
      | float =>
          cases hform
          exact (by decide : Closed DOUBLE)
      | datetime =>
          obtain ⟨selected, -, rfl⟩ := map_eq_ok.mp hform
          cases selected with
          | none => exact (by decide : Closed TIMESTAMP)
          | some chosen => trivial
      | categorical =>
          cases hform
          exact closed_enumName hhex

/-- A relation with one column and no rows. -/
def emptyRelation (view : Bool) (column : List Char) : Relation V := ⟨view, [column], List.nodup_singleton _, [], nofun⟩

/-- A conversion is judged by what it does just where the substitution hits nothing but the calls of the conversion, and a
View's column has no name that a wrapper takes for itself. -/
theorem judged_iff {view : Bool} (hparse : ∀ input type, castType parse input = .ok type → Closed type)
    (hhex : ∀ c ∈ hex, c.isAlphanum = true) (hform : formOf parse hex found target format = .ok form) (hknown : Known db form) :
    Judged db parse hex found view column target format form ↔ form.Clear column ∧ (view = true → ¬Reserved column) := by
  have htyped := formOf_wellTyped hparse hhex hform
  constructor
  · intro h
    have hclear := (Form.read_checked htyped column).mp h.reads
    refine ⟨hclear, ?_⟩
    rintro rfl hreserved
    have hempty := h.converts (emptyRelation true column) 0 column rfl rfl rfl rfl
    obtain ⟨db', -, -, hrun, -⟩ := @changeColumn_run _ _ db parse hex column found (emptyRelation true column) target format form 0
      column hform hknown htyped hclear rfl rfl
    rw [hrun rfl, emptyRelation, if_pos rfl, editView, if_pos hreserved] at hempty
    cases hempty
  · rintro ⟨hclear, hview⟩
    refine ⟨(Form.read_checked htyped column).mpr hclear, fun relation i requested hrelation hcolumn hrequested hall => ?_,
      fun relation i requested _ hcolumn hrequested hsome => ?_⟩
    · obtain ⟨db', hagrees, hbinds, hrun, -⟩ := changeColumn_run hform hknown htyped hclear hcolumn hrequested
      rw [hrun hall]
      cases view with
      | true => rw [hrelation, if_pos rfl, editView_run (hview rfl) htyped hbinds hagrees hall]
      | false => rw [hrelation, if_neg Bool.false_ne_true, alterTable_run htyped hbinds hagrees hall]
    · obtain ⟨db', -, -, -, hrun⟩ := changeColumn_run hform hknown htyped hclear hcolumn hrequested
      exact hrun hsome

end Changes

section Examples

/-- Texts as values, and no types but their own. -/
def texts : Engine String where
  cast := fun type => if type = VARCHAR then some some else none
  strptime := fun _ => none
  text := id

def noParse (_ : List Char) : Except Failure Parsed := .error .binder

def days (column : List Char) : Relation String := ⟨false, [column], List.nodup_singleton _, [[some "Monday"]], fun _ hrow => List.mem_singleton.mp hrow ▸ rfl⟩

theorem day_is_judged : Judged texts noParse ['7', 'f'] (.ok none) false "day".toList (.shortcut .categorical) none
    (.categorical (enumName ['7', 'f'])) := by
  refine (judged_iff ?_ (List.forall_mem_cons.mpr ⟨rfl, List.forall_mem_singleton.mpr rfl⟩) rfl ⟨⟨some, rfl, fun v => ⟨v, rfl⟩⟩, trivial⟩).mpr ⟨⟨?_, ?_⟩, nofun⟩
  · exact fun input type h => nomatch h
  · decide
  · decide

/-- A column that is named by a call is not found by the text that is checked. -/
theorem call_name_is_not_judged : unconverted ((Form.direct VARCHAR).convert texts) 0 (days "strptime(day)".toList).rows = [] ∧
    changeColumn texts noParse [] (.ok none) (days "strptime(day)".toList) "strptime(day)".toList (.shortcut .string) none =
      .error .binder ∧
    ¬Judged texts noParse [] (.ok none) false "strptime(day)".toList (.shortcut .string) none (.direct VARCHAR) := by
  have hall : unconverted ((Form.direct VARCHAR).convert texts) 0 (days "strptime(day)".toList).rows = [] := by decide
  have hrun : changeColumn texts noParse [] (.ok none) (days "strptime(day)".toList) "strptime(day)".toList (.shortcut .string) none =
      .error .binder := by rfl
  refine ⟨hall, hrun, fun h => ?_⟩
  have hconverts := h.converts (days "strptime(day)".toList) 0 "strptime(day)".toList rfl rfl rfl hall
  rw [hrun] at hconverts
  cases hconverts

end Examples

end Wordflow.Casts
