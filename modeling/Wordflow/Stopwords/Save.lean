import Mathlib.Data.List.DropRight
import Mathlib.Data.String.Basic
import Wordflow.Library.Closure
import Wordflow.Library.Fallible
import Wordflow.Library.Merge
import Wordflow.Objects

namespace Wordflow.Stopwords

open Library Library.Fallible Objects

def limit : Nat := 100000

/-- The characters that `\s` matches. -/
def isSpace (c : Char) : Bool := c = '\t' || c = '\n' || c.toNat = 12 || c = '\r' || c = ' '

/-- A text without the spaces at its ends. -/
def trimmed (text : String) : String := String.ofList ((text.toList.dropWhile isSpace).rdropWhile isSpace)

structure Row (V : Type) where
  /-- The cell in the selected column. -/
  word : Option V
  others : List (Option V)
  deriving DecidableEq

/-- A Table of stopwords, as far as the database decides on its statements. -/
structure Table (V : Type) where
  isView : Bool
  /-- The other columns, with what they have in a new row. -/
  defaults : List (Option V)
  text : V → String
  /-- The value of the selected column for a text that is inserted. -/
  store : String → Except Error V
  /-- The constraints, which a statement must keep. -/
  check : List (Row V) → Except Error Unit
  /-- What `incoming.word` is in a row, where the Table or a column of it is called `incoming` and hides the new words. -/
  captures : Option (Row V → Option String)

structure SaveStopwords where
  before : List String
  after : List String
  sort : Bool

def tooLong : Error :=
  .invalid "This column contains more than 100,000 stopwords. Choose a smaller list."

section Code

variable {V : Type} (lower : String → String)

/-- The words of texts with their first spellings, in the order of the texts. -/
def normalized (texts : List (Option String)) : List (String × String) :=
  let words := (texts.filterMap id).map fun text => (lower (trimmed text), trimmed text)
  ((words.filter fun w => w.1 ≠ "").foldl (Closure.add fun a b => a.1 = b.1) []).take (limit + 1)

def checkLimit (count : Nat) : Except Error Unit := if limit < count then .error tooLong else .ok ()

def normalizeDraft (words : List String) : Except Error (List (String × String)) := do
  let words := normalized lower (words.map some)
  checkLimit words.length
  return words

variable (t : Table V)

/-- The expression that every statement compares a cell with. -/
def Row.norm (row : Row V) : Option String := row.word.map fun v => lower (trimmed (t.text v))

def removeWords (removed : List String) (rows : List (Row V)) : List (Row V) :=
  if t.defaults.isEmpty then rows.filter fun row => !(row.norm lower t).any (· ∈ removed)
  else rows.map fun row => if (row.norm lower t).any (· ∈ removed) then { row with word := none } else row

/-- A row has the incoming word. -/
def Row.has (value : String) (row : Row V) : Bool :=
  match t.captures with
  | none => row.norm lower t = some (lower value)
  | some read => (row.norm lower t).any fun w => (read row).any fun other => w = lower other

def insertRow (value : String) : Except Error (Row V) := (t.store value).map fun v => ⟨some v, t.defaults⟩

def insertWords (added : List String) (rows : List (Row V)) : Except Error (List (Row V)) := do
  let new ← (added.filter fun value => !rows.any (Row.has lower t value)).mapM (insertRow t)
  return rows ++ new

/-- The order of the words, those of empty cells last. -/
def Row.le (a b : Row V) : Bool :=
  match a.norm lower t, b.norm lower t with
  | some a, some b => a ≤ b
  | none, some _ => false
  | _, none => true

def checked (rows : List (Row V)) : Except Error (List (Row V)) := do
  t.check rows
  return rows

def removal (removed : List String) (rows : List (Row V)) : Except Error (List (Row V)) :=
  if removed.isEmpty then .ok rows else checked t (removeWords lower t removed rows)

def insertion (added : List String) (rows : List (Row V)) : Except Error (List (Row V)) :=
  if added.isEmpty then .ok rows else insertWords lower t added rows >>= checked t

def sorting (sort : Bool) (rows : List (Row V)) : Except Error (List (Row V)) :=
  if sort then checked t (rows.mergeSort (Row.le lower t)) else .ok rows

def prepareStopwords (rows : List (Row V)) : Except Error Unit :=
  checkLimit (normalized lower (rows.map fun row => row.word.map t.text)).length

/-- The rows after a save, in its transaction. -/
def saveStopwords (request : SaveStopwords) (rows : List (Row V)) : Except Error (List (Row V)) :=
  if t.isView then .error (.invalid "Copy the stopword View to a Table before editing")
  else do
    let before ← normalizeDraft lower request.before
    let after ← normalizeDraft lower request.after
    let previous := before.map Prod.fst
    let next := after.map Prod.fst
    let removed := previous.filter fun word => word ∉ next
    let added := (after.filter fun w => w.1 ∉ previous).map Prod.snd
    if removed.isEmpty && added.isEmpty && !request.sort then .ok rows
    else
      let rows ← removal lower t removed rows
      let rows ← insertion lower t added rows
      let rows ← sorting lower t request.sort rows
      prepareStopwords lower t rows
      return rows

/-- A save with its outcome, and what it leaves in the database. -/
def save (commit : Except Error Unit) (request : SaveStopwords) (rows : List (Row V)) : Except Error Unit × List (Row V) :=
  match saveStopwords lower t request rows with
  | .error e => (.error e, rows)
  | .ok saved =>
      match commit with
      | .error e => (.error e, rows)
      | .ok () => (.ok (), saved)

end Code

section Words

variable {V : Type} (lower : String → String) (t : Table V)

def wordsOf (texts : List String) : Set String := fun w => w ≠ "" ∧ ∃ text ∈ texts, lower (trimmed text) = w

def words (rows : List (Row V)) : Set String := fun w => w ≠ "" ∧ ∃ row ∈ rows, row.norm lower t = some w

/-- The column gives the words that a request puts in back as it was given them. -/
def Keeps (request : SaveStopwords) : Prop :=
  ∀ text ∈ request.after, ∀ v, t.store (trimmed text) = .ok v → lower (trimmed (t.text v)) = lower (trimmed text)

end Words

variable {V : Type} {lower : String → String} {t : Table V} {rows rows' new : List (Row V)} {removed added : List String}

section Normalization

theorem sameWord_equivalence : Equivalence fun a b : String × String => decide (a.1 = b.1) = true where
  refl := fun _ => decide_eq_true rfl
  symm := fun h => decide_eq_true (of_decide_eq_true h).symm
  trans := fun h h' => decide_eq_true ((of_decide_eq_true h).trans (of_decide_eq_true h'))

theorem checkLimit_ok {count : Nat} (h : checkLimit count = .ok ()) : count ≤ limit := by
  rw [checkLimit] at h
  split at h
  · cases h
  · exact Nat.le_of_not_lt ‹_›

/-- A list of words that is cut at the limit and is within it has not been cut. -/
theorem take_of_limit {ws : List (String × String)} (h : (ws.take (limit + 1)).length ≤ limit) : ws.take (limit + 1) = ws := by
  rw [List.length_take] at h
  exact List.take_of_length_le (by omega)

theorem mem_firsts {cells : List (String × String)} (w : String) :
    w ∈ (cells.foldl (Closure.add fun a b => decide (a.1 = b.1)) []).map Prod.fst ↔ w ∈ cells.map Prod.fst := by
  have hcovers := @Closure.covers_foldl_add _ _ (w, "") sameWord_equivalence [] cells
  have hiff : ∀ ps : List (String × String), w ∈ ps.map Prod.fst ↔ Closure.Covers (fun a b => decide (a.1 = b.1)) ps (w, "") := by
    intro ps
    rw [List.mem_map]
    constructor
    · rintro ⟨p, hp, rfl⟩
      exact ⟨p, hp, decide_eq_true rfl⟩
    · rintro ⟨p, hp, hsame⟩
      exact ⟨p, hp, of_decide_eq_true hsame⟩
  rw [hiff, hiff, hcovers, List.nil_append]

/-- A draft within the limit has each of its words, with a spelling of it. -/
theorem normalizeDraft_ok {texts : List String} {ws : List (String × String)} (h : normalizeDraft lower texts = .ok ws) :
    (∀ w, w ∈ ws.map Prod.fst ↔ w ∈ wordsOf lower texts) ∧
      ∀ p ∈ ws, p.1 ≠ "" ∧ ∃ text ∈ texts, p = (lower (trimmed text), trimmed text) := by
  obtain ⟨⟨⟩, hlimit, h⟩ := bind_eq_ok.mp h
  obtain rfl := Except.ok.inj h
  rw [normalized, take_of_limit (checkLimit_ok hlimit)]
  have hcells : ∀ p, p ∈ ((((texts.map some).filterMap id).map fun text => (lower (trimmed text), trimmed text)).filter
      fun w => w.1 ≠ "") ↔ p.1 ≠ "" ∧ ∃ text ∈ texts, p = (lower (trimmed text), trimmed text) := by
    intro p
    rw [List.filterMap_map, List.mem_filter, List.mem_map]
    simp only [Function.id_comp, List.filterMap_some]
    constructor
    · rintro ⟨⟨text, htext, rfl⟩, hne⟩
      exact ⟨of_decide_eq_true hne, text, htext, rfl⟩
    · rintro ⟨hne, text, htext, rfl⟩
      exact ⟨⟨text, htext, rfl⟩, decide_eq_true hne⟩
  constructor
  · intro w
    rw [mem_firsts, List.mem_map]
    constructor
    · rintro ⟨p, hp, rfl⟩
      obtain ⟨hne, text, htext, rfl⟩ := (hcells p).mp hp
      exact ⟨hne, text, htext, rfl⟩
    · rintro ⟨hne, text, htext, rfl⟩
      exact ⟨_, (hcells _).mpr ⟨hne, text, htext, rfl⟩, rfl⟩
  · intro p hp
    have hfirst := (Closure.mem_foldl_add sameWord_equivalence _ .nil).mp hp
    exact (hcells p).mp (List.mem_of_find?_eq_some hfirst)

end Normalization

section Statements

theorem mem_words_append {w : String} : w ∈ words lower t (rows ++ new) ↔ w ∈ words lower t rows ∨ w ∈ words lower t new := by
  constructor
  · rintro ⟨hne, row, hrow, hw⟩
    rcases List.mem_append.mp hrow with hrow | hrow
    · exact .inl ⟨hne, row, hrow, hw⟩
    · exact .inr ⟨hne, row, hrow, hw⟩
  · rintro (⟨hne, row, hrow, hw⟩ | ⟨hne, row, hrow, hw⟩)
    · exact ⟨hne, row, List.mem_append_left _ hrow, hw⟩
    · exact ⟨hne, row, List.mem_append_right _ hrow, hw⟩

theorem words_perm (h : rows.Perm rows') : words lower t rows = words lower t rows' := by
  ext w
  exact and_congr_right fun _ => exists_congr fun row => and_congr_left fun _ => h.mem_iff

theorem norm_any {row : Row V} {w : String} (hw : row.norm lower t = some w) :
    (row.norm lower t).any (· ∈ removed) = true ↔ w ∈ removed := by
  rw [hw, Option.any_some, decide_eq_true_iff]

/-- The removed words are gone, whether their rows or their cells are. -/
theorem words_removeWords : words lower t (removeWords lower t removed rows) = words lower t rows \ {w | w ∈ removed} := by
  ext w
  rw [Set.mem_sdiff, Set.mem_ofPred_eq, removeWords]
  split
  · constructor
    · rintro ⟨hne, row, hrow, hw⟩
      obtain ⟨hrow, hkept⟩ := List.mem_filter.mp hrow
      refine ⟨⟨hne, row, hrow, hw⟩, fun hremoved => ?_⟩
      rw [(norm_any hw).mpr hremoved] at hkept
      cases hkept
    · rintro ⟨⟨hne, row, hrow, hw⟩, hkept⟩
      refine ⟨hne, row, List.mem_filter.mpr ⟨hrow, ?_⟩, hw⟩
      rw [Bool.not_eq_true', Bool.eq_false_iff]
      exact fun hany => hkept ((norm_any hw).mp hany)
  · constructor
    · rintro ⟨hne, changed, hchanged, hw⟩
      obtain ⟨row, hrow, rfl⟩ := List.mem_map.mp hchanged
      split at hw
      · cases hw
      · rename_i hkept
        exact ⟨⟨hne, row, hrow, hw⟩, fun hremoved => hkept ((norm_any hw).mpr hremoved)⟩
    · rintro ⟨⟨hne, row, hrow, hw⟩, hkept⟩
      refine ⟨hne, row, List.mem_map.mpr ⟨row, hrow, ?_⟩, hw⟩
      rw [if_neg]
      exact fun hany => hkept ((norm_any hw).mp hany)

/-- The rows of the other words stay as they are. -/
theorem survivors_sublist :
    (rows.filter fun row => !(row.norm lower t).any (· ∈ removed)).Sublist (removeWords lower t removed rows) := by
  rw [removeWords]
  split
  · exact List.Sublist.refl _
  · induction rows with
    | nil => exact List.Sublist.refl _
    | cons row rows ih =>
        rw [List.filter_cons, List.map_cons]
        cases hany : (row.norm lower t).any (· ∈ removed) with
        | true => exact ih.cons _
        | false => exact ih.cons_cons _

theorem removeWords_nil (rows : List (Row V)) : removeWords lower t [] rows = rows := by
  rw [removeWords]
  split
  · simp
  · simp

theorem checked_ok (h : checked t rows = .ok rows') : rows' = rows := by
  obtain ⟨-, -, h⟩ := bind_eq_ok.mp h
  exact (Except.ok.inj h).symm

theorem removal_ok (h : removal lower t removed rows = .ok rows') : rows' = removeWords lower t removed rows := by
  rw [removal] at h
  split at h
  · rename_i hempty
    rw [List.isEmpty_iff.mp hempty, removeWords_nil]
    exact (Except.ok.inj h).symm
  · exact checked_ok h

theorem sorting_ok {sort : Bool} (h : sorting lower t sort rows = .ok rows') : rows'.Perm rows := by
  rw [sorting] at h
  split at h
  · rw [checked_ok h]
    exact List.mergeSort_perm _ _
  · rw [Except.ok.inj h]

/-- A value that is put in has its word, and its column gives the word back. -/
def Kept (lower : String → String) (t : Table V) (value : String) : Prop :=
  lower value ≠ "" ∧ ∀ v, t.store value = .ok v → lower (trimmed (t.text v)) = lower value

/-- The words that are put in are there, in rows of their own or in rows that were there. -/
theorem insertion_ok (hcaptures : t.captures = none) (hadded : ∀ value ∈ added, Kept lower t value)
    (h : insertion lower t added rows = .ok rows') :
    ∃ new, rows' = rows ++ new ∧ words lower t rows' = words lower t rows ∪ {w | ∃ value ∈ added, lower value = w} := by
  rw [insertion] at h
  split at h
  · rename_i hempty
    obtain rfl := Except.ok.inj h
    refine ⟨[], (List.append_nil _).symm, ?_⟩
    simp [List.isEmpty_iff.mp hempty]
  · obtain ⟨inserted, hinsert, h⟩ := bind_eq_ok.mp h
    rw [checked_ok h]
    obtain ⟨new, hnew, hinserted⟩ := bind_eq_ok.mp hinsert
    obtain rfl := Except.ok.inj hinserted
    have hrows := mapM_eq_ok.mp hnew
    have hnorm : ∀ value ∈ added, ∀ row, insertRow t value = .ok row → row.norm lower t = some (lower value) := by
      intro value hvalue row hrow
      obtain ⟨v, hv, rfl⟩ := map_eq_ok.mp hrow
      exact congrArg some ((hadded value hvalue).2 v hv)
    have hhas : ∀ value row, Row.has lower t value row = decide (row.norm lower t = some (lower value)) := by
      intro value row
      rw [Row.has, hcaptures]
    refine ⟨new, rfl, ?_⟩
    ext w
    rw [Set.mem_union, Set.mem_ofPred_eq]
    constructor
    · intro hw
      rcases mem_words_append.mp hw with hold | ⟨-, row, hrow, hrowWord⟩
      · exact .inl hold
      · obtain ⟨value, hvalue, hinsertRow⟩ := forall₂_mem_right hrows hrow
        have hmem := (List.mem_filter.mp hvalue).1
        exact .inr ⟨value, hmem, Option.some.inj ((hnorm value hmem row hinsertRow).symm.trans hrowWord)⟩
    · rintro (hold | ⟨value, hvalue, rfl⟩)
      · exact mem_words_append.mpr (.inl hold)
      · have hne := (hadded value hvalue).1
        cases hany : rows.any (Row.has lower t value) with
        | true =>
            obtain ⟨row, hrow, htrue⟩ := List.any_eq_true.mp hany
            rw [hhas, decide_eq_true_iff] at htrue
            exact mem_words_append.mpr (.inl ⟨hne, row, hrow, htrue⟩)
        | false =>
            have hmissing : value ∈ added.filter fun value => !rows.any (Row.has lower t value) :=
              List.mem_filter.mpr ⟨hvalue, by rw [hany]; rfl⟩
            obtain ⟨row, hrow, hinsertRow⟩ := forall₂_mem_left hrows hmissing
            exact mem_words_append.mpr (.inr ⟨hne, row, hrow, hnorm value hvalue row hinsertRow⟩)

end Statements

section Saves

variable {request : SaveStopwords}

/-- A save removes, inserts and sorts, though the steps with nothing to do are left out. -/
theorem saveStopwords_steps (h : saveStopwords lower t request rows = .ok rows') :
    ∃ before after removed added kept extended, normalizeDraft lower request.before = .ok before ∧
      normalizeDraft lower request.after = .ok after ∧
        removed = (before.map Prod.fst).filter (fun word => word ∉ after.map Prod.fst) ∧
          added = (after.filter fun w => w.1 ∉ before.map Prod.fst).map Prod.snd ∧
            removal lower t removed rows = .ok kept ∧ insertion lower t added kept = .ok extended ∧
              sorting lower t request.sort extended = .ok rows' := by
  rw [saveStopwords, guard_eq_ok] at h
  obtain ⟨-, h⟩ := h
  obtain ⟨before, hbefore, h⟩ := bind_eq_ok.mp h
  obtain ⟨after, hafter, h⟩ := bind_eq_ok.mp h
  simp only at h
  split at h
  · rename_i hnothing
    obtain rfl := Except.ok.inj h
    simp only [Bool.and_eq_true, Bool.not_eq_true'] at hnothing
    obtain ⟨⟨hremoved, hadded⟩, hsort⟩ := hnothing
    exact ⟨before, after, _, _, rows, rows, hbefore, hafter, rfl, rfl, if_pos hremoved, if_pos hadded, by rw [hsort]; rfl⟩
  · obtain ⟨kept, hkept, h⟩ := bind_eq_ok.mp h
    obtain ⟨extended, hextended, h⟩ := bind_eq_ok.mp h
    obtain ⟨sorted, hsorted, h⟩ := bind_eq_ok.mp h
    obtain ⟨-, -, h⟩ := bind_eq_ok.mp h
    obtain rfl := Except.ok.inj h
    exact ⟨before, after, _, _, kept, extended, hbefore, hafter, rfl, rfl, hkept, hextended, hsorted⟩

/-- What a save leaves: the rows without the removed words, and new rows. -/
structure Saved (lower : String → String) (t : Table V) (request : SaveStopwords) (rows rows' : List (Row V)) : Prop where
  words : words lower t rows' =
    Merge.merged (words lower t rows) (wordsOf lower request.before) (wordsOf lower request.after)
  rows : ∃ removed new, (∀ w, w ∈ removed ↔ w ∈ wordsOf lower request.before \ wordsOf lower request.after) ∧
    rows'.Perm (removeWords lower t removed rows ++ new) ∧
      (rows.filter fun row => !(row.norm lower t).any (· ∈ removed)).Sublist (removeWords lower t removed rows)

theorem saveStopwords_saved (hcaptures : t.captures = none) (hkeeps : Keeps lower t request)
    (h : saveStopwords lower t request rows = .ok rows') : Saved lower t request rows rows' := by
  obtain ⟨before, after, removed, added, kept, extended, hbefore, hafter, rfl, rfl, hkept, hextended, hsorted⟩ :=
    saveStopwords_steps h
  obtain ⟨hbeforeWords, -⟩ := normalizeDraft_ok hbefore
  obtain ⟨hafterWords, hspelled⟩ := normalizeDraft_ok hafter
  have hremoved : ∀ w, w ∈ (before.map Prod.fst).filter (fun word => word ∉ after.map Prod.fst) ↔
      w ∈ wordsOf lower request.before \ wordsOf lower request.after := by
    intro w
    rw [List.mem_filter, decide_eq_true_iff, hbeforeWords, hafterWords, Set.mem_sdiff]
  have hadded : ∀ value ∈ (after.filter fun w => w.1 ∉ before.map Prod.fst).map Prod.snd, Kept lower t value := by
    intro value hvalue
    obtain ⟨p, hp, rfl⟩ := List.mem_map.mp hvalue
    obtain ⟨hne, text, htext, rfl⟩ := hspelled p (List.mem_filter.mp hp).1
    exact ⟨hne, hkeeps text htext⟩
  have hput : ∀ w, (∃ value ∈ (after.filter fun w => w.1 ∉ before.map Prod.fst).map Prod.snd, lower value = w) ↔
      w ∈ wordsOf lower request.after \ wordsOf lower request.before := by
    intro w
    rw [Set.mem_sdiff, ← hafterWords, ← hbeforeWords]
    constructor
    · rintro ⟨value, hvalue, rfl⟩
      obtain ⟨p, hp, rfl⟩ := List.mem_map.mp hvalue
      obtain ⟨hp, hnot⟩ := List.mem_filter.mp hp
      obtain ⟨-, text, -, rfl⟩ := hspelled p hp
      exact ⟨List.mem_map.mpr ⟨_, hp, rfl⟩, of_decide_eq_true hnot⟩
    · rintro ⟨hw, hnot⟩
      obtain ⟨p, hp, rfl⟩ := List.mem_map.mp hw
      obtain ⟨-, text, -, rfl⟩ := hspelled p hp
      exact ⟨_, List.mem_map.mpr ⟨_, List.mem_filter.mpr ⟨hp, decide_eq_true hnot⟩, rfl⟩, rfl⟩
  obtain ⟨new, rfl, hwords⟩ := insertion_ok hcaptures hadded hextended
  have hperm := sorting_ok hsorted
  rw [removal_ok hkept] at hperm hwords
  refine ⟨?_, _, new, hremoved, hperm, survivors_sublist⟩
  rw [words_perm hperm, hwords, words_removeWords, Merge.merged]
  congr 1
  · congr 1
    ext w
    exact hremoved w
  · ext w
    exact hput w

theorem save_error {commit : Except Error Unit} {e : Error} (h : (save lower t commit request rows).1 = .error e) :
    (save lower t commit request rows).2 = rows := by
  rw [save] at h ⊢
  cases hsaved : saveStopwords lower t request rows with
  | error failure => rfl
  | ok saved =>
      cases commit with
      | error failure => rfl
      | ok done =>
          rw [hsaved] at h
          cases h

/-- A save merges its edit into what is stored, two edits of different words merge in either order, and a save that fails
changes nothing. -/
theorem save_merges (hcaptures : t.captures = none) {first second : SaveStopwords} (hfirst : Keeps lower t first)
    (hsecond : Keeps lower t second) :
    (∀ rows rows', saveStopwords lower t first rows = .ok rows' → Saved lower t first rows rows') ∧
    (Disjoint (Merge.changed (wordsOf lower first.before) (wordsOf lower first.after))
        (Merge.changed (wordsOf lower second.before) (wordsOf lower second.after)) →
      ∀ rows a b c d, saveStopwords lower t first rows = .ok a → saveStopwords lower t second a = .ok b →
        saveStopwords lower t second rows = .ok c → saveStopwords lower t first c = .ok d →
          words lower t b = words lower t d) ∧
    ∀ commit rows e, (save lower t commit first rows).1 = .error e → (save lower t commit first rows).2 = rows := by
  refine ⟨fun rows rows' h => saveStopwords_saved hcaptures hfirst h, ?_, fun commit rows e h => save_error h⟩
  intro hdisjoint rows a b c d ha hb hc hd
  rw [(saveStopwords_saved hcaptures hsecond hb).words, (saveStopwords_saved hcaptures hfirst ha).words,
    (saveStopwords_saved hcaptures hfirst hd).words, (saveStopwords_saved hcaptures hsecond hc).words]
  exact Merge.merged_comm hdisjoint

end Saves

section Columns

theorem trimmed_trimmed (text : String) : trimmed (trimmed text) = trimmed text := by
  have hlead : (((text.toList.dropWhile isSpace).rdropWhile isSpace).dropWhile isSpace) =
      (text.toList.dropWhile isSpace).rdropWhile isSpace := by
    rw [List.dropWhile_eq_self_iff]
    intro hpos hspace
    have hprefix := List.rdropWhile_prefix isSpace (text.toList.dropWhile isSpace)
    have hhead := hprefix.getElem hpos
    have hnot := List.dropWhile_get_zero_not isSpace text.toList (Nat.lt_of_lt_of_le hpos hprefix.length_le)
    rw [List.get_eq_getElem, ← hhead] at hnot
    exact hnot hspace
  rw [trimmed, trimmed, String.toList_ofList, hlead, List.rdropWhile_idempotent]

/-- A text column gives every word back. -/
theorem text_keeps {words : Table String} (htext : words.text = id) (hstore : words.store = .ok) (request : SaveStopwords) :
    Keeps lower words request := by
  intro text _ v hv
  rw [hstore] at hv
  obtain rfl := Except.ok.inj hv
  rw [htext, id, trimmed_trimmed]

def asciiLowered (text : String) : String := String.ofList (text.toList.map Char.toLower)

/-- A list of words with their notes. -/
def noted : Table String := ⟨false, [none], id, .ok, fun _ => .ok (), none⟩

def stored : List (Row String) := [⟨some " The", [some "article"]⟩, ⟨some "of", [none]⟩, ⟨none, [some "later"]⟩]

def edited : SaveStopwords := ⟨["the", "of"], ["The ", "and", "AND"], false⟩

theorem edited_merges : Keeps asciiLowered noted edited ∧
    saveStopwords asciiLowered noted edited stored =
      .ok [⟨some " The", [some "article"]⟩, ⟨none, [none]⟩, ⟨none, [some "later"]⟩, ⟨some "and", [none]⟩] ∧
    Saved asciiLowered noted edited stored
      [⟨some " The", [some "article"]⟩, ⟨none, [none]⟩, ⟨none, [some "later"]⟩, ⟨some "and", [none]⟩] := by
  have hkeeps : Keeps asciiLowered noted edited := text_keeps rfl rfl edited
  have hsaved : saveStopwords asciiLowered noted edited stored =
      .ok [⟨some " The", [some "article"]⟩, ⟨none, [none]⟩, ⟨none, [some "later"]⟩, ⟨some "and", [none]⟩] := by decide +kernel
  exact ⟨hkeeps, hsaved, (save_merges rfl hkeeps hkeeps).1 stored _ hsaved⟩

/-- A column of numbers. -/
def numbers : Table Nat where
  isView := false
  defaults := []
  text n := toString n
  store text :=
    if text.toList.all Char.isDigit then .ok (Nat.ofDigitChars 10 text.toList 0) else .error ⟨"conversion", "Could not convert string"⟩
  check _ := .ok ()
  captures := none

def padded : SaveStopwords := ⟨["5"], ["5", "007"], false⟩

theorem padded_is_stored_as_seven :
    saveStopwords asciiLowered numbers padded [⟨some 5, []⟩] = .ok [⟨some 5, []⟩, ⟨some 7, []⟩] ∧
      "007" ∈ Merge.merged (words asciiLowered numbers [⟨some 5, []⟩]) (wordsOf asciiLowered padded.before)
        (wordsOf asciiLowered padded.after) ∧
        "007" ∉ words asciiLowered numbers [⟨some 5, []⟩, ⟨some 7, []⟩] := by
  refine ⟨by decide +kernel, .inr ⟨⟨by decide, "007", by decide, by decide +kernel⟩, ?_⟩, ?_⟩
  · rintro ⟨-, text, htext, hword⟩
    obtain rfl := List.mem_singleton.mp htext
    exact absurd hword (by decide +kernel)
  · rintro ⟨-, row, hrow, hword⟩
    simp only [List.mem_cons, List.not_mem_nil, or_false] at hrow
    rcases hrow with rfl | rfl
    · exact absurd hword (by decide +kernel)
    · exact absurd hword (by decide +kernel)

end Columns

end Wordflow.Stopwords
