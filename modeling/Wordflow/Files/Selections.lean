import Mathlib.Data.String.Basic
import Wordflow.Library.Fallible
import Wordflow.Library.FileTree
import Wordflow.Library.Identifier
import Wordflow.Objects

namespace Wordflow.Files

open Library Library.Fallible Library.FileTree Objects

inductive Library
  | data
  | projects
  deriving DecidableEq

/-- A library holds ordinary files and folders; links are refused where they are met. -/
inductive Node
  | file (content : List UInt8)
  | folder
  deriving DecidableEq

abbrev Path := List String

/-- What stands in the directory of a library, by the path in it. -/
abbrev Contents := Tree String Node

structure LibraryTree where
  contents : Contents
  root : contents [] = some .folder
  closed : ∀ p name, contents (p ++ [name]) ≠ none → contents p = some .folder

def ioError : Error := ⟨"io_error", "I/O error"⟩

def isControl (c : Char) : Bool := c.toNat < 32 || (127 ≤ c.toNat && c.toNat ≤ 159)

/-- A device name of another system. -/
def isReserved (stem : List Char) : Bool :=
  stem ∈ ["CON".toList, "PRN".toList, "AUX".toList, "NUL".toList] ||
    stem.length = 4 && ("COM".toList.isPrefixOf stem || "LPT".toList.isPrefixOf stem) &&
      stem.getLast?.any fun c => '1'.toNat ≤ c.toNat && c.toNat ≤ '9'.toNat

def validateName (name : String) : Except Error Unit :=
  let stem := (name.toList.takeWhile (· ≠ '.')).map Char.toUpper
  if name = "" ∨ name.toList.head? = some '.' ∨ name.toList.getLast? = some '.' ∨ name.toList.getLast? = some ' ' ∨
      name.toList.any (· ∈ ['/', '\\', ':', '*', '?', '"', '<', '>', '|']) ∨ name.toList.any isControl ∨ isReserved stem then
    .error (.invalid "Choose a filename without directory components or reserved characters")
  else .ok ()

def components (name : String) : Path := (name.toList.splitOn '/').map String.ofList

/-- The parts of a path below a folder, of which the last may be missing. -/
def walk (t : Contents) (library : Library) (parent : Path) : Path → Except Error Path
  | [] => .ok parent
  | part :: rest =>
      match t (parent ++ [part]) with
      | none => if rest = [] then .ok (parent ++ [part]) else .error ioError
      | some node =>
          if rest ≠ [] ∧ node ≠ .folder then .error (.invalid "The parent must be a folder")
          else if library = .projects ∧ node = .folder then .error (.invalid "Choose an ordinary project file")
          else walk t library (parent ++ [part]) rest

def projectExtension (name : String) : Bool := ".wfpj".toList.isSuffixOf (Identifier.asciiLower name)

def validate (library : Library) (name : String) : Except Error Unit :=
  match library with
  | .projects => do
      validateName name
      if !projectExtension name then .error (.invalid "Projects must have a .wfpj extension") else .ok ()
  | .data => (components name).forM validateName

def path (t : Contents) (library : Library) (name : String) : Except Error Path :=
  if name = "" ∧ library = .data then .ok []
  else do
    validate library name
    walk t library [] (components name)

/-- Entries without those of the name before them. -/
def dedupAfter (last : String) : List (String × Path) → List (String × Path)
  | [] => []
  | e :: rest => if e.1 = last then dedupAfter last rest else e :: dedupAfter e.1 rest

def dedup : List (String × Path) → List (String × Path)
  | [] => []
  | e :: rest => e :: dedupAfter e.1 rest

def choose (t : Contents) (library : Library) (name : String) : Except Error (String × Path) :=
  if name = "" then .error (.invalid "The library root cannot be changed")
  else do
    let p ← path t library name
    if t p = none then .error ioError else .ok (name, p)

def inside (chosen : List (String × Path)) (t : Contents) (p : Path) : Bool :=
  chosen.any fun e => t e.2 = some .folder && p ≠ e.2 && e.2.isPrefixOf p

def selections (t : Contents) (library : Library) (names : List String) : Except Error (List (String × Path)) :=
  if names = [] then .error (.invalid "Choose at least one file or folder")
  else do
    let chosen ← names.mapM (choose t library)
    let chosen := dedup (chosen.mergeSort fun a b => a.1 ≤ b.1)
    .ok (chosen.filter fun e => !inside chosen t e.2)

section Spec

variable {t : Contents} {library : Library} {name : String} {names : List String} {p q : Path}

theorem components_injective : Function.Injective components := by
  intro a b h
  have hparts : a.toList.splitOn '/' = b.toList.splitOn '/' :=
    List.map_injective_iff.mpr (fun x y hxy => String.ofList_injective hxy) h
  have hjoin := congrArg (['/'].intercalate ·) hparts
  simp only [List.intercalate_splitOn] at hjoin
  exact String.toList_injective hjoin

theorem walk_eq {parent parts : Path} (h : walk t library parent parts = .ok p) : p = parent ++ parts := by
  induction parts generalizing parent with
  | nil =>
      cases h
      rw [List.append_nil]
  | cons part rest ih =>
      rw [walk] at h
      split at h
      · split at h
        · rename_i hrest
          cases h
          rw [hrest]
        · cases h
      · split at h
        · cases h
        · split at h
          · cases h
          · rw [ih h, List.append_assoc, List.singleton_append]

theorem path_eq (hname : name ≠ "") (h : path t library name = .ok p) : p = components name := by
  rw [path, if_neg fun hempty => hname hempty.1] at h
  obtain ⟨⟨⟩, -, hwalk⟩ := bind_eq_ok.mp h
  exact walk_eq hwalk

theorem choose_eq {e : String × Path} (h : choose t library name = .ok e) :
    name ≠ "" ∧ path t library name = .ok (components name) ∧ e = (name, components name) ∧ t (components name) ≠ none := by
  obtain ⟨hname, h⟩ := guard_eq_ok.mp h
  obtain ⟨p, hpath, h⟩ := bind_eq_ok.mp h
  obtain ⟨hexists, hresult⟩ := guard_eq_ok.mp h
  cases hresult
  have hp := path_eq hname hpath
  subst hp
  exact ⟨hname, hpath, rfl, hexists⟩

/-- A chosen path exists, as do the folders above it. -/
theorem closed_prefix (l : LibraryTree) (h : l.contents (p ++ q) ≠ none) (hq : q ≠ []) : l.contents p = some .folder := by
  induction q using List.reverseRecOn with
  | nil => exact absurd rfl hq
  | append_singleton q name ih =>
      rw [← List.append_assoc] at h
      have hparent := l.closed _ _ h
      by_cases hnil : q = []
      · subst hnil
        rwa [List.append_nil] at hparent
      · exact ih (by rw [hparent]; exact Option.some_ne_none _) hnil

theorem mem_dedupAfter {last : String} {entries : List (String × Path)} {e : String × Path}
    (h : e ∈ dedupAfter last entries) : e ∈ entries := by
  induction entries generalizing last with
  | nil => exact h
  | cons a entries ih =>
      rw [dedupAfter] at h
      split at h
      · exact List.mem_cons_of_mem _ (ih h)
      · rcases List.mem_cons.mp h with rfl | h
        · exact List.mem_cons_self
        · exact List.mem_cons_of_mem _ (ih h)

theorem mem_dedup {entries : List (String × Path)} {e : String × Path} (h : e ∈ dedup entries) : e ∈ entries := by
  cases entries with
  | nil => exact h
  | cons a entries =>
      rcases List.mem_cons.mp h with rfl | h
      · exact List.mem_cons_self
      · exact List.mem_cons_of_mem _ (mem_dedupAfter h)

theorem dedupAfter_lt {last : String} {entries : List (String × Path)}
    (hsorted : (entries.map Prod.fst).Pairwise (· ≤ ·)) (hlast : ∀ e ∈ entries, last ≤ e.1) :
    (∀ e ∈ dedupAfter last entries, last < e.1) ∧ ((dedupAfter last entries).map Prod.fst).Pairwise (· < ·) := by
  induction entries generalizing last with
  | nil => exact ⟨List.forall_mem_nil _, List.Pairwise.nil⟩
  | cons a entries ih =>
      obtain ⟨hfirst, hrest⟩ := List.pairwise_cons.mp hsorted
      have hfirst' : ∀ e ∈ entries, a.1 ≤ e.1 := fun e he => hfirst _ (List.mem_map_of_mem he)
      rw [dedupAfter]
      split
      · rename_i heq
        exact ih hrest fun e he => hlast e (List.mem_cons_of_mem _ he)
      · rename_i hne
        have hlt : last < a.1 := lt_of_le_of_ne (hlast a List.mem_cons_self) (Ne.symm hne)
        obtain ⟨habove, hpairwise⟩ := ih hrest hfirst'
        refine ⟨?_, ?_⟩
        · intro e he
          rcases List.mem_cons.mp he with rfl | he
          · exact hlt
          · exact hlt.trans (habove e he)
        · rw [List.map_cons, List.pairwise_cons]
          refine ⟨?_, hpairwise⟩
          intro name hname
          obtain ⟨e, he, rfl⟩ := List.mem_map.mp hname
          exact habove e he

theorem dedup_nodup {entries : List (String × Path)} (hsorted : (entries.map Prod.fst).Pairwise (· ≤ ·)) :
    ((dedup entries).map Prod.fst).Nodup := by
  cases entries with
  | nil => exact List.nodup_nil
  | cons a entries =>
      obtain ⟨hfirst, hrest⟩ := List.pairwise_cons.mp hsorted
      obtain ⟨habove, hpairwise⟩ := dedupAfter_lt hrest fun e he => hfirst _ (List.mem_map_of_mem he)
      rw [dedup, List.map_cons]
      refine List.nodup_cons.mpr ⟨?_, hpairwise.imp fun h => h.ne⟩
      intro hin
      obtain ⟨e, he, heq⟩ := List.mem_map.mp hin
      exact (habove e he).ne heq.symm

theorem name_mem_dedup {entries : List (String × Path)} {e : String × Path} (h : e ∈ entries) :
    e.1 ∈ (dedup entries).map Prod.fst := by
  have hafter : ∀ (entries : List (String × Path)) (last : String), e ∈ entries →
      e.1 = last ∨ e.1 ∈ (dedupAfter last entries).map Prod.fst := by
    intro entries
    induction entries with
    | nil =>
        intro last he
        cases he
    | cons a entries ih =>
        intro last he
        rw [dedupAfter]
        split
        · rename_i heq
          rcases List.mem_cons.mp he with rfl | he
          · exact .inl heq
          · exact ih last he
        · rcases List.mem_cons.mp he with rfl | he
          · exact .inr List.mem_cons_self
          · rcases ih a.1 he with heq | hin
            · rw [heq]
              exact .inr List.mem_cons_self
            · exact .inr (List.mem_cons_of_mem _ hin)
  cases entries with
  | nil => cases h
  | cons a entries =>
      rcases List.mem_cons.mp h with rfl | h
      · exact List.mem_cons_self
      · rcases hafter entries a.1 h with heq | hin
        · rw [heq]
          exact List.mem_cons_self
        · exact List.mem_cons_of_mem _ hin

theorem components_ne_nil (name : String) : components name ≠ [] := by
  rw [components]
  exact fun h => List.splitOn_ne_nil '/' name.toList (List.map_eq_nil_iff.mp h)

/-- A chosen entry lies in one that no other chosen folder holds. -/
theorem exists_outermost {chosen : List (String × Path)} {e : String × Path} (he : e ∈ chosen) :
    ∃ s ∈ chosen.filter (fun e => !inside chosen t e.2), s.2 <+: e.2 := by
  generalize hlength : e.2.length = n
  induction n using Nat.strong_induction_on generalizing e with
  | _ n ih =>
      by_cases hin : inside chosen t e.2
      · obtain ⟨parent, hparent, hholds⟩ := List.any_eq_true.mp hin
        simp only [Bool.and_eq_true, decide_eq_true_eq, List.isPrefixOf_iff_prefix] at hholds
        obtain ⟨⟨-, hne⟩, hprefix⟩ := hholds
        have hshorter : parent.2.length < n := by
          have hle := hprefix.length_le
          have hdiffer : parent.2.length ≠ e.2.length := fun heq => hne (List.IsPrefix.eq_of_length hprefix heq).symm
          omega
        obtain ⟨s, hs, hbelow⟩ := ih _ hshorter hparent rfl
        exact ⟨s, hs, hbelow.trans hprefix⟩
      · exact ⟨e, List.mem_filter.mpr ⟨he, by simpa using hin⟩, List.prefix_refl _⟩

/-- The selected entries exist, are apart from each other, and hold everything that was named. -/
structure Selected (l : LibraryTree) (names : List String) (selected : List (String × Path)) : Prop where
  named : ∀ e ∈ selected, ∃ name ∈ names, e = (name, components name)
  present : ∀ e ∈ selected, l.contents e.2 ≠ none
  apart : (selected.map Prod.snd).Pairwise Apart
  holds : ∀ name ∈ names, ∃ e ∈ selected, e.2 <+: components name

theorem selections_spec (l : LibraryTree) {selected : List (String × Path)}
    (h : selections l.contents library names = .ok selected) : Selected l names selected := by
  obtain ⟨-, h⟩ := guard_eq_ok.mp h
  obtain ⟨entries, hchoose, hresult⟩ := bind_eq_ok.mp h
  cases hresult
  have hentries := mapM_eq_ok.mp hchoose
  generalize hsort : entries.mergeSort (fun a b => a.1 ≤ b.1) = sorted
  have hperm : sorted.Perm entries := hsort ▸ List.mergeSort_perm _ _
  have hordered : (sorted.map Prod.fst).Pairwise (· ≤ ·) := by
    rw [← hsort, List.pairwise_map]
    have hpairwise := @List.pairwise_mergeSort _ (fun a b : String × Path => decide (a.1 ≤ b.1))
      (fun a b c hab hbc => decide_eq_true ((of_decide_eq_true hab).trans (of_decide_eq_true hbc)))
      (fun a b => by simpa using le_total a.1 b.1) entries
    exact hpairwise.imp fun h => of_decide_eq_true h
  have hknown : ∀ e ∈ dedup sorted, ∃ name ∈ names, e = (name, components name) ∧ l.contents (components name) ≠ none := by
    intro e he
    obtain ⟨name, hname, hchosen⟩ := forall₂_mem_right hentries (hperm.mem_iff.mp (mem_dedup he))
    obtain ⟨-, -, heq, hexists⟩ := choose_eq hchosen
    exact ⟨name, hname, heq, hexists⟩
  have hnames := dedup_nodup hordered
  constructor
  · intro e he
    obtain ⟨name, hname, heq, -⟩ := hknown e (List.mem_of_mem_filter he)
    exact ⟨name, hname, heq⟩
  · intro e he
    obtain ⟨name, -, rfl, hexists⟩ := hknown e (List.mem_of_mem_filter he)
    exact hexists
  · rw [List.pairwise_map]
    have hdistinct : (dedup sorted).Pairwise fun a b => a.1 ≠ b.1 := List.pairwise_map.mp hnames
    refine (hdistinct.filter _).imp_of_mem ?_
    have hone : ∀ a ∈ (dedup sorted).filter (fun e => !inside (dedup sorted) l.contents e.2),
        ∀ b ∈ (dedup sorted).filter (fun e => !inside (dedup sorted) l.contents e.2), a.1 ≠ b.1 → ¬a.2 <+: b.2 := by
      intro a ha b hb hne hprefix
      obtain ⟨ha, -⟩ := List.mem_filter.mp ha
      obtain ⟨hb, hfree⟩ := List.mem_filter.mp hb
      obtain ⟨x, -, rfl, -⟩ := hknown a ha
      obtain ⟨y, -, rfl, hexists⟩ := hknown b hb
      have hpaths : components y ≠ components x := fun heq => hne (components_injective heq).symm
      obtain ⟨rest, hrest⟩ := hprefix
      have hfolder : l.contents (components x) = some .folder := by
        apply closed_prefix l (q := rest)
        · rw [hrest]
          exact hexists
        · rintro rfl
          exact hpaths (hrest.symm.trans (List.append_nil _))
      have hin : inside (dedup sorted) l.contents (components y) = true := by
        refine List.any_eq_true.mpr ⟨_, ha, ?_⟩
        simp only [hfolder, Bool.and_eq_true, decide_eq_true_eq, List.isPrefixOf_iff_prefix]
        exact ⟨⟨trivial, hpaths⟩, rest, hrest⟩
      rw [hin] at hfree
      cases hfree
    intro a b ha hb hne
    exact ⟨hone a ha b hb hne, hone b hb a ha hne.symm⟩
  · intro name hname
    obtain ⟨e, he, hchosen⟩ := forall₂_mem_left hentries hname
    obtain ⟨-, -, rfl, -⟩ := choose_eq hchosen
    obtain ⟨a, ha, hfirst⟩ := List.mem_map.mp (name_mem_dedup (hperm.mem_iff.mpr he))
    obtain ⟨other, -, rfl, -⟩ := hknown a ha
    have hsame : other = name := hfirst
    subst hsame
    exact exists_outermost ha

end Spec

end Wordflow.Files
