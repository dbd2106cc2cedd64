import Mathlib.Data.List.Basic

namespace Wordflow.Library

/-- A JSON value. Objects keep the order of their fields; numbers are kept as
text. -/
inductive Json
  | null
  | bool (b : Bool)
  | num (text : String)
  | str (s : String)
  | arr (items : List Json)
  | obj (fields : List (String × Json))
  deriving Repr, Inhabited

namespace Json

mutual

def beq : Json → Json → Bool
  | .null, .null => true
  | .bool a, .bool b => a == b
  | .num a, .num b => a == b
  | .str a, .str b => a == b
  | .arr a, .arr b => beqItems a b
  | .obj a, .obj b => beqFields a b
  | _, _ => false

def beqItems : List Json → List Json → Bool
  | [], [] => true
  | a :: as, b :: bs => beq a b && beqItems as bs
  | _, _ => false

def beqFields : List (String × Json) → List (String × Json) → Bool
  | [], [] => true
  | (k, a) :: as, (l, b) :: bs => k == l && beq a b && beqFields as bs
  | _, _ => false

end

mutual

theorem beq_iff : ∀ a b : Json, beq a b = true ↔ a = b
  | .null, b => by cases b <;> simp [beq]
  | .bool a, b => by cases b <;> simp [beq]
  | .num a, b => by cases b <;> simp [beq]
  | .str a, b => by cases b <;> simp [beq]
  | .arr as, b => by cases b <;> simp [beq, beqItems_iff as]
  | .obj as, b => by cases b <;> simp [beq, beqFields_iff as]

theorem beqItems_iff : ∀ as bs : List Json, beqItems as bs = true ↔ as = bs
  | [], bs => by cases bs <;> simp [beqItems]
  | a :: as, bs => by cases bs <;> simp [beqItems, beq_iff a, beqItems_iff as]

theorem beqFields_iff : ∀ as bs : List (String × Json), beqFields as bs = true ↔ as = bs
  | [], bs => by cases bs <;> simp [beqFields]
  | (k, a) :: as, [] => by simp [beqFields]
  | (k, a) :: as, (l, b) :: bs => by simp [beqFields, beq_iff a, beqFields_iff as]

end

instance : DecidableEq Json := fun a b => decidable_of_iff _ (beq_iff a b)

def lookup (fields : List (String × Json)) (key : String) : Option Json :=
  match fields with
  | [] => none
  | (k, v) :: rest => if k = key then some v else lookup rest key

/-- Replace the value of a key, or append the key. -/
def insert (fields : List (String × Json)) (key : String) (value : Json) : List (String × Json) :=
  match fields with
  | [] => [(key, value)]
  | (k, v) :: rest => if k = key then (key, value) :: rest else (k, v) :: insert rest key value

def get? (v : Json) (key : String) : Option Json :=
  match v with
  | .obj fields => lookup fields key
  | _ => none

/-- Reading an absent field gives `null`, as indexing does. -/
def get (v : Json) (key : String) : Json := (v.get? key).getD .null

def item? (v : Json) (i : Nat) : Option Json :=
  match v with
  | .arr items => items[i]?
  | _ => none

def item (v : Json) (i : Nat) : Json := (v.item? i).getD .null

/-- Writing a field of an object. Assigning to a field of anything else does
not occur: `null` becomes an object, other values are left alone. -/
def set (v : Json) (key : String) (value : Json) : Json :=
  match v with
  | .obj fields => .obj (insert fields key value)
  | .null => .obj [(key, value)]
  | v => v

def setItem (v : Json) (i : Nat) (value : Json) : Json :=
  match v with
  | .arr items => .arr (items.set i value)
  | v => v

def asStr? : Json → Option String
  | .str s => some s
  | _ => none

def ofNat (n : Nat) : Json := .num n.repr

def asNat? : Json → Option Nat
  | .num text => if text.toList.all Char.isDigit then some (Nat.ofDigitChars 10 text.toList 0) else none
  | _ => none

def ofOption (value : Option String) : Json := (value.map Json.str).getD .null

/-- Apply a function to the value of a key that is present. -/
def modify (v : Json) (key : String) (f : Json → Json) : Json :=
  match v.get? key with
  | some value => v.set key (f value)
  | none => v

mutual

/-- Apply a function to a string, or to the strings of nested arrays. -/
def mapStrings (f : String → String) : Json → Json
  | .str s => .str (f s)
  | .arr items => .arr (mapStringItems f items)
  | v => v

def mapStringItems (f : String → String) : List Json → List Json
  | [] => []
  | v :: rest => mapStrings f v :: mapStringItems f rest

end

variable {fields : List (String × Json)} {key other : String} {value : Json}

@[simp]
theorem lookup_insert_self : lookup (insert fields key value) key = some value := by
  induction fields with
  | nil => simp [insert, lookup]
  | cons field rest ih =>
      rcases field with ⟨k, v⟩
      by_cases hk : k = key <;> simp [insert, lookup, hk, ih]

theorem lookup_insert_of_ne (h : other ≠ key) :
    lookup (insert fields key value) other = lookup fields other := by
  induction fields with
  | nil => simp [insert, lookup, h.symm]
  | cons field rest ih =>
      rcases field with ⟨k, v⟩
      by_cases hk : k = key
      · subst hk
        simp [insert, lookup, h.symm]
      · by_cases ho : k = other
        · subst ho
          simp [insert, lookup, hk]
        · simp [insert, lookup, hk, ho, ih]

theorem insert_insert {new : Json} :
    insert (insert fields key value) key new = insert fields key new := by
  induction fields with
  | nil => simp [insert]
  | cons field rest ih =>
      rcases field with ⟨k, v⟩
      by_cases hk : k = key <;> simp [insert, hk, ih]

theorem insert_lookup (h : lookup fields key = some value) : insert fields key value = fields := by
  induction fields with
  | nil => cases h
  | cons field rest ih =>
      rcases field with ⟨k, v⟩
      by_cases hk : k = key
      · subst hk
        simp only [lookup, if_pos, Option.some.injEq] at h
        simp [insert, h]
      · simp only [lookup, if_neg hk] at h
        simp [insert, hk, ih h]

/-- Writing a present key keeps the order of the fields. -/
theorem insert_comm {new : Json} (hne : key ≠ other) (h : (lookup fields key).isSome) :
    insert (insert fields key value) other new = insert (insert fields other new) key value := by
  induction fields with
  | nil => cases h
  | cons field rest ih =>
      rcases field with ⟨k, v⟩
      by_cases hk : k = key
      · subst hk
        simp [insert, hne]
      · simp only [lookup, if_neg hk] at h
        by_cases ho : k = other
        · subst ho
          simp [insert, hk]
        · simp [insert, hk, ho, ih h]

section Modify

variable {v : Json} {f g : Json → Json}

theorem get?_set_self (h : (v.get? key).isSome) : (v.set key value).get? key = some value := by
  cases v with
  | obj fields => exact lookup_insert_self
  | _ => cases h

theorem get?_set_of_ne (hne : other ≠ key) (h : (v.get? key).isSome) : (v.set key value).get? other = v.get? other := by
  cases v with
  | obj fields => exact lookup_insert_of_ne hne
  | _ => cases h

theorem set_self (h : v.get? key = some value) : v.set key value = v := by
  cases v with
  | obj fields => exact congrArg obj (insert_lookup h)
  | _ => cases h

theorem modify_of_some (h : v.get? key = some value) : v.modify key f = v.set key (f value) := by
  rw [modify, h]

theorem modify_of_none (h : v.get? key = none) : v.modify key f = v := by
  rw [modify, h]

theorem get?_modify_self : (v.modify key f).get? key = (v.get? key).map f := by
  cases h : v.get? key with
  | none => rw [modify_of_none h, h, Option.map_none]
  | some value => rw [modify_of_some h, get?_set_self (by simp [h]), Option.map_some]

theorem get?_modify_of_ne (hne : other ≠ key) : (v.modify key f).get? other = v.get? other := by
  cases h : v.get? key with
  | none => rw [modify_of_none h]
  | some value => rw [modify_of_some h, get?_set_of_ne hne (by simp [h])]

theorem get_modify_of_ne (hne : other ≠ key) : (v.modify key f).get other = v.get other := by
  rw [get, get, get?_modify_of_ne hne]

theorem set_eq_modify (h : v.get? key = some value) {new : Json} : v.set key new = v.modify key fun _ => new := by
  rw [modify_of_some h]

theorem modify_congr (h : ∀ value, v.get? key = some value → f value = g value) :
    v.modify key f = v.modify key g := by
  cases hv : v.get? key with
  | none => rw [modify_of_none hv, modify_of_none hv]
  | some value => rw [modify_of_some hv, modify_of_some hv, h value hv]

theorem modify_eq_self (h : ∀ value, v.get? key = some value → f value = value) : v.modify key f = v := by
  cases hv : v.get? key with
  | none => exact modify_of_none hv
  | some value => rw [modify_of_some hv, h value hv, set_self hv]

theorem modify_modify : (v.modify key f).modify key g = v.modify key fun value => g (f value) := by
  cases v with
  | obj fields =>
      cases h : lookup fields key with
      | none => simp [modify, get?, h]
      | some value => simp [modify, get?, set, h, insert_insert]
  | _ => rfl

theorem modify_comm (hne : key ≠ other) : (v.modify key f).modify other g = (v.modify other g).modify key f := by
  cases v with
  | obj fields =>
      cases h : lookup fields key with
      | none =>
          have hkey : (obj fields).get? key = none := h
          rw [modify_of_none hkey]
          exact (modify_of_none (by rw [get?_modify_of_ne hne, hkey])).symm
      | some value =>
          cases ho : lookup fields other with
          | none =>
              have hother : (obj fields).get? other = none := ho
              rw [modify_of_none hother]
              exact modify_of_none (by rw [get?_modify_of_ne hne.symm, hother])
          | some w =>
              simp only [modify, get?, set, h, ho, lookup_insert_of_ne hne, lookup_insert_of_ne hne.symm]
              exact congrArg obj (insert_comm hne (by simp [h]))
  | _ => rfl

theorem get?_set_obj : ((obj fields).set key value).get? key = some value := lookup_insert_self

theorem get?_set_obj_of_ne (hne : other ≠ key) :
    ((obj fields).set key value).get? other = (obj fields).get? other := lookup_insert_of_ne hne

theorem set_set_obj {new : Json} : ((obj fields).set key value).set key new = (obj fields).set key new :=
  congrArg obj insert_insert

theorem modify_set_comm (hne : key ≠ other) :
    (v.modify key f).set other value = (v.set other value).modify key f := by
  cases v with
  | obj fields =>
      cases h : lookup fields key with
      | none =>
          have hkey : (obj fields).get? key = none := h
          rw [modify_of_none hkey, modify_of_none (by rw [get?_set_obj_of_ne hne, hkey])]
      | some old =>
          simp only [modify, get?, set, h, lookup_insert_of_ne hne]
          exact congrArg obj (insert_comm hne (by simp [h]))
  | null => simp [modify, get?, set, lookup, hne.symm]
  | _ => rfl

/-- Apply a function to the values of the keys that are present. -/
def modifyAll (keys : List String) (f : Json → Json) (v : Json) : Json :=
  keys.foldl (fun v key => v.modify key f) v

variable {keys : List String}

theorem modifyAll_cons : modifyAll (key :: keys) f v = modifyAll keys f (v.modify key f) := rfl

theorem get?_modifyAll (h : other ∉ keys) : (modifyAll keys f v).get? other = v.get? other := by
  induction keys generalizing v with
  | nil => rfl
  | cons key keys ih =>
      simp only [List.mem_cons, not_or] at h
      obtain ⟨hne, hmem⟩ := h
      rw [modifyAll_cons, ih hmem, get?_modify_of_ne hne]

theorem modifyAll_modify (h : key ∉ keys) :
    (modifyAll keys f v).modify key g = modifyAll keys f (v.modify key g) := by
  induction keys generalizing v with
  | nil => rfl
  | cons k keys ih =>
      simp only [List.mem_cons, not_or] at h
      obtain ⟨hne, hmem⟩ := h
      rw [modifyAll_cons, modifyAll_cons, ih hmem, modify_comm (Ne.symm hne)]

theorem modifyAll_congr (hkeys : keys.Nodup)
    (h : ∀ key ∈ keys, ∀ value, v.get? key = some value → f value = g value) :
    modifyAll keys f v = modifyAll keys g v := by
  induction keys generalizing v with
  | nil => rfl
  | cons key keys ih =>
      obtain ⟨hmem, hkeys⟩ := List.nodup_cons.mp hkeys
      rw [modifyAll_cons, modifyAll_cons, modify_congr (h key List.mem_cons_self)]
      refine ih hkeys fun k hk value hvalue => ?_
      have hne : k ≠ key := fun he => hmem (he ▸ hk)
      rw [get?_modify_of_ne hne] at hvalue
      exact h k (List.mem_cons_of_mem key hk) value hvalue

theorem modifyAll_modifyAll (hkeys : keys.Nodup) :
    modifyAll keys g (modifyAll keys f v) = modifyAll keys (fun value => g (f value)) v := by
  induction keys generalizing v with
  | nil => rfl
  | cons key keys ih =>
      obtain ⟨hmem, hkeys⟩ := List.nodup_cons.mp hkeys
      rw [modifyAll_cons, modifyAll_cons, modifyAll_cons, modifyAll_modify hmem, ih hkeys, modify_modify]

/-- Values read off the object that is rewritten, as a spread over it does. -/
theorem foldl_set (hkeys : keys.Nodup) (w : Json) (h : ∀ key ∈ keys, w.get? key = v.get? key) :
    keys.foldl (fun w key => match v.get? key with | some value => w.set key (f value) | none => w) w =
      modifyAll keys f w := by
  induction keys generalizing w with
  | nil => rfl
  | cons key keys ih =>
      obtain ⟨hmem, hkeys⟩ := List.nodup_cons.mp hkeys
      have hkey : w.get? key = v.get? key := h key List.mem_cons_self
      have hstep : (match v.get? key with | some value => w.set key (f value) | none => w) = w.modify key f := by
        rw [modify, hkey]
      rw [List.foldl_cons, hstep, modifyAll_cons]
      refine ih hkeys _ fun k hk => ?_
      have hne : k ≠ key := fun he => hmem (he ▸ hk)
      rw [get?_modify_of_ne hne]
      exact h k (List.mem_cons_of_mem key hk)

end Modify

@[simp]
theorem get_obj : (Json.obj fields).get key = (lookup fields key).getD .null := rfl

theorem exists_obj_of_get {v : Json} (h : v.get key ≠ .null) : ∃ fields, v = .obj fields := by
  cases v with
  | obj fields => exact ⟨fields, rfl⟩
  | _ => exact absurd rfl h

theorem get_set_self {v : Json} (h : ∃ fields, v = .obj fields) : (v.set key value).get key = value := by
  obtain ⟨fields, rfl⟩ := h
  simp [set, get, get?]

theorem get_set_of_ne {v : Json} (h : ∃ fields, v = .obj fields) (hne : other ≠ key) :
    (v.set key value).get other = v.get other := by
  obtain ⟨fields, rfl⟩ := h
  simp [set, get, get?, lookup_insert_of_ne hne]

@[simp]
theorem asNat?_ofNat (n : Nat) : (ofNat n).asNat? = some n := by
  simp only [ofNat, asNat?, Nat.toList_repr, Nat.ofDigitChars_ten_toDigits]
  refine if_pos (List.all_eq_true.mpr fun c hc => ?_)
  exact Nat.isDigit_of_mem_toDigits (by decide) (by decide) hc

theorem mapStringItems_strings (f : String → String) (names : List String) :
    mapStringItems f (names.map .str) = (names.map f).map .str := by
  induction names with
  | nil => rfl
  | cons name names ih => simp [mapStringItems, mapStrings, ih]

@[simp]
theorem mapStrings_ofOption (f : String → String) (value : Option String) :
    mapStrings f (ofOption value) = ofOption (value.map f) := by
  cases value <;> rfl

end Json

end Wordflow.Library
