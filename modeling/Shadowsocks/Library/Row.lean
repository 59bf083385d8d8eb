import Mathlib.Data.List.InsertIdx
import Mathlib.Data.List.Nodup
import Mathlib.Logic.Function.Basic

/-!
Items in a row, with one of them in front. Their keys are given out one after the other. A row that
is kept as a list of keys and a store of items goes through the same operations.
-/

universe u

structure Row (α : Type u) where
  items : List (Nat × α)
  /-- The key of the item in front. -/
  front : Option Nat
  next : Nat
  deriving DecidableEq

namespace Row

variable {α : Type u}

def empty : Row α := ⟨[], none, 0⟩

def keys (r : Row α) : List Nat := r.items.map Prod.fst

/-- A new item comes last, and in front. -/
def add (r : Row α) (a : α) : Row α := ⟨r.items ++ [(r.next, a)], some r.next, r.next + 1⟩

def select (r : Row α) (key : Nat) : Row α :=
  if key ∈ r.keys then { r with front := some key } else r

/-- The key behind this one, or the one before it if it is the last. -/
def neighbour (keys : List Nat) (key : Nat) : Option Nat :=
  let index := keys.idxOf key
  if index + 1 < keys.length then keys[index + 1]?
  else if index = 0 then none
  else keys[index - 1]?

/-- A neighbour comes in front when the item that goes was there. -/
def remove (r : Row α) (key : Nat) : Row α :=
  { r with
    items := r.items.filter (·.1 ≠ key)
    front := if r.front = some key then neighbour r.keys key else r.front }

def move (r : Row α) (key position : Nat) : Row α :=
  match r.items.find? (·.1 = key) with
  | none => r
  | some item => { r with items := (r.items.filter (·.1 ≠ key)).insertIdx position item }

def write (r : Row α) (key : Nat) (a : α) : Row α :=
  { r with items := r.items.map fun item => if item.1 = key then (key, a) else item }

/-- The row of the keys, each with its item in the store. -/
def ofStore (keys : List Nat) (store : Nat → α) (front : Option Nat) (next : Nat) : Row α :=
  ⟨keys.map fun key => (key, store key), front, next⟩

variable {l : List Nat} {store store' : Nat → α} {front : Option Nat} {next key : Nat} {a : α}

@[simp] theorem keys_ofStore : (ofStore l store front next).keys = l := by
  rw [keys, ofStore, List.map_map]
  exact List.map_id l

@[simp] theorem front_ofStore : (ofStore l store front next).front = front := rfl

/-- Only the items of the keys matter. -/
theorem map_store_congr (h : ∀ key ∈ l, store' key = store key) :
    l.map (fun key => (key, store' key)) = l.map fun key => (key, store key) := by
  apply List.map_congr_left
  intro key hkey
  rw [h key hkey]

theorem ofStore_congr (h : ∀ key ∈ l, store' key = store key) :
    ofStore l store' front next = ofStore l store front next := by
  rw [ofStore, map_store_congr h, ofStore]

theorem add_ofStore (hnew : store' next = a) (hold : ∀ key ∈ l, store' key = store key) :
    (ofStore l store front next).add a = ofStore (l ++ [next]) store' (some next) (next + 1) := by
  simp only [add, ofStore, List.map_append, List.map_cons, List.map_nil, hnew,
    map_store_congr hold]

theorem select_ofStore (hkey : key ∈ l) :
    (ofStore l store front next).select key = ofStore l store (some key) next := by
  rw [select, keys_ofStore, if_pos hkey]
  rfl

theorem select_of_not_mem (hkey : key ∉ l) :
    (ofStore l store front next).select key = ofStore l store front next := by
  rw [select, keys_ofStore, if_neg hkey]

theorem filter_store (l : List Nat) (store : Nat → α) (key : Nat) :
    (l.map fun k => (k, store k)).filter (·.1 ≠ key) =
      (l.filter (· ≠ key)).map fun k => (k, store k) := by
  rw [List.filter_map]
  rfl

theorem remove_ofStore : (ofStore l store front next).remove key =
    ofStore (l.filter (· ≠ key)) store (if front = some key then neighbour l key else front)
      next := by
  rw [remove, keys_ofStore]
  simp only [ofStore, filter_store]
  rfl

theorem write_ofStore (hkey : store' key = a) (hother : ∀ k ≠ key, store' k = store k) :
    (ofStore l store front next).write key a = ofStore l store' front next := by
  have hitems : (l.map fun k => (k, store k)).map
      (fun item => if item.1 = key then (key, a) else item) = l.map fun k => (k, store' k) := by
    rw [List.map_map]
    apply List.map_congr_left
    intro k _
    by_cases hk : k = key
    · rw [Function.comp_apply, if_pos hk, hk, hkey]
    · rw [Function.comp_apply, if_neg hk, hother k hk]
  rw [write]
  simp only [ofStore, hitems]

theorem write_of_not_mem (hkey : key ∉ l) :
    (ofStore l store front next).write key a = ofStore l store front next := by
  rw [write_ofStore (Function.update_self key a store) fun k hk => Function.update_of_ne hk a store]
  apply ofStore_congr
  intro k hk
  apply Function.update_of_ne
  rintro rfl
  exact hkey hk

theorem find?_store (store : Nat → α) (hkey : key ∈ l) :
    (l.map fun k => (k, store k)).find? (·.1 = key) = some (key, store key) := by
  induction l with
  | nil => cases hkey
  | cons k l ih =>
    rw [List.map_cons]
    by_cases hk : k = key
    · rw [List.find?_cons_of_pos (by simpa using hk), hk]
    · rw [List.find?_cons_of_neg (by simpa using hk)]
      exact ih ((List.mem_cons.mp hkey).resolve_left fun h => hk h.symm)

theorem move_ofStore (hkey : key ∈ l) (position : Nat) :
    (ofStore l store front next).move key position =
      ofStore ((l.filter (· ≠ key)).insertIdx position key) store front next := by
  simp only [move, ofStore, find?_store store hkey, filter_store, List.map_insertIdx]

theorem move_of_not_mem (hkey : key ∉ l) (position : Nat) :
    (ofStore l store front next).move key position = ofStore l store front next := by
  have hfind : (l.map fun k => (k, store k)).find? (·.1 = key) = none := by
    rw [List.find?_eq_none]
    intro item hitem
    obtain ⟨k, hk, rfl⟩ := List.mem_map.mp hitem
    rw [decide_eq_true_eq]
    rintro rfl
    exact hkey hk
  simp only [move, ofStore, hfind]

/-- An item that is put back where it was. -/
theorem insertIdx_idxOf (hnodup : l.Nodup) (hkey : key ∈ l) :
    (l.filter (· ≠ key)).insertIdx (l.idxOf key) key = l := by
  induction l with
  | nil => cases hkey
  | cons k l ih =>
    rw [List.nodup_cons] at hnodup
    by_cases hk : k = key
    · have hfilter : l.filter (· ≠ key) = l := by
        rw [List.filter_eq_self]
        intro other hother
        rw [decide_eq_true_eq]
        rintro rfl
        exact hnodup.1 (hk ▸ hother)
      rw [List.filter_cons_of_neg (by simpa using hk), hfilter, hk, List.idxOf_cons_self,
        List.insertIdx_zero]
    · have hmem := (List.mem_cons.mp hkey).resolve_left fun h => hk h.symm
      rw [List.filter_cons_of_pos (by simpa using hk), List.idxOf_cons_ne _ hk,
        List.insertIdx_succ_cons, ih hnodup.2 hmem]

end Row
