import Mathlib.Logic.Function.Basic

/-!
# Partial maps with point updates

A partial map is its lookup function. The four operations are those of an
ordered map of which only single keys are ever looked up, stored or removed;
their interaction is the simp set below.
-/

/-- A map from keys to values, seen through its lookup function. -/
def PartialMap (κ α : Type*) := κ → Option α

namespace PartialMap

variable {κ α : Type*} {m : PartialMap κ α}

def empty : PartialMap κ α := fun _ ↦ none

def find (m : PartialMap κ α) (k : κ) : Option α := m k

def contains (m : PartialMap κ α) (k : κ) : Bool := (m.find k).isSome

@[ext] theorem ext {m m' : PartialMap κ α} (h : ∀ k, m.find k = m'.find k) : m = m' :=
  funext h

@[simp] theorem find_empty (k : κ) : (empty : PartialMap κ α).find k = none := rfl

@[simp] theorem contains_empty (k : κ) : (empty : PartialMap κ α).contains k = false := rfl

theorem contains_iff {k : κ} : m.contains k = true ↔ ∃ a, m.find k = some a :=
  Option.isSome_iff_exists

theorem contains_eq_false_iff {k : κ} : m.contains k = false ↔ m.find k = none := by
  simp [contains]

variable [DecidableEq κ]

def insert (m : PartialMap κ α) (k : κ) (a : α) : PartialMap κ α :=
  Function.update m k (some a)

def erase (m : PartialMap κ α) (k : κ) : PartialMap κ α :=
  Function.update m k none

theorem find_insert (k j : κ) (a : α) :
    (m.insert k a).find j = if j = k then some a else m.find j :=
  Function.update_apply m k (some a) j

@[simp] theorem find_insert_self (k : κ) (a : α) : (m.insert k a).find k = some a := by
  simp [find_insert]

theorem find_insert_ne {k j : κ} (h : j ≠ k) (a : α) :
    (m.insert k a).find j = m.find j := by
  simp [find_insert, h]

theorem find_erase (k j : κ) : (m.erase k).find j = if j = k then none else m.find j :=
  Function.update_apply m k none j

@[simp] theorem find_erase_self (k : κ) : (m.erase k).find k = none := by
  simp [find_erase]

theorem contains_insert (k j : κ) (a : α) :
    (m.insert k a).contains j = (decide (j = k) || m.contains j) := by
  by_cases h : j = k <;> simp [contains, find_insert, h]

theorem insert_ne_empty (k : κ) (a : α) : m.insert k a ≠ empty := by
  intro h
  have hfind := find_insert_self (m := m) k a
  rw [h] at hfind
  cases hfind

/-! ## Mapping the values -/

variable {α' : Type*} (g : α → α')

def map (m : PartialMap κ α) : PartialMap κ α' := fun k ↦ (m.find k).map g

omit [DecidableEq κ] in
@[simp] theorem find_map (k : κ) : (m.map g).find k = (m.find k).map g := rfl

omit [DecidableEq κ] in
@[simp] theorem contains_map (k : κ) : (m.map g).contains k = m.contains k := by
  simp [contains]

@[simp] theorem map_insert (k : κ) (a : α) :
    (m.insert k a).map g = (m.map g).insert k (g a) := by
  ext1 j
  rw [find_map, find_insert, find_insert, find_map, apply_ite (Option.map g), Option.map_some]

@[simp] theorem map_erase (k : κ) : (m.erase k).map g = (m.map g).erase k := by
  ext1 j
  rw [find_map, find_erase, find_erase, find_map, apply_ite (Option.map g), Option.map_none]

end PartialMap
