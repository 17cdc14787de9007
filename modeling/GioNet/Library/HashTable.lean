import Mathlib.Data.List.Find
import Mathlib.Data.List.Induction
import Mathlib.Data.List.Pairwise
import Mathlib.Tactic.Common

/-!
# Hash tables with arbitrary bucket layouts

A table is the list of its entries. A layout sends hash values to buckets, and
may be a different one at every operation. A lookup compares the key with the
entries of one bucket only, so it sees every entry that is equal to the key if
equal keys have equal hashes, and depends on the layout if not.
-/

/-- The equality and the hash that a table is built on. -/
structure HashTable (κ η : Type*) where
  eq : κ → κ → Bool
  hash : κ → η

namespace HashTable

variable {κ η ι : Type*} [DecidableEq ι] (t : HashTable κ η)

/-- The entry of the key's bucket that is equal to the key. -/
def find (layout : η → ι) (entries : List κ) (k : κ) : Option κ :=
  entries.find? fun e ↦ decide (layout (t.hash e) = layout (t.hash k)) && t.eq e k

def contains (layout : η → ι) (entries : List κ) (k : κ) : Bool :=
  (t.find layout entries k).isSome

/-- A new key is put into the table unless the lookup finds one that is equal. -/
def add (layout : η → ι) (entries : List κ) (k : κ) : List κ :=
  if t.contains layout entries k then entries else entries ++ [k]

/-- Keys are added one after the other, each under its own layout. -/
def addAll (steps : List (κ × (η → ι))) : List κ :=
  steps.foldl (fun entries step ↦ t.add step.2 entries step.1) []

/-- Equal keys of the list have equal hashes. -/
def Lawful (ks : List κ) : Prop :=
  ∀ a ∈ ks, ∀ b ∈ ks, t.eq a b = true → t.hash a = t.hash b

/-- No two entries are equal. -/
def Unique (entries : List κ) : Prop := entries.Pairwise fun a b ↦ t.eq a b = false

/-- A lookup finds an entry that is equal to the key, if there is one. -/
def Sees (layout : η → ι) (entries : List κ) (k : κ) : Prop :=
  (∃ e ∈ entries, t.eq e k = true) → ∃ e, t.find layout entries k = some e ∧ t.eq e k = true

variable {t} {layout : η → ι} {entries ks : List κ} {k : κ}

theorem addAll_snoc (steps : List (κ × (η → ι))) (step : κ × (η → ι)) :
    t.addAll (steps ++ [step]) = t.add step.2 (t.addAll steps) step.1 := by
  simp [addAll]

theorem find_eq_some {e : κ} (h : t.find layout entries k = some e) :
    e ∈ entries ∧ layout (t.hash e) = layout (t.hash k) ∧ t.eq e k = true := by
  have htest := List.find?_some h
  simp only [Bool.and_eq_true, decide_eq_true_eq] at htest
  exact ⟨List.mem_of_find?_eq_some h, htest⟩

theorem contains_iff :
    t.contains layout entries k = true ↔
      ∃ e ∈ entries, layout (t.hash e) = layout (t.hash k) ∧ t.eq e k = true := by
  simp [contains, find]

theorem subset_add : entries ⊆ t.add layout entries k := by
  unfold add
  split
  · exact List.Subset.refl entries
  · exact List.subset_append_left entries [k]

/-- An added key is in the table, or an equal one of the same bucket is. -/
theorem exists_mem_add (hrefl : t.eq k k = true) :
    ∃ e ∈ t.add layout entries k, layout (t.hash e) = layout (t.hash k) ∧ t.eq e k = true := by
  unfold add
  by_cases h : t.contains layout entries k
  · rw [if_pos h]
    exact contains_iff.mp h
  · rw [if_neg h]
    exact ⟨k, by simp, rfl, hrefl⟩

theorem mem_addAll {steps : List (κ × (η → ι))} {e : κ} (h : e ∈ t.addAll steps) :
    e ∈ steps.map Prod.fst := by
  induction steps using List.reverseRecOn with
  | nil => simp [addAll] at h
  | append_singleton steps step ih =>
      rw [addAll_snoc, add] at h
      rw [List.map_append, List.mem_append]
      split at h
      · exact Or.inl (ih h)
      · rcases List.mem_append.mp h with h | h
        · exact Or.inl (ih h)
        · exact Or.inr (by simpa using h)

/-! ## Lawful keys -/

/-- On lawful keys a lookup does not depend on the layout. -/
theorem Lawful.find_eq (h : t.Lawful ks) (hentries : entries ⊆ ks) (hk : k ∈ ks)
    (layout : η → ι) : t.find layout entries k = entries.find? fun e ↦ t.eq e k := by
  apply List.find?_congr
  intro e he
  cases heq : t.eq e k with
  | false => simp
  | true => simp [h e (hentries he) k hk heq]

theorem Lawful.sees (h : t.Lawful ks) (hentries : entries ⊆ ks) (hk : k ∈ ks)
    (layout : η → ι) : t.Sees layout entries k := by
  rintro ⟨e, he, heq⟩
  rw [h.find_eq hentries hk]
  have hsome : (entries.find? fun e ↦ t.eq e k).isSome = true :=
    List.find?_isSome.mpr ⟨e, he, heq⟩
  obtain ⟨found, hfound⟩ := Option.isSome_iff_exists.mp hsome
  have heq' := List.find?_some hfound
  exact ⟨found, hfound, heq'⟩

theorem Lawful.unique_add (h : t.Lawful ks) (hentries : entries ⊆ ks) (hk : k ∈ ks)
    (hunique : t.Unique entries) (layout : η → ι) : t.Unique (t.add layout entries k) := by
  unfold add
  split
  · exact hunique
  · rename_i hnew
    apply List.pairwise_append.mpr
    refine ⟨hunique, List.pairwise_singleton _ _, ?_⟩
    intro e he k' hk'
    obtain rfl := List.mem_singleton.mp hk'
    by_contra heq
    have heq' : t.eq e k' = true := by simpa using heq
    refine hnew (contains_iff.mpr ⟨e, he, ?_, heq'⟩)
    rw [h e (hentries he) k' hk heq']

theorem Lawful.unique_addAll {steps : List (κ × (η → ι))} (h : t.Lawful ks)
    (hsteps : steps.map Prod.fst ⊆ ks) : t.Unique (t.addAll steps) := by
  induction steps using List.reverseRecOn with
  | nil => exact List.Pairwise.nil
  | append_singleton steps step ih =>
      rw [List.map_append, List.append_subset] at hsteps
      rw [addAll_snoc]
      apply h.unique_add (fun e he ↦ hsteps.1 (mem_addAll he)) (hsteps.2 (by simp))
      exact ih hsteps.1

/-! ## Unlawful keys -/

/-- Every added key has an equal entry with the same hash, if the layout tells
all hashes apart. -/
theorem exists_mem_addAll {spread : η → ι} (hspread : Function.Injective spread)
    (hrefl : ∀ a, t.eq a a = true) (hk : k ∈ ks) :
    ∃ e ∈ t.addAll (ks.map fun a ↦ (a, spread)), t.hash e = t.hash k ∧ t.eq e k = true := by
  induction ks using List.reverseRecOn with
  | nil => simp at hk
  | append_singleton ks a ih =>
      rw [List.map_append, List.map_singleton, addAll_snoc]
      rcases List.mem_append.mp hk with hk | hk
      · obtain ⟨e, he, hhash, heq⟩ := ih hk
        exact ⟨e, subset_add he, hhash, heq⟩
      · obtain rfl := List.mem_singleton.mp hk
        obtain ⟨e, he, hlayout, heq⟩ : ∃ e ∈ t.add spread
            (t.addAll (ks.map fun a ↦ (a, spread))) k,
              spread (t.hash e) = spread (t.hash k) ∧ t.eq e k = true := exists_mem_add (hrefl k)
        exact ⟨e, he, hspread hlayout, heq⟩

/-- Two equal entries have the same hash if no two entries are equal. -/
theorem Unique.hash_eq (h : t.Unique entries) (hsymm : ∀ a b, t.eq a b = true → t.eq b a = true)
    {a b : κ} (ha : a ∈ entries) (hb : b ∈ entries) (heq : t.eq a b = true) :
    t.hash a = t.hash b := by
  by_contra hne
  have hdifferent : a ≠ b := fun hab ↦ hne (congrArg t.hash hab)
  have hsymmetric : Std.Symm fun a b ↦ t.eq a b = false := by
    refine ⟨fun a b hab ↦ ?_⟩
    by_contra hba
    have hab' := hsymm b a (by simpa using hba)
    cases hab.symm.trans hab'
  have hfalse : t.eq a b = false := List.Pairwise.forall h ha hb hdifferent
  cases hfalse.symm.trans heq

/-- The table works under all layouts exactly if equal keys, those added and the
one looked up, have equal hashes. -/
theorem works_iff_lawful {spread : η → ι} (hspread : Function.Injective spread)
    (heq : Equivalence fun a b ↦ t.eq a b = true) (ks : List κ) (k : κ) :
    (∀ (steps : List (κ × (η → ι))) (layout : η → ι), steps.map Prod.fst = ks →
        t.Unique (t.addAll steps) ∧ t.Sees layout (t.addAll steps) k) ↔
      t.Lawful (ks ++ [k]) := by
  have hsymm : ∀ a b, t.eq a b = true → t.eq b a = true := fun _ _ ↦ heq.symm
  constructor
  · intro hworks
    have hkeys : (ks.map fun a ↦ (a, spread)).map Prod.fst = ks := by
      simp [List.map_map, Function.comp_def]
    obtain ⟨hunique, hsees⟩ := hworks (ks.map fun a ↦ (a, spread)) spread hkeys
    -- with all hashes apart, equal entries for an added key and for the key looked up
    have hadded : ∀ a ∈ ks, ∀ e ∈ t.addAll (ks.map fun a ↦ (a, spread)), t.eq e a = true →
        t.hash e = t.hash a := by
      intro a ha e he hea
      obtain ⟨e', he', hhash, hea'⟩ := exists_mem_addAll hspread heq.refl ha
      rw [← hhash]
      exact hunique.hash_eq hsymm he he' (heq.trans hea (heq.symm hea'))
    have hlooked : ∀ e ∈ t.addAll (ks.map fun a ↦ (a, spread)), t.eq e k = true →
        t.hash e = t.hash k := by
      intro e he hek
      obtain ⟨e', hfind, hek'⟩ := hsees ⟨e, he, hek⟩
      obtain ⟨he', hlayout, -⟩ := find_eq_some hfind
      rw [← hspread hlayout]
      exact hunique.hash_eq hsymm he he' (heq.trans hek (heq.symm hek'))
    have hall : ∀ a ∈ ks, ∀ b ∈ ks ++ [k], t.eq a b = true → t.hash a = t.hash b := by
      intro a ha b hb hab
      obtain ⟨e, he, hhash, hea⟩ := exists_mem_addAll hspread heq.refl ha
      rw [← hhash]
      rcases List.mem_append.mp hb with hb | hb
      · exact hadded b hb e he (heq.trans hea hab)
      · obtain rfl := List.mem_singleton.mp hb
        exact hlooked e he (heq.trans hea hab)
    intro a ha b hb hab
    rcases List.mem_append.mp ha with ha | ha
    · exact hall a ha b hb hab
    · obtain rfl := List.mem_singleton.mp ha
      rcases List.mem_append.mp hb with hb | hb
      · exact (hall b hb a (by simp) (heq.symm hab)).symm
      · rw [List.mem_singleton.mp hb]
  · rintro hlawful steps layout rfl
    have hsubset : steps.map Prod.fst ⊆ steps.map Prod.fst ++ [k] :=
      List.subset_append_left _ _
    refine ⟨hlawful.unique_addAll hsubset, ?_⟩
    exact hlawful.sees (fun e he ↦ hsubset (mem_addAll he)) (by simp) layout

end HashTable
