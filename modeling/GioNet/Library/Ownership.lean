import Mathlib.Data.Finset.Basic
import Mathlib.Data.Finset.Lattice.Lemmas
import Mathlib.Data.List.Perm.Basic
import Mathlib.Tactic.Common

/-!
# Owners of resources

A resource is acquired, used, and released. Each resource in use has one owner,
and an owner acts on no resource of another: what is legal for the resources of
one owner is legal whatever the others hold, and leaves theirs alone.
-/

namespace Ownership

inductive Use (ρ : Type*) where
  | acquire (r : ρ)
  | access (r : ρ)
  | release (r : ρ)
  deriving DecidableEq

variable {ρ α : Type*}

namespace Use

def acquired : Use ρ → Option ρ
  | acquire r => some r
  | _ => none

def released : Use ρ → Option ρ
  | release r => some r
  | _ => none

end Use

section Counts

variable {uses uses' : List (Use ρ)}

def acquisitions (uses : List (Use ρ)) : List ρ := uses.filterMap Use.acquired

def releases (uses : List (Use ρ)) : List ρ := uses.filterMap Use.released

@[simp] theorem acquisitions_nil : acquisitions ([] : List (Use ρ)) = [] := rfl

@[simp] theorem acquisitions_acquire (r : ρ) :
    acquisitions (.acquire r :: uses) = r :: acquisitions uses := rfl

@[simp] theorem acquisitions_access (r : ρ) :
    acquisitions (.access r :: uses) = acquisitions uses := rfl

@[simp] theorem acquisitions_release (r : ρ) :
    acquisitions (.release r :: uses) = acquisitions uses := rfl

@[simp] theorem releases_nil : releases ([] : List (Use ρ)) = [] := rfl

@[simp] theorem releases_acquire (r : ρ) : releases (.acquire r :: uses) = releases uses := rfl

@[simp] theorem releases_access (r : ρ) : releases (.access r :: uses) = releases uses := rfl

@[simp] theorem releases_release (r : ρ) :
    releases (.release r :: uses) = r :: releases uses := rfl

@[simp] theorem acquisitions_append :
    acquisitions (uses ++ uses') = acquisitions uses ++ acquisitions uses' := List.filterMap_append

@[simp] theorem acquisitions_map_access (rs : List ρ) : acquisitions (rs.map .access) = [] := by
  induction rs with
  | nil => rfl
  | cons r rs ih => exact ih

@[simp] theorem acquisitions_map_release (rs : List ρ) : acquisitions (rs.map .release) = [] := by
  induction rs with
  | nil => rfl
  | cons r rs ih => exact ih

@[simp] theorem releases_append :
    releases (uses ++ uses') = releases uses ++ releases uses' := List.filterMap_append

end Counts

section Owners

variable {holds : α → List ρ} {owners more : List α} {a a' : α} {i : ℕ}

theorem pick (hget : owners[i]? = some a) : owners.Perm (a :: owners.eraseIdx i) := by
  obtain ⟨hlt, rfl⟩ := List.getElem?_eq_some_iff.mp hget
  exact (List.getElem_cons_eraseIdx_perm hlt).symm

theorem pick_set (hget : owners[i]? = some a) (a' : α) (more : List α) :
    (owners.set i a' ++ more).Perm ((a' :: more) ++ owners.eraseIdx i) := by
  have hset := List.set_perm_cons_eraseIdx (List.getElem?_eq_some_iff.mp hget).1 a'
  exact (hset.append_right more).trans (List.perm_append_comm.cons a')

theorem flatMap_set (hget : owners[i]? = some a) (hsame : holds a' = holds a) :
    (owners.set i a').flatMap holds = owners.flatMap holds := by
  have hmap : (owners.map holds)[i]? = some (holds a) := by
    rw [List.getElem?_map, hget]
    rfl
  obtain ⟨hlt, heq⟩ := List.getElem?_eq_some_iff.mp hmap
  rw [List.flatMap_def, List.flatMap_def, List.map_set, hsame, ← heq, List.set_getElem_self]

end Owners

variable [DecidableEq ρ] {s t u others live : Finset ρ} {r : ρ} {uses uses' : List (Use ρ)}

namespace Use

/-- The resources in use afterwards. -/
def after (live : Finset ρ) : Use ρ → Finset ρ
  | acquire r => insert r live
  | access _ => live
  | release r => live.erase r

def Legal (live : Finset ρ) : Use ρ → Prop
  | acquire r => r ∉ live
  | access r => r ∈ live
  | release r => r ∈ live

end Use

def liveAfter (live : Finset ρ) (uses : List (Use ρ)) : Finset ρ := uses.foldl Use.after live

def Legal : Finset ρ → List (Use ρ) → Prop
  | _, [] => True
  | live, use :: uses => use.Legal live ∧ Legal (use.after live) uses

@[simp] theorem liveAfter_nil : liveAfter live [] = live := rfl

@[simp] theorem liveAfter_cons (use : Use ρ) :
    liveAfter live (use :: uses) = liveAfter (use.after live) uses := rfl

theorem liveAfter_append :
    liveAfter live (uses ++ uses') = liveAfter (liveAfter live uses) uses' :=
  List.foldl_append

theorem legal_append :
    Legal live (uses ++ uses') ↔ Legal live uses ∧ Legal (liveAfter live uses) uses' := by
  induction uses generalizing live with
  | nil => simp [Legal]
  | cons use uses ih => simp [Legal, ih, and_assoc]

/-! ## The uses of one owner -/

/-- From the resources `s` on, the uses are legal and leave `t`. -/
structure Takes (s : Finset ρ) (uses : List (Use ρ)) (t : Finset ρ) : Prop where
  legal : Legal s uses
  live_eq : liveAfter s uses = t

namespace Takes

theorem nil (s : Finset ρ) : Takes s [] s := ⟨trivial, rfl⟩

theorem cons {use : Use ρ} (huse : use.Legal s) (h : Takes (use.after s) uses t) :
    Takes s (use :: uses) t := ⟨⟨huse, h.legal⟩, h.live_eq⟩

theorem append (h : Takes s uses t) (h' : Takes t uses' u) : Takes s (uses ++ uses') u := by
  obtain ⟨hlegal, rfl⟩ := h
  exact ⟨legal_append.mpr ⟨hlegal, h'.legal⟩, liveAfter_append.trans h'.live_eq⟩

theorem acquire (h : r ∉ s) : Takes s [.acquire r] (insert r s) := cons h (nil _)

theorem access {rs : List ρ} (h : ∀ r ∈ rs, r ∈ s) : Takes s (rs.map .access) s := by
  induction rs with
  | nil => exact nil s
  | cons r rs ih =>
      exact cons (h r List.mem_cons_self) (ih fun r hr ↦ h r (List.mem_cons_of_mem _ hr))

theorem release {rs : List ρ} (h : rs.Nodup) : Takes rs.toFinset (rs.map .release) ∅ := by
  induction rs with
  | nil => exact nil ∅
  | cons r rs ih =>
      obtain ⟨hr, hnodup⟩ := List.nodup_cons.mp h
      have hafter : Use.after (r :: rs).toFinset (.release r) = rs.toFinset := by
        rw [Use.after, List.toFinset_cons, Finset.erase_insert (by simpa using hr)]
      refine cons (by simp [Use.Legal]) ?_
      rw [hafter]
      exact ih hnodup

/-- Resources that are neither used nor acquired may be there as well. -/
theorem frame (h : Takes s uses t) (hdisjoint : Disjoint s others)
    (hfresh : ∀ r ∈ acquisitions uses, r ∉ others) :
    Takes (s ∪ others) uses (t ∪ others) ∧ Disjoint t others := by
  induction uses generalizing s with
  | nil =>
      obtain rfl : s = t := h.live_eq
      exact ⟨nil _, hdisjoint⟩
  | cons use uses ih =>
      obtain ⟨⟨huse, hlegal⟩, hlive⟩ := h
      have hrest : ∀ r ∈ acquisitions uses, r ∉ others := by
        intro r hr
        refine hfresh r (List.mem_filterMap.mpr ?_)
        obtain ⟨use', hmem, hacquired⟩ := List.mem_filterMap.mp hr
        exact ⟨use', List.mem_cons_of_mem _ hmem, hacquired⟩
      suffices hstep : use.Legal (s ∪ others) ∧ use.after (s ∪ others) = use.after s ∪ others ∧
          Disjoint (use.after s) others by
        obtain ⟨huse', hafter, hdisjoint'⟩ := hstep
        obtain ⟨htakes, hdisjoint''⟩ := ih ⟨hlegal, hlive⟩ hdisjoint' hrest
        exact ⟨cons huse' (hafter ▸ htakes), hdisjoint''⟩
      cases use with
      | acquire r =>
          have hr : r ∉ others := hfresh r (by simp [acquisitions, Use.acquired])
          refine ⟨?_, ?_, ?_⟩
          · simpa [Use.Legal, hr] using huse
          · exact (Finset.insert_union r s others).symm
          · exact Finset.disjoint_insert_left.mpr ⟨hr, hdisjoint⟩
      | access r => exact ⟨Finset.mem_union_left _ huse, rfl, hdisjoint⟩
      | release r =>
          have hr : r ∉ others := Finset.disjoint_left.mp hdisjoint huse
          refine ⟨Finset.mem_union_left _ huse, ?_, ?_⟩
          · exact (Finset.erase_union_distrib s others r).trans
              (by rw [Finset.erase_eq_of_notMem hr]; rfl)
          · exact hdisjoint.mono_left (Finset.erase_subset r s)

/-- A resource is held afterwards as often as it was before, once more for each
acquisition and once less for each release. -/
theorem balance (h : Takes s uses t) (r : ρ) :
    (if r ∈ s then 1 else 0) + (acquisitions uses).count r =
      (releases uses).count r + if r ∈ t then 1 else 0 := by
  induction uses generalizing s with
  | nil =>
      obtain rfl : s = t := h.live_eq
      simp
  | cons use uses ih =>
      obtain ⟨⟨huse, hlegal⟩, hlive⟩ := h
      have hrest := ih ⟨hlegal, hlive⟩
      cases use with
      | acquire r' =>
          have huse' : r' ∉ s := huse
          simp only [Use.after, Finset.mem_insert, acquisitions_acquire, releases_acquire,
            List.count_cons, beq_iff_eq] at hrest ⊢
          by_cases heq : r = r'
          · subst heq
            simp only [huse', true_or, if_true, if_false] at hrest ⊢
            omega
          · simp only [heq, Ne.symm heq, false_or, if_false] at hrest ⊢
            omega
      | access r' => exact hrest
      | release r' =>
          have huse' : r' ∈ s := huse
          simp only [Use.after, Finset.mem_erase, acquisitions_release, releases_release,
            List.count_cons, beq_iff_eq] at hrest ⊢
          by_cases heq : r = r'
          · subst heq
            simp only [huse', ne_eq, not_true, false_and, if_true, if_false] at hrest ⊢
            omega
          · simp only [heq, Ne.symm heq, ne_eq, not_false_eq_true, true_and, if_false] at hrest ⊢
            omega

/-- The same, with lists of what is held. -/
theorem among {held held' others : List ρ} (h : Takes held.toFinset uses held'.toFinset)
    (hdistinct : (held ++ others).Nodup) (hnodup : held'.Nodup)
    (hfresh : ∀ r ∈ acquisitions uses, r ∉ (held ++ others).toFinset) :
    Legal (held ++ others).toFinset uses ∧
      liveAfter (held ++ others).toFinset uses = (held' ++ others).toFinset ∧
        (held' ++ others).Nodup := by
  obtain ⟨-, hothers, hacross⟩ := List.nodup_append'.mp hdistinct
  rw [List.toFinset_append] at hfresh ⊢
  obtain ⟨⟨hlegal, hlive⟩, hdisjoint⟩ := h.frame (List.disjoint_toFinset_iff_disjoint.mpr hacross)
    fun r hr hmem ↦ hfresh r hr (Finset.mem_union_right _ hmem)
  refine ⟨hlegal, ?_, ?_⟩
  · rw [hlive, List.toFinset_append]
  · exact List.nodup_append'.mpr
      ⟨hnodup, hothers, List.disjoint_toFinset_iff_disjoint.mp hdisjoint⟩

end Takes

/-! ## Several owners -/

section Owners

variable {holds : α → List ρ} {owners owners' more : List α} {a a' : α} {i : ℕ}

/-- What is in use is held by one owner, once. -/
structure Owned (holds : α → List ρ) (owners : List α) (live : Finset ρ) : Prop where
  nodup : (owners.flatMap holds).Nodup
  live_eq : live = (owners.flatMap holds).toFinset

theorem count_pick (hget : owners[i]? = some a) (r : ρ) :
    (owners.flatMap holds).count r =
      (holds a).count r + ((owners.eraseIdx i).flatMap holds).count r := by
  rw [((pick hget).flatMap_right holds).count_eq, List.flatMap_cons, List.count_append]

theorem count_set (holds : α → List ρ) (hget : owners[i]? = some a) (a' : α) (more : List α)
    (r : ρ) :
    ((owners.set i a' ++ more).flatMap holds).count r =
      ((a' :: more).flatMap holds).count r + ((owners.eraseIdx i).flatMap holds).count r := by
  rw [((pick_set hget a' more).flatMap_right holds).count_eq, List.flatMap_append,
    List.count_append]

theorem count_snoc (a : α) (r : ρ) :
    ((owners ++ [a]).flatMap holds).count r =
      (owners.flatMap holds).count r + (holds a).count r := by
  rw [List.flatMap_append, List.flatMap_singleton, List.count_append]

namespace Owned

theorem nil : Owned holds [] (∅ : Finset ρ) := ⟨List.nodup_nil, rfl⟩

theorem mem_iff (h : Owned holds owners live) : r ∈ live ↔ ∃ a ∈ owners, r ∈ holds a := by
  rw [h.live_eq, List.mem_toFinset, List.mem_flatMap]

theorem perm (h : Owned holds owners live) (hperm : owners.Perm owners') :
    Owned holds owners' live := by
  have hflat := hperm.flatMap_right holds
  exact ⟨hflat.nodup_iff.mp h.nodup, h.live_eq.trans (List.toFinset_eq_of_perm _ _ hflat)⟩

/-- An owner acts, and some of what it acquires goes to new owners. -/
theorem act (h : Owned holds owners live) (hget : owners[i]? = some a)
    (hacts : Takes (holds a).toFinset uses ((a' :: more).flatMap holds).toFinset)
    (hnodup : ((a' :: more).flatMap holds).Nodup) (hfresh : ∀ r ∈ acquisitions uses, r ∉ live) :
    Legal live uses ∧ Owned holds (owners.set i a' ++ more) (liveAfter live uses) := by
  obtain ⟨hdistinct, rfl⟩ := h.perm (pick hget)
  rw [List.flatMap_cons] at hdistinct hfresh ⊢
  obtain ⟨hlegal, hlive, hdistinct'⟩ := hacts.among hdistinct hnodup hfresh
  rw [← List.flatMap_append] at hlive hdistinct'
  have howned : Owned holds ((a' :: more) ++ owners.eraseIdx i) _ := ⟨hdistinct', hlive⟩
  exact ⟨hlegal, howned.perm (pick_set hget a' more).symm⟩

/-- A new owner comes with what it has acquired. -/
theorem add (h : Owned holds owners live) (hacts : Takes ∅ uses (holds a).toFinset)
    (hnodup : (holds a).Nodup) (hfresh : ∀ r ∈ acquisitions uses, r ∉ live) :
    Legal live uses ∧ Owned holds (owners ++ [a]) (liveAfter live uses) := by
  obtain ⟨hdistinct, rfl⟩ := h
  have hnothing : Takes ([] : List ρ).toFinset uses (holds a).toFinset := hacts
  obtain ⟨hlegal, hlive, hdistinct'⟩ := hnothing.among hdistinct hnodup hfresh
  have howned : Owned holds (a :: owners) _ := ⟨hdistinct', hlive⟩
  exact ⟨hlegal, howned.perm (List.perm_append_singleton a owners).symm⟩

/-- An owner goes when it has released everything. -/
theorem drop (h : Owned holds owners live) (hget : owners[i]? = some a)
    (hacts : Takes (holds a).toFinset uses ∅) (hfresh : ∀ r ∈ acquisitions uses, r ∉ live) :
    Legal live uses ∧ Owned holds (owners.eraseIdx i) (liveAfter live uses) := by
  obtain ⟨hdistinct, rfl⟩ := h.perm (pick hget)
  rw [List.flatMap_cons] at hdistinct hfresh ⊢
  have hnothing : Takes (holds a).toFinset uses ([] : List ρ).toFinset := hacts
  obtain ⟨hlegal, hlive, hdistinct'⟩ := hnothing.among hdistinct List.nodup_nil hfresh
  exact ⟨hlegal, hdistinct', hlive⟩

theorem count_eq (h : Owned holds owners live) (r : ρ) :
    (owners.flatMap holds).count r = if r ∈ live then 1 else 0 := by
  obtain ⟨hnodup, rfl⟩ := h
  rw [hnodup.count]
  simp only [List.mem_toFinset]

/-- An owner is replaced by one that holds the same. -/
theorem set_iff (hget : owners[i]? = some a) (hsame : holds a' = holds a) :
    Owned holds (owners.set i a') live ↔ Owned holds owners live := by
  have hflat := flatMap_set hget hsame
  constructor
  · rintro ⟨hnodup, hlive⟩
    exact ⟨hflat ▸ hnodup, hflat ▸ hlive⟩
  · rintro ⟨hnodup, hlive⟩
    exact ⟨hflat.symm ▸ hnodup, hflat.symm ▸ hlive⟩

/-- A new owner that has acquired nothing may hold nothing. -/
theorem snoc_iff (h : Owned holds owners live) :
    Owned holds (owners ++ [a]) live ↔ holds a = [] := by
  constructor
  · intro h'
    refine List.eq_nil_iff_forall_not_mem.mpr fun r hr ↦ ?_
    have hcount := h'.count_eq r
    rw [← h.count_eq r, List.flatMap_append, List.flatMap_singleton, List.count_append] at hcount
    have hpos := List.count_pos_iff.mpr hr
    omega
  · intro hnone
    obtain ⟨hnodup, hlive⟩ := h
    refine ⟨?_, ?_⟩ <;> rwa [List.flatMap_append, List.flatMap_singleton, hnone, List.append_nil]

/-- An owner may take over what another one holds, which goes on holding it, only
if neither holds anything. -/
theorem overwrite_iff {b : α} {j : ℕ} (h : Owned holds owners live) (hget : owners[i]? = some a)
    (hget' : owners[j]? = some b) (hne : i ≠ j) (hsame : holds a' = holds b) :
    Owned holds (owners.set i a') live ↔ holds a = [] ∧ holds b = [] := by
  constructor
  · intro h'
    have hmem : b ∈ owners.eraseIdx i :=
      List.mem_eraseIdx_iff_getElem?.mpr ⟨j, hne.symm, hget'⟩
    have hcount : ∀ r, (holds a).count r = (holds b).count r ∧
        (holds b).count r + ((owners.eraseIdx i).flatMap holds).count r ≤ 1 := by
      intro r
      have hbefore := h.count_eq r
      have hafter := h'.count_eq r
      have hset := count_set holds hget a' [] r
      rw [List.append_nil, List.flatMap_singleton, hsame] at hset
      rw [count_pick hget] at hbefore
      rw [hset] at hafter
      have hone : (if r ∈ live then 1 else 0) ≤ 1 := by split <;> omega
      omega
    have hb : holds b = [] := by
      refine List.eq_nil_iff_forall_not_mem.mpr fun r hr ↦ ?_
      have hpos := List.count_pos_iff.mpr hr
      have hpos' := List.count_pos_iff.mpr (List.mem_flatMap.mpr ⟨b, hmem, hr⟩)
      have hle := (hcount r).2
      omega
    refine ⟨List.eq_nil_iff_forall_not_mem.mpr fun r hr ↦ ?_, hb⟩
    have hpos := List.count_pos_iff.mpr hr
    rw [(hcount r).1, hb, List.count_nil] at hpos
    exact absurd hpos (lt_irrefl 0)
  · rintro ⟨ha, hb⟩
    exact (set_iff hget (by rw [hsame, hb, ha])).mpr h

end Owned

/-! ## The account

What is acquired or copied from one owner to another is released, overwritten, or
still held. This needs no owner to be the only one.
-/

/-- `copied` and `overwritten` have what owners have got and lost without a use. -/
def Balanced (holds : α → List ρ) (owners : List α) (uses : List (Use ρ))
    (copied overwritten : List ρ) : Prop :=
  ∀ r, (acquisitions uses).count r + copied.count r =
    (releases uses).count r + overwritten.count r + (owners.flatMap holds).count r

variable {copied overwritten : List ρ}

theorem Takes.balance_count {held held' : List ρ} (h : Takes held.toFinset uses held'.toFinset)
    (hnodup : held.Nodup) (hnodup' : held'.Nodup) (r : ρ) :
    held.count r + (acquisitions uses).count r =
      (releases uses).count r + held'.count r := by
  have hbalance := h.balance r
  simp only [List.mem_toFinset] at hbalance
  rwa [hnodup.count, hnodup'.count]

namespace Balanced

theorem nil : Balanced holds [] [] ([] : List ρ) [] := fun _ ↦ rfl

theorem act (h : Balanced holds owners uses copied overwritten) (hget : owners[i]? = some a)
    (hacts : Takes (holds a).toFinset uses' ((a' :: more).flatMap holds).toFinset)
    (hnodup : (holds a).Nodup) (hnodup' : ((a' :: more).flatMap holds).Nodup) :
    Balanced holds (owners.set i a' ++ more) (uses ++ uses') copied overwritten := by
  intro r
  have hbefore := h r
  have hchange := hacts.balance_count hnodup hnodup' r
  rw [count_pick hget] at hbefore
  rw [count_set holds hget, acquisitions_append, releases_append, List.count_append,
    List.count_append]
  omega

theorem add (h : Balanced holds owners uses copied overwritten)
    (hacts : Takes ∅ uses' (holds a).toFinset) (hnodup : (holds a).Nodup) :
    Balanced holds (owners ++ [a]) (uses ++ uses') copied overwritten := by
  intro r
  have hbefore := h r
  have hnothing : Takes ([] : List ρ).toFinset uses' (holds a).toFinset := hacts
  have hchange := hnothing.balance_count List.nodup_nil hnodup r
  rw [List.count_nil] at hchange
  rw [count_snoc, acquisitions_append, releases_append, List.count_append, List.count_append]
  omega

theorem drop (h : Balanced holds owners uses copied overwritten) (hget : owners[i]? = some a)
    (hacts : Takes (holds a).toFinset uses' ∅) (hnodup : (holds a).Nodup) :
    Balanced holds (owners.eraseIdx i) (uses ++ uses') copied overwritten := by
  intro r
  have hbefore := h r
  have hnothing : Takes (holds a).toFinset uses' ([] : List ρ).toFinset := hacts
  have hchange := hnothing.balance_count hnodup List.nodup_nil r
  rw [List.count_nil] at hchange
  rw [count_pick hget] at hbefore
  rw [acquisitions_append, releases_append, List.count_append, List.count_append]
  omega

theorem set (h : Balanced holds owners uses copied overwritten) (hget : owners[i]? = some a)
    (hsame : holds a' = holds a) :
    Balanced holds (owners.set i a') uses copied overwritten := by
  intro r
  rw [flatMap_set hget hsame]
  exact h r

/-- A new owner that holds what another one holds. -/
theorem copy (h : Balanced holds owners uses copied overwritten) (a : α) :
    Balanced holds (owners ++ [a]) uses (copied ++ holds a) overwritten := by
  intro r
  have hbefore := h r
  rw [count_snoc, List.count_append]
  omega

/-- An owner forgets what it holds and holds something else instead. -/
theorem overwrite (h : Balanced holds owners uses copied overwritten)
    (hget : owners[i]? = some a) (a' : α) :
    Balanced holds (owners.set i a') uses (copied ++ holds a') (overwritten ++ holds a) := by
  intro r
  have hbefore := h r
  have hafter := count_set holds hget a' [] r
  rw [List.append_nil, List.flatMap_singleton] at hafter
  rw [count_pick hget] at hbefore
  rw [hafter, List.count_append, List.count_append]
  omega

end Balanced

end Owners

end Ownership
