import FluentBuilder.Text.Sorted
import Mathlib.Data.List.Sort
import Mathlib.Data.String.Basic

/-!
# Rows without repetitions

A row from which repetitions are dropped holds each of its members once, so two rows with the same
members give the same up to order (`eraseDups_perm`). The sorted row of some names holds these
names and no others (`mem_sortedSet`).
-/

namespace FluentBuilder.Text

variable {α : Type} [BEq α] [LawfulBEq α]

theorem nodup_eraseDups : ∀ values : List α, values.eraseDups.Nodup
  | [] => List.nodup_nil
  | first :: rest => by
    rw [List.eraseDups_cons, List.nodup_cons]
    refine ⟨fun hmem => ?_, nodup_eraseDups (rest.filter fun value => !value == first)⟩
    have hkept := (List.mem_filter.mp (List.mem_eraseDups.mp hmem)).2
    simp at hkept
termination_by values => values.length
decreasing_by exact Nat.lt_succ_of_le (List.length_filter_le _ _)

theorem eraseDups_perm {values others : List α} (h : ∀ value, value ∈ values ↔ value ∈ others) :
    values.eraseDups.Perm others.eraseDups := by
  refine (List.perm_ext_iff_of_nodup (nodup_eraseDups _) (nodup_eraseDups _)).mpr fun value => ?_
  rw [List.mem_eraseDups, List.mem_eraseDups, h]

/-! ### Sorted names -/

theorem sortedSet_perm (names : List String) : (sortedSet names).Perm names.eraseDups :=
  List.mergeSort_perm _ _

@[simp] theorem mem_sortedSet {name : String} {names : List String} :
    name ∈ sortedSet names ↔ name ∈ names := by
  rw [(sortedSet_perm names).mem_iff, List.mem_eraseDups]

/-- The sorted row of some names ascends: no name stands in front of itself or of a lesser one. -/
theorem sortedSet_pairwise_lt (names : List String) : (sortedSet names).Pairwise (· < ·) := by
  have hle : ∀ a b : String, (!decide (b < a)) = true ↔ a ≤ b := fun a b => by
    rw [Bool.not_eq_true', decide_eq_false_iff_not, not_lt]
  have hsorted : (sortedSet names).Pairwise fun a b => (!decide (b < a)) = true := by
    refine List.pairwise_mergeSort (fun a b c hab hbc => ?_) (fun a b => ?_) _
    · rw [hle] at *
      exact hab.trans hbc
    · rw [Bool.or_eq_true, hle, hle]
      exact le_total a b
  have hnodup : (sortedSet names).Nodup :=
    (sortedSet_perm names).nodup_iff.mpr (nodup_eraseDups names)
  refine (hsorted.and hnodup).imp fun {a b} ⟨hsort, hne⟩ => ?_
  exact lt_of_le_of_ne ((hle a b).mp hsort) hne

theorem sortedSet_eq_self {names : List String} (h : names.Pairwise (· < ·)) :
    sortedSet names = names := by
  have hmembers : (sortedSet names).Perm names :=
    (List.perm_ext_iff_of_nodup ((sortedSet_pairwise_lt names).imp ne_of_lt) (h.imp ne_of_lt)).mpr
      fun _ => mem_sortedSet
  exact hmembers.eq_of_pairwise (fun _ _ _ _ hab hba => absurd hba (lt_asymm hab))
    (sortedSet_pairwise_lt names) h

end FluentBuilder.Text
