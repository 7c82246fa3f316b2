/-
This file says where an element comes to stand among those of its kind when it is
inserted into a sorted list.
-/

import Mathlib.Data.List.Sort

namespace Gem5.Library

open List

variable {Element : Type} {order : Element → Element → Prop} [DecidableRel order]
  {kind : Element → Bool} {element : Element}

theorem filter_orderedInsert [IsTrans Element order] {sorted before after : List Element}
    (inOrder : sorted.Pairwise order) (is : kind element = true)
    (split : sorted.filter kind = before ++ after)
    (low : ∀ other ∈ before, ¬ order element other) (high : ∀ other ∈ after, order element other) :
    (sorted.orderedInsert order element).filter kind = before ++ element :: after := by
  induction sorted generalizing before with
  | nil =>
    obtain ⟨rfl, rfl⟩ := append_eq_nil_iff.mp split.symm
    rw [orderedInsert_nil, filter_cons_of_pos is]
    rfl
  | cons first rest hypothesis =>
    obtain ⟨least, inOrder⟩ := pairwise_cons.mp inOrder
    by_cases comes : order element first
    · rw [orderedInsert_cons_of_le _ _ comes, filter_cons_of_pos is, split]
      cases before with
      | nil => rfl
      | cons other =>
        have member : other ∈ (first :: rest).filter kind :=
          split ▸ mem_append_left _ mem_cons_self
        have below : order element other := by
          rcases mem_cons.mp (mem_filter.mp member).1 with rfl | later
          · exact comes
          · exact IsTrans.trans _ _ _ comes (least other later)
        exact absurd below (low other mem_cons_self)
    · rw [orderedInsert_of_not_le _ _ comes]
      by_cases same : kind first = true
      · rw [filter_cons_of_pos same] at split ⊢
        cases before with
        | nil =>
          have member : first ∈ after := by
            rw [nil_append] at split
            exact split ▸ mem_cons_self
          exact absurd (high first member) comes
        | cons other =>
          obtain ⟨rfl, left⟩ := cons.inj split
          rw [hypothesis inOrder left fun other member =>
            low other (mem_cons_of_mem _ member)]
          rfl
      · rw [filter_cons_of_neg same] at split ⊢
        exact hypothesis inOrder split low

theorem filter_orderedInsert_other (sorted : List Element) (other : kind element = false) :
    (sorted.orderedInsert order element).filter kind = sorted.filter kind := by
  rw [orderedInsert_eq_take_drop, filter_append,
    filter_cons_of_neg (by rw [other]; exact Bool.false_ne_true), ← filter_append,
    takeWhile_append_dropWhile]

end Gem5.Library
