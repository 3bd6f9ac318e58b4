import BytecodeLint.Finding
import Mathlib.Data.List.Basic

/-!
# The order of reports

`sortFindings` is a stable sort by a total preorder.  So it does not matter
whether findings are left out before or after the sort:
`filter_sortFindings` says this for any choice of findings.
-/

namespace BytecodeLint

/-! ## Stable sorts -/

section Stable

variable {α : Type} {le : α → α → Bool}

/-- A list is split in one way only into a part where `p` holds and a part
where it does not. -/
private theorem append_inj_of_split {p : α → Bool} {front back front' back' : List α}
    (h : front ++ back = front' ++ back') (hfront : ∀ x ∈ front, p x = true)
    (hback : ∀ x ∈ back, p x = false) (hfront' : ∀ x ∈ front', p x = true)
    (hback' : ∀ x ∈ back', p x = false) : front = front' ∧ back = back' := by
  have hsame := congrArg (List.filter p) h
  rw [List.filter_append, List.filter_append, List.filter_eq_self.2 hfront,
    List.filter_eq_self.2 hfront',
    List.filter_eq_nil_iff.2 fun x hx => Bool.eq_false_iff.1 (hback x hx),
    List.filter_eq_nil_iff.2 fun x hx => Bool.eq_false_iff.1 (hback' x hx),
    List.append_nil, List.append_nil] at hsame
  subst hsame
  exact ⟨rfl, List.append_cancel_left h⟩

/-- The first element of a list, put into the sorted rest: what is before
it is smaller, and what is behind it is not. -/
private theorem exists_mergeSort_cons
    (htrans : ∀ a b c, le a b = true → le b c = true → le a c = true)
    (htotal : ∀ a b, (le a b || le b a) = true) (first : α) (rest : List α) :
    ∃ front back, (first :: rest).mergeSort le = front ++ first :: back ∧
      rest.mergeSort le = front ++ back ∧
      (∀ x ∈ front, (!le first x) = true) ∧ ∀ x ∈ back, (!le first x) = false := by
  obtain ⟨front, back, hcons, hrest, hfront⟩ := List.mergeSort_cons htrans htotal first rest
  refine ⟨front, back, hcons, hrest, hfront, fun x hx => ?_⟩
  have hsorted := List.pairwise_mergeSort htrans htotal (first :: rest)
  rw [hcons] at hsorted
  have hle : le first x = true := (List.pairwise_cons.1 (List.pairwise_append.1 hsorted).2.1).1 x hx
  rw [hle]
  rfl

/-- A stable sort commutes with leaving elements out. -/
theorem filter_mergeSort (htrans : ∀ a b c, le a b = true → le b c = true → le a c = true)
    (htotal : ∀ a b, (le a b || le b a) = true) (p : α → Bool) (list : List α) :
    (list.mergeSort le).filter p = (list.filter p).mergeSort le := by
  induction list with
  | nil => simp
  | cons first rest ih =>
    obtain ⟨front, back, hcons, hrest, hfront, hback⟩ :=
      exists_mergeSort_cons htrans htotal first rest
    rw [hrest, List.filter_append] at ih
    rw [hcons, List.filter_append, List.filter_cons, List.filter_cons]
    by_cases hp : p first = true
    · rw [if_pos hp, if_pos hp]
      obtain ⟨front', back', hcons', hrest', hfront', hback'⟩ :=
        exists_mergeSort_cons htrans htotal first (rest.filter p)
      rw [hrest'] at ih
      obtain ⟨hsame, hsame'⟩ := append_inj_of_split ih
        (fun x hx => hfront x (List.mem_of_mem_filter hx))
        (fun x hx => hback x (List.mem_of_mem_filter hx)) hfront' hback'
      rw [hcons', hsame, hsame']
    · rw [if_neg hp, if_neg hp]
      exact ih

end Stable

/-- Of two items, one stands before the other or beside it. -/
theorem isLE_total {α : Type*} {cmp : α → α → Ordering} [Std.OrientedCmp cmp] (left right : α) :
    ((cmp left right).isLE || (cmp right left).isLE) = true := by
  have hswap : cmp right left = (cmp left right).swap := Std.OrientedCmp.eq_swap
  rw [hswap]
  cases cmp left right <;> rfl

/-! ## Sorted findings -/

theorem pairwise_sortFindings (findings : List Finding) :
    (sortFindings findings).Pairwise fun finding other => (finding.order other).isLE :=
  List.pairwise_mergeSort (fun _ _ _ => Std.TransCmp.isLE_trans) isLE_total findings

/-- Findings may be left out before or after the sort. -/
theorem filter_sortFindings (p : Finding → Bool) (findings : List Finding) :
    (sortFindings findings).filter p = sortFindings (findings.filter p) :=
  filter_mergeSort (fun _ _ _ => Std.TransCmp.isLE_trans) isLE_total p findings

end BytecodeLint
