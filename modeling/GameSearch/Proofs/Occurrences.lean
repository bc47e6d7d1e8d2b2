import Mathlib.Data.List.Nodup

/-!
# GameSearch.Proofs.Occurrences

Lists without repetitions. `FirstOccurrences xs ys` says that `ys` names each element of `xs` once,
in the order in which they first come up there. `List.eraseDups` makes such a list
(`firstOccurrences_eraseDups`).
-/

namespace GameSearch

variable {β : Type} [DecidableEq β]

theorem nodup_eraseDups (xs : List β) : xs.eraseDups.Nodup := by
  match xs with
  | [] => simp
  | x :: rest =>
    rw [List.eraseDups_cons, List.nodup_cons]
    refine ⟨?_, nodup_eraseDups _⟩
    simp [List.mem_eraseDups]
termination_by xs.length
decreasing_by exact Nat.lt_succ_of_le (List.length_filter_le _ _)

structure FirstOccurrences (xs ys : List β) : Prop where
  nodup : ys.Nodup
  mem_iff : ∀ x, x ∈ ys ↔ x ∈ xs
  order : ∀ x y, ys.idxOf x < ys.idxOf y ↔ xs.idxOf x < xs.idxOf y

/-- Of two elements that are kept, the one that came first still does. -/
theorem idxOf_filter_lt_iff {xs : List β} {keep : β → Bool} {x y : β} (hx : keep x = true)
    (hy : keep y = true) :
    (xs.filter keep).idxOf x < (xs.filter keep).idxOf y ↔ xs.idxOf x < xs.idxOf y := by
  induction xs with
  | nil => rfl
  | cons first rest ih =>
    cases hfirst : keep first with
    | true =>
      rw [List.filter_cons_of_pos hfirst]
      simp only [List.idxOf_cons]
      cases first == x <;> cases first == y <;> simp [ih]
    | false =>
      have hne : ∀ z, keep z = true → (first == z) = false := by
        intro z hz
        refine beq_eq_false_iff_ne.2 ?_
        rintro rfl
        cases hz.symm.trans hfirst
      rw [List.filter_cons_of_neg (by simp [hfirst])]
      simp only [List.idxOf_cons, hne x hx, hne y hy, cond_false, Nat.add_lt_add_iff_right]
      exact ih

theorem idxOf_eraseDups_lt_iff {xs : List β} (x y : β) :
    xs.eraseDups.idxOf x < xs.eraseDups.idxOf y ↔ xs.idxOf x < xs.idxOf y := by
  match xs with
  | [] => rfl
  | first :: rest =>
    rw [List.eraseDups_cons]
    simp only [List.idxOf_cons]
    cases hx : first == x with
    | true => cases first == y <;> simp
    | false =>
      cases hy : first == y with
      | true => simp
      | false =>
        have hkept : ∀ z, (first == z) = false → (fun b => !b == first) z = true := by
          intro z hz
          rw [beq_eq_false_iff_ne] at hz
          simp [Ne.symm hz]
        simp only [cond_false, Nat.add_lt_add_iff_right]
        exact (idxOf_eraseDups_lt_iff x y).trans (idxOf_filter_lt_iff (hkept x hx) (hkept y hy))
termination_by xs.length
decreasing_by exact Nat.lt_succ_of_le (List.length_filter_le _ _)

theorem firstOccurrences_eraseDups (xs : List β) : FirstOccurrences xs xs.eraseDups where
  nodup := nodup_eraseDups xs
  mem_iff _ := List.mem_eraseDups
  order := idxOf_eraseDups_lt_iff

end GameSearch
