import GameSearch.Proofs.TreeSearch.Everywhere

/-!
# GameSearch.Proofs.TreeSearch.Subtree

A tree inside a larger one. What is done at a path below `top` is done to the subtree at `top`
(`get?_append`, `modify_append`), and all that is not below `top` stays as it is
(`label_get?_modify`).
-/

namespace GameSearch.TreeSearch.Tree

variable {σ μ V : Type} {t u : Tree σ μ V} {f g : Tree σ μ V → Tree σ μ V} {path : Path}

theorem get?_append (top path : Path) (t : Tree σ μ V) :
    t.get? (top ++ path) = (t.get? top).bind (get? path) := by
  induction top generalizing t with
  | nil => rfl
  | cons i top ih =>
    obtain ⟨n, cs⟩ := t
    cases hc : cs[i]? with
    | none => simp only [List.cons_append, Tree.get?, hc, Option.bind_none]
    | some c => simp only [List.cons_append, Tree.get?, hc, ih]

theorem get?_snoc {q : Path} {i : Nat} (hu : t.get? q = some u) :
    t.get? (q ++ [i]) = u.children[i]? := by
  obtain ⟨n, cs⟩ := u
  rw [get?_append, hu, Option.bind_some, get?, children]
  cases cs[i]? <;> rfl

theorem exists_above {q below : Path} (hu : t.get? (q ++ below) = some u) :
    ∃ a, t.get? q = some a ∧ a.get? below = some u := by
  rw [get?_append] at hu
  exact Option.bind_eq_some_iff.1 hu

theorem modify_append (f : Tree σ μ V → Tree σ μ V) (top path : Path) (t : Tree σ μ V) :
    t.modify f (top ++ path) = t.modify (modify f path) top := by
  induction top generalizing t with
  | nil => rfl
  | cons i top ih =>
    obtain ⟨n, cs⟩ := t
    simp only [List.cons_append, modify]
    congr 2
    funext c
    exact ih c

/-- Only what `f` does to the subtree at the path matters. -/
theorem modify_congr (h : ∀ u, t.get? path = some u → f u = g u) :
    t.modify f path = t.modify g path := by
  induction path generalizing t with
  | nil => exact h t rfl
  | cons i path ih =>
    obtain ⟨n, cs⟩ := t
    simp only [modify]
    congr 1
    apply List.ext_getElem?
    intro j
    rw [List.getElem?_modify, List.getElem?_modify]
    by_cases hij : i = j
    · subst hij
      cases hc : cs[i]? with
      | none => rfl
      | some c =>
        have hfg := ih fun u hu => h u (get?_cons_eq_some.2 ⟨c, hc, hu⟩)
        simp [hfg]
    · simp [hij]

theorem modify_id (path : Path) (t : Tree σ μ V) : t.modify id path = t := by
  induction path generalizing t with
  | nil => rfl
  | cons i path ih =>
    obtain ⟨n, cs⟩ := t
    have hid : modify id path = (id : Tree σ μ V → Tree σ μ V) := funext ih
    simp [modify, hid]

theorem modify_eq_self (h : ∀ u, t.get? path = some u → f u = u) : t.modify f path = t :=
  (modify_congr h).trans (modify_id path t)

theorem modify_modify (f g : Tree σ μ V → Tree σ μ V) (path : Path) (t : Tree σ μ V) :
    (t.modify f path).modify g path = t.modify (fun u => g (f u)) path := by
  induction path generalizing t with
  | nil => rfl
  | cons i path ih =>
    obtain ⟨n, cs⟩ := t
    simp only [modify, List.modify_modify_eq]
    congr 2
    funext c
    exact ih c

/-- The nodes that are not below a path keep their labels when the subtree at the path is
changed. -/
theorem label_get?_modify {top : Path} (f : Tree σ μ V → Tree σ μ V) (h : ¬top <+: path) :
    ((t.modify f top).get? path).map label = (t.get? path).map label := by
  induction top generalizing t path with
  | nil => exact absurd List.nil_prefix h
  | cons i top ih =>
    obtain ⟨n, cs⟩ := t
    cases path with
    | nil => rfl
    | cons j path =>
      simp only [modify, Tree.get?, List.getElem?_modify]
      by_cases hij : i = j
      · subst hij
        cases hc : cs[i]? with
        | none => rfl
        | some c => simpa using ih fun hprefix => h (List.cons_prefix_cons.2 ⟨rfl, hprefix⟩)
      · simp [hij]

end GameSearch.TreeSearch.Tree
