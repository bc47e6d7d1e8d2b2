import GameSearch.Proofs.TreeSearch.Shape
import GameSearch.TreeSearch.Selection

/-!
# GameSearch.Proofs.TreeSearch.Walk

Where a search goes. `Walk t path` says that every node above the target has been visited and is
not terminal, and that the target has not been visited or is terminal. The node that is selected
in a well-formed tree is the target of a walk (`select_walk`), also where the search passes over
a child to one of the grandchildren.
-/

namespace GameSearch.TreeSearch

variable {σ μ α V : Type} {t u : Tree σ μ V} {path : Path}

theorem isUnvisited_iff : isUnvisited t = true ↔ t.visits = 0 := by
  simp [isUnvisited, Node.isUnvisited, Stats.isUnvisited, Tree.visits, ← UInt32.toNat_inj]

/-- The path from the root to a node that a search may work on. -/
def Walk : Tree σ μ V → Path → Prop
  | t, [] => t.visits = 0 ∨ t.label.terminal = true
  | .node n cs, i :: path =>
    (Tree.node n cs).visits ≠ 0 ∧ n.terminal = false ∧ ∃ c, cs[i]? = some c ∧ Walk c path

/-- A walk goes on no further than its target. -/
theorem Walk.eq_nil (h : Walk t path) (ht : t.visits = 0 ∨ t.label.terminal = true) :
    path = [] := by
  cases path with
  | nil => rfl
  | cons i path =>
    obtain ⟨n, cs⟩ := t
    obtain ⟨hvisited, hn, _⟩ := h
    rcases ht with h | h
    · exact absurd h hvisited
    · cases hn.symm.trans h

theorem Walk.target (h : Walk t path) (hu : t.get? path = some u) :
    u.visits = 0 ∨ u.label.terminal = true := by
  induction path generalizing t with
  | nil => cases hu; exact h
  | cons i path ih =>
    obtain ⟨n, cs⟩ := t
    obtain ⟨_, _, c, hc, hwalk⟩ := h
    obtain ⟨c', hc', hu⟩ := Tree.get?_cons_eq_some.1 hu
    cases hc.symm.trans hc'
    exact ih hwalk hu

theorem Walk.exists_target (h : Walk t path) : ∃ u, t.get? path = some u := by
  induction path generalizing t with
  | nil => exact ⟨t, rfl⟩
  | cons i path ih =>
    obtain ⟨n, cs⟩ := t
    obtain ⟨_, _, c, hc, hwalk⟩ := h
    obtain ⟨u, hu⟩ := ih hwalk
    exact ⟨u, Tree.get?_cons_eq_some.2 ⟨c, hc, hu⟩⟩

theorem Walk.modify {f : Tree σ μ V → Tree σ μ V} {below : Path}
    (hf : ∀ u, t.get? below = some u → ∀ path, Walk u path → Walk (f u) path)
    (h : Walk t path) : Walk (t.modify f below) path := by
  induction below generalizing t path with
  | nil => exact hf t rfl path h
  | cons i below ih =>
    obtain ⟨n, cs⟩ := t
    cases path with
    | nil => exact h
    | cons k path =>
      obtain ⟨hvisited, hn, c, hc, hwalk⟩ := h
      by_cases hik : i = k
      · subst hik
        refine ⟨hvisited, hn, c.modify f below, ?_, ih (fun u hu => ?_) hwalk⟩
        · simp [hc]
        · exact hf u (Tree.get?_cons_eq_some.2 ⟨c, hc, hu⟩)
      · exact ⟨hvisited, hn, c, by simpa [List.getElem?_modify, hik] using hc, hwalk⟩

/-- The target may grow. -/
theorem Walk.grow {grown : Tree σ μ V} (h : Walk t path) (hu : t.get? path = some u)
    (hstats : grown.label.stats = u.label.stats)
    (hterminal : grown.label.terminal = u.label.terminal) :
    Walk (t.modify (fun _ => grown) path) path := by
  refine h.modify fun u' hu' path' hwalk => ?_
  cases hu.symm.trans hu'
  obtain rfl := hwalk.eq_nil (h.target hu)
  rw [Walk, Tree.visits, hstats, hterminal]
  exact hwalk

/-! ## Selection -/

theorem findBelow_some {p : Tree σ μ V → Bool} {cs : List (Tree σ μ V)} {i j : Nat}
    (h : Tree.findBelow p cs = some (i, j)) :
    ∃ c d, cs[i]? = some c ∧ c.children[j]? = some d ∧ p d = true := by
  induction cs generalizing i j with
  | nil => cases h
  | cons c rest ih =>
    simp only [Tree.findBelow] at h
    split at h
    · rename_i k hk
      cases h
      obtain ⟨hlt, hp, _⟩ := List.findIdx?_eq_some_iff_getElem.1 hk
      exact ⟨c, _, rfl, List.getElem?_eq_getElem hlt, hp⟩
    · split at h
      · rename_i i' j' hrest
        cases h
        obtain ⟨c', d, hc, hd, hp⟩ := ih hrest
        exact ⟨c', d, by simpa using hc, hd, hp⟩
      · cases h

theorem descendInto_eq [Utility V] (policy : Policy V) (cs : List (Tree σ μ V)) (i : Nat) :
    descendInto policy cs i = cs[i]?.bind (descend policy) := by
  induction cs generalizing i with
  | nil => rfl
  | cons c rest ih =>
    cases i with
    | zero => rfl
    | succ i => simpa [descendInto] using ih i

/-- A target below a node is an unvisited child, or an unvisited grandchild below a visited
child. -/
theorem step_target {policy : Policy V} {n : Node σ μ V} {cs : List (Tree σ μ V)}
    (h : step policy n cs = .target path) :
    ∃ i c, cs[i]? = some c ∧ ((path = [i] ∧ c.visits = 0) ∨
      (c.visits ≠ 0 ∧ ∃ j d, path = [i, j] ∧ c.children[j]? = some d ∧ d.visits = 0)) := by
  unfold step at h
  split at h
  · cases h
  · split at h
    · rename_i i hi
      cases h
      obtain ⟨hlt, hp, _⟩ := List.findIdx?_eq_some_iff_getElem.1 hi
      exact ⟨i, _, List.getElem?_eq_getElem hlt, .inl ⟨rfl, isUnvisited_iff.1 hp⟩⟩
    · rename_i hvisited
      split at h
      · rename_i i j hij
        cases h
        obtain ⟨c, d, hc, hd, hp⟩ := findBelow_some hij
        have hnone := List.findIdx?_eq_none_iff.1 hvisited c (List.mem_of_getElem? hc)
        refine ⟨i, c, hc, .inr ⟨?_, j, d, rfl, hd, isUnvisited_iff.1 hp⟩⟩
        rw [ne_eq, ← isUnvisited_iff, hnone]
        simp
      · cases h

variable [DecidableEq σ] {game : Game σ μ α} {agent : α}

theorem walk_of_target {policy : Policy V} {n : Node σ μ V} {cs : List (Tree σ μ V)}
    (ht : (Tree.node n cs).Shaped game agent) (hvisited : (Tree.node n cs).visits ≠ 0)
    (hn : n.terminal = false) (h : step policy n cs = .target path) :
    Walk (.node n cs) path := by
  obtain ⟨i, c, hc, ⟨rfl, hunvisited⟩ | ⟨hpassed, j, d, rfl, hd, hunvisited⟩⟩ := step_target h
  · exact ⟨hvisited, hn, c, hc, .inl hunvisited⟩
  · -- the child that is passed over has a child, so it is not terminal
    have hterminal : c.label.terminal = false :=
      (ht.child (List.mem_of_getElem? hc)).here.not_terminal (List.mem_of_getElem? hd)
    obtain ⟨m, ds⟩ := c
    exact ⟨hvisited, hn, _, hc, hpassed, hterminal, d, hd, .inl hunvisited⟩

variable [Utility V]

theorem descend_walk {policy : Policy V} (ht : t.Shaped game agent)
    (h : descend policy t = some path) : Walk t path := by
  induction t generalizing path with
  | node n cs ih =>
    unfold descend at h
    split at h
    · rename_i hstop
      cases h
      rcases Bool.or_eq_true_iff.1 hstop with hunvisited | hterminal
      · exact .inl (isUnvisited_iff.1 hunvisited)
      · exact .inr hterminal
    · rename_i hgo
      obtain ⟨hunvisited, hn⟩ : n.isUnvisited = false ∧ n.terminal = false := by simpa using hgo
      have hvisited : (Tree.node n cs).visits ≠ 0 := by
        rw [ne_eq, ← isUnvisited_iff]
        exact Bool.eq_false_iff.1 hunvisited
      split at h
      · cases h
      · rename_i path' hstep
        cases h
        exact walk_of_target ht hvisited hn hstep
      · rename_i i hstep
        rw [descendInto_eq] at h
        cases hc : cs[i]? with
        | none => simp [hc] at h
        | some c =>
          cases hpath : descend policy c with
          | none => simp [hc, hpath] at h
          | some path' =>
            simp only [hc, Option.bind_some, hpath, Option.some.injEq] at h
            subst h
            have hmem := List.mem_of_getElem? hc
            exact ⟨hvisited, hn, c, hc, ih c hmem (ht.child hmem) hpath⟩

/-- The node that is selected is the target of a walk. -/
theorem select_walk {policy : Policy V} {locking : Locking} {chosen : Selection}
    (ht : t.Shaped game agent) (h : select policy locking t = some chosen) :
    Walk t chosen.target := by
  unfold select at h
  split at h
  · cases h
  · rename_i path hpath
    have hwalk := descend_walk ht hpath
    split at h
    · cases h
      exact hwalk
    · split at h
      · cases h
        exact hwalk
      · split at h
        · cases h
        · cases h
          exact hwalk

end GameSearch.TreeSearch
