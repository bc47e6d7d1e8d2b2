import GameSearch.Proofs.Occurrences
import GameSearch.Proofs.TreeSearch.Merging
import GameSearch.Table.Basic
import GameSearch.TicTacToe.Rules

/-!
# GameSearch.Proofs.TreeSearch.Pairing

How trees are merged when the rules list no move twice. Then no two siblings share a key
(`Formed.keys_nodup`), each child meets exactly its counterpart (`mergeChildren_zip`), and a
merge goes one of three ways at every node: all children of the second node are copied, those of
the first are kept, or the children are merged pair by pair. `merge_induction` is the induction
over these ways that the properties of a merge are proved by.
-/

namespace GameSearch.TreeSearch

variable {σ μ α V : Type}

/-- The rules list no move of the agent twice. -/
def Unrepeated (game : Game σ μ α) (agent : α) : Prop :=
  ∀ s moves, game.legalMoves s agent = .ok moves → moves.Nodup

theorem unrepeated_ticTacToe (m : TicTacToe.Mark) : Unrepeated TicTacToe.game m := by
  intro p moves h
  cases h
  unfold TicTacToe.legalMoves
  split
  · exact List.nodup_nil
  · split
    · refine List.Nodup.map (fun c d hcd => ?_) ?_
      · have hcell : UInt8.ofNat c.val = UInt8.ofNat d.val := by injection hcd
        have hval := congrArg UInt8.toNat hcell
        simp only [UInt8.toNat_ofNat'] at hval
        omega
      · unfold TicTacToe.Position.openCells
        split
        · exact List.nodup_nil
        · exact (List.nodup_finRange 9).filter _
    · simp

theorem unrepeated_table (t : Table) (agent : String) : Unrepeated t.game agent := by
  intro s moves h
  simp only [Table.game, Table.legalMoves] at h
  split at h
  · cases h
  · cases h
    exact nodup_eraseDups _

/-! ## Siblings -/

def Tree.keys (t : Tree σ μ V) : List (Key σ μ) := t.children.map (·.label.key)

/-- The roles of siblings tell their keys. -/
theorem keys_eq_ofRole (cs : List (Tree σ μ V)) :
    cs.map (·.label.key) = (cs.map (·.label.role)).map Key.ofRole := by
  rw [List.map_map]
  rfl

theorem role_eq_of_mem_zip {ours theirs : List (Tree σ μ V)} {a b : Tree σ μ V}
    (hroles : theirs.map (·.label.role) = ours.map (·.label.role))
    (h : (a, b) ∈ ours.zip theirs) : a.label.role = b.label.role := by
  obtain ⟨i, hi⟩ := List.getElem?_of_mem h
  obtain ⟨ha, hb⟩ : ours[i]? = some a ∧ theirs[i]? = some b := by
    simpa [List.getElem?_zip_eq_some] using hi
  have := congrArg (·[i]?) hroles
  simpa [ha, hb] using this.symm

variable [DecidableEq σ] {game : Game σ μ α} {agent : α} {n m : Node σ μ V}
  {ours theirs : List (Tree σ μ V)} {t u : Tree σ μ V}

theorem Formed.keys_nodup (hgame : Unrepeated game agent) (h : Formed game agent t) :
    t.keys.Nodup := by
  cases h with
  | bare => exact List.nodup_nil
  | choices _ _ _ _ hm _ hroles =>
    rw [Tree.keys, keys_eq_ofRole, Tree.children, hroles, List.map_map]
    exact List.Nodup.map (fun _ _ h => by cases h; rfl) (hgame _ _ hm)
  | outcomes _ _ _ _ _ hroles =>
    rw [Tree.keys, keys_eq_ofRole, Tree.children, hroles, List.map_map]
    exact List.Nodup.map (fun _ _ h => by cases h; rfl) (nodup_eraseDups _)

variable [DecidableEq μ] [Utility V]

/-- Siblings with the same keys in the same order are merged one by one. -/
theorem mergeChildren_zip (parent : Home) (i : Nat) (done : List (Tree σ μ V)) {todo : List (Tree σ μ V)}
    (hnodup : ((done ++ todo).map (·.label.key)).Nodup)
    (hkeys : theirs.map (·.label.key) = todo.map (·.label.key)) :
    mergeChildren parent i (done ++ todo) theirs =
      (done ++ List.zipWith merge todo theirs, []) := by
  induction theirs generalizing done todo with
  | nil =>
    obtain rfl : todo = [] := by simpa using hkeys.symm
    simp
  | cons t rest ih =>
    cases todo with
    | nil => cases hkeys
    | cons u todo =>
      obtain ⟨hkey, hrest⟩ : t.label.key = u.label.key ∧ _ := List.cons.inj hkeys
      have hfind : (done ++ u :: todo).findIdx? (fun v => v.label.sameOutcome t.label) =
          some done.length := by
        have hdone : done.findIdx? (fun v => v.label.sameOutcome t.label) = none := by
          refine List.findIdx?_eq_none_iff.2 fun v hv => ?_
          rw [← Bool.not_eq_true, Node.sameOutcome_iff, hkey]
          rw [List.map_append, List.nodup_append] at hnodup
          exact hnodup.2.2 _ (List.mem_map_of_mem hv) _ (List.mem_map_of_mem List.mem_cons_self)
        rw [List.findIdx?_append, hdone, List.findIdx?_cons, Node.sameOutcome_iff.2 hkey.symm]
        simp
      have hmodify : (done ++ u :: todo).modify done.length (fun v => merge v t) =
          (done ++ [merge u t]) ++ todo := by
        rw [List.modify_eq_take_cons_drop (by simp)]
        simp
      simp only [mergeChildren, hfind, hmodify]
      rw [ih (done ++ [merge u t]) ?_ hrest]
      · simp
      · simpa [Node.key, merge_role] using hnodup

theorem zipWith_merge_roles (h : ours.length = theirs.length) :
    (List.zipWith merge ours theirs).map (·.label.role) = ours.map (·.label.role) := by
  induction ours generalizing theirs with
  | nil => rfl
  | cons a ours ih =>
    cases theirs with
    | nil => cases h
    | cons b theirs =>
      rw [List.zipWith_cons_cons, List.map_cons, List.map_cons, merge_role, ih (Nat.succ.inj h)]

/-- The ways in which two well-formed nodes with the same role are merged. -/
theorem merge_induction {R : Tree σ μ V → Tree σ μ V → Tree σ μ V → Prop}
    (hgame : Unrepeated game agent)
    (copied : ∀ {n m : Node σ μ V} {theirs : List (Tree σ μ V)}, n.role = m.role →
      (Tree.node n []).Shaped game agent → (Tree.node m theirs).Shaped game agent →
      R (.node n []) (.node m theirs)
        (.node { n.absorb m.stats with expanded := m.expanded } (graftAll n.home 0 theirs)))
    (kept : ∀ {n m : Node σ μ V} {ours : List (Tree σ μ V)}, n.role = m.role →
      (Tree.node n ours).Shaped game agent → (Tree.node m []).Shaped game agent →
      R (.node n ours) (.node m []) (.node (n.absorb m.stats) ours))
    (paired : ∀ {n m : Node σ μ V} {ours theirs : List (Tree σ μ V)}, n.role = m.role →
      (Tree.node n ours).Shaped game agent → (Tree.node m theirs).Shaped game agent →
      theirs.map (·.label.role) = ours.map (·.label.role) →
      (∀ a b, (a, b) ∈ ours.zip theirs → R a b (merge a b)) →
      R (.node n ours) (.node m theirs)
        (.node (n.absorb m.stats) (List.zipWith merge ours theirs)))
    (ht : t.Shaped game agent) (hu : u.Shaped game agent) (hrole : t.label.role = u.label.role) :
    R t u (merge t u) := by
  induction u generalizing t with
  | node m theirs ih =>
    obtain ⟨n, ours⟩ := t
    rcases ht.here.compare hu.here hrole with rfl | rfl | hroles
    · have hn : n.expanded = false := by simpa using ht.here.isEmpty_iff.symm
      have hexpanded : (n.expanded || !(graftAll n.home 0 theirs).isEmpty) = m.expanded := by
        simp [hn, hu.here.isEmpty_iff]
      rw [merge_node, List.length_nil, mergeChildren_nil_left, hexpanded]
      exact copied hrole ht hu
    · rw [merge_of_grafted_nil rfl]
      exact kept hrole ht hu
    · have hzip : mergeChildren n.home ours.length ours theirs =
          (List.zipWith merge ours theirs, []) := by
        refine mergeChildren_zip n.home ours.length [] (ht.here.keys_nodup hgame) ?_
        rw [keys_eq_ofRole, keys_eq_ofRole, hroles]
      rw [merge_of_grafted_nil (by rw [hzip]), hzip]
      refine paired hrole ht hu hroles fun a b hab => ?_
      obtain ⟨ha, hb⟩ := List.of_mem_zip hab
      exact ih b hb (ht.child ha) (hu.child hb) (role_eq_of_mem_zip hroles hab)

end GameSearch.TreeSearch
