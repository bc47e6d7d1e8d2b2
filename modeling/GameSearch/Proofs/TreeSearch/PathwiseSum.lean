import GameSearch.Proofs.TreeSearch.Pairing
import GameSearch.Proofs.TreeSearch.Parents
import GameSearch.Random.Keystream
import Mathlib

/-!
# GameSearch.Proofs.TreeSearch.PathwiseSum

A merge is the sum of two trees, key path by key path. A key path goes from the root over moves
of the agent and resulting states in turn, so it means the same in two trees whose nodes have
their children at different positions. `IsSum` says what each node of the sum is; nothing is
lost, counted twice or left without its parent.

* `merge_isSum`: the merge of two well-formed trees with the same role is their sum.
* `History.merge_pathwise`: so it is for the sessions that any steps lead to.
-/

namespace GameSearch.TreeSearch

variable {σ μ α V γ : Type} {game : Game σ μ α} {agent : α}

/-! ## Key paths -/

namespace Tree

variable [DecidableEq σ] [DecidableEq μ]

def hasKey (k : Key σ μ) (t : Tree σ μ V) : Bool := t.label.key == k

/-- The node at a key path. -/
def find? : List (Key σ μ) → Tree σ μ V → Option (Tree σ μ V)
  | [], t => some t
  | k :: ks, t => (t.children.find? (hasKey k)).bind (find? ks)

def visitsAt (ks : List (Key σ μ)) (t : Tree σ μ V) : Nat := (t.find? ks).elim 0 visits

/-- The keys of the nodes below the root that a path goes through. -/
def keysAlong : Path → Tree σ μ V → List (Key σ μ)
  | [], _ => []
  | i :: path, t =>
    match t.children[i]? with
    | none => []
    | some c => c.label.key :: keysAlong path c

theorem find?_concat (ks : List (Key σ μ)) (k : Key σ μ) (t : Tree σ μ V) :
    t.find? (ks ++ [k]) = (t.find? ks).bind fun u => u.children.find? (hasKey k) := by
  induction ks generalizing t with
  | nil => simp [find?, Option.bind_some]
  | cons k' ks ih => simp [find?, ih, Option.bind_assoc]

theorem exists_path {t node : Tree σ μ V} {ks : List (Key σ μ)} (h : t.find? ks = some node) :
    ∃ path, t.get? path = some node ∧ t.keysAlong path = ks := by
  induction ks generalizing t with
  | nil =>
    cases h
    exact ⟨[], rfl, rfl⟩
  | cons k ks ih =>
    obtain ⟨c, hfind, hbelow⟩ := Option.bind_eq_some_iff.1 h
    obtain ⟨i, hc⟩ := List.getElem?_of_mem (List.mem_of_find?_eq_some hfind)
    have hkey : c.label.key = k := by simpa [hasKey] using List.find?_some hfind
    obtain ⟨path, hget, hkeys⟩ := ih hbelow
    exact ⟨i :: path, get?_cons_eq_some.2 ⟨c, hc, hget⟩, by simp [keysAlong, hc, hkey, hkeys]⟩

end Tree

section

variable [DecidableEq σ] [DecidableEq μ]

theorem Tree.Linked.parent_of_find? {t node : Tree σ μ V} {ks : List (Key σ μ)} {k : Key σ μ}
    (h : t.Linked) (hnode : t.find? (ks ++ [k]) = some node) :
    ∃ parent, t.find? ks = some parent ∧
      node.label.home.parent = some parent.label.home.place := by
  rw [Tree.find?_concat] at hnode
  obtain ⟨parent, hparent, hnode⟩ := Option.bind_eq_some_iff.1 hnode
  obtain ⟨i, hi⟩ := List.getElem?_of_mem (List.mem_of_find?_eq_some hnode)
  obtain ⟨path, hpath, -⟩ := Tree.exists_path hparent
  exact ⟨parent, hparent, by rw [(h.get? hpath).here i node hi, Home.child]⟩

theorem Tree.Linked.keys_eq_of_place_eq {t node node' : Tree σ μ V} {ks ks' : List (Key σ μ)}
    (h : t.Linked) (hnode : t.find? ks = some node) (hnode' : t.find? ks' = some node')
    (hplace : node.label.home.place = node'.label.home.place) : ks = ks' := by
  obtain ⟨path, hpath, hkeys⟩ := Tree.exists_path hnode
  obtain ⟨path', hpath', hkeys'⟩ := Tree.exists_path hnode'
  rw [h.place hpath, h.place hpath'] at hplace
  rw [← hkeys, ← hkeys', List.append_cancel_left hplace]

theorem find?_graftAll (k : Key σ μ) (parent : Home) (i : Nat) (cs : List (Tree σ μ V)) :
    ∃ home, (graftAll parent i cs).find? (Tree.hasKey k) =
      (cs.find? (Tree.hasKey k)).map (graft home) := by
  induction cs generalizing i with
  | nil => exact ⟨{}, rfl⟩
  | cons c cs ih =>
    have hkey : (graft (parent.child i) c).hasKey k = c.hasKey k := by
      rw [Tree.hasKey, Node.key_eq_of_role_eq (graft_role _ c), Tree.hasKey]
    rw [graftAll, List.find?_cons, List.find?_cons, hkey]
    cases c.hasKey k with
    | true => exact ⟨parent.child i, rfl⟩
    | false => exact ih (i + 1)

end

/-! ## Sums of nodes -/

section

variable [Utility V]

/-- What a merge makes of the two nodes at a key path, either of which may be missing. -/
inductive SumAt : Option (Tree σ μ V) → Option (Tree σ μ V) → Option (Tree σ μ V) → Prop where
  | neither : SumAt none none none
  | ours (t : Tree σ μ V) : SumAt (some t) none (some t)
  | theirs {u sum : Tree σ μ V} : sum.label = u.label.detachedCopy sum.label.home →
      sum.keys = u.keys → SumAt none (some u) (some sum)
  | both {t u sum : Tree σ μ V} : u.label.kind = t.label.kind → u.label.state = t.label.state →
      u.label.terminal = t.label.terminal →
      sum.label = { t.label with
        stats := ⟨t.stats.visits + u.stats.visits, Utility.add t.stats.utility u.stats.utility⟩
        expanded := t.label.expanded || u.label.expanded } →
      t.keys <+: sum.keys → SumAt (some t) (some u) (some sum)

theorem SumAt.visits {t u sum : Option (Tree σ μ V)} (h : SumAt t u sum)
    (hroom : t.elim 0 Tree.visits + u.elim 0 Tree.visits < 2 ^ 32) :
    sum.elim 0 Tree.visits = t.elim 0 Tree.visits + u.elim 0 Tree.visits := by
  cases h with
  | neither => rfl
  | ours t => rfl
  | theirs hlabel _ =>
    rw [Option.elim_some, Tree.visits, hlabel]
    exact (Nat.zero_add _).symm
  | @both t u sum _ _ _ hlabel _ =>
    have hsum : sum.visits = (t.visits + u.visits) % 2 ^ 32 := by
      rw [Tree.visits, hlabel]
      exact UInt32.toNat_add _ _
    exact hsum.trans (Nat.mod_eq_of_lt hroom)

variable [DecidableEq σ]

theorem sumAt_root {n m : Node σ μ V} {ours theirs cs : List (Tree σ μ V)} {expanded : Bool}
    (h : Formed game agent (.node n ours)) (h' : Formed game agent (.node m theirs))
    (hrole : n.role = m.role) (hexpanded : expanded = (n.expanded || m.expanded))
    (hkeys : ours.map (·.label.key) <+: cs.map (·.label.key)) :
    SumAt (some (.node n ours)) (some (.node m theirs))
      (some (.node { n.absorb m.stats with expanded := expanded } cs)) := by
  obtain ⟨hkind, hstate⟩ := Node.role_eq_iff.1 hrole
  subst hexpanded
  exact .both hkind.symm hstate.symm (h.terminal_eq_of_role_eq h' hrole).symm rfl hkeys

end

variable [DecidableEq σ] [DecidableEq μ] [Utility V]

/-! ## The sum of two trees -/

/-- The third tree is the sum of the first two. -/
structure IsSum (t u sum : Tree σ μ V) : Prop where
  nodes : ∀ ks, SumAt (t.find? ks) (u.find? ks) (sum.find? ks)
  visits : ∀ ks, t.visitsAt ks + u.visitsAt ks < 2 ^ 32 →
    sum.visitsAt ks = t.visitsAt ks + u.visitsAt ks
  siblings : sum.Every fun node => node.keys.Nodup
  parents : ∀ ks k node, sum.find? (ks ++ [k]) = some node →
    ∃ parent, sum.find? ks = some parent ∧
      node.label.home.parent = some parent.label.home.place
  places : ∀ ks ks' node node', sum.find? ks = some node → sum.find? ks' = some node' →
    node.label.home.place = node'.label.home.place → ks = ks'

theorem find?_zipWith_merge {ours theirs : List (Tree σ μ V)}
    (hroles : theirs.map (·.label.role) = ours.map (·.label.role)) (k : Key σ μ) :
    (ours.find? (Tree.hasKey k) = none ∧ theirs.find? (Tree.hasKey k) = none ∧
      (List.zipWith merge ours theirs).find? (Tree.hasKey k) = none) ∨
    ∃ a b, (a, b) ∈ ours.zip theirs ∧ ours.find? (Tree.hasKey k) = some a ∧
      theirs.find? (Tree.hasKey k) = some b ∧
      (List.zipWith merge ours theirs).find? (Tree.hasKey k) = some (merge a b) := by
  induction ours generalizing theirs with
  | nil =>
    obtain rfl : theirs = [] := by simpa using hroles
    exact .inl ⟨rfl, rfl, rfl⟩
  | cons a ours ih =>
    cases theirs with
    | nil => cases hroles
    | cons b theirs =>
      obtain ⟨hrole, hrest⟩ : b.label.role = a.label.role ∧ _ := List.cons.inj hroles
      have hb : b.hasKey k = a.hasKey k := by
        rw [Tree.hasKey, Node.key_eq_of_role_eq hrole, Tree.hasKey]
      have hsum : (merge a b).hasKey k = a.hasKey k := by
        rw [Tree.hasKey, Node.key_eq_of_role_eq (merge_role a b), Tree.hasKey]
      simp only [List.zipWith_cons_cons, List.find?_cons, hb, hsum]
      cases a.hasKey k with
      | true => exact .inr ⟨a, b, List.mem_cons_self, rfl, rfl, rfl⟩
      | false =>
        rcases ih hrest with hnone | ⟨a', b', hmem, hsome⟩
        · exact .inl hnone
        · exact .inr ⟨a', b', List.mem_cons_of_mem _ hmem, hsome⟩

theorem graft_find? {t : Tree σ μ V} (h : t.Shaped game agent) (home : Home)
    (ks : List (Key σ μ)) : SumAt none (t.find? ks) ((graft home t).find? ks) := by
  induction ks generalizing t home with
  | nil =>
    obtain ⟨n, cs⟩ := t
    rw [graft_of_formed h.here]
    exact .theirs rfl (map_graftAll (fun home c => Node.key_eq_of_role_eq (graft_role home c)) _ _ _)
  | cons k ks ih =>
    obtain ⟨n, cs⟩ := t
    obtain ⟨below, hfind⟩ := find?_graftAll k home 0 cs
    rw [graft_of_formed h.here]
    simp only [Tree.find?, Tree.children, hfind]
    cases hc : cs.find? (Tree.hasKey k) with
    | none => exact .neither
    | some c => exact ih (h.child (List.mem_of_find?_eq_some hc)) below

theorem merge_nodes {t u : Tree σ μ V} (hgame : Unrepeated game agent)
    (ht : t.Shaped game agent) (hu : u.Shaped game agent) (hrole : t.label.role = u.label.role) :
    ∀ ks, SumAt (t.find? ks) (u.find? ks) ((merge t u).find? ks) := by
  refine merge_induction (R := fun t u sum => ∀ ks, SumAt (t.find? ks) (u.find? ks) (sum.find? ks))
    hgame ?copied ?kept ?paired ht hu hrole
  case copied =>
    intro n m theirs hrole hours htheirs ks
    cases ks with
    | nil =>
      have hn : n.expanded = false := by simpa using hours.here.isEmpty_iff.symm
      exact sumAt_root hours.here htheirs.here hrole (by simp [hn]) List.nil_prefix
    | cons k ks =>
      have hcopy := graft_find? htheirs n.home (k :: ks)
      rw [graft_of_formed htheirs.here] at hcopy
      exact hcopy
  case kept =>
    intro n m ours hrole hours htheirs ks
    cases ks with
    | nil =>
      have hm : m.expanded = false := by simpa using htheirs.here.isEmpty_iff.symm
      exact sumAt_root hours.here htheirs.here hrole (by simp [hm]) List.prefix_rfl
    | cons k ks =>
      have hkept : ∀ found : Option (Tree σ μ V), SumAt found none found := by
        rintro (_ | t)
        · exact .neither
        · exact .ours t
      exact hkept _
  case paired =>
    intro n m ours theirs hrole hours htheirs hroles ih ks
    have hlength : ours.length = theirs.length := by
      simpa using (congrArg List.length hroles).symm
    cases ks with
    | nil =>
      have hempty : ours.isEmpty = theirs.isEmpty := by
        rw [Bool.eq_iff_iff]
        simp [← List.length_eq_zero_iff, hlength]
      rw [hours.here.isEmpty_iff, htheirs.here.isEmpty_iff, Bool.not_inj_iff] at hempty
      have hkeys : (List.zipWith merge ours theirs).map (·.label.key) =
          ours.map (·.label.key) := by
        rw [keys_eq_ofRole, zipWith_merge_roles hlength, ← keys_eq_ofRole]
      exact sumAt_root hours.here htheirs.here hrole (by simp [hempty]) (hkeys ▸ List.prefix_rfl)
    | cons k ks =>
      simp only [Tree.find?, Tree.children]
      rcases find?_zipWith_merge hroles k with ⟨h₁, h₂, h₃⟩ | ⟨a, b, hab, h₁, h₂, h₃⟩
      · rw [h₁, h₂, h₃]
        exact .neither
      · rw [h₁, h₂, h₃]
        exact ih a b hab ks

theorem merge_isSum {t u : Tree σ μ V} (hgame : Unrepeated game agent)
    (ht : t.Shaped game agent) (hu : u.Shaped game agent) (hrole : t.label.role = u.label.role)
    (hlinked : t.Linked) : IsSum t u (merge t u) where
  nodes := merge_nodes hgame ht hu hrole
  visits ks := (merge_nodes hgame ht hu hrole ks).visits
  siblings := (merge_shaped ht hu hrole).imp fun _ h => h.keys_nodup hgame
  parents _ _ _ := (merge_linked hlinked u).parent_of_find?
  places _ _ _ _ := (merge_linked hlinked u).keys_eq_of_place_eq

namespace History

variable [RandomSource γ]

/-- Two sessions of the same game are added up when their roots hold the same state; otherwise
nothing changes. -/
theorem merge_pathwise (hgame : Unrepeated game agent) (h other : History σ μ V γ) :
    let x := h.session game agent
    let y := other.session game agent
    (x.root.state = y.root.state → ∃ z, x.merge y = (true, z) ∧ IsSum x.root y.root z.root ∧
      z.counters = ⟨x.counters.iterations + y.counters.iterations,
        x.counters.retries + y.counters.retries, x.counters.playouts + y.counters.playouts,
        x.counters.playoutMoves + y.counters.playoutMoves⟩ ∧ z.rng = x.rng) ∧
    (x.root.state ≠ y.root.state → x.merge y = (false, x)) := by
  intro x y
  refine ⟨fun hstate => ?_, fun hstate => if_neg hstate⟩
  have hrole := Node.role_eq_iff.2 ⟨h.rooted.2.trans other.rooted.2.symm, hstate⟩
  exact ⟨_, if_pos hstate, merge_isSum hgame h.rooted.1 other.rooted.1 hrole (h.linked game agent),
    rfl, rfl⟩

/-- A search that has reached the state after a move, added to one that has only seen the root,
and to one of another position. -/
theorem merge_pathwise_short :
    let o : Options Float := ⟨⟨fun _ _ _ => 0, fun _ _ _ => List.length_pos_iff.2⟩, 1, 10⟩
    let s := TicTacToe.Position.ofBoard #v[1, 2, 1, 1, 2, 2, 0, 1, 0]
    let x := (History.run (.start o s 7) 4 : History TicTacToe.Position TicTacToe.Action Float
      Keystream).session TicTacToe.game .o
    let y := (History.run (.start o s 11) 1 : History TicTacToe.Position TicTacToe.Action Float
      Keystream).session TicTacToe.game .o
    let other := (History.start o .initial 7 : History TicTacToe.Position TicTacToe.Action Float
      Keystream).session TicTacToe.game .o
    Unrepeated TicTacToe.game .o ∧
      (x.root.visitsAt [.move (.place 6)], y.root.visitsAt [.move (.place 6)]) = (2, 0) ∧
      (∃ z, x.merge y = (true, z) ∧ IsSum x.root y.root z.root) ∧ x.merge other = (false, x) := by
  intro o s x y other
  have hgame := unrepeated_ticTacToe .o
  obtain ⟨hstate, hother, hvisits⟩ : x.root.state = y.root.state ∧
      x.root.state ≠ other.root.state ∧
      (x.root.visitsAt [.move (.place 6)], y.root.visitsAt [.move (.place 6)]) = (2, 0) := by
    decide +kernel
  obtain ⟨z, hz, hsum, _⟩ :=
    (merge_pathwise hgame (.run (.start o s 7) 4) (.run (.start o s 11) 1)).1 hstate
  exact ⟨hgame, hvisits, ⟨z, hz, hsum⟩,
    (merge_pathwise hgame (.run (.start o s 7) 4) (.start o .initial 7)).2 hother⟩

end History

end GameSearch.TreeSearch
