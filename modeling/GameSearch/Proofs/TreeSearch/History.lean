import GameSearch.Proofs.TreeSearch.Iteration
import GameSearch.Proofs.TreeSearch.Merging

/-!
# GameSearch.Proofs.TreeSearch.History

All that can happen to a session. A `History` is a sequence of steps, with the history of the
other session where two of them are merged; `History.session` is what the steps lead to. Single
iterations draw from any source of randomness, permits may be held at any nodes, and each
session has a policy and a number of plays of its own.

* `History.rooted`: the tree is as the rules of the game say, and its root is a max node.
* `History.every_node_conforms`: the same, spelled out for each node.
-/

namespace GameSearch.TreeSearch

structure Options (V : Type) where
  policy : Policy V
  playouts : UInt32
  patience : Nat

inductive History (σ μ V γ : Type) : Type 1 where
  | start (o : Options V) (s : σ) (seed : UInt64)
  /-- One iteration that draws from a source of its own. -/
  | iterate (h : History σ μ V γ) (locking : Locking) {δ : Type} [RandomSource δ] (g : δ)
  | run (h : History σ μ V γ) (n : Nat)
  | search (h : History σ μ V γ) (i : Interrupt)
  | permit (h : History σ μ V γ) (busy : Bool) (path : Path)
  | updateRoot (h : History σ μ V γ) (s : σ)
  | setRoot (h : History σ μ V γ) (s : σ)
  | merge (h other : History σ μ V γ)

namespace History

variable {σ μ α V γ : Type}

def options : History σ μ V γ → Options V
  | start o _ _ => o
  | iterate h _ _ => h.options
  | run h _ => h.options
  | search h _ => h.options
  | permit h _ _ => h.options
  | updateRoot h _ => h.options
  | setRoot h _ => h.options
  | merge h _ => h.options

def setup (game : Game σ μ α) (agent : α) (h : History σ μ V γ) : Setup σ μ α V :=
  ⟨game, agent, h.options.policy, h.options.playouts, h.options.patience⟩

variable [Utility V] [RandomSource γ] [DecidableEq σ] [DecidableEq μ]

/-- What the steps lead to. Steps may fail; the session goes on with what they leave behind. -/
def session (game : Game σ μ α) (agent : α) : History σ μ V γ → Session σ μ V γ
  | start o s seed => .start ((start o s seed : History σ μ V γ).setup game agent) s seed
  | iterate h locking g =>
    let x := h.session game agent
    let y := (Session.iterate (h.setup game agent) locking { x with rng := g }).2
    { y with rng := x.rng }
  | run h n => ((h.session game agent).runIterations (h.setup game agent) n).2
  | search h i => ((h.session game agent).searchUntil (h.setup game agent) i).2
  | permit h busy path => (h.session game agent).setBusy busy (some path)
  | updateRoot h s => ((h.session game agent).updateRoot (h.setup game agent) s).2
  | setRoot h s => (h.session game agent).setRoot (h.setup game agent) s
  | merge h other => ((h.session game agent).merge (other.session game agent)).2

variable {game : Game σ μ α} {agent : α}

theorem rooted (h : History σ μ V γ) : (h.session game agent).root.Rooted game agent := by
  induction h with
  | start o s seed => exact ⟨Setup.unvisited_shaped (setup game agent (.start o s seed)) s {}, rfl⟩
  | iterate h locking g ih =>
    exact Session.iterate_rooted (h.setup game agent)
      { h.session game agent with rng := g } ih trivial
  | run h n ih =>
    rw [session, Session.runIterations_root]
    exact Session.repeatIterations_keeps (Session.iterate_rooted (h.setup game agent)) n ih
      fun _ _ => trivial
  | search h i ih =>
    rw [session, Session.searchUntil_root]
    split
    · exact ih
    · exact Session.iterateUntil_keeps (Session.iterate_rooted (h.setup game agent)) _ 0 ih
        fun _ _ => trivial
  | permit h busy path ih =>
    have hrole := Session.setBusy_role busy (some path) (h.session game agent)
    exact ⟨Session.setBusy_shaped busy (some path) ih.1, (Node.role_eq_iff.1 hrole).1.trans ih.2⟩
  | updateRoot h s ih => exact Session.updateRoot_rooted (h.setup game agent) s ih
  | setRoot h s ih => exact ⟨Setup.unvisited_shaped (h.setup game agent) s {}, rfl⟩
  | merge h other ih ih' => exact Session.merge_rooted ih ih'

/-- What holds of a new tree and is kept by iterations, permits, moves of the root and sums holds
of the tree of a history. -/
theorem root_induction {J : Tree σ μ V → Prop}
    (start : ∀ (p : Setup σ μ α V) s, J (p.unvisited s {}))
    (iterate : ∀ (p : Setup σ μ α V), p.game = game → p.agent = agent →
      ∀ (locking : Locking) (δ : Type) [RandomSource δ],
        Session.Keeps p locking δ (fun t => t.Rooted p.game p.agent ∧ J t) fun _ _ => True)
    (permit : ∀ t busy path, J t → J (t.relabel (fun n => { n with busy := busy }) path))
    (move : ∀ t c u : Tree σ μ V, c ∈ t.children → u ∈ c.children → J t → J u)
    (merge : ∀ t u, t.Rooted game agent → u.Rooted game agent → t.label.role = u.label.role →
      J t → J u → J (TreeSearch.merge t u))
    (h : History σ μ V γ) : J (h.session game agent).root := by
  induction h with
  | start o s seed => exact start _ s
  | iterate h locking g ih =>
    exact (iterate (h.setup game agent) rfl rfl locking _
      { h.session game agent with rng := g } ⟨h.rooted, ih⟩ trivial).2
  | run h n ih =>
    rw [session, Session.runIterations_root]
    exact (Session.repeatIterations_keeps (iterate (h.setup game agent) rfl rfl .exclusive γ) n
      ⟨h.rooted, ih⟩ fun _ _ => trivial).2
  | search h i ih =>
    rw [session, Session.searchUntil_root]
    split
    · exact ih
    · exact (Session.iterateUntil_keeps (iterate (h.setup game agent) rfl rfl .exclusive γ) _ 0
        ⟨h.rooted, ih⟩ fun _ _ => trivial).2
  | permit h busy path ih => exact permit _ busy path ih
  | updateRoot h s ih =>
    have hmoved := (h.session game agent).updateRoot_cases (h.setup game agent) s
    unfold session
    generalize (h.session game agent).updateRoot (h.setup game agent) s = y at hmoved ⊢
    cases hmoved with
    | unchanged => exact ih
    | reused hc ht => exact move _ _ _ hc ht ih
    | rebuilt => exact start _ s
  | setRoot h s ih => exact start _ s
  | merge h other ih ih' =>
    simp only [session, Session.merge]
    split
    · rename_i hstate
      have hrole := Node.role_eq_iff.2 ⟨h.rooted.2.trans other.rooted.2.symm, hstate⟩
      exact merge _ _ h.rooted other.rooted hrole ih ih'
    · exact ih

end History

/-! ## What the shape means for a node -/

section

variable {σ μ α V : Type} [DecidableEq σ] {game : Game σ μ α} {agent : α} {t : Tree σ μ V}

/-- A node of a search tree and its children, read off the rules of the game. -/
structure Conforms (game : Game σ μ α) (agent : α) (t : Tree σ μ V) : Prop where
  terminal_max : t.label.kind = .max → t.label.terminal = game.terminal t.state
  expanded_max : t.label.kind = .max → t.label.expanded = true →
    ∃ moves, game.legalMoves t.state agent = .ok moves ∧
      t.children.map (fun c => (c.label.kind, c.state, c.label.terminal, c.label.expanded)) =
        moves.map fun action => (.min action, t.state, false, true)
  children_min : ∀ action, t.label.kind = .min action → t.children ≠ [] ∧
    ∃ (joints : List (JointMove μ)) (states : List σ),
      game.replies t.state agent action = .ok joints ∧
      joints.map (game.next t.state) = states.map .ok ∧
      t.children.map (fun c => (c.label.kind, c.state)) = states.eraseDups.map fun s => (.max, s)
  terminal_bare : t.label.terminal = true → t.children = []
  unexpanded_bare : t.label.expanded = false → t.children = []
  max_of_bare : t.children = [] → t.label.kind = .max

/-- The children of an expanded max node are ready for their first visit. -/
theorem committed_of_roles {s : σ} {cs : List (Tree σ μ V)} {moves : List μ}
    (hcs : ∀ c ∈ cs, Formed game agent c)
    (hroles : cs.map (·.label.role) = moves.map fun action => (.min action, s)) :
    cs.map (fun c => (c.label.kind, c.state, c.label.terminal, c.label.expanded)) =
      moves.map fun action => (.min action, s, false, true) := by
  have hflags : ∀ c ∈ cs, c.label.terminal = false ∧ c.label.expanded = true := by
    intro c hc
    have hmem : c.label.role ∈ cs.map (·.label.role) := List.mem_map_of_mem hc
    obtain ⟨action, _, hrole⟩ := List.mem_map.1 (hroles ▸ hmem)
    have hmin : Kind.min action = c.label.kind := congrArg Prod.fst hrole
    cases hcs c hc with
    | bare hk => cases hmin.trans hk
    | choices hk => cases hmin.trans hk
    | outcomes _ hn he => exact ⟨hn, he⟩
  calc cs.map (fun c => (c.label.kind, c.state, c.label.terminal, c.label.expanded))
    _ = cs.map (fun c => (c.label.role.1, c.label.role.2, false, true)) :=
        List.map_congr_left fun c hc => by rw [(hflags c hc).1, (hflags c hc).2]; rfl
    _ = (cs.map (·.label.role)).map fun r => (r.1, r.2, false, true) := by rw [List.map_map]; rfl
    _ = moves.map fun action => (.min action, s, false, true) := by
        rw [hroles, List.map_map]
        rfl

theorem Tree.Shaped.conforms (h : t.Shaped game agent) : Conforms game agent t := by
  obtain ⟨n, cs⟩ := t
  have hempty := h.here.isEmpty_iff
  cases h.here with
  | bare hk ht he =>
    exact
      { terminal_max := fun _ => ht
        expanded_max := fun _ h => by cases he.symm.trans h
        children_min := fun _ h => by cases hk.symm.trans h
        terminal_bare := fun _ => rfl
        unexpanded_bare := fun _ => rfl
        max_of_bare := fun _ => hk }
  | choices hk hn hg he hm hne hroles =>
    exact
      { terminal_max := fun _ => hn.trans hg.symm
        expanded_max := fun _ _ =>
          ⟨_, hm, committed_of_roles (fun c hc => (h.child hc).here) hroles⟩
        children_min := fun _ h => by cases hk.symm.trans h
        terminal_bare := fun h => by cases hn.symm.trans h
        unexpanded_bare := fun h => by cases he.symm.trans h
        max_of_bare := fun _ => hk }
  | outcomes hk hn he ho hne hroles =>
    have hcs : cs ≠ [] := by simpa [he] using hempty
    obtain ⟨joints, hj, hs⟩ := ho
    exact
      { terminal_max := fun h => by cases hk.symm.trans h
        expanded_max := fun h _ => by cases hk.symm.trans h
        children_min := fun action h => by
          cases hk.symm.trans h
          exact ⟨hcs, joints, _, hj, hs, hroles⟩
        terminal_bare := fun h => by cases hn.symm.trans h
        unexpanded_bare := fun h => by cases he.symm.trans h
        max_of_bare := fun h => absurd h hcs }

end

/-- Every node of every tree is as the rules of the game say. -/
theorem History.every_node_conforms {σ μ α V γ : Type} [Utility V] [RandomSource γ] [DecidableEq σ]
    [DecidableEq μ] (game : Game σ μ α) (agent : α) (h : History σ μ V γ) :
    (h.session game agent).root.label.kind = .max ∧
      ∀ path t, (h.session game agent).root.get? path = some t → Conforms game agent t := by
  refine ⟨h.rooted.2, fun path t ht => ?_⟩
  exact Tree.Shaped.conforms (h.rooted.1.get? ht)

end GameSearch.TreeSearch
