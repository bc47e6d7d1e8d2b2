import GameSearch.Proofs.TreeSearch.Everywhere
import GameSearch.TreeSearch.Expansion

/-!
# GameSearch.Proofs.TreeSearch.Shape

The shape that the rules of the game give to a search tree. `Formed` is the property of one
node: a max node without children that is not expanded, an expanded max node with a min node
for each legal move, or a min node with a max node for each state that the replies lead to. Of
the children it reads only their roles, so it is local (`formed_reads`).

`expand_cases` says what expansion does to a node of a well-formed tree: nothing, or it gives
an unexpanded max node all its children at once. The children are well-formed and nobody has
visited anything in them (`choices_ok`).
-/

namespace GameSearch.TreeSearch

variable {σ μ α V : Type}

theorem Kind.isMax_iff {k : Kind μ} : k.isMax = true ↔ k = .max := by
  cases k <;> simp [isMax]

def Node.role (n : Node σ μ V) : Kind μ × σ := (n.kind, n.state)

theorem Node.role_eq_iff {n m : Node σ μ V} :
    n.role = m.role ↔ n.kind = m.kind ∧ n.state = m.state := by
  simp [role]

/-- The states that the replies to a move lead to, one for each reply. -/
def Outcomes (game : Game σ μ α) (agent : α) (s : σ) (action : μ) (states : List σ) : Prop :=
  ∃ joints, game.replies s agent action = .ok joints ∧
    joints.map (game.next s) = states.map .ok

section

variable [DecidableEq σ]

/-- A node and the roles of its children are as the rules of the game say. -/
inductive Formed (game : Game σ μ α) (agent : α) : Tree σ μ V → Prop where
  | bare {n : Node σ μ V} : n.kind = .max → n.terminal = game.terminal n.state →
      n.expanded = false → Formed game agent (.node n [])
  | choices {n : Node σ μ V} {cs : List (Tree σ μ V)} {moves : List μ} : n.kind = .max →
      n.terminal = false → game.terminal n.state = false → n.expanded = true →
      game.legalMoves n.state agent = .ok moves → moves ≠ [] →
      cs.map (·.label.role) = moves.map (fun action => (.min action, n.state)) →
      Formed game agent (.node n cs)
  | outcomes {n : Node σ μ V} {cs : List (Tree σ μ V)} {action : μ} {states : List σ} :
      n.kind = .min action → n.terminal = false → n.expanded = true →
      Outcomes game agent n.state action states → states ≠ [] →
      cs.map (·.label.role) = states.eraseDups.map (fun s => (.max, s)) →
      Formed game agent (.node n cs)

abbrev Tree.Shaped (game : Game σ μ α) (agent : α) (t : Tree σ μ V) : Prop :=
  t.Every (Formed game agent)

/-- The tree of a session: its root is a max node. -/
def Tree.Rooted (game : Game σ μ α) (agent : α) (t : Tree σ μ V) : Prop :=
  t.Shaped game agent ∧ t.label.kind = .max

variable {game : Game σ μ α} {agent : α}

theorem formed_reads : Tree.Reads Node.role (Formed (V := V) game agent) := by
  intro n cs cs' hcs h
  cases h with
  | bare hk ht he =>
    obtain rfl : cs' = [] := by simpa using hcs
    exact .bare hk ht he
  | choices hk ht hg he hm hne hroles => exact .choices hk ht hg he hm hne (hcs.trans hroles)
  | outcomes hk ht he ho hne hroles => exact .outcomes hk ht he ho hne (hcs.trans hroles)

theorem Formed.congr {n m : Node σ μ V} {cs : List (Tree σ μ V)}
    (h : Formed game agent (.node n cs)) (hrole : m.role = n.role)
    (hterminal : m.terminal = n.terminal) (hexpanded : m.expanded = n.expanded) :
    Formed game agent (.node m cs) := by
  obtain ⟨hk, hs⟩ : m.kind = n.kind ∧ m.state = n.state := by simpa [Node.role] using hrole
  cases h with
  | bare h₁ h₂ h₃ => exact .bare (hk ▸ h₁) (by rw [hterminal, hs, h₂]) (by rw [hexpanded, h₃])
  | choices h₁ h₂ h₃ h₄ h₅ h₆ h₇ =>
    rw [← hs] at h₃ h₅ h₇
    exact .choices (hk ▸ h₁) (hterminal ▸ h₂) h₃ (hexpanded ▸ h₄) h₅ h₆ h₇
  | outcomes h₁ h₂ h₃ h₄ h₅ h₆ =>
    rw [← hs] at h₄
    exact .outcomes (hk ▸ h₁) (hterminal ▸ h₂) (hexpanded ▸ h₃) h₄ h₅ h₆

theorem Formed.isEmpty_iff {n : Node σ μ V} {cs : List (Tree σ μ V)} (h : Formed game agent (.node n cs)) :
    cs.isEmpty = !n.expanded := by
  cases h with
  | bare _ _ he => simp [he]
  | choices _ _ _ he _ hne hroles =>
    have hcs : cs ≠ [] := by rintro rfl; exact hne (by simpa using hroles.symm)
    simp [he, hcs]
  | @outcomes _ _ _ states _ _ he _ hne hroles =>
    have hcs : cs ≠ [] := by
      rintro rfl
      obtain ⟨s, hs⟩ := List.exists_mem_of_ne_nil states hne
      have : s ∈ states.eraseDups := List.mem_eraseDups.2 hs
      simp_all
    simp [he, hcs]

theorem Formed.expanded_iff {t : Tree σ μ V} (h : Formed game agent t) :
    t.label.expanded = true ↔ t.children ≠ [] := by
  obtain ⟨n, cs⟩ := t
  have hempty := h.isEmpty_iff
  cases hn : n.expanded <;> simp_all [Tree.label, Tree.children]

theorem Formed.not_terminal {t u : Tree σ μ V} (h : Formed game agent t) (hu : u ∈ t.children) :
    t.label.terminal = false := by
  cases h with
  | bare => cases hu
  | choices _ hn => exact hn
  | outcomes _ hn => exact hn

theorem Formed.child_state {t u : Tree σ μ V} (h : Formed game agent t) (hu : u ∈ t.children) :
    u.label.kind = .max ∨ u.label.state = t.label.state := by
  have hmem : u.label.role ∈ t.children.map (·.label.role) := List.mem_map_of_mem hu
  cases h with
  | bare => cases hu
  | choices _ _ _ _ _ _ hroles =>
    obtain ⟨action, _, h⟩ := List.mem_map.1 (hroles ▸ hmem)
    exact .inr (congrArg Prod.snd h).symm
  | outcomes _ _ _ _ _ hroles =>
    obtain ⟨s, _, h⟩ := List.mem_map.1 (hroles ▸ hmem)
    exact .inl (congrArg Prod.fst h).symm

theorem Formed.child_isMax {t u : Tree σ μ V} (h : Formed game agent t) (hu : u ∈ t.children) :
    u.label.kind.isMax = !t.label.kind.isMax := by
  have hmem : u.label.role ∈ t.children.map (·.label.role) := List.mem_map_of_mem hu
  cases h with
  | bare => cases hu
  | choices hk _ _ _ _ _ hroles =>
    obtain ⟨action, _, h⟩ := List.mem_map.1 (hroles ▸ hmem)
    have hchild : Kind.min action = u.label.kind := congrArg Prod.fst h
    rw [← hchild, Tree.label, hk]
    rfl
  | outcomes hk _ _ _ _ hroles =>
    obtain ⟨s, _, h⟩ := List.mem_map.1 (hroles ▸ hmem)
    have hchild : Kind.max = u.label.kind := congrArg Prod.fst h
    rw [← hchild, Tree.label, hk]
    rfl

end

/-! ## Expansion -/

/-- Nobody has visited anything in the tree and no permit in it is held. -/
abbrev Tree.Fresh [Utility V] (t : Tree σ μ V) : Prop :=
  t.Every fun u => u.label.stats = .none ∧ u.label.busy = false

namespace Setup

variable {p : Setup σ μ α V} {s : σ}

theorem nextStates_ok {joints : List (JointMove μ)} {states : List σ}
    (h : p.nextStates s joints = .ok states) : joints.map (p.game.next s) = states.map .ok := by
  induction joints generalizing states with
  | nil => cases h; rfl
  | cons joint rest ih =>
    simp only [nextStates] at h
    split at h
    · cases h
    · rename_i s' hs
      split at h
      · cases h
      · rename_i states' hrest
        cases h
        simp [hs, ih hrest]

variable [Utility V]

theorem unvisited_fresh (p : Setup σ μ α V) (s : σ) (home : Home) : (p.unvisited s home).Fresh :=
  .node ⟨rfl, rfl⟩ (by simp)

variable [DecidableEq σ]

theorem unvisited_shaped (p : Setup σ μ α V) (s : σ) (home : Home) :
    (p.unvisited s home).Shaped p.game p.agent :=
  .node (.bare rfl rfl rfl) (by simp)

theorem outcomes_ok {home : Home} {action : μ} {asked : Nat} {ts : List (Tree σ μ V)}
    (h : p.outcomes home s action = .ok (asked, ts)) :
    ∃ states, Outcomes p.game p.agent s action states ∧ states ≠ [] ∧
      ts = states.eraseDups.mapIdx fun i s' => p.unvisited s' (home.child i) := by
  unfold outcomes at h
  split at h
  · cases h
  · rename_i joints hj
    split at h
    · cases h
    · rename_i states hs
      split at h
      · cases h
      · rename_i hd
        cases h
        refine ⟨states, ⟨joints, hj, nextStates_ok hs⟩, ?_, rfl⟩
        rintro rfl
        exact hd rfl

/-- What expansion makes of a move: a min node that is expanded when it is made. -/
inductive Committed (p : Setup σ μ α V) (s : σ) (home : Home) : Tree σ μ V → Prop where
  | node {action : μ} {states : List σ} : Outcomes p.game p.agent s action states → states ≠ [] →
      Committed p s home (.node { Node.fresh (.min action) s false home with expanded := true }
        (states.eraseDups.mapIdx fun i s' => p.unvisited s' (home.child i)))

section

variable {home : Home} {t : Tree σ μ V}

theorem Committed.shaped (h : p.Committed s home t) : t.Shaped p.game p.agent := by
  obtain ⟨houtcomes, hne⟩ := h
  refine .node (.outcomes rfl rfl rfl houtcomes hne ?_) fun c hc => ?_
  · refine List.ext_getElem? fun i => ?_
    simp [Node.role, unvisited, Tree.leaf, Tree.label, Node.fresh, Function.comp_def]
  · obtain ⟨i, _, rfl⟩ := List.mem_mapIdx.1 hc
    exact unvisited_shaped p _ _

theorem Committed.fresh (h : p.Committed s home t) : t.Fresh := by
  obtain ⟨houtcomes, hne⟩ := h
  refine .node ⟨rfl, rfl⟩ fun c hc => ?_
  obtain ⟨i, _, rfl⟩ := List.mem_mapIdx.1 hc
  exact unvisited_fresh p _ _

theorem expandMin_fresh_ok {action : μ} {asked : Nat}
    (h : p.expandMin action (.fresh (.min action) s false home) [] = .ok (asked, t)) :
    p.Committed s home t ∧ t.label.role = (.min action, s) := by
  simp only [expandMin, Node.expandWith, Node.fresh, Bool.false_eq_true, ↓reduceIte] at h
  split at h
  · cases h
  · rename_i hexp
    split at hexp
    · cases hexp
    · rename_i hout
      cases hexp
      cases h
      obtain ⟨states, houtcomes, hne, rfl⟩ := outcomes_ok hout
      exact ⟨.node houtcomes hne, rfl⟩

theorem commitments_ok {i : Nat} {moves : List μ} {asked : Nat} {ts : List (Tree σ μ V)}
    (h : p.commitments home s i moves = .ok (asked, ts)) :
    ts.map (·.label.role) = moves.map (fun action => (.min action, s)) ∧
      ∀ k t, ts[k]? = some t → p.Committed s (home.child (i + k)) t := by
  induction moves generalizing i asked ts with
  | nil => cases h; simp
  | cons action rest ih =>
    simp only [commitments] at h
    split at h
    · cases h
    · rename_i t ht
      split at h
      · cases h
      · rename_i more ts' hrest
        cases h
        obtain ⟨hcommitted, hrole⟩ := expandMin_fresh_ok ht
        obtain ⟨hroles, hall⟩ := ih hrest
        refine ⟨by simp [hrole, hroles], fun k u hu => ?_⟩
        cases k with
        | zero =>
          cases hu
          exact hcommitted
        | succ k =>
          rw [← Nat.add_assoc, Nat.add_right_comm]
          exact hall k u hu

theorem choices_ok {asked : Nat} {ts : List (Tree σ μ V)}
    (h : p.choices home s = .ok (asked, ts)) :
    ∃ moves, p.game.legalMoves s p.agent = .ok moves ∧ moves ≠ [] ∧
      ts.map (·.label.role) = moves.map (fun action => (.min action, s)) ∧
      ∀ k t, ts[k]? = some t → p.Committed s (home.child k) t := by
  unfold choices at h
  split at h
  · cases h
  · cases h
  · rename_i moves hm hne
    obtain ⟨hroles, hall⟩ := commitments_ok h
    simp only [Nat.zero_add] at hall
    exact ⟨moves, hne, hm, hroles, hall⟩

end

/-- Expansion of a well-formed tree leaves it as it is or makes all children of its root. -/
theorem expand_cases {t grown : Tree σ μ V} {asked : Nat} (ht : t.Shaped p.game p.agent)
    (h : p.expand t = .ok (asked, grown)) :
    (grown = t ∧ (t.label.terminal = true ∨ t.label.expanded = true)) ∨
    (t.children = [] ∧ t.label.kind = .max ∧ t.label.terminal = false ∧
      t.label.expanded = false ∧ ∃ ts, p.choices t.label.home t.state = .ok (asked, ts) ∧
        grown = .node { t.label with expanded := true } ts) := by
  obtain ⟨n, cs⟩ := t
  unfold expand at h
  cases ht.here with
  | bare hk _ he =>
    cases hn : n.terminal with
    | true =>
      simp only [hn, ↓reduceIte] at h
      cases h
      exact .inl ⟨rfl, .inl hn⟩
    | false =>
      simp only [hn, hk, expandMax, Node.expandWith, he, Bool.false_eq_true, ↓reduceIte] at h
      split at h
      · cases h
      · rename_i hexp
        split at hexp
        · cases hexp
        · rename_i hchoices
          cases hexp
          cases h
          exact .inr ⟨rfl, hk, hn, he, _, hchoices, by simp only [Tree.label, hk, hn]⟩
  | choices hk hn _ he _ _ _ =>
    simp only [hn, hk, expandMax, Node.expandWith, he, Bool.false_eq_true, ↓reduceIte] at h
    cases h
    exact .inl ⟨rfl, .inr he⟩
  | outcomes hk hn he _ _ _ =>
    simp only [hn, hk, expandMin, Node.expandWith, he, Bool.false_eq_true, ↓reduceIte] at h
    cases h
    exact .inl ⟨rfl, .inr he⟩

theorem expand_shaped {t grown : Tree σ μ V} {asked : Nat} (ht : t.Shaped p.game p.agent)
    (h : p.expand t = .ok (asked, grown)) :
    grown.Shaped p.game p.agent ∧ grown.label.role = t.label.role := by
  rcases expand_cases ht h with ⟨rfl, _⟩ | ⟨hcs, hk, hn, _, ts, hchoices, rfl⟩
  · exact ⟨ht, rfl⟩
  · obtain ⟨moves, hm, hne, hroles, hall⟩ := choices_ok hchoices
    obtain ⟨n, cs⟩ := t
    have hg : p.game.terminal n.state = false := by
      cases ht.here with
      | bare _ hg _ => exact hg.symm.trans hn
      | choices _ _ hg _ _ _ _ => exact hg
      | outcomes hmin => cases hk.symm.trans hmin
    refine ⟨.node (.choices hk hn hg rfl hm hne hroles) fun c hc => ?_, rfl⟩
    obtain ⟨k, hk⟩ := List.getElem?_of_mem hc
    exact (hall k c hk).shaped

theorem grow_shaped {t u grown : Tree σ μ V} {asked : Nat} {path : Path}
    (ht : t.Shaped p.game p.agent) (hu : t.get? path = some u)
    (h : p.expand u = .ok (asked, grown)) :
    (t.modify (fun _ => grown) path).Shaped p.game p.agent ∧
      (t.modify (fun _ => grown) path).label.role = t.label.role := by
  obtain ⟨hshaped, hrole⟩ := expand_shaped (ht.get? hu) h
  have hnew : ∀ u', t.get? path = some u' → grown.label.role = u'.label.role := by
    intro u' hu'
    cases hu.symm.trans hu'
    exact hrole
  exact ⟨ht.modify formed_reads fun u' hu' => ⟨hshaped, hnew u' hu'⟩, Tree.view_modify hnew⟩

/-- After its expansion a node differs at most in the flag that says so, it is terminal or has
children, and children that it did not have before are fresh. -/
theorem expand_ready {t grown : Tree σ μ V} {asked : Nat} (ht : t.Shaped p.game p.agent)
    (h : p.expand t = .ok (asked, grown)) :
    (∃ e, grown.label = { t.label with expanded := e }) ∧
      (grown.label.terminal = true ∨ grown.children ≠ []) ∧
      (grown.children = t.children ∨ t.children = [] ∧ ∀ c ∈ grown.children, c.Fresh) := by
  rcases expand_cases ht h with ⟨rfl, hdone⟩ | ⟨hcs, _, _, _, ts, hchoices, rfl⟩
  · exact ⟨⟨_, rfl⟩, hdone.imp_right ht.here.expanded_iff.1, .inl rfl⟩
  · obtain ⟨moves, _, hne, hroles, hall⟩ := choices_ok hchoices
    have hts : ts ≠ [] := by
      rintro rfl
      exact hne (by simpa using hroles.symm)
    refine ⟨⟨true, rfl⟩, .inr hts, .inr ⟨hcs, fun c hc => ?_⟩⟩
    obtain ⟨k, hk⟩ := List.getElem?_of_mem hc
    exact (hall k c hk).fresh

end Setup

end GameSearch.TreeSearch
