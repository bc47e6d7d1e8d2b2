import GameSearch.Proofs.TreeSearch.Balance
import GameSearch.Proofs.TreeSearch.History
import GameSearch.Proofs.TreeSearch.Pairing
import GameSearch.Proofs.TreeSearch.Progress
import GameSearch.Random.Keystream

/-!
# GameSearch.Proofs.TreeSearch.VisitFlow

The visits of a node and of its children, after all that can happen to a session. The weight of
a history counts the trees that were added up in its tree.

* `merge_balanced`: the balances of two trees add up when the trees do.
* `History.fits_induction`: the induction over a history in which no count goes round.
* `History.balanced`: the tree of a history is balanced by its weight, while no count at a root
  goes round.
* `History.visit_flow`: the same, spelled out for each node and all that is below it.
-/

namespace GameSearch.TreeSearch

variable {σ μ α V γ : Type} {t u : Tree σ μ V} {w v : Nat}

theorem Balanced.branched (h : Balanced w t) : Branched t := fun hvisited hn =>
  (h.visited hvisited hn).1

/-! ## Merged trees -/

theorem Balanced.add {sum : Tree σ μ V} (h : Balanced w t) (h' : Balanced v u)
    (hvisits : sum.visits = t.visits + u.visits)
    (hchildren : sum.childVisits = t.childVisits + u.childVisits)
    (hterminal : sum.label.terminal = t.label.terminal)
    (hterminal' : sum.label.terminal = u.label.terminal)
    (hnil : sum.children = [] → t.children = [] ∧ u.children = []) : Balanced (w + v) sum := by
  have hle := h.le
  have hle' := h'.le
  refine ⟨by omega, fun hvisited hn => ?_⟩
  have hours := fun ht : t.visits ≠ 0 => h.visited ht (hterminal ▸ hn)
  have htheirs := fun hu : u.visits ≠ 0 => h'.visited hu (hterminal' ▸ hn)
  by_cases ht : t.visits = 0
  · obtain ⟨hne, hlt, hbound⟩ := htheirs (by omega)
    exact ⟨fun hsum => hne (hnil hsum).2, by omega, by omega⟩
  · obtain ⟨hne, hlt, hbound⟩ := hours ht
    refine ⟨fun hsum => hne (hnil hsum).1, by omega, ?_⟩
    by_cases hu : u.visits = 0
    · omega
    · have := (htheirs hu).2.2
      omega

@[simp] theorem graft_visits (home : Home) (t : Tree σ μ V) :
    (graft home t).visits = t.visits := by
  cases t
  rfl

theorem childVisits_graftAll {n m : Node σ μ V} {cs : List (Tree σ μ V)} (parent : Home)
    (i : Nat) : (Tree.node m (graftAll parent i cs)).childVisits = (Tree.node n cs).childVisits :=
  congrArg List.sum (map_graftAll graft_visits parent i cs)

variable [Utility V]

theorem Steady.graft {P : Tree σ μ V → Prop} (hP : Steady P) (h : t.Every P) (home : Home) :
    (graft home t).Every P := by
  induction h generalizing home with
  | @node n cs h _ ih =>
    rw [graft_node]
    have hcopy : P (.node n (graftAll home 0 cs)) := by
      refine hP.reads (map_graftAll ?_ home 0 cs) h
      exact fun home c => by cases c; rfl
    refine .node (hP.flags _ false home hcopy) fun c hc => ?_
    obtain ⟨k, d, hd, rfl⟩ := mem_graftAll hc
    exact ih d hd _

theorem visits_absorb {n m k : Node σ μ V} {ours theirs : List (Tree σ μ V)}
    (cs : List (Tree σ μ V)) (hk : k.stats = n.stats.absorb m.stats)
    (hroom : (Tree.node n ours).visits + (Tree.node m theirs).visits < 2 ^ 32) :
    (Tree.node k cs).visits = (Tree.node n ours).visits + (Tree.node m theirs).visits := by
  rw [Tree.visits, Tree.label, hk]
  exact toNat_add_of_lt hroom

variable [DecidableEq σ] [DecidableEq μ]

theorem merge_visits (hroom : t.visits + u.visits < 2 ^ 32) :
    (merge t u).visits = t.visits + u.visits := by
  obtain ⟨n, ours⟩ := t
  obtain ⟨m, theirs⟩ := u
  rw [merge_node]
  exact visits_absorb _ rfl hroom

theorem childVisits_zipWith {n m k : Node σ μ V} {ours theirs : List (Tree σ μ V)}
    (hlength : ours.length = theirs.length)
    (h : ∀ a b, (a, b) ∈ ours.zip theirs → (merge a b).visits = a.visits + b.visits) :
    (Tree.node k (List.zipWith merge ours theirs)).childVisits =
      (Tree.node n ours).childVisits + (Tree.node m theirs).childVisits := by
  simp only [Tree.childVisits, Tree.children]
  induction ours generalizing theirs with
  | nil =>
    obtain rfl : theirs = [] := List.length_eq_zero_iff.1 hlength.symm
    rfl
  | cons a ours ih =>
    cases theirs with
    | nil => cases hlength
    | cons b theirs =>
      have hhead := h a b List.mem_cons_self
      have htail := ih (Nat.succ.inj hlength) fun a' b' hab => h a' b' (List.mem_cons_of_mem _ hab)
      simp only [List.zipWith_cons_cons, List.map_cons, List.sum_cons, hhead, htail]
      omega

variable {game : Game σ μ α} {agent : α}

theorem merge_balanced (hgame : Unrepeated game agent) (ht : t.Shaped game agent)
    (hu : u.Shaped game agent) (hrole : t.label.role = u.label.role) :
    t.Every (Balanced w) → u.Every (Balanced v) → t.visits + u.visits < 2 ^ 32 →
      (merge t u).Every (Balanced (w + v)) ∧ (merge t u).visits = t.visits + u.visits := by
  refine merge_induction (R := fun t u sum => t.Every (Balanced w) → u.Every (Balanced v) →
    t.visits + u.visits < 2 ^ 32 → sum.Every (Balanced (w + v)) ∧
      sum.visits = t.visits + u.visits) hgame ?copied ?kept ?paired ht hu hrole
  case copied =>
    intro n m theirs hrole hours htheirs hb hb' hroom
    have hvisits := visits_absorb (k := { n.absorb m.stats with expanded := m.expanded })
      (graftAll n.home 0 theirs) rfl hroom
    refine ⟨.node (hb.here.add hb'.here hvisits ?_ rfl
      (hours.here.terminal_eq_of_role_eq htheirs.here hrole) ?_) ?_, hvisits⟩
    · rw [childVisits_graftAll (n := m)]
      exact (Nat.zero_add _).symm
    · exact fun hnil => ⟨rfl, graftAll_eq_nil.1 hnil⟩
    · intro c hc
      obtain ⟨k, d, hd, rfl⟩ := mem_graftAll hc
      exact ((balanced_steady v).graft (hb'.child hd) _).imp fun _ h => h.mono (Nat.le_add_left v w)
  case kept =>
    intro n m ours hrole hours htheirs hb hb' hroom
    have hvisits := visits_absorb (k := n.absorb m.stats) ours rfl hroom
    refine ⟨.node (hb.here.add hb'.here hvisits rfl rfl
      (hours.here.terminal_eq_of_role_eq htheirs.here hrole) fun hnil => ⟨hnil, rfl⟩) ?_, hvisits⟩
    exact fun c hc => (hb.child hc).imp fun _ h => h.mono (Nat.le_add_right w v)
  case paired =>
    intro n m ours theirs hrole hours htheirs hroles ih hb hb' hroom
    have hvisits := visits_absorb (k := n.absorb m.stats) (List.zipWith merge ours theirs) rfl hroom
    have hlength : ours.length = theirs.length := by
      simpa using (congrArg List.length hroles).symm
    have hpair : ∀ a b, (a, b) ∈ ours.zip theirs →
        (merge a b).Every (Balanced (w + v)) ∧ (merge a b).visits = a.visits + b.visits := by
      intro a b hab
      obtain ⟨ha, hb₁⟩ := List.of_mem_zip hab
      refine ih a b hab (hb.child ha) (hb'.child hb₁) ?_
      have := visits_le_childVisits (t := .node n ours) ha
      have := visits_le_childVisits (t := .node m theirs) hb₁
      have := hb.here.le
      have := hb'.here.le
      omega
    refine ⟨.node (hb.here.add hb'.here hvisits ?_ rfl
      (hours.here.terminal_eq_of_role_eq htheirs.here hrole) ?_) ?_, hvisits⟩
    · exact childVisits_zipWith hlength fun a b hab => (hpair a b hab).2
    · intro hnil
      rcases List.zipWith_eq_nil_iff.1 hnil with rfl | rfl
      · exact ⟨rfl, List.length_eq_zero_iff.1 hlength.symm⟩
      · exact ⟨List.length_eq_zero_iff.1 hlength, rfl⟩
    · intro c hc
      rw [← List.map_uncurry_zip_eq_zipWith] at hc
      obtain ⟨⟨a, b⟩, hab, rfl⟩ := List.mem_map.1 hc
      exact (hpair a b hab).1

theorem room_of_absorb (h : Grows t (merge t u)) : t.visits + u.visits < 2 ^ 32 := by
  have hsum : (merge t u).label.visits = t.label.visits + u.label.visits := by
    cases t
    cases u
    rw [merge_node]
    rfl
  rw [Grows, hsum, UInt32.le_iff_toNat_le, UInt32.toNat_add] at h
  have := t.label.visits.toNat_lt
  have := u.label.visits.toNat_lt
  rw [Tree.visits_eq, Tree.visits_eq]
  omega

/-! ## Histories -/

namespace History

variable [RandomSource γ]

/-- How many trees were added up in the tree of a history. A tree that is started anew counts
once again. -/
def weight (game : Game σ μ α) (agent : α) : History σ μ V γ → Nat
  | start _ _ _ => 1
  | iterate h _ _ => h.weight game agent
  | run h _ => h.weight game agent
  | search h _ => h.weight game agent
  | permit h _ _ => h.weight game agent
  | updateRoot h s =>
    match ((h.session game agent).updateRoot (h.setup game agent) s).1 with
    | .rebuilt => 1
    | _ => h.weight game agent
  | setRoot _ _ => 1
  | merge h other =>
    if (h.session game agent).root.state = (other.session game agent).root.state then
      h.weight game agent + other.weight game agent
    else h.weight game agent

/-- No step makes the count of visits at the root go round. A run and a search are looked at one
iteration after the other. -/
def Fits (game : Game σ μ α) (agent : α) : History σ μ V γ → Prop
  | start _ _ _ => True
  | iterate h locking g =>
    h.Fits game agent ∧
      Grows (h.session game agent).root ((h.iterate locking g).session game agent).root
  | run h n =>
    h.Fits game agent ∧ ∀ m < n,
      Grows ((h.run m).session game agent).root ((h.run (m + 1)).session game agent).root
  | search h i =>
    h.Fits game agent ∧ ((h.session game agent).root.label.terminal = false →
      ∀ m < h.options.patience,
        Grows (Session.iterateUntil (h.setup game agent) .exclusive i m 0
            (h.session game agent)).2.root
          (Session.iterateUntil (h.setup game agent) .exclusive i (m + 1) 0
            (h.session game agent)).2.root)
  | permit h _ _ => h.Fits game agent
  | updateRoot h _ => h.Fits game agent
  | setRoot h _ => h.Fits game agent
  | merge h other =>
    h.Fits game agent ∧ other.Fits game agent ∧
      Grows (h.session game agent).root ((h.merge other).session game agent).root

theorem weight_pos (h : History σ μ V γ) : 1 ≤ h.weight game agent := by
  induction h with
  | start => exact Nat.le_refl 1
  | iterate _ _ _ ih => exact ih
  | run _ _ ih => exact ih
  | search _ _ ih => exact ih
  | permit _ _ _ ih => exact ih
  | updateRoot h s ih =>
    unfold weight
    split
    · exact Nat.le_refl 1
    · exact ih
  | setRoot => exact Nat.le_refl 1
  | merge h other ih ih' =>
    unfold weight
    split
    · omega
    · exact ih

/-- What holds of a new tree and is kept by iterations, permits, moves of the root and sums holds
of the tree of a history, while no count at a root goes round. It may depend on the weight. -/
theorem fits_induction {J : Nat → Tree σ μ V → Prop}
    (start : ∀ (p : Setup σ μ α V), p.game = game → p.agent = agent → ∀ s, J 1 (p.unvisited s {}))
    (iterate : ∀ (p : Setup σ μ α V), p.game = game → p.agent = agent →
      ∀ (locking : Locking) (δ : Type) [RandomSource δ] (w : Nat), 1 ≤ w →
        Session.Keeps p locking δ (fun t => t.Rooted p.game p.agent ∧ J w t) Grows)
    (permit : ∀ w t busy path, J w t → J w (t.relabel (fun n => { n with busy := busy }) path))
    (move : ∀ w (t c u : Tree σ μ V), c ∈ t.children → u ∈ c.children → J w t → J w u)
    (merge : ∀ w v t u, t.Rooted game agent → u.Rooted game agent →
      t.label.role = u.label.role → Grows t (TreeSearch.merge t u) → J w t → J v u →
        J (w + v) (TreeSearch.merge t u))
    (h : History σ μ V γ) (hfits : h.Fits game agent) :
    J (h.weight game agent) (h.session game agent).root := by
  induction h with
  | start o s seed => exact start _ rfl rfl s
  | iterate h locking g ih =>
    exact (iterate (h.setup game agent) rfl rfl locking _ _ (weight_pos h)
      { h.session game agent with rng := g } ⟨h.rooted, ih hfits.1⟩ hfits.2).2
  | run h n ih =>
    obtain ⟨hfits, hgrows⟩ := hfits
    simp only [session, Session.runIterations_root] at hgrows ⊢
    have hpos : 1 ≤ h.weight game agent := weight_pos h
    have hstep := iterate (h.setup game agent) rfl rfl .exclusive γ _ hpos
    exact (Session.repeatIterations_keeps hstep n ⟨h.rooted, ih hfits⟩ hgrows).2
  | search h i ih =>
    rw [session, Session.searchUntil_root]
    split
    · exact ih hfits.1
    · rename_i hn
      have hpos : 1 ≤ h.weight game agent := weight_pos h
      have hstep := iterate (h.setup game agent) rfl rfl .exclusive γ _ hpos
      exact (Session.iterateUntil_keeps hstep _ 0 ⟨h.rooted, ih hfits.1⟩
        (hfits.2 (Bool.eq_false_iff.2 hn))).2
  | permit h busy path ih => exact permit _ _ busy path (ih hfits)
  | updateRoot h s ih =>
    have hmoved := (h.session game agent).updateRoot_cases (h.setup game agent) s
    unfold session weight
    generalize (h.session game agent).updateRoot (h.setup game agent) s = y at hmoved ⊢
    cases hmoved with
    | unchanged => exact ih hfits
    | reused hc ht => exact move _ _ _ _ hc ht (ih hfits)
    | rebuilt => exact start _ rfl rfl s
  | setRoot h s ih => exact start _ rfl rfl s
  | merge h other ih ih' =>
    obtain ⟨hfits, hfits', hgrows⟩ := hfits
    simp only [session, weight, Session.merge] at hgrows ⊢
    by_cases hstate : (h.session game agent).root.state = (other.session game agent).root.state
    · simp only [if_pos hstate] at hgrows ⊢
      have hrole := Node.role_eq_iff.2 ⟨h.rooted.2.trans other.rooted.2.symm, hstate⟩
      exact merge _ _ _ _ h.rooted other.rooted hrole hgrows (ih hfits) (ih' hfits')
    · simp only [if_neg hstate]
      exact ih hfits

theorem balanced (hgame : Unrepeated game agent) (h : History σ μ V γ)
    (hfits : h.Fits game agent) :
    (h.session game agent).root.Every (Balanced (h.weight game agent)) := by
  refine fits_induction (J := fun w t => t.Every (Balanced w)) ?start ?iterate ?permit ?move ?merge
    h hfits
  case start => exact fun p _ _ s => (balanced_steady 1).every_fresh (p.unvisited_fresh s {})
  case iterate => exact fun p _ _ locking δ _ w hw => Session.iterate_balanced hw
  case permit => exact fun w t busy path hb => (balanced_steady w).relabel_busy hb
  case move => exact fun w t c u hc hu hb => (hb.child hc).child hu
  case merge =>
    intro w v t u ht hu hrole hgrows hb hb'
    exact (merge_balanced hgame ht.1 hu.1 hrole hb hb' (room_of_absorb hgrows)).1

/-- Each visit of a node but its first went on to a child, with one first visit for each tree
that was added. Nothing below an unvisited node was visited. -/
theorem visit_flow (hgame : Unrepeated game agent) (h : History σ μ V γ)
    (hfits : h.Fits game agent) :
    ∀ path t, (h.session game agent).root.get? path = some t →
      (t.visits ≠ 0 → t.label.terminal = false →
        t.label.expanded = true ∧ t.children ≠ [] ∧ t.childVisits + 1 ≤ t.visits ∧
          t.visits ≤ t.childVisits + h.weight game agent) ∧
      (t.visits = 0 → ∀ below u, t.get? below = some u → u.visits = 0) := by
  intro path t ht
  have hflow := (h.balanced hgame hfits).get? ht
  have hformed := (h.rooted.1.get? ht).here
  refine ⟨fun hvisited hn => ?_, fun hunvisited _ _ hu => unvisited_below hflow hunvisited hu⟩
  obtain ⟨hne, hlt, hle⟩ := hflow.here.visited hvisited hn
  exact ⟨hformed.expanded_iff.2 hne, hne, hlt, hle⟩

/-- Two short searches of a position with two open cells, added up: at the root and at its
children two visits are missing. -/
theorem visit_flow_sum :
    let o : Options Float := ⟨⟨fun _ _ _ => 0, fun _ _ _ => List.length_pos_iff.2⟩, 1, 10⟩
    let s := TicTacToe.Position.ofBoard #v[1, 2, 1, 1, 2, 2, 0, 1, 0]
    let h : History TicTacToe.Position TicTacToe.Action Float Keystream :=
      .merge (.run (.start o s 7) 3) (.run (.start o s 11) 2)
    Unrepeated TicTacToe.game .o ∧ h.Fits TicTacToe.game .o ∧
      (h.session TicTacToe.game .o).root.visits = 5 ∧
      (h.session TicTacToe.game .o).root.children.map Tree.visits = [2, 1] ∧
      ∀ path t, (h.session TicTacToe.game .o).root.get? path = some t → t.visits ≠ 0 →
        t.label.terminal = false → t.visits ≤ t.childVisits + 2 := by
  intro o s h
  have hgame := unrepeated_ticTacToe .o
  have hfits : h.Fits TicTacToe.game .o := by
    refine ⟨⟨trivial, ?_⟩, ⟨trivial, ?_⟩, ?_⟩ <;> decide +kernel
  have hcounts : h.weight TicTacToe.game .o = 2 ∧
      (h.session TicTacToe.game .o).root.visits = 5 ∧
      (h.session TicTacToe.game .o).root.children.map Tree.visits = [2, 1] := by decide +kernel
  refine ⟨hgame, hfits, hcounts.2.1, hcounts.2.2, ?_⟩
  intro path t ht hvisited hn
  have hflow := (visit_flow hgame h hfits path t ht).1 hvisited hn
  exact hcounts.1 ▸ hflow.2.2.2

end History

end GameSearch.TreeSearch
