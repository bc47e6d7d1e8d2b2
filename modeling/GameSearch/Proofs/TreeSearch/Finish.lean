import GameSearch.Proofs.TreeSearch.Accounting
import GameSearch.Proofs.TreeSearch.Answers
import GameSearch.Proofs.TreeSearch.Scale
import GameSearch.Proofs.TreeSearch.VisitOrder

/-!
# GameSearch.Proofs.TreeSearch.Finish

A search takes the move that ends the play best. Let one move end the play at once, with a goal that
none of the other moves leads to (`BestFinish`). The children of the root are visited in turn
(`InTurn`): none has a second visit before each has its first. So each has been visited when there
was one iteration for the root and one for each of the moves (`History.children_visited`). From then
on the mean at that move is its goal and all other means are less, however the search goes on.

* `History.takes_best_finish`: the means, the move that is chosen, and that the iterations do not
  fail where the rules have no gaps.
* `History.finish_goes_round`: it is otherwise once a count of visits has gone round.
-/

namespace GameSearch

/-- The move `a` ends the play with the goal `best`, and every play after another move ends with
less. -/
structure Game.BestFinish {σ μ α : Type} (game : Game σ μ α) (agent : α) (s : σ) (moves : List μ)
    (a : μ) (best : Int32) : Prop where
  goes_on : game.terminal s = false
  legal : game.legalMoves s agent = .ok moves
  mem : a ∈ moves
  ends : ∀ joints, game.replies s agent a = .ok joints → ∀ joint ∈ joints, ∀ s',
    game.next s joint = .ok s' → game.terminal s' = true ∧ game.goal s' agent = .ok best
  lesser : ∀ m ∈ moves, m ≠ a → ∀ joints, game.replies s agent m = .ok joints →
    ∀ joint ∈ joints, ∀ s', game.next s joint = .ok s' → ∀ t v,
      Relation.ReflTransGen (game.Ensues agent) s' t → game.terminal t = true →
        game.goal t agent = .ok v → v < best

namespace TreeSearch

variable {σ μ α V γ : Type} {t u c : Tree σ μ V} {target : Path} {w i : Nat}

/-! ## First visits -/

/-- No child is visited again before each of them has been visited. -/
def InTurn (t : Tree σ μ V) : Prop :=
  (∃ c ∈ t.children, c.visits = 0) → ∀ c ∈ t.children, c.visits ≤ 1

theorem InTurn.congr (h : InTurn t)
    (hsame : u.children.map Tree.visits = t.children.map Tree.visits) : InTurn u := by
  rintro ⟨c, hc, hzero⟩ d hd
  have hmem : ∀ e ∈ u.children, e.visits ∈ t.children.map Tree.visits := fun e he =>
    hsame ▸ List.mem_map_of_mem he
  obtain ⟨c', hc', hvisits⟩ := List.mem_map.1 (hmem c hc)
  obtain ⟨d', hd', hvisits'⟩ := List.mem_map.1 (hmem d hd)
  exact hvisits' ▸ h ⟨c', hc', hvisits.trans hzero⟩ d' hd'

theorem relabel_busy_inTurn {busy : Bool} {path : Path} (h : InTurn t) :
    InTurn (t.relabel (fun n => { n with busy := busy }) path) := by
  refine h.congr ?_
  obtain ⟨n, cs⟩ := t
  cases path with
  | nil => rfl
  | cons i path => exact Tree.map_modify_of_eq fun c _ => relabel_busy_visits c

theorem InTurn.visited (h : InTurn t) (hle : t.children.length ≤ t.childVisits) :
    ∀ c ∈ t.children, c.visits ≠ 0 := by
  intro c hc hzero
  have hfirst := h ⟨c, hc, hzero⟩
  have hlt : (t.children.map Tree.visits).sum < (t.children.map fun _ => 1).sum :=
    List.sum_lt_sum Tree.visits (fun _ => 1) hfirst ⟨c, hc, by omega⟩
  have hlength : (t.children.map fun _ => 1).sum = t.children.length := by simp
  simp only [Tree.childVisits] at hle
  omega

section

variable [Utility V] {change : Stats V → Stats V}

/-- `change` gives each node of a tree one more visit at most. -/
def Gains (change : Stats V → Stats V) (t : Tree σ μ V) : Prop :=
  ∀ path a, t.get? path = some a → a.visits ≤ (change a.stats).visits.toNat ∧
    (change a.stats).visits.toNat ≤ a.visits + 1

/-- A child was there before, or it is new, not visited, and hangs below a target at the root. -/
theorem Frame.child_visits (h : Frame change target t u) (hgains : Gains change t)
    (hc : u.children[i]? = some c) :
    (∃ a, t.children[i]? = some a ∧ a.visits ≤ c.visits ∧ c.visits ≤ a.visits + 1 ∧
      (a.visits ≠ c.visits → [i] <+: target)) ∨
    c.visits = 0 ∧ target = [] ∧ t.label.terminal = false := by
  have hplace : u.get? [i] = some c := Tree.get?_cons_eq_some.2 ⟨c, hc, rfl⟩
  cases ha : t.get? [i] with
  | some a =>
    obtain ⟨a', ha', heq⟩ := Tree.get?_cons_eq_some.1 ha
    cases heq
    obtain ⟨c', hc', -, hstats⟩ := h.kept [i] a ha
    cases hplace.symm.trans hc'
    obtain ⟨hle, hge⟩ := hgains [i] a ha
    have hvisits : c.visits = c.stats.visits.toNat := rfl
    refine .inl ⟨a, ha', ?_⟩
    rw [hvisits, hstats]
    split
    · rename_i hprefix
      exact ⟨hle, hge, fun _ => hprefix⟩
    · exact ⟨Nat.le_refl _, Nat.le_succ _, fun hne => absurd rfl hne⟩
  | none =>
    obtain ⟨hstats, a, below, ha, -, hn, -, hpath, hpos, -⟩ := h.new [i] c hplace ha
    have hnil : target = [] := by
      have := congrArg List.length hpath
      simp only [List.length_append, List.length_cons, List.length_nil] at this
      exact List.length_eq_zero_iff.1 (by omega)
    subst hnil
    cases ha
    refine .inr ⟨?_, rfl, hn⟩
    rw [Tree.visits_eq, Node.visits, show c.label.stats = .none from hstats]
    rfl

theorem InTurn.next (h : InTurn t) (hb : t.Every (Balanced w)) (hwalk : Walk t target)
    (hthorough : Thorough t target) (hframe : Frame change target t u) (hgains : Gains change t) :
    InTurn u := by
  rintro ⟨c', hc', hzero⟩ d' hd'
  obtain ⟨i, hi⟩ := List.getElem?_of_mem hc'
  obtain ⟨j, hj⟩ := List.getElem?_of_mem hd'
  rcases hframe.child_visits hgains hj with ⟨d, hd, -, hle, hpassed⟩ | ⟨hnew, -⟩
  · rcases hframe.child_visits hgains hi with ⟨c, hc, hle', -⟩ | ⟨-, rfl, hn⟩
    · have hunvisited : c.visits = 0 := by omega
      have hmem := List.mem_of_getElem? hc
      by_cases hsame : d.visits = d'.visits
      · exact hsame ▸ h ⟨c, hmem, hunvisited⟩ d (List.mem_of_getElem? hd)
      · -- the walk goes through this child, so it was not visited before its sibling
        obtain ⟨below, rfl⟩ := hpassed hsame
        have hpreferred := hthorough.preferred (q := []) rfl
        have hfirst : d.visits = 0 := by
          by_contra hvisited
          exact hpreferred.siblings d hd hvisited c hmem hunvisited
        omega
    · -- the root had no visit, and nothing below it has one
      have hroot : t.visits = 0 := hwalk.resolve_right (by simp [hn])
      have hplace : t.get? [j] = some d := Tree.get?_cons_eq_some.2 ⟨d, hd, rfl⟩
      have hfirst : d.visits = 0 := unvisited_below hb hroot hplace
      omega
  · omega

namespace Session

variable [DecidableEq σ] [RandomSource γ] {p : Setup σ μ α V} {x : Session σ μ V γ}

theorem iterate_inTurn {locking : Locking} (hx : x.root.Rooted p.game p.agent)
    (hb : x.root.Every (Balanced w)) (hgrows : Grows x.root (x.iterate p locking).2.root)
    (h : InTurn x.root) : InTurn (x.iterate p locking).2.root := by
  rcases x.iterate_cases hx.1 (hb.imp fun _ => Balanced.branched) locking with
    ⟨_, hheld⟩ | ⟨path, hpath, hwork⟩
  · rw [hheld]
    exact h
  · rw [hwork] at hgrows ⊢
    have hwalk := descend_walk hx.1 hpath
    have hthorough := descend_thorough hpath
    rcases workAt_frame (p := p) hx.1 hwalk with ⟨score, _, _, hframe⟩ | ⟨_, _, hframe⟩
    · have hroom := room_of_grows (congrArg Stats.visits hframe.root_stats) hgrows
      refine h.next hb hwalk hthorough hframe fun q a ha => ?_
      have hle := visits_below_le hb ha
      have hsum : (a.stats.record score).visits.toNat = a.visits + 1 :=
        toNat_succ_of_lt (Nat.lt_of_le_of_lt (Nat.succ_le_succ hle) hroom)
      omega
    · exact h.next hb hwalk hthorough hframe fun q a _ => ⟨Nat.le_refl _, Nat.le_succ _⟩

end Session

namespace History

variable [DecidableEq σ] [DecidableEq μ] [RandomSource γ] {game : Game σ μ α} {agent : α}

theorem inTurn (h : History σ μ V γ) (hkept : h.Kept game agent false)
    (hfits : h.Fits game agent) :
    (h.session game agent).root.Every (Balanced 1) ∧ InTurn (h.session game agent).root := by
  refine kept_induction (J := fun _ t _ => t.Every (Balanced 1) ∧ InTurn t) ?start ?iterate ?permit
    ?merge h hkept hfits
  case start =>
    exact fun p s => ⟨(balanced_steady 1).every_fresh (p.unvisited_fresh s {}), fun _ => nofun⟩
  case iterate =>
    rintro p locking δ _ x hx - hgrows ⟨hb, hJ⟩
    exact ⟨(Session.iterate_balanced (Nat.le_refl 1) x ⟨hx, hb⟩ hgrows).2,
      Session.iterate_inTurn hx hb hgrows hJ⟩
  case permit =>
    rintro p t _ busy path ⟨hb, hJ⟩
    exact ⟨(balanced_steady 1).relabel_busy hb, relabel_busy_inTurn hJ⟩
  case merge => exact fun hmerging => by cases hmerging

/-- After one iteration for the root and one for each legal move there is a visited child for each
of the moves. -/
theorem children_visited {moves : List μ} (h : History σ μ V γ) (hkept : h.Kept game agent false)
    (hfits : h.Fits game agent) {s : σ} (hstate : (h.session game agent).root.state = s)
    (hs : game.terminal s = false) (hmoves : game.legalMoves s agent = .ok moves)
    (hn : moves.length + 1 ≤ (h.session game agent).counters.iterations.toNat) :
    (h.session game agent).root.children.map (·.label.role) =
        moves.map (fun action => (.min action, s)) ∧
      ∀ c ∈ (h.session game agent).root.children, c.visits ≠ 0 := by
  obtain ⟨hshaped, hkind⟩ : (h.session game agent).root.Rooted game agent := h.rooted
  obtain ⟨hbalanced, hturn⟩ := h.inTurn hkept hfits
  rw [h.counted hkept hfits] at hn
  generalize (h.session game agent).root = root at hstate hn hshaped hkind hbalanced hturn ⊢
  subst hstate
  have hvisited : root.visits ≠ 0 := by omega
  cases hshaped.here with
  | bare _ hterminal _ =>
    exact absurd rfl (hbalanced.here.visited hvisited (hterminal.trans hs)).1
  | outcomes hmin => cases hkind.symm.trans hmin
  | @choices n cs moves' _ hterminal _ _ hmoves' _ hroles =>
    cases hmoves'.symm.trans hmoves
    have hlength : cs.length = moves.length := by simpa using congrArg List.length hroles
    obtain ⟨-, -, hbound⟩ := hbalanced.here.visited hvisited hterminal
    have hchildren : (Tree.node n cs).children.length = cs.length := rfl
    exact ⟨hroles, hturn.visited (by omega)⟩

end History

end

/-! ## The best finish -/

section

variable {game : Game σ μ α} {agent : α} {s : σ} {moves : List μ} {a m : μ} {best : Int32}
  {n : Node σ μ V}

theorem Node.within_finish (h : game.BestFinish agent s moves a best) (hkind : n.kind = .min a)
    (hstate : n.state = s) : n.Within game agent best.toInt best.toInt := by
  rw [Node.within_min hkind, hstate]
  intro joints hjoints joint hjoint s' hs'
  obtain ⟨hend, hgoal⟩ := h.ends joints hjoints joint hjoint s' hs'
  exact Game.goalsWithin_of_terminal hend hgoal

theorem Node.within_lesser (h : game.BestFinish agent s moves a best) (hm : m ∈ moves)
    (hne : m ≠ a) (hkind : n.kind = .min m) (hstate : n.state = s) :
    n.Within game agent (-2 ^ 31) (best.toInt - 1) := by
  rw [Node.within_min hkind, hstate]
  intro joints hjoints joint hjoint s' hs' t v hreach ht hv
  have hlt := h.lesser m hm hne joints hjoints joint hjoint s' hs' t v hreach ht hv
  rw [Int32.lt_iff_toInt_lt] at hlt
  exact ⟨Int32.le_toInt v, by omega⟩

end

section

variable {game : Game σ μ α} {agent : α} {s : σ} {moves : List μ} {a : μ} {best : Int32}
  {cs : List (Tree σ μ Rat)} {c : Tree σ μ Rat}

theorem mean_of_finish (h : game.BestFinish agent s moves a best)
    (hroles : cs.map (·.label.role) = moves.map fun action => (.min action, s)) (hc : c ∈ cs)
    (hscale : OnScale game agent c) (hvisited : c.visits ≠ 0) :
    ∃ mean, c.stats.mean = some mean ∧ (c.label.action = some a → mean = best.toInt) ∧
      (c.label.action ≠ some a → mean < best.toInt) := by
  have hmem : c.label.role ∈ cs.map (·.label.role) := List.mem_map_of_mem hc
  obtain ⟨m, hm, hrole⟩ := List.mem_map.1 (hroles ▸ hmem)
  obtain ⟨hkind, hstate⟩ : Kind.min m = c.label.kind ∧ s = c.label.state := Prod.mk.inj hrole
  have haction : c.label.action = some m := by rw [Node.action, ← hkind]; rfl
  by_cases hma : m = a
  · subst hma
    obtain ⟨mean, hmean, hlo, hhi⟩ :=
      hscale.mean_within hvisited (Node.within_finish h hkind.symm hstate.symm)
    exact ⟨mean, hmean, fun _ => le_antisymm hhi hlo, fun hne => absurd haction hne⟩
  · obtain ⟨mean, hmean, -, hhi⟩ :=
      hscale.mean_within hvisited (Node.within_lesser h hm hma hkind.symm hstate.symm)
    refine ⟨mean, hmean, fun heq => ?_, fun _ => ?_⟩
    · exact absurd (Option.some.inj (haction.symm.trans heq)) hma
    · push_cast at hhi
      linarith

theorem favourite_of_finish (h : game.BestFinish agent s moves a best)
    (hroles : cs.map (·.label.role) = moves.map fun action => (.min action, s))
    (hvisited : ∀ c ∈ cs, c.visits ≠ 0) (hscale : ∀ c ∈ cs, OnScale game agent c) :
    favourite cs = some a := by
  have hmean := fun c (hc : c ∈ cs) => mean_of_finish h hroles hc (hscale c hc) (hvisited c hc)
  obtain ⟨d, hd, hda⟩ : ∃ d ∈ cs, d.label.action = some a := by
    have hmem : some a ∈ cs.map (·.label.action) := by
      rw [actions_of_roles hroles]
      exact List.mem_map_of_mem h.mem
    exact List.mem_map.1 hmem
  obtain ⟨m, -, hfavourite, -, hbest⟩ := favourite_of_roles (List.ne_nil_of_mem h.mem) hroles
  obtain ⟨i, c, mean, hfirst, haction⟩ := hbest ⟨d, hd, hvisited d hd⟩ (ordered_rat _)
  obtain ⟨top, htop, hbest, -⟩ := hmean d hd
  obtain ⟨mean', hmean', -, hless⟩ := hmean c (List.mem_of_getElem? hfirst.child)
  cases hfirst.mean_eq.symm.trans hmean'
  have hma : m = a := by
    by_contra hne
    have hlt : mean < top := by
      rw [hbest hda]
      exact hless fun heq => hne (Option.some.inj (haction.symm.trans heq))
    cases (hfirst.greatest d hd top htop).symm.trans (decide_eq_true hlt)
  rw [hfavourite, hma]

end

/-! ## Histories -/

namespace History

variable [DecidableEq σ] [DecidableEq μ] [RandomSource γ]

theorem run_completed [Utility V] {game : Game σ μ α} {agent : α} (o : Options V) (s : σ)
    (seed : UInt64) (hagent : agent ∈ game.agents)
    (hs : Playable ⟨game, agent, o.policy, o.playouts, o.patience⟩ s) (n : Nat) :
    let h : History σ μ V γ := .start o s seed
    let p := h.setup game agent
    (h.session game agent).runIterations p n =
        (.ok (), (Session.repeatIterations p n (h.session game agent)).2) ∧
      ((h.run n).session game agent).root.label.visits = UInt32.ofNat n ∧
      ((h.run n).session game agent).counters.iterations = UInt64.ofNat n := by
  intro h p
  have hfit : Fit p s (h.session game agent).root := fit_unvisited p s
  have hok := Session.repeatIterations_answers hagent hfit hs n
  obtain ⟨hvisits, hiterations, -⟩ := Session.repeatIterations_advances (p := p) n
    hfit.ready.rooted hfit.ready.branched hok
  refine ⟨Session.runIterations_of_completed hok, ?_, ?_⟩
  · rw [session, Session.runIterations_root]
    exact hvisits.trans (UInt32.zero_add _)
  · rw [session, Session.runIterations_counters]
    exact hiterations.trans (UInt64.zero_add _)

theorem run_answers [Utility V] {game : Game σ μ α} {agent : α} (o : Options V) (s : σ)
    (seed : UInt64) (hagent : agent ∈ game.agents)
    (hs : Playable ⟨game, agent, o.policy, o.playouts, o.patience⟩ s) {n : Nat}
    (hn : n < 2 ^ 32) :
    let h : History σ μ V γ := .start o s seed
    ((h.session game agent).runIterations (h.setup game agent) n).1 = .ok () ∧
      (h.run n).Fits game agent ∧ ((h.run n).session game agent).root.state = s ∧
      ((h.run n).session game agent).counters.iterations.toNat = n := by
  intro h
  have hrun := run_completed (γ := γ) o s seed hagent hs
  have hfit : Fit (h.setup game agent) s (h.session game agent).root :=
    fit_unvisited (h.setup game agent) s
  obtain ⟨hok, -, hiterations⟩ := hrun n
  refine ⟨congrArg Prod.fst hok, ⟨trivial, fun m hm => ?_⟩, ?_, ?_⟩
  · rw [Grows, (hrun m).2.1, (hrun (m + 1)).2.1, UInt32.le_iff_toNat_le, UInt32.toNat_ofNat',
      UInt32.toNat_ofNat']
    omega
  · rw [session, Session.runIterations_root]
    exact (Session.repeatIterations_keeps Session.iterate_fit n hfit fun _ _ => trivial).state_eq
  · rw [hiterations, UInt64.toNat_ofNat']
    omega

/-- Let one move end the play with a goal that no other move leads to. After one iteration for the
root and one for each legal move, and as long as no count at the root goes round, all children of
the root have been visited, the mean at that move is its goal, the other means are less, and the
move is chosen. Where the rules have no gaps, a run makes as many iterations as it was asked for. -/
theorem takes_best_finish (game : Game σ μ α) (agent : α) {s : σ} {moves : List μ} {a : μ}
    {best : Int32} (hfinish : game.BestFinish agent s moves a best) :
    (∀ h : History σ μ Rat γ, h.Kept game agent false → h.Fits game agent →
      (h.session game agent).root.state = s →
      moves.length + 1 ≤ (h.session game agent).counters.iterations.toNat →
        let x := h.session game agent
        x.root.children.map (·.label.action) = moves.map some ∧
        (∀ c ∈ x.root.children, c.visits ≠ 0 ∧ ∃ mean, c.stats.mean = some mean ∧
          (c.label.action = some a → mean = best.toInt) ∧
          (c.label.action ≠ some a → mean < best.toInt)) ∧
        x.chooseMove (h.setup game agent) = .ok a) ∧
    ∀ (o : Options Rat) (seed : UInt64) (n : Nat), agent ∈ game.agents →
      Playable ⟨game, agent, o.policy, o.playouts, o.patience⟩ s → n < 2 ^ 32 →
        let h : History σ μ Rat γ := .start o s seed
        ((h.session game agent).runIterations (h.setup game agent) n).1 = .ok () ∧
          (h.run n).Kept game agent false ∧ (h.run n).Fits game agent ∧
          ((h.run n).session game agent).root.state = s ∧
          ((h.run n).session game agent).counters.iterations.toNat = n := by
  refine ⟨fun h hkept hfits hstate hn => ?_, fun o seed n hagent hs hn => ?_⟩
  · intro x
    obtain ⟨hroles, hvisited⟩ :=
      h.children_visited hkept hfits hstate hfinish.goes_on hfinish.legal hn
    have hscale : ∀ c ∈ x.root.children, OnScale game agent c := fun c hc =>
      ((h.onScale hfits).child hc).here
    have hfavourite := favourite_of_finish hfinish hroles hvisited hscale
    refine ⟨actions_of_roles hroles, fun c hc => ⟨hvisited c hc, ?_⟩, ?_⟩
    · exact mean_of_finish hfinish hroles hc (hscale c hc) (hvisited c hc)
    · rw [Session.chooseMove, hfavourite]
  · obtain ⟨hok, hfits, hstate, hiterations⟩ := run_answers (γ := γ) o s seed hagent hs hn
    exact ⟨hok, trivial, hfits, hstate, hiterations⟩

/-- One of two moves wins at once, the other one loses. A million iterations find the win. -/
theorem takes_best_finish_win :
    let o : Options Rat := ⟨⟨fun _ _ _ => 0, fun _ _ _ => List.length_pos_iff.2⟩, 3, 10⟩
    let s := TicTacToe.Position.ofBoard #v[2, 2, 0, 1, 1, 2, 1, 1, 0]
    let h : History TicTacToe.Position TicTacToe.Action Rat Keystream :=
      .run (.start o s 7) 1000000
    TicTacToe.game.BestFinish .o s [.place 2, .place 8] (.place 2) 100 ∧
      h.Kept TicTacToe.game .o false ∧ h.Fits TicTacToe.game .o ∧
      (h.session TicTacToe.game .o).root.state = s ∧
      (h.session TicTacToe.game .o).counters.iterations.toNat = 1000000 ∧
      (∀ c ∈ (h.session TicTacToe.game .o).root.children, c.visits ≠ 0) ∧
      (h.session TicTacToe.game .o).chooseMove (h.setup TicTacToe.game .o) = .ok (.place 2) := by
  intro o s h
  have hfinish : TicTacToe.game.BestFinish .o s [.place 2, .place 8] (.place 2) 100 := by
    have hreply : ∀ cell : Fin 9, cell = 2 ∨ cell = 8 →
        ∀ joint ∈ TicTacToe.replies s .o (.place (UInt8.ofNat cell.val)),
          TicTacToe.next s joint = .ok (s.place cell) := by decide +kernel
    refine ⟨by decide +kernel, by decide +kernel, by decide, ?_, ?_⟩
    · rintro _ ⟨⟩ joint hjoint s' hs'
      cases (hreply 2 (.inl rfl) joint hjoint).symm.trans hs'
      exact ⟨by decide +kernel, by decide +kernel⟩
    · intro m hm hne
      obtain rfl : m = .place 8 := by simpa [hne] using hm
      rintro _ ⟨⟩ joint hjoint s' hs' t v hreach ht hv
      cases (hreply 8 (.inr rfl) joint hjoint).symm.trans hs'
      have hopen : ∀ c, (s.place 8).isOpen c = true → c = 2 := by decide +kernel
      have hlost : TicTacToe.goal ((s.place 8).place 2) .o = .ok 0 := by decide +kernel
      have hgoal := TicTacToe.goalsWithin_of_last (by decide +kernel) hopen (by decide +kernel)
        hlost t v hreach ht hv
      exact Int32.lt_iff_toInt_lt.2 (hgoal.2.trans_lt (by decide))
  have hplayable : Playable ⟨TicTacToe.game, .o, o.policy, o.playouts, o.patience⟩ s :=
    ⟨TicTacToe.complete (TicTacToe.Position.sound_ofBoard _),
      TicTacToe.endsWithin ((TicTacToe.Board.vacancies_le _).trans (by decide))⟩
  obtain ⟨hchoice, hrun⟩ := takes_best_finish (γ := Keystream) TicTacToe.game .o hfinish
  obtain ⟨-, hkept, hfits, hstate, hiterations⟩ :=
    hrun o 7 1000000 (by decide) hplayable (by decide)
  have hn : 2 + 1 ≤ (h.session TicTacToe.game .o).counters.iterations.toNat := by
    rw [hiterations]
    decide
  obtain ⟨-, hvisited, hmove⟩ := hchoice h hkept hfits hstate hn
  exact ⟨hfinish, hkept, hfits, hstate, hiterations, fun c hc => (hvisited c hc).1, hmove⟩

end History

/-! ### Counts that go round -/

end TreeSearch

namespace Game

/-- The first of two moves wins at once, and the second one loses at once. -/
def fork : Game (Option Bool) Bool Unit where
  agents := [()]
  legalMoves _ _ := .ok [true, false]
  replies _ _ m := .ok [[m]]
  next _ joint := .ok joint.head?
  terminal s := s.isSome
  goal s _ := .ok (if s = some true then 100 else 0)
  offered := none
  showState s := toString s
  showMove m := toString m
  showAgent _ := "self"

theorem fork_completeAt (s : Option Bool) : fork.CompleteAt s where
  goal _ _ _ := ⟨_, rfl⟩
  moves _ _ _ := by
    refine ⟨[true, false], List.cons_ne_nil _ _, rfl, fun m hm => ?_⟩
    refine ⟨[[m]], List.cons_ne_nil _ _, rfl, fun joint hjoint => ?_⟩
    cases List.mem_singleton.1 hjoint
    exact .cons ⟨_, rfl, hm⟩ .nil
  offered _ := nofun
  next _ _ _ := ⟨_, rfl⟩

theorem fork_endsWithin : fork.EndsWithin 1 none := by
  rintro s' ⟨-, joint, hlegal, hs'⟩ s'' ⟨hgoing, -⟩
  cases hlegal with
  | cons _ hrest =>
    cases hrest
    cases hs'
    cases hgoing

theorem fork_bestFinish : fork.BestFinish () none [true, false] true 100 where
  goes_on := rfl
  legal := rfl
  mem := List.mem_cons_self
  ends := by
    rintro _ ⟨⟩ joint hjoint s' hs'
    cases List.mem_singleton.1 hjoint
    cases hs'
    exact ⟨rfl, rfl⟩
  lesser := by
    intro m _ hne
    obtain rfl : m = false := by simpa using hne
    rintro _ ⟨⟩ joint hjoint s' hs' t v hreach ht hv
    cases List.mem_singleton.1 hjoint
    cases hs'
    have hlost : fork.goal (some false) () = .ok 0 := rfl
    have hgoal := goalsWithin_of_terminal rfl hlost t v hreach ht hv
    exact Int32.lt_iff_toInt_lt.2 (hgoal.2.trans_lt (by decide))

end Game

namespace TreeSearch

namespace Fork

def options : Options Rat := ⟨⟨fun _ _ _ => 0, fun _ _ _ => List.length_pos_iff.2⟩, 1, 10⟩

def setup : Setup (Option Bool) Bool Unit Rat :=
  ⟨.fork, (), options.policy, options.playouts, options.patience⟩

theorem playable : Playable setup none :=
  ⟨fun s _ => Game.fork_completeAt s, Game.fork_endsWithin.mono (by decide)⟩

def tree (root win won lose lost : Stats Rat) : Tree (Option Bool) Bool Rat :=
  .node ⟨.max, none, false, root, true, false, {}⟩
    [.node ⟨.min true, none, false, win, true, false, ⟨[0], some []⟩⟩
      [.leaf ⟨.max, some true, true, won, false, false, ⟨[0, 0], some [0]⟩⟩],
    .node ⟨.min false, none, false, lose, true, false, ⟨[1], some []⟩⟩
      [.leaf ⟨.max, some false, true, lost, false, false, ⟨[1, 0], some [1]⟩⟩]]

theorem descend_tree (root win won lose lost : Stats Rat) :
    descend setup.policy (tree root win won lose lost) = some (
      if root.visits = 0 then [] else if win.visits = 0 then [0] else if lose.visits = 0 then [1]
      else if won.visits ≠ 0 ∧ lost.visits = 0 then [1, 0] else [0, 0]) := by
  by_cases hroot : root.visits = 0 <;> by_cases hwin : win.visits = 0 <;>
    by_cases hlose : lose.visits = 0 <;> by_cases hwon : won.visits = 0 <;>
    by_cases hlost : lost.visits = 0 <;>
    simp [setup, options, tree, descend, descendInto, step, Tree.leaf, Tree.findBelow,
      Tree.children, Tree.label, isUnvisited, Node.isUnvisited, Stats.isUnvisited,
      List.findIdx?_cons, hroot, hwin, hlose, hwon, hlost]

structure Visits where
  root : UInt32
  win : UInt32
  won : UInt32
  lose : UInt32
  lost : UInt32
  deriving DecidableEq

def Visits.next (c : Visits) : Visits :=
  if c.root = 0 then { c with root := c.root + 1 }
  else if c.win = 0 then { c with root := c.root + 1, win := c.win + 1 }
  else if c.lose = 0 then { c with root := c.root + 1, lose := c.lose + 1 }
  else if c.won ≠ 0 ∧ c.lost = 0 then
    { c with root := c.root + 1, lose := c.lose + 1, lost := c.lost + 1 }
  else { c with root := c.root + 1, win := c.win + 1, won := c.won + 1 }

theorem Visits.iterate_next {root win won : Nat} {lose lost : UInt32} (hlose : lose ≠ 0)
    (hlost : lost ≠ 0) (hwon : 0 < won) (hwin : won ≤ win) (hroot : win ≤ root) (n : Nat)
    (hn : root + n ≤ 2 ^ 32) :
    next^[n] ⟨.ofNat root, .ofNat win, .ofNat won, lose, lost⟩ =
      ⟨.ofNat (root + n), .ofNat (win + n), .ofNat (won + n), lose, lost⟩ := by
  induction n with
  | zero => rfl
  | succ n ih =>
    have hvisited : ∀ k, 0 < k → k < 2 ^ 32 → UInt32.ofNat k ≠ 0 := by
      intro k hpos hlt hzero
      have htoNat := congrArg UInt32.toNat hzero
      rw [UInt32.toNat_ofNat_of_lt' hlt] at htoNat
      exact absurd htoNat (Nat.pos_iff_ne_zero.1 hpos)
    have hroot' := hvisited (root + n) (by omega) (by omega)
    have hwin' := hvisited (win + n) (by omega) (by omega)
    rw [Function.iterate_succ_apply', ih (by omega)]
    simp only [next, hroot', hwin', hlose, hlost, and_false, ↓reduceIte]
    simp [UInt32.ofNat_add, UInt32.add_assoc]

/-- The count of the winning move goes round when that of the root has done so. -/
theorem Visits.go_round : next^[2 ^ 32 + 3] ⟨1, 0, 0, 0, 0⟩ = ⟨4, 0, 4294967295, 2, 1⟩ := by
  have hsplit : 2 ^ 32 + 3 = 4 + ((2 ^ 32 - 5) + 4) := by decide
  have hfirst : next^[4] ⟨1, 0, 0, 0, 0⟩ = ⟨.ofNat 5, .ofNat 2, .ofNat 1, 2, 1⟩ := by decide
  rw [hsplit, Function.iterate_add_apply, Function.iterate_add_apply, hfirst,
    iterate_next (by decide) (by decide) (by decide) (by decide) (by decide) _ (by decide)]
  decide

/-- The tree of a search that has expanded the root. -/
structure Searched (c : Visits) (t : Tree (Option Bool) Bool Rat) : Prop where
  fit : Fit setup none t
  counted : ∃ root win won lose lost, t = tree root win won lose lost ∧
    c = ⟨root.visits, win.visits, won.visits, lose.visits, lost.visits⟩

theorem Searched.children {c : Visits} {t : Tree (Option Bool) Bool Rat} (h : Searched c t) :
    t.children.map (fun u => (u.label.action, u.visits)) =
      [(some true, c.win.toNat), (some false, c.lose.toNat)] := by
  obtain ⟨-, root, win, won, lose, lost, rfl, rfl⟩ := h
  rfl

section

variable {γ : Type} {x : Session (Option Bool) Bool Rat γ} {c : Visits}

theorem Searched.chooses_loss (h : Searched c x.root) (hwin : c.win = 0) (hlose : c.lose ≠ 0) :
    x.chooseMove setup = .ok false := by
  obtain ⟨-, root, win, won, lose, lost, hroot, rfl⟩ := h
  simp only at hwin hlose
  simp [Session.chooseMove, hroot, favourite, bestFrom, tree, Tree.children, Tree.stats,
    Tree.label, Node.action, Kind.action, Stats.mean, Stats.isUnvisited, hwin, hlose]

variable [RandomSource γ]

theorem Searched.iterate (h : Searched c x.root) :
    Searched c.next (x.iterate setup .exclusive).2.root := by
  obtain ⟨hfit, root, win, won, lose, lost, hx, rfl⟩ := h
  obtain ⟨_, counters, rng⟩ := x
  subst hx
  refine ⟨Session.iterate_fit _ hfit trivial, ?_⟩
  have hpath := descend_tree root win won lose lost
  simp only [Visits.next]
  -- the five nodes that the search may work at
  split_ifs at hpath ⊢
  all_goals
    obtain ⟨score, hroot⟩ := Session.iterate_scored (by decide) hfit playable hpath rfl rfl
    exact ⟨_, _, _, _, _, hroot, rfl⟩

theorem Searched.repeat (h : Searched c x.root) (n : Nat) :
    Searched (Visits.next^[n] c) (Session.repeatIterations setup n x).2.root := by
  induction n generalizing c x with
  | zero => exact h
  | succ n ih =>
    rw [Session.repeatIterations_next (by decide) h.fit playable]
    exact ih h.iterate

theorem searched_start (seed : UInt64) (n : Nat) :
    Searched (Visits.next^[n] ⟨1, 0, 0, 0, 0⟩)
      (Session.repeatIterations setup (n + 1)
        (.start setup none seed : Session _ _ Rat γ)).2.root := by
  let x : Session (Option Bool) Bool Rat γ := .start setup none seed
  have hfit : Fit setup none x.root := fit_unvisited setup none
  have hpath : descend setup.policy x.root = some [] := rfl
  have hgrown : setup.expand x.root = .ok (2, tree .none .none .none .none .none) := rfl
  obtain ⟨score, hroot⟩ := Session.iterate_scored (by decide) hfit playable hpath rfl hgrown
  rw [Session.repeatIterations_next (by decide) hfit playable]
  exact .repeat ⟨Session.iterate_fit x hfit trivial, _, _, _, _, _, hroot, rfl⟩ n

theorem searched_run (seed : UInt64) {n m : Nat} (hn : n = m + 1) (hcount : n < 2 ^ 64)
    (hc : Visits.next^[m] ⟨1, 0, 0, 0, 0⟩ = c) (hwin : c.win = 0) (hlose : c.lose ≠ 0) :
    let h : History (Option Bool) Bool Rat γ := .start options none seed
    let p := h.setup .fork ()
    let x := (h.run n).session .fork ()
    ((h.session .fork ()).runIterations p n).1 = .ok () ∧ x.counters.iterations.toNat = n ∧
      x.root.children.map (fun u => (u.label.action, u.visits)) =
        [(some true, c.win.toNat), (some false, c.lose.toNat)] ∧
      x.chooseMove p = .ok false := by
  intro h p x
  subst hn
  obtain ⟨hok, -, hiterations⟩ :=
    History.run_completed (γ := γ) options none seed (List.mem_singleton_self ()) playable (m + 1)
  have hsearched : Searched c x.root :=
    hc ▸ Session.runIterations_root p (m + 1) (h.session .fork ()) ▸ searched_start seed m
  refine ⟨congrArg Prod.fst hok, ?_, hsearched.children, hsearched.chooses_loss hwin hlose⟩
  rw [hiterations, UInt64.toNat_ofNat']
  exact Nat.mod_eq_of_lt hcount

end

end Fork

/-- With more iterations than can be counted, the count of the winning move goes round, and the
losing one is chosen. -/
theorem History.finish_goes_round :
    let h : History (Option Bool) Bool Rat Keystream := .start Fork.options none 7
    let p := h.setup .fork ()
    let x := (h.run (2 ^ 32 + 4)).session .fork ()
    Game.fork.BestFinish () none [true, false] true 100 ∧ Playable p none ∧
      ((h.session .fork ()).runIterations p (2 ^ 32 + 4)).1 = .ok () ∧
      x.counters.iterations.toNat = 2 ^ 32 + 4 ∧
      x.root.children.map (fun c => (c.label.action, c.visits)) =
        [(some true, 0), (some false, 2)] ∧
      x.chooseMove p = .ok false := by
  have hn : 2 ^ 32 + 4 = 2 ^ 32 + 3 + 1 := by decide
  have hcount : 2 ^ 32 + 4 < 2 ^ 64 := by decide
  -- the count of iterations stays folded: nothing here may run them
  exact ⟨Game.fork_bestFinish, Fork.playable,
    Fork.searched_run 7 hn hcount Fork.Visits.go_round rfl (by decide)⟩

end TreeSearch

end GameSearch
