import GameSearch.Proofs.Rules
import GameSearch.Proofs.TreeSearch.Choice
import GameSearch.Proofs.TreeSearch.Drivers
import GameSearch.Proofs.TreeSearch.Reroot

/-!
# GameSearch.Proofs.TreeSearch.Answers

The steps of a tree search answer where the rules do. From a state without gaps in the rules, whose
plays are no longer than the search allows (`Playable`), all nodes below are such states
(`Sensible.every`). Then expansion and simulation succeed, so every iteration of a lone worker is
completed (`iterate_answers`). Sessions stay `Fit` for the next search through iterations, sums and
moves of the root, and what `Session.chooseMove` says is legal (`Session.chooseMove_answers`).
-/

namespace GameSearch.TreeSearch

variable {σ μ α V γ : Type} {p : Setup σ μ α V} {t u : Tree σ μ V} {s s' : σ}

/-! ## States and nodes -/

/-- The rules have no gaps, and plays end before the patience of the search does. -/
structure Playable (p : Setup σ μ α V) (s : σ) : Prop where
  complete : p.game.Complete s
  ends : p.game.EndsWithin p.patience s

theorem Playable.after (h : Playable p s) (hs : p.game.Succeeds s s') : Playable p s' := by
  obtain ⟨k, hk, hends⟩ := h.ends.after hs
  exact ⟨h.complete.after hs, hends.mono (by omega)⟩

/-- A node that a search can work at. -/
structure Sensible (p : Setup σ μ α V) (t : Tree σ μ V) : Prop where
  playable : Playable p t.state
  legal : ∀ action, t.label.kind = .min action → p.game.terminal t.state = false ∧
    ∃ moves, p.game.legalMoves t.state p.agent = .ok moves ∧ action ∈ moves

theorem Sensible.of_max (h : Playable p t.state) (hkind : t.label.kind = .max) : Sensible p t :=
  ⟨h, fun _ hmin => nomatch hkind.symm.trans hmin⟩

theorem Sensible.replies (hagent : p.agent ∈ p.game.agents) {action : μ} (h : Sensible p t)
    (hkind : t.label.kind = .min action) :
    ∃ joints, joints ≠ [] ∧ p.game.replies t.state p.agent action = .ok joints ∧
      ∀ joint ∈ joints, ∃ s', p.game.next t.state joint = .ok s' ∧ Playable p s' := by
  obtain ⟨hterminal, moves, hmoves, haction⟩ := h.legal action hkind
  have hcomplete := h.playable.complete.here
  obtain ⟨moves', -, hmoves', hreplies⟩ := hcomplete.moves hterminal p.agent hagent
  cases hmoves.symm.trans hmoves'
  obtain ⟨joints, hne, hjoints, hlegal⟩ := hreplies action haction
  refine ⟨joints, hne, hjoints, fun joint hjoint => ?_⟩
  obtain ⟨s', hs'⟩ := hcomplete.next hterminal joint (hlegal joint hjoint)
  exact ⟨s', hs', h.playable.after ⟨hterminal, joint, hlegal joint hjoint, hs'⟩⟩

section

variable [DecidableEq σ]

theorem Sensible.child (hagent : p.agent ∈ p.game.agents) (h : Sensible p t)
    (ht : Formed p.game p.agent t) (hu : u ∈ t.children) : Sensible p u := by
  have hmem : u.label.role ∈ t.children.map (·.label.role) := List.mem_map_of_mem hu
  cases ht with
  | bare => cases hu
  | @choices n cs moves _ _ hterminal _ hmoves _ hroles =>
    obtain ⟨action, haction, hrole⟩ := List.mem_map.1 (hroles ▸ hmem)
    obtain ⟨hkind, hstate⟩ : Kind.min action = u.label.kind ∧ n.state = u.state :=
      Prod.mk.inj hrole
    refine ⟨hstate ▸ h.playable, fun action' hmin => ?_⟩
    cases hkind.trans hmin
    exact ⟨hstate ▸ hterminal, moves, hstate ▸ hmoves, haction⟩
  | @outcomes n cs action states hkind _ _ houtcomes _ hroles =>
    obtain ⟨s', hs', hrole⟩ := List.mem_map.1 (hroles ▸ hmem)
    obtain ⟨hmax, hstate⟩ : Kind.max = u.label.kind ∧ s' = u.state := Prod.mk.inj hrole
    obtain ⟨joints, hjoints, hnext⟩ := houtcomes
    obtain ⟨joints', -, hjoints', hreplies⟩ := h.replies hagent hkind
    cases hjoints.symm.trans hjoints'
    have hok : Except.ok s' ∈ joints.map (p.game.next n.state) := by
      rw [hnext]
      exact List.mem_map_of_mem (List.mem_eraseDups.1 hs')
    obtain ⟨joint, hjoint, hs'⟩ := List.mem_map.1 hok
    obtain ⟨s'', hs'', hplayable⟩ := hreplies joint hjoint
    cases hs'.symm.trans hs''
    exact .of_max (hstate ▸ hplayable) hmax.symm

theorem Sensible.every (hagent : p.agent ∈ p.game.agents) (ht : t.Shaped p.game p.agent)
    (h : Sensible p t) : t.Every (Sensible p) := by
  induction ht with
  | node hformed _ ih => exact .node h fun c hc => ih c hc (h.child hagent hformed hc)

end

/-! ## Expansion and simulation -/

namespace Setup

theorem nextStates_answers {joints : List (JointMove μ)}
    (h : ∀ joint ∈ joints, ∃ s', p.game.next s joint = .ok s') :
    ∃ states, p.nextStates s joints = .ok states ∧ (joints ≠ [] → states ≠ []) := by
  induction joints with
  | nil => exact ⟨[], rfl, fun h => absurd rfl h⟩
  | cons joint rest ih =>
    obtain ⟨s', hs'⟩ := h joint List.mem_cons_self
    obtain ⟨states, hstates, -⟩ := ih fun joint hjoint => h joint (List.mem_cons_of_mem _ hjoint)
    exact ⟨s' :: states, by simp only [nextStates, hs', hstates], fun _ => List.cons_ne_nil _ _⟩

section

variable [Utility V] [DecidableEq σ] {home : Home}

theorem outcomes_answers {action : μ} {joints : List (JointMove μ)} (hne : joints ≠ [])
    (hjoints : p.game.replies s p.agent action = .ok joints)
    (h : ∀ joint ∈ joints, ∃ s', p.game.next s joint = .ok s') :
    ∃ r, p.outcomes home s action = .ok r := by
  obtain ⟨states, hstates, hsome⟩ := nextStates_answers h
  obtain ⟨s', hs'⟩ := List.exists_mem_of_ne_nil states (hsome hne)
  simp only [outcomes, hjoints, hstates]
  split
  · rename_i hnil
    cases hnil ▸ List.mem_eraseDups.2 hs'
  · exact ⟨_, rfl⟩

theorem commitments_answers {moves : List μ}
    (h : ∀ action ∈ moves, ∀ home, ∃ r, p.outcomes home s action = .ok r) (i : Nat) :
    ∃ r, p.commitments home s i moves = .ok r := by
  induction moves generalizing i with
  | nil => exact ⟨_, rfl⟩
  | cons action rest ih =>
    obtain ⟨⟨asked, ts⟩, houtcomes⟩ := h action List.mem_cons_self (home.child i)
    obtain ⟨⟨more, ts'⟩, hrest⟩ := ih (fun action ha => h action (List.mem_cons_of_mem _ ha)) (i + 1)
    simp only [commitments, expandMin, Node.expandWith, Node.fresh, houtcomes, hrest,
      Bool.false_eq_true, ↓reduceIte]
    exact ⟨_, rfl⟩

theorem choices_answers (hagent : p.agent ∈ p.game.agents) (h : p.game.CompleteAt s)
    (hs : p.game.terminal s = false) : ∃ r, p.choices home s = .ok r := by
  obtain ⟨moves, hne, hmoves, hreplies⟩ := h.moves hs p.agent hagent
  have houtcomes : ∀ action ∈ moves, ∀ home, ∃ r, p.outcomes home s action = .ok r := by
    intro action haction home
    obtain ⟨joints, hne, hjoints, hlegal⟩ := hreplies action haction
    exact outcomes_answers hne hjoints fun joint hjoint => h.next hs joint (hlegal joint hjoint)
  obtain ⟨r, hr⟩ : ∃ r, p.commitments home s 0 moves = .ok r := commitments_answers houtcomes 0
  obtain ⟨first, rest, rfl⟩ := List.exists_cons_of_ne_nil hne
  exact ⟨r, by simp only [choices, hmoves, hr]⟩

theorem expand_answers (hagent : p.agent ∈ p.game.agents) (ht : Formed p.game p.agent t)
    (h : Sensible p t) : ∃ r, p.expand t = .ok r := by
  cases ht with
  | @bare n hkind hterminal hexpanded =>
    cases hn : n.terminal with
    | true =>
      simp only [expand, hn, ↓reduceIte]
      exact ⟨_, rfl⟩
    | false =>
      obtain ⟨⟨asked, ts⟩, hchoices⟩ := choices_answers hagent h.playable.complete.here
        (hterminal.symm.trans hn)
      have hchoices : p.choices n.home n.state = .ok (asked, ts) := hchoices
      simp only [expand, hn, hkind, expandMax, Node.expandWith, hexpanded, hchoices,
        Bool.false_eq_true, ↓reduceIte]
      exact ⟨_, rfl⟩
  | choices hkind hn _ hexpanded =>
    simp only [expand, hn, hkind, expandMax, Node.expandWith, hexpanded, Bool.false_eq_true,
      ↓reduceIte]
    exact ⟨_, rfl⟩
  | outcomes hkind hn hexpanded =>
    simp only [expand, hn, hkind, expandMin, Node.expandWith, hexpanded, Bool.false_eq_true,
      ↓reduceIte]
    exact ⟨_, rfl⟩

end

theorem playAfter_answers [RandomSource γ] (hagent : p.agent ∈ p.game.agents) {action : μ}
    {joints : List (JointMove μ)} (hne : joints ≠ [])
    (h : ∀ joint ∈ joints, ∃ s', p.game.next s joint = .ok s' ∧ Playable p s') (g : γ) :
    ∃ play g', p.playAfter s action joints g = (.ok play, g') := by
  obtain ⟨joint, g₁, hjoint⟩ := RandomSource.exists_choose hne g
  obtain ⟨s', hnext, hplayable⟩ := h joint (RandomSource.choose_mem hjoint)
  simp only [playAfter, hjoint, hnext]
  exact Game.playoutFrom_answers hagent hplayable.complete hplayable.ends (Nat.le_refl _) 1 1 g₁

section

variable [Utility V] {draw : γ → Except SearchError Playout × γ}

theorem sumPlays_answers (h : ∀ g, ∃ play g', draw g = (.ok play, g')) (n : Nat) (total : V)
    (asked : Nat) (c : Counters) (g : γ) :
    ∃ r c' g', sumPlays draw n total asked c g = (.ok r, c', g') := by
  induction n generalizing total asked c g with
  | zero => exact ⟨_, _, _, rfl⟩
  | succ n ih =>
    obtain ⟨play, g', hplay⟩ := h g
    simp only [sumPlays, hplay]
    exact ih _ _ _ _

theorem meanOf_answers (h : ∀ g, ∃ play g', draw g = (.ok play, g')) (c : Counters) (g : γ) :
    ∃ r c' g', p.meanOf draw c g = (.ok r, c', g') := by
  obtain ⟨r, c', g', hsum⟩ := sumPlays_answers (V := V) h p.plays.toNat Utility.zero 0 c g
  simp only [meanOf, hsum]
  exact ⟨_, _, _, rfl⟩

variable [RandomSource γ]

theorem simulate_answers [DecidableEq σ] (hagent : p.agent ∈ p.game.agents)
    (ht : Formed p.game p.agent t) (h : Sensible p t) (c : Counters) (g : γ) :
    ∃ r c' g', p.simulate t.label c g = (.ok r, c', g') := by
  have hgoal : t.label.terminal = true → p.game.terminal t.state = true := by
    intro hn
    cases ht with
    | bare _ hterminal => exact hterminal.symm.trans hn
    | choices _ hn' => cases hn'.symm.trans hn
    | outcomes _ hn' => cases hn'.symm.trans hn
  have hplay := fun g : γ =>
    Game.playoutFrom_answers hagent h.playable.complete h.playable.ends (Nat.le_refl _) 0 0 g
  unfold simulate
  split
  · rename_i hn
    obtain ⟨v, hv⟩ := h.playable.complete.here.goal (hgoal hn) p.agent hagent
    have hv : p.game.goal t.label.state p.agent = .ok v := hv
    simp only [hv]
    exact ⟨_, _, _, rfl⟩
  · split
    · exact meanOf_answers hplay c g
    · rename_i action hkind
      obtain ⟨joints, hne, hjoints, hnext⟩ := h.replies hagent hkind
      have hjoints : p.game.replies t.label.state p.agent action = .ok joints := hjoints
      simp only [hjoints]
      exact meanOf_answers (playAfter_answers hagent hne hnext) c g

end

end Setup

/-! ## Permits -/

theorem free_iff : (∀ path, isBusy t path = false) ↔ t.Every fun u => u.label.busy = false := by
  constructor
  · intro h
    induction t using Tree.induction with
    | node n cs ih =>
      refine .node (h []) fun c hc => ih c hc fun path => ?_
      obtain ⟨i, hi⟩ := List.getElem?_of_mem hc
      have hpath := h (i :: path)
      rwa [isBusy_cons, show (Tree.node n cs).children[i]? = some c from hi] at hpath
  · intro h path
    unfold isBusy
    cases hu : t.get? path with
    | none => rfl
    | some u => exact (h.get? hu).here

theorem graft_free (home : Home) (t : Tree σ μ V) :
    (graft home t).Every fun u => u.label.busy = false := by
  induction t using Tree.induction generalizing home with
  | node n cs ih =>
    rw [graft_node]
    refine .node rfl fun c hc => ?_
    obtain ⟨k, d, hd, rfl⟩ := mem_graftAll hc
    exact ih d hd _

theorem merge_free [Utility V] [DecidableEq σ] [DecidableEq μ]
    (ht : t.Every fun u => u.label.busy = false)
    (hu : u.Every fun u => u.label.busy = false) :
    (merge t u).Every fun u => u.label.busy = false := by
  induction u using Tree.induction generalizing t with
  | node m theirs ih =>
    obtain ⟨n, ours⟩ := t
    rw [merge_node]
    refine .node ht.here fun c hc => ?_
    rcases List.mem_append.1 hc with hc | hc
    · exact forall_kept (R := fun v => v.Every fun u => u.label.busy = false)
        (fun v hv => ht.child hv) (fun w hw v hv _ => ih w hw hv (hu.child hw)) c hc
    · obtain ⟨home, v, -, rfl⟩ := mem_grafted hc
      exact graft_free home v

/-! ## Sessions -/

variable [DecidableEq σ]

/-- The tree of a session that is ready for a search from `s`. -/
structure Fit (p : Setup σ μ α V) (s : σ) (t : Tree σ μ V) : Prop where
  ready : Ready p t
  state_eq : t.state = s

theorem Fit.sensible (hagent : p.agent ∈ p.game.agents) (h : Fit p s t) (hs : Playable p s) :
    t.Every (Sensible p) := by
  obtain ⟨hshaped, hkind⟩ := h.ready.rooted
  exact Sensible.every hagent hshaped (.of_max (h.state_eq ▸ hs) hkind)

variable [Utility V]

theorem fit_unvisited (p : Setup σ μ α V) (s : σ) : Fit p s (p.unvisited s {}) where
  ready := ⟨⟨p.unvisited_shaped s {}, rfl⟩, fresh_branched (p.unvisited_fresh s {}),
    fun path => by cases path <;> rfl⟩
  state_eq := rfl

namespace Session

variable {x y : Session σ μ V γ} {i : Interrupt} {k asked bound : Nat}

theorem merge_fit [DecidableEq μ] (hx : Fit p s x.root) (hy : Fit p s y.root) :
    Fit p s (x.merge y).2.root := by
  have hstate : x.root.state = y.root.state := hx.state_eq.trans hy.state_eq.symm
  have hrole : x.root.label.role = y.root.label.role :=
    Node.role_eq_iff.2 ⟨hx.ready.rooted.2.trans hy.ready.rooted.2.symm, hstate⟩
  have hmerge : (x.merge y).2.root = TreeSearch.merge x.root y.root := by
    simp only [merge, hstate, ↓reduceIte]
  refine ⟨⟨merge_rooted hx.ready.rooted hy.ready.rooted, ?_, ?_⟩, ?_⟩
  · rw [hmerge]
    exact merge_branched hx.ready.rooted.1 hy.ready.rooted.1 hrole hx.ready.branched
      hy.ready.branched
  · rw [hmerge]
    exact free_iff.2 (merge_free (free_iff.1 hx.ready.free) (free_iff.1 hy.ready.free))
  · rw [hmerge]
    exact (Node.role_eq_iff.1 (merge_role x.root y.root)).2.trans hx.state_eq

theorem updateRoot_fit (hx : Ready p x.root) (s : σ) : Fit p s (x.updateRoot p s).2.root := by
  have hrooted := updateRoot_rooted p s hx.rooted
  generalize hy : x.updateRoot p s = y at hrooted
  cases hy ▸ updateRoot_followed p s x with
  | unchanged hs => exact ⟨hx, hs⟩
  | @reused i j t _ ht =>
    refine ⟨⟨hrooted, hx.branched.get? ht.place, free_iff.2 ?_⟩, ht.state_eq⟩
    exact (free_iff.1 hx.free).get? ht.place
  | rebuilt => exact fit_unvisited p s

theorem chooseMove_answers (hagent : p.agent ∈ p.game.agents) (hx : Fit p s x.root)
    (hs : p.game.CompleteAt s) (hterminal : p.game.terminal s = false) :
    ∃ m moves, x.chooseMove p = .ok m ∧ p.game.legalMoves s p.agent = .ok moves ∧ m ∈ moves := by
  obtain ⟨moves, hne, hmoves, -⟩ := hs.moves hterminal p.agent hagent
  obtain ⟨hshaped, hkind⟩ := hx.ready.rooted
  have hstate := hx.state_eq
  unfold chooseMove
  generalize x.root = root at hshaped hkind hstate
  subst hstate
  cases hshaped.here with
  | @bare n _ hn _ =>
    have hn : n.terminal = false := hn.trans hterminal
    obtain ⟨m, rest, rfl⟩ := List.exists_cons_of_ne_nil hne
    refine ⟨m, _, ?_, hmoves, List.mem_cons_self⟩
    have hmoves : p.game.legalMoves (Tree.node n []).state p.agent = .ok (m :: rest) := hmoves
    simp only [favourite, Tree.children, bestFrom, Tree.label, hn, hmoves, Option.bind_none,
      List.head?_nil, Bool.false_eq_true, ↓reduceIte]
  | @choices n cs moves' _ _ _ _ hmoves' hne hroles =>
    obtain ⟨m, hm, hfavourite, -⟩ := favourite_of_roles hne hroles
    exact ⟨m, moves', by simp only [Tree.children, hfavourite], hmoves', hm⟩
  | outcomes hmin => cases hkind.symm.trans hmin

variable [RandomSource γ]

/-! ## Searches -/

theorem iterate_fit : Keeps p .exclusive γ (Fit p s) fun _ _ => True := by
  rintro x hx -
  refine ⟨iterate_ready hx.ready, ?_⟩
  have hrole := (iterate_shaped .exclusive hx.ready.rooted.1).2
  exact (Node.role_eq_iff.1 hrole).2.trans hx.state_eq

theorem iterate_answers (hagent : p.agent ∈ p.game.agents) (hx : Fit p s x.root)
    (hs : Playable p s) (e : SearchError) : (x.iterate p .exclusive).1 ≠ .error e := by
  obtain ⟨path, hwork, -⟩ := iterate_of_ready hx.ready
  rw [hwork]
  have hshaped := hx.ready.rooted.1
  have hsensible := hx.sensible hagent hs
  generalize hy : x.workAt p path = y
  cases hy ▸ workAt_cases p path x with
  | missing => nofun
  | @unexpanded t e' ht he =>
    obtain ⟨r, hr⟩ := Setup.expand_answers hagent (hshaped.get? ht).here (hsensible.get? ht).here
    cases hr.symm.trans he
  | @unscored t _ _ _ _ _ ht _ he =>
    obtain ⟨r, c', g', hr⟩ := Setup.simulate_answers hagent (hshaped.get? ht).here
      (hsensible.get? ht).here x.counters x.rng
    cases hr.symm.trans he
  | completed => nofun

/-- What an iteration makes of the tree when the rules have no gaps. -/
theorem iterate_scored (hagent : p.agent ∈ p.game.agents) (hx : Fit p s x.root)
    (hs : Playable p s) {path : Path} (hpath : descend p.policy x.root = some path)
    (ht : x.root.get? path = some t) (hgrown : p.expand t = .ok (asked, u)) :
    ∃ score, (x.iterate p .exclusive).2.root =
      (x.root.modify (fun _ => u) path).record score path := by
  have hanswers := iterate_answers hagent hx hs
  rw [iterate_exclusive hpath] at hanswers ⊢
  generalize hy : x.workAt p path = y at hanswers
  cases hy ▸ workAt_cases p path x with
  | missing hnone => cases hnone.symm.trans ht
  | unexpanded => exact absurd rfl (hanswers _)
  | unscored => exact absurd rfl (hanswers _)
  | completed ht' he =>
    cases ht.symm.trans ht'
    cases hgrown.symm.trans he
    exact ⟨_, rfl⟩

theorem repeatIterations_next (hagent : p.agent ∈ p.game.agents) (hx : Fit p s x.root)
    (hs : Playable p s) (n : Nat) :
    (repeatIterations p (n + 1) x).2 = (repeatIterations p n (x.iterate p .exclusive).2).2 := by
  cases hi : x.iterate p .exclusive with
  | mk result y =>
    cases result with
    | error e => exact absurd (congrArg Prod.fst hi) (iterate_answers hagent hx hs e)
    | ok done => rw [repeatIterations_succ hi]

theorem repeatIterations_answers (hagent : p.agent ∈ p.game.agents) (hx : Fit p s x.root)
    (hs : Playable p s) (n : Nat) : (repeatIterations p n x).1 = .ok () := by
  induction n generalizing x with
  | zero => rfl
  | succ n ih =>
    have hnext := iterate_fit x hx trivial
    cases hi : x.iterate p .exclusive with
    | mk result y =>
      cases result with
      | error e => exact absurd (congrArg Prod.fst hi) (iterate_answers hagent hx hs e)
      | ok done =>
        rw [hi] at hnext
        rw [repeatIterations_succ hi]
        exact ih hnext

end Session

end GameSearch.TreeSearch
