import GameSearch.Proofs.TreeSearch.Simulation
import GameSearch.Proofs.TreeSearch.VisitFlow
import GameSearch.Proofs.TicTacToe

/-!
# GameSearch.Proofs.TreeSearch.Scale

What the statistics of a search can be when scores are exact numbers. All that a search plays from a
node ends at states that are in reach of it, and the goals there bound the scores of the node
(`Node.Within`, `Setup.simulate_within`). A node is on scale (`OnScale`) if its utility lies between
the bounds of one visit times its visits, whatever the bounds are, and its children have no more
visits than it has. New nodes are on scale, and a score that is recorded keeps them there
(`record_onScale`). The sum of two trees on scale is on scale again (`merge_onScale`).

* `History.scores_on_scale`: the scores and the utilities of a session.
-/

namespace GameSearch

namespace Game

variable {σ μ α : Type} {game : Game σ μ α} {agent : α} {s s' : σ} {lo hi : Int} {v : Int32}

/-- A search may come from `s` to `s'` in one step: by a listed reply to a legal move of the agent,
or by a joint move of a random play. -/
def Ensues (game : Game σ μ α) (agent : α) (s s' : σ) : Prop :=
  game.terminal s = false ∧ ∃ joint, game.next s joint = .ok s' ∧
    (game.MayDraw s joint ∨ ∃ moves m joints, game.legalMoves s agent = .ok moves ∧ m ∈ moves ∧
      game.replies s agent m = .ok joints ∧ joint ∈ joints)

/-- The terminal states that a search may come to from `s` have goals from `lo` to `hi`. -/
def GoalsWithin (game : Game σ μ α) (agent : α) (lo hi : Int) (s : σ) : Prop :=
  ∀ s' v, Relation.ReflTransGen (game.Ensues agent) s s' → game.terminal s' = true →
    game.goal s' agent = .ok v → lo ≤ v.toInt ∧ v.toInt ≤ hi

theorem GoalsWithin.after (h : game.GoalsWithin agent lo hi s) (hs : game.Ensues agent s s') :
    game.GoalsWithin agent lo hi s' :=
  fun t v ht => h t v (.head hs ht)

theorem goalsWithin_of_terminal (hs : game.terminal s = true) (hv : game.goal s agent = .ok v) :
    game.GoalsWithin agent v.toInt v.toInt s := by
  intro s' w hreach hs' hw
  rcases hreach.cases_head with rfl | ⟨t, ht, -⟩
  · cases hv.symm.trans hw
    exact ⟨le_rfl, le_rfl⟩
  · simp [ht.1] at hs

theorem Plays.reaches {n : Nat} (h : game.Plays n s s') :
    Relation.ReflTransGen (game.Ensues agent) s s' := by
  induction h with
  | none => exact .refl
  | step hs hjoint hnext _ ih => exact .head ⟨hs, _, hnext, .inl hjoint⟩ ih

theorem GoalsWithin.playout {γ : Type} [RandomSource γ] {bound moves : Nat} {depth : UInt32}
    {play : Playout} {g g' : γ} (h : game.GoalsWithin agent lo hi s)
    (hplay : game.playoutFrom agent bound s depth moves g = (.ok play, g')) :
    lo ≤ play.goal.toInt ∧ play.goal.toInt ≤ hi := by
  obtain ⟨n, s', hplays, hs', hv, -⟩ := playoutFrom_ok hplay
  exact h s' play.goal hplays.reaches hs' hv

end Game

namespace TicTacToe

variable {p p' : Position} {m : Mark} {c : Fin 9} {v : Int32}

theorem succeeds_of_ensues (h : game.Ensues m p p') : game.Succeeds p p' := by
  obtain ⟨hp, joint, hnext, hdraw | ⟨moves, a, joints, hmoves, ha, hjoints, hjoint⟩⟩ := h
  · exact ⟨hp, joint, hdraw, hnext⟩
  · cases hmoves
    cases hjoints
    exact ⟨hp, joint, replies_legal ha hjoint, hnext⟩

theorem goalsWithin_of_last (hp : p.isDone = false) (hlast : ∀ c', p.isOpen c' = true → c' = c)
    (hdone : (p.place c).isDone = true) (hv : goal (p.place c) m = .ok v) :
    game.GoalsWithin m v.toInt v.toInt p := by
  intro t w hreach ht hw
  rcases hreach.cases_head with rfl | ⟨p', hp', hrest⟩
  · cases hp.symm.trans ht
  · obtain ⟨-, c', hc', rfl⟩ := succeeds_iff.1 (succeeds_of_ensues hp')
    rw [hlast c' hc'] at hrest
    exact Game.goalsWithin_of_terminal hdone hv t w hrest ht hw

end TicTacToe

namespace TreeSearch

variable {σ μ α V γ : Type}

/-! ## Bounds of a node -/

/-- The terminal states below a node have goals from `lo` to `hi`. -/
def Node.Within (game : Game σ μ α) (agent : α) (lo hi : Int) (n : Node σ μ V) : Prop :=
  match n.kind with
  | .max => game.GoalsWithin agent lo hi n.state
  | .min action => ∀ joints, game.replies n.state agent action = .ok joints →
      ∀ joint ∈ joints, ∀ s', game.next n.state joint = .ok s' → game.GoalsWithin agent lo hi s'

section

variable {game : Game σ μ α} {agent : α} {lo hi : Int} {n m : Node σ μ V} {t u : Tree σ μ V}
  {path : Path}

theorem Node.Within.congr (h : n.Within game agent lo hi) (hrole : m.role = n.role) :
    m.Within game agent lo hi := by
  obtain ⟨hkind, hstate⟩ := role_eq_iff.1 hrole
  unfold Within at h ⊢
  rw [hkind, hstate]
  exact h

theorem Node.within_max (hkind : n.kind = .max) :
    n.Within game agent lo hi ↔ game.GoalsWithin agent lo hi n.state := by
  unfold Within
  rw [hkind]

theorem Node.within_min {action : μ} (hkind : n.kind = .min action) :
    n.Within game agent lo hi ↔ ∀ joints, game.replies n.state agent action = .ok joints →
      ∀ joint ∈ joints, ∀ s', game.next n.state joint = .ok s' →
        game.GoalsWithin agent lo hi s' := by
  unfold Within
  rw [hkind]

variable [DecidableEq σ]

theorem Formed.within_child (ht : Formed game agent t) (h : t.label.Within game agent lo hi)
    (hu : u ∈ t.children) : u.label.Within game agent lo hi := by
  have hmem : u.label.role ∈ t.children.map (·.label.role) := List.mem_map_of_mem hu
  cases ht with
  | bare => cases hu
  | @choices n cs moves hkind _ hterminal _ hmoves _ hroles =>
    obtain ⟨action, haction, hrole⟩ := List.mem_map.1 (hroles ▸ hmem)
    obtain ⟨hmin, hstate⟩ : Kind.min action = u.label.kind ∧ n.state = u.label.state :=
      Prod.mk.inj hrole
    have h := (Node.within_max hkind).1 h
    rw [Node.within_min hmin.symm, ← hstate]
    intro joints hjoints joint hjoint s' hs'
    exact h.after ⟨hterminal, joint, hs', .inr ⟨moves, action, joints, hmoves, haction, hjoints,
      hjoint⟩⟩
  | @outcomes n cs action states hkind _ _ houtcomes _ hroles =>
    obtain ⟨s', hs', hrole⟩ := List.mem_map.1 (hroles ▸ hmem)
    obtain ⟨hmax, hstate⟩ : Kind.max = u.label.kind ∧ s' = u.label.state := Prod.mk.inj hrole
    obtain ⟨joints, hjoints, hnext⟩ := houtcomes
    have h := (Node.within_min hkind).1 h
    rw [Node.within_max hmax.symm, ← hstate]
    have hok : Except.ok s' ∈ joints.map (game.next n.state) := by
      rw [hnext]
      exact List.mem_map_of_mem (List.mem_eraseDups.1 hs')
    obtain ⟨joint, hjoint, hs'⟩ := List.mem_map.1 hok
    exact h joints hjoints joint hjoint s' hs'

theorem Tree.Shaped.within (ht : t.Shaped game agent) (h : t.label.Within game agent lo hi)
    (hu : t.get? path = some u) : u.label.Within game agent lo hi := by
  induction path generalizing t with
  | nil =>
    cases hu
    exact h
  | cons i path ih =>
    obtain ⟨c, hc, hu⟩ := Tree.get?_cons_eq_some.1 hu
    have hmem := List.mem_of_getElem? hc
    exact ih (ht.child hmem) (ht.here.within_child h hmem) hu

end

/-! ## Scores -/

@[simp] theorem zero_rat : (Utility.zero : Rat) = 0 := rfl

@[simp] theorem add_rat (x y : Rat) : Utility.add x y = x + y := rfl

@[simp] theorem ofGoal_rat (goal : Int32) : (Utility.ofGoal goal : Rat) = (goal.toInt : Rat) := rfl

@[simp] theorem divide_rat (x : Rat) (n : UInt32) : Utility.divide x n = x / n.toNat := rfl

namespace Setup

variable {p : Setup σ μ α Rat} {lo hi : Int} {c c' : Counters} {g g' : γ} {asked : Nat}
  {score : Rat} {draw : γ → Except SearchError Playout × γ}

theorem sumPlays_within
    (hdraw : ∀ g play g', draw g = (.ok play, g') → lo ≤ play.goal.toInt ∧ play.goal.toInt ≤ hi)
    {k asked' : Nat} {total sum : Rat}
    (h : sumPlays draw k total asked c g = (.ok (sum, asked'), c', g')) :
    total + lo * k ≤ sum ∧ sum ≤ total + hi * k := by
  induction k generalizing total asked c g with
  | zero =>
    cases h
    simp
  | succ k ih =>
    simp only [sumPlays] at h
    split at h
    · cases h
    · rename_i play g₁ hplay
      obtain ⟨hlo, hhi⟩ := hdraw g play g₁ hplay
      obtain ⟨hle, hge⟩ := ih h
      rw [add_rat, ofGoal_rat] at hle hge
      have hlo : (lo : Rat) ≤ play.goal.toInt := by exact_mod_cast hlo
      have hhi : (play.goal.toInt : Rat) ≤ hi := by exact_mod_cast hhi
      push_cast
      constructor <;> linarith

theorem plays_pos (p : Setup σ μ α V) : 0 < p.plays.toNat := by
  rw [plays_toNat]
  omega

theorem meanOf_within
    (hdraw : ∀ g play g', draw g = (.ok play, g') → lo ≤ play.goal.toInt ∧ play.goal.toInt ≤ hi)
    (h : p.meanOf draw c g = (.ok (score, asked), c', g')) : lo ≤ score ∧ score ≤ hi := by
  unfold meanOf at h
  split at h
  · cases h
  · rename_i sum _ _ _ hsum
    cases h
    obtain ⟨hle, hge⟩ := sumPlays_within hdraw hsum
    have hplays : (0 : Rat) < p.plays.toNat := by exact_mod_cast p.plays_pos
    rw [zero_rat, zero_add] at hle hge
    rw [divide_rat, le_div_iff₀ hplays, div_le_iff₀ hplays]
    exact ⟨hle, hge⟩

variable [RandomSource γ] [DecidableEq σ]

theorem simulate_within {t : Tree σ μ Rat} (ht : Formed p.game p.agent t)
    (hwithin : t.label.Within p.game p.agent lo hi)
    (h : p.simulate t.label c g = (.ok (score, asked), c', g')) : lo ≤ score ∧ score ≤ hi := by
  unfold simulate at h
  split at h
  · rename_i hn
    split at h
    · cases h
    · rename_i v hv
      cases h
      rw [ofGoal_rat]
      cases ht with
      | bare hkind hterminal _ =>
        have hgoal := (Node.within_max hkind).1 hwithin _ v .refl (hterminal.symm.trans hn) hv
        exact ⟨by exact_mod_cast hgoal.1, by exact_mod_cast hgoal.2⟩
      | choices _ hn' => cases hn'.symm.trans hn
      | outcomes _ hn' => cases hn'.symm.trans hn
  · split at h
    · rename_i hkind
      rw [Node.within_max hkind] at hwithin
      exact meanOf_within (fun g play g' hplay => hwithin.playout hplay) h
    · rename_i action hkind
      rw [Node.within_min hkind] at hwithin
      split at h
      · cases h
      · rename_i joints hjoints
        refine meanOf_within (fun g play g' hplay => ?_) h
        unfold playAfter at hplay
        split at hplay
        · cases hplay
        · rename_i joint g₁ hjoint
          split at hplay
          · cases hplay
          · rename_i s' hs'
            have hmem := RandomSource.choose_mem hjoint
            exact (hwithin joints hjoints joint hmem s' hs').playout hplay

end Setup

/-! ## Statistics -/

/-- A node is on scale if its utility lies between what its visits are worth at least and at most,
and they count those of its children. -/
structure OnScale (game : Game σ μ α) (agent : α) (t : Tree σ μ Rat) : Prop where
  le : t.childVisits ≤ t.visits
  within : ∀ lo hi : Int, t.label.Within game agent lo hi →
    lo * t.visits ≤ t.stats.utility ∧ t.stats.utility ≤ hi * t.visits

section

variable {game : Game σ μ α} {agent : α} {n m : Node σ μ Rat} {cs : List (Tree σ μ Rat)}
  {t u : Tree σ μ Rat} {path : Path} {score : Rat}

theorem onScale_reads : Tree.Reads Node.visits (OnScale game agent : Tree σ μ Rat → Prop) :=
  fun hcs h => ⟨(childVisits_congr hcs).trans_le h.le, h.within⟩

theorem OnScale.congr (h : OnScale game agent (.node n cs)) (hrole : m.role = n.role)
    (hstats : m.stats = n.stats) : OnScale game agent (.node m cs) := by
  have hvisits : (Tree.node m cs).visits = (Tree.node n cs).visits := by
    simp only [Tree.visits, Tree.label, hstats]
  refine ⟨hvisits ▸ h.le, fun lo hi hwithin => ?_⟩
  have hbounds := h.within lo hi (hwithin.congr hrole.symm)
  rw [hvisits]
  simpa only [Tree.stats, Tree.label, hstats] using hbounds

theorem onScale_steady (game : Game σ μ α) (agent : α) : Steady (OnScale game agent) where
  reads := onScale_reads
  flags _ _ _ h := h.congr rfl rfl
  fresh {n} hn := by
    have hvisits : (Tree.node n []).visits = 0 := by rw [Tree.visits, Tree.label, hn]; rfl
    have hutility : (Tree.node n []).stats.utility = 0 := by rw [Tree.stats, Tree.label, hn]; rfl
    refine ⟨Nat.zero_le _, fun lo hi _ => ?_⟩
    rw [hvisits, hutility]
    simp
  grown h hnew := ⟨by omega, h.within⟩

theorem OnScale.record {cs' : List (Tree σ μ Rat)} (h : OnScale game agent (.node n cs))
    (hroom : (Tree.node n cs).visits + 1 < 2 ^ 32)
    (hchildren : (Tree.node n cs').childVisits ≤ (Tree.node n cs).childVisits + 1)
    (hscore : ∀ lo hi : Int, n.Within game agent lo hi → lo ≤ score ∧ score ≤ hi) :
    OnScale game agent (.node (n.record score) cs') := by
  have hvisits : (Tree.node (n.record score) cs').visits = (Tree.node n cs).visits + 1 :=
    toNat_succ_of_lt hroom
  have hutility : (Tree.node (n.record score) cs').stats.utility =
      (Tree.node n cs).stats.utility + score := rfl
  have hsame : (Tree.node (n.record score) cs').childVisits = (Tree.node n cs').childVisits := rfl
  have hle := h.le
  refine ⟨by omega, fun lo hi hwithin => ?_⟩
  have hwithin : n.Within game agent lo hi := hwithin.congr rfl
  obtain ⟨hlo, hhi⟩ := h.within lo hi hwithin
  obtain ⟨hlo', hhi'⟩ := hscore lo hi hwithin
  rw [hvisits, hutility]
  push_cast
  constructor <;> linarith

theorem OnScale.mean_within {lo hi : Int} (h : OnScale game agent t) (hvisited : t.visits ≠ 0)
    (hwithin : t.label.Within game agent lo hi) :
    ∃ mean, t.stats.mean = some mean ∧ lo ≤ mean ∧ mean ≤ hi := by
  have hmean : t.stats.mean = some (t.stats.utility / t.visits) := by
    have hsome : t.stats.isUnvisited = false := beq_false_of_ne fun hzero => hvisited (by
      rw [Tree.visits, show t.label.stats.visits = 0 from hzero]
      rfl)
    rw [Stats.mean, hsome]
    rfl
  obtain ⟨hlo, hhi⟩ := h.within lo hi hwithin
  have hpos : (0 : Rat) < t.visits := by exact_mod_cast Nat.pos_of_ne_zero hvisited
  exact ⟨_, hmean, (le_div_iff₀ hpos).2 hlo, (div_le_iff₀ hpos).2 hhi⟩

variable [DecidableEq σ]

/-- A score that lies between the bounds of its node lies between those of all nodes above it. -/
theorem record_onScale (ht : t.Shaped game agent) (h : t.Every (OnScale game agent))
    (hu : t.get? path = some u) (hroom : t.visits + 1 < 2 ^ 32)
    (hscore : ∀ lo hi : Int, u.label.Within game agent lo hi → lo ≤ score ∧ score ≤ hi) :
    (t.record score path).Every (OnScale game agent) := by
  have habove : ∀ lo hi : Int, t.label.Within game agent lo hi → lo ≤ score ∧ score ≤ hi :=
    fun lo hi hwithin => hscore lo hi (ht.within hwithin hu)
  induction path generalizing t with
  | nil =>
    obtain ⟨n, cs⟩ := t
    exact .node (h.here.record hroom (Nat.le_succ _) habove) fun c hc => h.child hc
  | cons i path ih =>
    obtain ⟨n, cs⟩ := t
    obtain ⟨c, hc, hu⟩ := Tree.get?_cons_eq_some.1 hu
    have hmem : c ∈ cs := List.mem_of_getElem? hc
    have hcroom : c.visits + 1 < 2 ^ 32 := by
      have := visits_le_childVisits (t := .node n cs) hmem
      have := h.here.le
      omega
    have hpassed := childVisits_modify (n := n) (m := n) hc (visits_record score path hcroom)
    refine .node (h.here.record hroom hpassed.le habove) ?_
    refine Tree.forall_mem_modify (fun d hd => h.child hd) fun d hd => ?_
    cases hc.symm.trans hd
    exact ih (ht.child hmem) (h.child hmem) hu hcroom fun lo hi hwithin =>
      hscore lo hi (Tree.Shaped.within (ht.child hmem) hwithin hu)

end

/-! ## Iterations -/

namespace Session

variable [DecidableEq σ] [RandomSource γ] {p : Setup σ μ α Rat} {x : Session σ μ Rat γ}
  {path : Path}

theorem workAt_within {lo hi : Int} {score : Rat} {queries : Nat}
    (hx : x.root.Shaped p.game p.agent) (hwithin : x.root.label.Within p.game p.agent lo hi)
    (h : (x.workAt p path).1 = .ok (.completed score queries)) : lo ≤ score ∧ score ≤ hi := by
  generalize hy : x.workAt p path = y at h
  cases hy ▸ workAt_cases p path x with
  | missing => cases h
  | unexpanded => cases h
  | unscored => cases h
  | completed hu _ hscore =>
    cases h
    exact p.simulate_within (hx.get? hu).here (hx.within hwithin hu) hscore

theorem iterate_within {locking : Locking} {lo hi : Int} {score : Rat} {queries : Nat}
    (hx : x.root.Shaped p.game p.agent) (hwithin : x.root.label.Within p.game p.agent lo hi)
    (h : (x.iterate p locking).1 = .ok (.completed score queries)) :
    lo ≤ score ∧ score ≤ hi := by
  cases hs : select p.policy locking x.root with
  | none =>
    rw [iterate_of_select_none hs] at h
    cases h
  | some chosen =>
    rw [iterate_of_select_some hs] at h
    refine workAt_within (setBusy_shaped true chosen.guard hx) ?_ h
    exact hwithin.congr (setBusy_role true chosen.guard x)

theorem workAt_onScale (hx : x.root.Shaped p.game p.agent)
    (h : x.root.Every (OnScale p.game p.agent))
    (hgrows : Grows x.root (x.workAt p path).2.root) :
    (x.workAt p path).2.root.Every (OnScale p.game p.agent) := by
  have hsteady := onScale_steady p.game p.agent
  generalize hy : x.workAt p path = y at hgrows ⊢
  cases hy ▸ workAt_cases p path x with
  | missing => exact h
  | unexpanded => exact h
  | unscored hu he _ => exact (hsteady.grow hx h hu he).1
  | @completed u grown _ _ score _ _ hu he hscore =>
    obtain ⟨hscaled, hvisits, _⟩ := hsteady.grow hx h hu he
    obtain ⟨hgrown, hrole⟩ := p.expand_shaped (hx.get? hu) he
    have hshaped : (x.root.modify (fun _ => grown) path).Shaped p.game p.agent :=
      hx.modify formed_reads fun u' hu' => by
        cases hu.symm.trans hu'
        exact ⟨hgrown, hrole⟩
    have hroom : (x.root.modify (fun _ => grown) path).visits + 1 < 2 ^ 32 := by
      rw [Grows, ← hvisits] at hgrows
      exact room_of_grows (record_visits _ _ _) hgrows
    have hplace : (x.root.modify (fun _ => grown) path).get? path = some grown := by
      rw [Tree.get?_modify, hu]
      rfl
    refine record_onScale hshaped hscaled hplace hroom fun lo hi hwithin => ?_
    exact p.simulate_within (hx.get? hu).here (hwithin.congr hrole.symm) hscore

theorem iterate_onScale {locking : Locking} :
    Keeps p locking γ (fun t => t.Rooted p.game p.agent ∧ t.Every (OnScale p.game p.agent))
      Grows :=
  iterate_keeps_of_work (fun _ _ _ h => (onScale_steady p.game p.agent).relabel_busy h)
    fun _ _ hx h _ hgrows => workAt_onScale hx h hgrows

end Session

/-! ## Merged trees -/

section

variable {game : Game σ μ α} {agent : α} {n m k : Node σ μ Rat} {t u : Tree σ μ Rat}
  {ours theirs cs : List (Tree σ μ Rat)}

theorem OnScale.absorb (h : OnScale game agent (.node n ours))
    (h' : OnScale game agent (.node m theirs)) (hrole : n.role = m.role) (hk : k.role = n.role)
    (hstats : k.stats = n.stats.absorb m.stats)
    (hroom : (Tree.node n ours).visits + (Tree.node m theirs).visits < 2 ^ 32)
    (hchildren : (Tree.node k cs).childVisits =
      (Tree.node n ours).childVisits + (Tree.node m theirs).childVisits) :
    OnScale game agent (.node k cs) := by
  have hvisits := visits_absorb cs hstats hroom
  have hutility : (Tree.node k cs).stats.utility =
      (Tree.node n ours).stats.utility + (Tree.node m theirs).stats.utility := by
    rw [Tree.stats, Tree.label, hstats]
    rfl
  have hle := h.le
  have hle' := h'.le
  refine ⟨by omega, fun lo hi hwithin => ?_⟩
  have hwithin : n.Within game agent lo hi := hwithin.congr hk.symm
  obtain ⟨hlo, hhi⟩ := h.within lo hi hwithin
  obtain ⟨hlo', hhi'⟩ := h'.within lo hi (hwithin.congr hrole.symm)
  rw [hvisits, hutility]
  push_cast
  constructor <;> linarith

variable [DecidableEq σ] [DecidableEq μ]

theorem mergeChildren_visits (hroom : (ours.map Tree.visits).sum + (theirs.map Tree.visits).sum <
      2 ^ 32) (parent : Home) (i : Nat) :
    (((mergeChildren parent i ours theirs).1 ++
      (mergeChildren parent i ours theirs).2).map Tree.visits).sum =
      (ours.map Tree.visits).sum + (theirs.map Tree.visits).sum := by
  induction theirs generalizing ours i with
  | nil => simp
  | cons t rest ih =>
    simp only [mergeChildren, List.map_cons, List.sum_cons] at hroom ⊢
    split
    · rename_i k hk
      obtain ⟨hlt, -⟩ := List.findIdx?_eq_some_iff_getElem.1 hk
      have hplace := List.getElem?_eq_getElem hlt
      have hle : ours[k].visits ≤ (ours.map Tree.visits).sum :=
        List.le_sum_of_mem (List.mem_map_of_mem (List.getElem_mem hlt))
      have hsum : ((ours.modify k fun u => merge u t).map Tree.visits).sum =
          (ours.map Tree.visits).sum + t.visits :=
        sum_map_modify hplace (merge_visits (by omega))
      rw [ih (by omega)]
      omega
    · have hrest := @ih ours (by omega) (i + 1)
      simp only [List.map_append, List.sum_append, List.map_cons, List.sum_cons,
        graft_visits] at hrest ⊢
      omega

/-- What the children of a node are like before they are merged with those of another one. -/
def Mergeable (game : Game σ μ α) (agent : α) (s : σ) (t : Tree σ μ Rat) : Prop :=
  t.Shaped game agent ∧ (t.label.kind = .max ∨ t.label.state = s) ∧ t.Every (OnScale game agent)

/-- One of their children after the other is matched or copied. The sum of the visits has room,
so no match makes a count go round, also where several of theirs match the same child. -/
theorem mergeChildren_onScale {s : σ} {parent : Home} {i : Nat} (hours : ∀ v ∈ ours, Mergeable game agent s v)
    (htheirs : ∀ t ∈ theirs, Mergeable game agent s t)
    (hroom : (ours.map Tree.visits).sum + (theirs.map Tree.visits).sum < 2 ^ 32)
    (hmerge : ∀ t ∈ theirs, ∀ v, v.Shaped game agent → v.label.role = t.label.role →
      v.Every (OnScale game agent) → v.visits + t.visits < 2 ^ 32 →
        (merge v t).Every (OnScale game agent)) :
    ∀ v ∈ (mergeChildren parent i ours theirs).1 ++ (mergeChildren parent i ours theirs).2,
      v.Every (OnScale game agent) := by
  induction theirs generalizing ours i with
  | nil => simpa using fun v hv => (hours v hv).2.2
  | cons t rest ih =>
    obtain ⟨ht, htstate, htscale⟩ := htheirs t List.mem_cons_self
    have hrest := fun t' ht' => htheirs t' (List.mem_cons_of_mem t ht')
    have hnext := fun t' ht' => hmerge t' (List.mem_cons_of_mem t ht')
    simp only [List.map_cons, List.sum_cons] at hroom
    simp only [mergeChildren]
    split
    · rename_i k hk
      obtain ⟨hlt, hsame, -⟩ := List.findIdx?_eq_some_iff_getElem.1 hk
      have hplace := List.getElem?_eq_getElem hlt
      have hmem := List.getElem_mem hlt
      obtain ⟨hv, hvstate, hvscale⟩ := hours _ hmem
      have hrole := Node.role_eq_of_key_eq (Node.sameOutcome_iff.1 hsame) hvstate htstate
      have hle : ours[k].visits ≤ (ours.map Tree.visits).sum :=
        List.le_sum_of_mem (List.mem_map_of_mem hmem)
      have hpair : ours[k].visits + t.visits < 2 ^ 32 := by omega
      have hsum : ((ours.modify k fun u => merge u t).map Tree.visits).sum =
          (ours.map Tree.visits).sum + t.visits :=
        sum_map_modify hplace (merge_visits hpair)
      refine ih (Tree.forall_mem_modify hours fun v hv' => ?_) hrest (by omega) hnext
      cases hplace.symm.trans hv'
      obtain ⟨hk, hs⟩ := Node.role_eq_iff.1 (merge_role ours[k] t)
      exact ⟨merge_shaped hv ht hrole, by rwa [hk, hs],
        hmerge t List.mem_cons_self _ hv hrole hvscale hpair⟩
    · intro v hv
      rcases List.mem_append.1 hv with hv | hv
      · exact ih hours hrest (by omega) hnext v (List.mem_append_left _ hv)
      · rcases List.mem_cons.1 hv with rfl | hv
        · exact (onScale_steady game agent).graft htscale _
        · exact ih hours hrest (by omega) hnext v (List.mem_append_right _ hv)

theorem merge_onScale (ht : t.Shaped game agent) (hu : u.Shaped game agent)
    (hrole : t.label.role = u.label.role) (h : t.Every (OnScale game agent))
    (h' : u.Every (OnScale game agent)) (hroom : t.visits + u.visits < 2 ^ 32) :
    (merge t u).Every (OnScale game agent) := by
  induction u generalizing t with
  | node m theirs ih =>
    obtain ⟨n, ours⟩ := t
    obtain ⟨_, hstate⟩ := Node.role_eq_iff.1 hrole
    have hchildren : (ours.map Tree.visits).sum + (theirs.map Tree.visits).sum < 2 ^ 32 := by
      have hle := h.here.le
      have hle' := h'.here.le
      simp only [Tree.childVisits, Tree.children] at hle hle'
      omega
    rw [merge_node]
    refine .node (h.here.absorb h'.here hrole rfl rfl hroom (mergeChildren_visits hchildren _ _)) ?_
    refine mergeChildren_onScale (s := n.state)
      (fun v hv => ⟨ht.child hv, ht.here.child_state hv, h.child hv⟩)
      (fun v hv => ⟨hu.child hv, (hstate ▸ hu.here.child_state hv :), h'.child hv⟩) hchildren ?_
    exact fun v hv w hw hrole hscale hroom =>
      ih v hv hw (hu.child hv) hrole hscale (h'.child hv) hroom

end

/-! ## Histories -/

namespace History

variable [RandomSource γ] [DecidableEq σ] [DecidableEq μ] {game : Game σ μ α} {agent : α}

theorem onScale (h : History σ μ Rat γ) (hfits : h.Fits game agent) :
    (h.session game agent).root.Every (OnScale game agent) := by
  refine fits_induction (J := fun _ t => t.Every (OnScale game agent)) ?start ?iterate ?permit
    ?move ?merge h hfits
  case start => exact fun p _ _ s => (onScale_steady game agent).every_fresh (p.unvisited_fresh s {})
  case iterate =>
    rintro p rfl rfl locking δ _ w _
    exact Session.iterate_onScale
  case permit => exact fun _ t busy path ht => (onScale_steady game agent).relabel_busy ht
  case move => exact fun _ t c u hc hu ht => (ht.child hc).child hu
  case merge =>
    intro _ _ t u ht hu hrole hgrows hscale hscale'
    exact merge_onScale ht.1 hu.1 hrole hscale hscale' (room_of_absorb hgrows)

/-- Where the goals in reach of the root lie between two bounds, the score of each completed
iteration does, and the utility of each node lies between what its visits are worth at least and
at most; the latter while no count at a root goes round. -/
theorem scores_on_scale (game : Game σ μ α) (agent : α) {lo hi : Int} (h : History σ μ Rat γ)
    (hgoals : game.GoalsWithin agent lo hi (h.session game agent).root.state) :
    0 < (h.setup game agent).plays.toNat ∧
      (∀ (locking : Locking) (δ : Type) [RandomSource δ] (g : δ) (score : Rat) (queries : Nat),
        (Session.iterate (h.setup game agent) locking { h.session game agent with rng := g }).1 =
            .ok (.completed score queries) → lo ≤ score ∧ score ≤ hi) ∧
      (h.Fits game agent → ∀ path t, (h.session game agent).root.get? path = some t →
        lo * t.visits ≤ t.stats.utility ∧ t.stats.utility ≤ hi * t.visits ∧
          (t.visits = 0 → t.stats.utility = 0)) := by
  obtain ⟨hshaped, hkind⟩ : (h.session game agent).root.Rooted game agent := h.rooted
  have hroot : (h.session game agent).root.label.Within game agent lo hi :=
    (Node.within_max hkind).2 hgoals
  refine ⟨(h.setup game agent).plays_pos, fun locking δ _ g score queries hok => ?_, ?_⟩
  · exact Session.iterate_within (p := h.setup game agent)
      (x := { h.session game agent with rng := g }) hshaped hroot hok
  · intro hfits path t ht
    obtain ⟨hlo, hhi⟩ := ((h.onScale hfits).get? ht).here.within lo hi (hshaped.within hroot ht)
    refine ⟨hlo, hhi, fun hunvisited => ?_⟩
    rw [hunvisited] at hlo hhi
    simp only [Nat.cast_zero, mul_zero] at hlo hhi
    exact le_antisymm hhi hlo

/-- Two short searches of a position with one open cell, added up: the game is drawn whatever
happens, so each visit of each node is worth 50. -/
theorem scores_on_scale_drawn :
    let o : Options Rat := ⟨⟨fun _ _ _ => 0, fun _ _ _ => List.length_pos_iff.2⟩, 0, 10⟩
    let s := TicTacToe.Position.ofBoard #v[1, 2, 1, 1, 2, 2, 2, 1, 0]
    let h : History TicTacToe.Position TicTacToe.Action Rat Keystream :=
      .merge (.run (.start o s 7) 4) (.run (.start o s 11) 2)
    TicTacToe.game.GoalsWithin .o 50 50 s ∧ h.Fits TicTacToe.game .o ∧
      (h.session TicTacToe.game .o).root.visits = 6 ∧
      ∀ path t, (h.session TicTacToe.game .o).root.get? path = some t →
        t.stats.utility = 50 * t.visits := by
  intro o s h
  have hopen : ∀ c, s.isOpen c = true → c = 8 := by decide +kernel
  have hdraw : TicTacToe.goal (s.place 8) .o = .ok 50 := by decide +kernel
  have hgoals : TicTacToe.game.GoalsWithin .o 50 50 s :=
    TicTacToe.goalsWithin_of_last (by decide +kernel) hopen (by decide +kernel) hdraw
  have hfits : h.Fits TicTacToe.game .o := by
    refine ⟨⟨trivial, ?_⟩, ⟨trivial, ?_⟩, ?_⟩ <;> decide +kernel
  obtain ⟨hstate, hvisits⟩ : (h.session TicTacToe.game .o).root.state = s ∧
      (h.session TicTacToe.game .o).root.visits = 6 := by decide +kernel
  refine ⟨hgoals, hfits, hvisits, fun path t ht => ?_⟩
  obtain ⟨-, -, hbounds⟩ := scores_on_scale TicTacToe.game .o h (hstate ▸ hgoals)
  obtain ⟨hlo, hhi, -⟩ := hbounds hfits path t ht
  exact le_antisymm hhi hlo

/-- A count that goes round takes the utility off its scale: a tree that was added to itself again
and again has no visits in the end, and the sum of the scores is still there. -/
theorem utility_without_visits :
    let o : Options Rat := ⟨⟨fun _ _ _ => 0, fun _ _ _ => List.length_pos_iff.2⟩, 2, 10⟩
    let s := TicTacToe.Position.ofBoard #v[1, 1, 1, 2, 2, 0, 0, 0, 0]
    let h : History TicTacToe.Position TicTacToe.Action Rat Keystream :=
      Nat.repeat (fun h => .merge h h) 32 (.run (.start o s 42) 1)
    TicTacToe.game.GoalsWithin .x 100 100 (h.session TicTacToe.game .x).root.state ∧
      (h.session TicTacToe.game .x).root.visits = 0 ∧
      (h.session TicTacToe.game .x).root.stats.utility = 429496729600 ∧
      ¬∀ path t, (h.session TicTacToe.game .x).root.get? path = some t →
        t.stats.utility ≤ 100 * t.visits := by
  intro o s h
  obtain ⟨hstate, hvisits, hutility⟩ : (h.session TicTacToe.game .x).root.state = s ∧
      (h.session TicTacToe.game .x).root.visits = 0 ∧
      (h.session TicTacToe.game .x).root.stats.utility = 429496729600 := by decide +kernel
  have hgoals : TicTacToe.game.GoalsWithin .x 100 100 s := by
    have hdone : TicTacToe.game.terminal s = true := by decide +kernel
    have hwon : TicTacToe.game.goal s .x = .ok 100 := by decide +kernel
    exact Game.goalsWithin_of_terminal hdone hwon
  refine ⟨hstate ▸ hgoals, hvisits, hutility, fun hbound => ?_⟩
  have hroot := hbound [] _ rfl
  rw [hvisits, hutility] at hroot
  norm_num at hroot

end History

end TreeSearch

end GameSearch
