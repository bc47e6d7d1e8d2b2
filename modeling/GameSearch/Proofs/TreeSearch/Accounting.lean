import GameSearch.Proofs.TreeSearch.LoneWorker
import GameSearch.Proofs.TreeSearch.VisitFlow

/-!
# GameSearch.Proofs.TreeSearch.Accounting

What the counters of a session tell about its tree, as long as the root has not been replaced.
Every completed iteration visits the root. Every iteration also ends at a node of its own: at a
terminal node, or at one that is visited, and simulated, for the first time. Sums over all nodes
(`Tree.total`) change at that node only (`Tree.total_record`).

* `Session.workAt_accounted`: work is accounted for by the node that it was done at.
* `History.kept_induction`: the induction over all that leaves the root where it is.
* `History.exact_accounting`: the visits, iterations and plays that were counted.
-/

namespace GameSearch.TreeSearch

variable {σ μ α V γ : Type} {t u : Tree σ μ V} {path : Path} {w : Nat}

/-! ## Sums over all nodes -/

namespace Tree

mutual

def total (f : Node σ μ V → Nat) : Tree σ μ V → Nat
  | .node n cs => f n + totalAll f cs

def totalAll (f : Node σ μ V → Nat) : List (Tree σ μ V) → Nat
  | [] => 0
  | t :: rest => total f t + totalAll f rest

end

def simulated (t : Tree σ μ V) : Nat :=
  t.total fun n => if n.terminal || n.isUnvisited then 0 else 1

def terminalVisits (t : Tree σ μ V) : Nat :=
  t.total fun n => if n.terminal then n.visits.toNat else 0

variable {f : Node σ μ V → Nat}

theorem totalAll_eq (f : Node σ μ V → Nat) (cs : List (Tree σ μ V)) :
    totalAll f cs = (cs.map (total f)).sum := by
  induction cs with
  | nil => rfl
  | cons c rest ih => rw [totalAll, ih, List.map_cons, List.sum_cons]

theorem total_node (f : Node σ μ V → Nat) (n : Node σ μ V) (cs : List (Tree σ μ V)) :
    total f (.node n cs) = f n + (cs.map (total f)).sum := by
  rw [total, totalAll_eq]

theorem total_modify {g : Tree σ μ V → Tree σ μ V}
    (hg : ∀ u, t.get? path = some u → total f (g u) = total f u) :
    total f (t.modify g path) = total f t := by
  induction path generalizing t with
  | nil => exact hg t rfl
  | cons i path ih =>
    obtain ⟨n, cs⟩ := t
    have hsame : (cs.modify i (modify g path)).map (total f) = cs.map (total f) :=
      map_modify_of_eq fun c hc => ih fun u hu => hg u (get?_cons_eq_some.2 ⟨c, hc, hu⟩)
    rw [modify, total_node, total_node, hsame]

variable [Utility V]

/-- `f` reads the terminal flag and the statistics of a node, and an unvisited one does not
count. -/
structure Counts (f : Node σ μ V → Nat) : Prop where
  congr : ∀ {n m : Node σ μ V}, n.terminal = m.terminal → n.stats = m.stats → f n = f m
  unvisited : ∀ {n : Node σ μ V}, n.stats = .none → f n = 0

theorem total_fresh (hf : Counts f) (h : t.Fresh) : total f t = 0 := by
  induction h with
  | @node n cs hn _ ih =>
    have hhere : f n = 0 := hf.unvisited hn.1
    rw [total_node, hhere, Nat.zero_add, List.sum_eq_zero_iff_forall_eq_nat]
    simpa using ih

theorem total_expand [DecidableEq σ] {p : Setup σ μ α V} {grown : Tree σ μ V} {asked : Nat}
    (hf : Counts f) (ht : t.Shaped p.game p.agent) (h : p.expand t = .ok (asked, grown)) :
    total f grown = total f t := by
  obtain ⟨⟨e, hlabel⟩, _, hchildren⟩ := p.expand_ready ht h
  obtain ⟨n, cs⟩ := t
  obtain ⟨m, ds⟩ := grown
  obtain rfl : m = { n with expanded := e } := hlabel
  have hsame : f { n with expanded := e } = f n := hf.congr rfl rfl
  rw [total_node, total_node, hsame]
  rcases hchildren with hds | ⟨hcs, hfresh⟩
  · obtain rfl : ds = cs := hds
    rfl
  · obtain rfl : cs = [] := hcs
    have hnew : (ds.map (total f)).sum = 0 := by
      refine List.sum_eq_zero_iff_forall_eq_nat.2 ?_
      simpa using fun c (hc : c ∈ ds) => total_fresh hf (hfresh c hc)
    rw [hnew]
    rfl

theorem total_relabel_busy (hf : Counts f) (busy : Bool) (path : Path) (t : Tree σ μ V) :
    total f (t.relabel (fun n => { n with busy := busy }) path) = total f t := by
  refine total_modify fun u _ => ?_
  obtain ⟨n, cs⟩ := u
  have hsame : f { n with busy := busy } = f n := hf.congr rfl rfl
  rw [total_node, total_node, hsame]

/-- A score that is recorded at the end of a walk changes a sum by what it changes at the target,
if more visits of the nodes that are passed do not matter. -/
theorem total_record {score : V} {d : Nat} (hb : t.Every (Balanced w)) (hwalk : Walk t path)
    (hroom : t.visits + 1 < 2 ^ 32) (hu : t.get? path = some u)
    (hpass : ∀ n : Node σ μ V, n.terminal = false → n.visits ≠ 0 → n.visits + 1 ≠ 0 →
      f (n.record score) = f n)
    (hlast : f (u.label.record score) = f u.label + d) :
    total f (t.record score path) = total f t + d := by
  induction path generalizing t with
  | nil =>
    cases hu
    obtain ⟨n, cs⟩ := u
    simp only [label] at hlast
    rw [record, total_node, total_node, hlast]
    omega
  | cons i path ih =>
    obtain ⟨n, cs⟩ := t
    obtain ⟨hvisited, hn, c, hc, hwalk⟩ := hwalk
    obtain ⟨c', hc', hu⟩ := get?_cons_eq_some.1 hu
    cases hc.symm.trans hc'
    have hmem : c ∈ cs := List.mem_of_getElem? hc
    have hcroom : c.visits + 1 < 2 ^ 32 := by
      have := visits_le_childVisits (t := .node n cs) hmem
      have := hb.here.le
      omega
    have hhere : f (n.record score) = f n := by
      refine hpass n hn (fun hzero => hvisited ?_) fun hzero => ?_
      · rw [visits_eq, label, hzero]
        rfl
      · have hmore : (n.visits + 1).toNat = n.visits.toNat + 1 := toNat_succ_of_lt hroom
        rw [hzero] at hmore
        cases hmore
    rw [record, total_node, total_node, hhere,
      sum_map_modify hc (ih (hb.child hmem) hwalk hcroom hu)]
    omega

/-! ## Nodes that were simulated, and visits of terminal nodes -/

theorem counts_simulated :
    Counts fun n : Node σ μ V => if n.terminal || n.isUnvisited then 0 else 1 := by
  refine ⟨fun hterminal hstats => ?_, fun hstats => ?_⟩
  · rw [hterminal, Node.isUnvisited, Node.isUnvisited, hstats]
  · simp [Node.isUnvisited, hstats, Stats.isUnvisited, Stats.none]

theorem counts_terminalVisits :
    Counts fun n : Node σ μ V => if n.terminal then n.visits.toNat else 0 := by
  refine ⟨fun hterminal hstats => ?_, fun hstats => ?_⟩
  · simp only [hterminal, Node.visits, hstats]
  · simp [Node.visits, hstats, Stats.none]

theorem simulated_record {score : V} (hb : t.Every (Balanced w)) (hwalk : Walk t path)
    (hroom : t.visits + 1 < 2 ^ 32) (hu : t.get? path = some u) :
    (t.record score path).simulated =
      t.simulated + if u.label.terminal then 0 else 1 := by
  refine total_record hb hwalk hroom hu (fun n hn hvisited hnext => ?_) ?_
  · have hrecorded : (n.record score).isUnvisited = false := beq_false_of_ne hnext
    have hbefore : n.isUnvisited = false := beq_false_of_ne hvisited
    rw [hrecorded, hbefore]
    rfl
  · cases hterminal : u.label.terminal with
    | true => simp [Node.record, hterminal]
    | false =>
      have hfirst := (hwalk.target hu).resolve_right (by simp [hterminal])
      have hzero : u.label.stats.visits = 0 := UInt32.toNat_inj.1 hfirst
      simp [Node.record, hterminal, Node.isUnvisited, Stats.isUnvisited, Stats.record, hzero]

theorem terminalVisits_record {score : V} (hb : t.Every (Balanced w)) (hwalk : Walk t path)
    (hroom : t.visits + 1 < 2 ^ 32) (hu : t.get? path = some u) :
    (t.record score path).terminalVisits =
      t.terminalVisits + if u.label.terminal then 1 else 0 := by
  refine total_record hb hwalk hroom hu (fun n hn _ _ => ?_) ?_
  · simp [Node.record, hn]
  · have hroomu := visits_below_le hb hu
    cases hterminal : u.label.terminal with
    | true =>
      have hmore : (u.label.record score).visits.toNat = u.label.visits.toNat + 1 :=
        toNat_succ_of_lt (Nat.lt_of_le_of_lt (Nat.succ_le_succ hroomu) hroom)
      have hrecorded : (u.label.record score).terminal = true := hterminal
      simp only [hrecorded, if_true, hmore]
    | false => simp [Node.record, hterminal]

end Tree

/-! ## Counters -/

/-- What the counters say about a tree that nothing was added to. -/
structure Accounted (p : Setup σ μ α V) (t : Tree σ μ V) (c : Counters) : Prop where
  visits : c.iterations.toNat = t.visits
  iterations : c.iterations.toNat = t.simulated + t.terminalVisits
  playouts : c.playouts.toNat = p.plays.toNat * t.simulated

theorem toNat_iterations_succ {c : Counters} (hvisits : c.iterations.toNat = t.visits)
    (hroom : t.visits + 1 < 2 ^ 32) : (c.iterations + 1).toNat = t.visits + 1 := by
  have hone : (1 : UInt64).toNat = 1 := rfl
  rw [UInt64.toNat_add, hone, hvisits]
  omega

theorem toNat_playouts_add {p : Setup σ μ α V} {c : Counters} {k : Nat}
    (hplayouts : c.playouts.toNat = p.plays.toNat * k) (hk : k + 1 < 2 ^ 32) :
    (c.playouts + p.plays.toUInt64).toNat = p.plays.toNat * (k + 1) := by
  have hplays := p.plays.toNat_lt
  have hbound : p.plays.toNat * (k + 1) ≤ 2 ^ 32 * 2 ^ 32 - 2 ^ 32 := by
    calc p.plays.toNat * (k + 1)
      _ ≤ 2 ^ 32 * (2 ^ 32 - 1) := Nat.mul_le_mul (by omega) (by omega)
      _ = 2 ^ 32 * 2 ^ 32 - 2 ^ 32 := by omega
  rw [UInt64.toNat_add, UInt32.toNat_toUInt64, hplayouts, ← Nat.mul_add_one]
  omega

/-! ## Work -/

variable [Utility V] [DecidableEq σ]

namespace Session

variable [RandomSource γ] {p : Setup σ μ α V} {x : Session σ μ V γ}

theorem workAt_totals (hx : x.root.Shaped p.game p.agent) (hb : x.root.Every (Balanced w))
    (hwalk : Walk x.root path) (hu : x.root.get? path = some u)
    (hgrows : Grows x.root (x.workAt p path).2.root) :
    (∃ score queries, (x.workAt p path).1 = .ok (.completed score queries) ∧
      (x.workAt p path).2.root.simulated =
        x.root.simulated + (if u.label.terminal then 0 else 1) ∧
      (x.workAt p path).2.root.terminalVisits =
        x.root.terminalVisits + if u.label.terminal then 1 else 0) ∨
    (∃ e, (x.workAt p path).1 = .error e ∧
      (x.workAt p path).2.root.simulated = x.root.simulated ∧
      (x.workAt p path).2.root.terminalVisits = x.root.terminalVisits) := by
  have hgrow : ∀ {f : Node σ μ V → Nat} {t grown : Tree σ μ V} {asked : Nat}, Tree.Counts f →
      x.root.get? path = some t → p.expand t = .ok (asked, grown) →
      (x.root.modify (fun _ => grown) path).total f = x.root.total f := by
    intro f t grown asked hf ht he
    refine Tree.total_modify fun t' ht' => ?_
    cases ht.symm.trans ht'
    exact Tree.total_expand hf (hx.get? ht) he
  generalize hy : x.workAt p path = y at hgrows ⊢
  cases hy ▸ workAt_cases p path x with
  | missing hnone => cases hnone.symm.trans hu
  | unexpanded => exact .inr ⟨_, rfl, rfl, rfl⟩
  | unscored ht he _ =>
    exact .inr ⟨_, rfl, hgrow Tree.counts_simulated ht he, hgrow Tree.counts_terminalVisits ht he⟩
  | @completed t grown _ _ score _ _ ht he _ =>
    cases hu.symm.trans ht
    obtain ⟨hbalanced, hvisits, hwalk'⟩ := (balanced_steady w).grow hx hb hu he
    obtain ⟨⟨e, hlabel⟩, _⟩ := p.expand_ready (hx.get? hu) he
    have hroom : (x.root.modify (fun _ => grown) path).visits + 1 < 2 ^ 32 := by
      rw [Grows, ← hvisits] at hgrows
      exact room_of_grows (record_visits _ _ _) hgrows
    have hplace : (x.root.modify (fun _ => grown) path).get? path = some grown := by
      rw [Tree.get?_modify, hu]
      rfl
    have hterminal : grown.label.terminal = u.label.terminal := by rw [hlabel]
    refine .inl ⟨_, _, rfl, ?_, ?_⟩
    · rw [Tree.simulated_record hbalanced (hwalk' hwalk) hroom hplace, hterminal]
      exact congrArg (· + _) (hgrow Tree.counts_simulated hu he)
    · rw [Tree.terminalVisits_record hbalanced (hwalk' hwalk) hroom hplace, hterminal]
      exact congrArg (· + _) (hgrow Tree.counts_terminalVisits hu he)

theorem workAt_counted (hx : x.root.Shaped p.game p.agent) (hwalk : Walk x.root path)
    (hgrows : Grows x.root (x.workAt p path).2.root)
    (h : x.counters.iterations.toNat = x.root.visits) :
    (x.workAt p path).2.counters.iterations.toNat = (x.workAt p path).2.root.visits := by
  obtain ⟨u, hu⟩ := hwalk.exists_target
  rcases workAt_outcome (p := p) hx hwalk hu with
    ⟨_, _, _, hframe, hcounters⟩ | ⟨_, _, hframe, hcounters, _⟩
  · have hroom := room_of_grows (congrArg Stats.visits hframe.root_stats) hgrows
    have hvisits := Tree.visits_add (n := 1) hroom (congrArg Stats.visits hframe.root_stats)
    rw [hcounters]
    exact (toNat_iterations_succ h hroom).trans hvisits.symm
  · have hvisits : (x.workAt p path).2.root.visits = x.root.visits :=
      congrArg (fun stats : Stats V => stats.visits.toNat) hframe.root_stats
    rw [hcounters]
    exact h.trans hvisits.symm

theorem workAt_accounted (hx : x.root.Shaped p.game p.agent) (hb : x.root.Every (Balanced w))
    (hwalk : Walk x.root path) (hgrows : Grows x.root (x.workAt p path).2.root)
    (h : Accounted p x.root x.counters) :
    Accounted p (x.workAt p path).2.root (x.workAt p path).2.counters := by
  obtain ⟨u, hu⟩ := hwalk.exists_target
  have hcounted := workAt_counted (p := p) hx hwalk hgrows h.visits
  have htotals := workAt_totals (p := p) hx hb hwalk hu hgrows
  rcases workAt_outcome (p := p) hx hwalk hu with
    ⟨_, _, hok, hframe, hcounters⟩ | ⟨_, herror, _, hcounters, _⟩
  · have hroom := room_of_grows (congrArg Stats.visits hframe.root_stats) hgrows
    have hiterations := toNat_iterations_succ h.visits hroom
    have hsum : x.root.visits = x.root.simulated + x.root.terminalVisits :=
      h.visits.symm.trans h.iterations
    obtain ⟨_, _, _, hsimulated, hterminal⟩ | ⟨_, herror, _⟩ := htotals
    · refine ⟨hcounted, ?_, ?_⟩
      · rw [hcounters, hiterations, hsimulated, hterminal]
        split <;> omega
      · rw [hcounters, hsimulated]
        cases u.label.terminal with
        | true => simpa using h.playouts
        | false => exact toNat_playouts_add h.playouts (by omega)
    · cases herror.symm.trans hok
  · obtain ⟨_, _, hok, _⟩ | ⟨_, _, hsimulated, hterminal⟩ := htotals
    · cases herror.symm.trans hok
    · refine ⟨hcounted, ?_, ?_⟩
      · rw [hcounters, hsimulated, hterminal]
        exact h.iterations
      · rw [hcounters, hsimulated]
        exact h.playouts

theorem iterate_counted {locking : Locking} (hx : x.root.Rooted p.game p.agent)
    (hb : x.root.Every Branched) (hgrows : Grows x.root (x.iterate p locking).2.root)
    (h : x.counters.iterations.toNat = x.root.visits) :
    (x.iterate p locking).2.counters.iterations.toNat = (x.iterate p locking).2.root.visits := by
  rcases x.iterate_cases hx.1 hb locking with ⟨_, hheld⟩ | ⟨path, hpath, hwork⟩
  · rw [hheld]
    exact h
  · rw [hwork] at hgrows ⊢
    exact workAt_counted hx.1 (descend_walk hx.1 hpath) hgrows h

theorem iterate_accounted {locking : Locking} (hx : x.root.Rooted p.game p.agent)
    (hb : x.root.Every (Balanced 1)) (hgrows : Grows x.root (x.iterate p locking).2.root)
    (h : Accounted p x.root x.counters) :
    Accounted p (x.iterate p locking).2.root (x.iterate p locking).2.counters := by
  have hbranched : x.root.Every Branched := hb.imp fun _ => Balanced.branched
  rcases x.iterate_cases hx.1 hbranched locking with ⟨_, hheld⟩ | ⟨path, hpath, hwork⟩
  · rw [hheld]
    exact ⟨h.visits, h.iterations, h.playouts⟩
  · rw [hwork] at hgrows ⊢
    exact workAt_accounted hx.1 hb (descend_walk hx.1 hpath) hgrows h

end Session

/-! ## Histories -/

namespace History

variable [RandomSource γ] [DecidableEq μ] {game : Game σ μ α} {agent : α} {merging : Bool}

/-- The root is never replaced. Other trees are added only if `merging` allows it, and only trees
whose root was never replaced. -/
def Kept (game : Game σ μ α) (agent : α) (merging : Bool) : History σ μ V γ → Prop
  | start _ _ _ => True
  | iterate h _ _ => h.Kept game agent merging
  | run h _ => h.Kept game agent merging
  | search h _ => h.Kept game agent merging
  | permit h _ _ => h.Kept game agent merging
  | updateRoot h s => h.Kept game agent merging ∧
    ((h.session game agent).updateRoot (h.setup game agent) s).1 = .unchanged
  | setRoot _ _ => False
  | merge h other => h.Kept game agent merging ∧
    ((h.session game agent).root.state = (other.session game agent).root.state →
      merging = true ∧ other.Kept game agent merging)

theorem kept_induction {J : Setup σ μ α V → Tree σ μ V → Counters → Prop}
    (start : ∀ p s, J p (p.unvisited s {}) {})
    (iterate : ∀ (p : Setup σ μ α V) (locking : Locking) (δ : Type) [RandomSource δ]
      (x : Session σ μ V δ), x.root.Rooted p.game p.agent → x.root.Every Branched →
      Grows x.root (x.iterate p locking).2.root → J p x.root x.counters →
      J p (x.iterate p locking).2.root (x.iterate p locking).2.counters)
    (permit : ∀ p t c busy path, J p t c → J p (t.relabel (fun n => { n with busy := busy }) path) c)
    (merge : merging = true → ∀ p q t u c d, J p t c → J q u d →
      Grows t (TreeSearch.merge t u) → J p (TreeSearch.merge t u) (c.absorb d))
    (h : History σ μ V γ) (hkept : h.Kept game agent merging) (hfits : h.Fits game agent) :
    J (h.setup game agent) (h.session game agent).root (h.session game agent).counters := by
  have hcarries : ∀ (p : Setup σ μ α V) (locking : Locking) (δ : Type) [RandomSource δ],
      Session.Carries p locking δ (fun t c => (t.Rooted p.game p.agent ∧ t.Every Branched) ∧ J p t c)
        Grows := by
    rintro p locking δ _ x ⟨hx, hJ⟩ hgrows
    exact ⟨Session.iterate_branched p locking x hx trivial,
      iterate p locking δ x hx.1 hx.2 hgrows hJ⟩
  induction h with
  | start o s seed => exact start _ s
  | iterate h locking g ih =>
    exact iterate _ locking _ { h.session game agent with rng := g } h.rooted h.branched hfits.2
      (ih hkept hfits.1)
  | run h n ih =>
    obtain ⟨hfits, hgrows⟩ := hfits
    simp only [session, Session.runIterations_root, Session.runIterations_counters] at hgrows ⊢
    exact (Session.repeatIterations_carries (hcarries _ _ γ) n
      ⟨⟨h.rooted, h.branched⟩, ih hkept hfits⟩ hgrows).2
  | search h i ih =>
    rw [session, Session.searchUntil_root, Session.searchUntil_counters]
    split
    · exact ih hkept hfits.1
    · rename_i hn
      exact (Session.iterateUntil_carries (hcarries _ _ γ) _ 0
        ⟨⟨h.rooted, h.branched⟩, ih hkept hfits.1⟩ (hfits.2 (Bool.eq_false_iff.2 hn))).2
  | permit h busy path ih => exact permit _ _ _ busy path (ih hkept hfits)
  | updateRoot h s ih =>
    have hmoved := (h.session game agent).updateRoot_cases (h.setup game agent) s
    obtain ⟨hkept, hsame⟩ := hkept
    unfold session
    generalize (h.session game agent).updateRoot (h.setup game agent) s = y at hmoved hsame ⊢
    cases hmoved with
    | unchanged => exact ih hkept hfits
    | reused hc ht => cases hsame
    | rebuilt => cases hsame
  | setRoot h s ih => cases hkept
  | merge h other ih ih' =>
    obtain ⟨hkept, hother⟩ := hkept
    obtain ⟨hfits, hfits', hgrows⟩ := hfits
    simp only [session, Session.merge] at hgrows ⊢
    by_cases hstate : (h.session game agent).root.state = (other.session game agent).root.state
    · obtain ⟨hmerging, hkept'⟩ := hother hstate
      simp only [if_pos hstate] at hgrows ⊢
      exact merge hmerging _ _ _ _ _ _ (ih hkept hfits) (ih' hkept' hfits') hgrows
    · simp only [if_neg hstate]
      exact ih hkept hfits

theorem counted (h : History σ μ V γ) (hkept : h.Kept game agent merging)
    (hfits : h.Fits game agent) :
    (h.session game agent).counters.iterations.toNat = (h.session game agent).root.visits := by
  refine kept_induction (J := fun _ t c => c.iterations.toNat = t.visits) ?start ?iterate ?permit
    ?merge h hkept hfits
  case start => exact fun p s => rfl
  case iterate => exact fun p locking δ _ y hy hb hgrows hJ => Session.iterate_counted hy hb hgrows hJ
  case permit => exact fun p t c busy path hJ => hJ.trans (relabel_busy_visits t).symm
  case merge =>
    intro _ p q t u c d hJ hJ' hgrows
    have hroom := room_of_absorb hgrows
    have hsum : (c.iterations + d.iterations).toNat = t.visits + u.visits := by
      rw [UInt64.toNat_add, hJ, hJ']
      omega
    exact hsum.trans (merge_visits hroom).symm

theorem accounted (h : History σ μ V γ) (hkept : h.Kept game agent false)
    (hfits : h.Fits game agent) : Accounted (h.setup game agent) (h.session game agent).root
      (h.session game agent).counters := by
  refine (kept_induction (J := fun p t c => t.Every (Balanced 1) ∧ Accounted p t c) ?start ?iterate
    ?permit ?merge h hkept hfits).2
  case start =>
    intro p s
    have hfresh := p.unvisited_fresh s {}
    have hsimulated : (p.unvisited s {}).simulated = 0 := Tree.total_fresh Tree.counts_simulated hfresh
    have hterminal : (p.unvisited s {}).terminalVisits = 0 :=
      Tree.total_fresh Tree.counts_terminalVisits hfresh
    refine ⟨(balanced_steady 1).every_fresh hfresh, rfl, ?_, ?_⟩
    · rw [hsimulated, hterminal]
      rfl
    · rw [hsimulated]
      rfl
  case iterate =>
    rintro p locking δ _ y hy - hgrows ⟨hb, hJ⟩
    exact ⟨(Session.iterate_balanced (Nat.le_refl 1) y ⟨hy, hb⟩ hgrows).2,
      Session.iterate_accounted hy hb hgrows hJ⟩
  case permit =>
    rintro p t c busy path ⟨hb, hJ⟩
    have hsimulated := Tree.total_relabel_busy Tree.counts_simulated busy path t
    have hterminal := Tree.total_relabel_busy Tree.counts_terminalVisits busy path t
    refine ⟨(balanced_steady 1).relabel_busy hb, ?_, ?_, ?_⟩
    · exact hJ.visits.trans (relabel_busy_visits t).symm
    · rw [Tree.simulated, Tree.terminalVisits, hsimulated, hterminal]
      exact hJ.iterations
    · rw [Tree.simulated, hsimulated]
      exact hJ.playouts
  case merge => exact fun hmerging => by cases hmerging

/-- As long as the root has not been replaced, it has been visited once for each completed
iteration. If nothing was added to the tree either, the plays are those of one simulation for each
visited node that is not terminal, and all other iterations ended at terminal nodes. A node that is
not terminal is only selected before its first visit. -/
theorem exact_accounting (h : History σ μ V γ) (hkept : h.Kept game agent true)
    (hfits : h.Fits game agent) :
    let p := h.setup game agent
    let x := h.session game agent
    x.counters.iterations.toNat = x.root.visits ∧
    (h.Kept game agent false →
      x.counters.playouts.toNat = max 1 p.playouts.toNat * x.root.simulated ∧
      x.counters.iterations.toNat = x.root.simulated + x.root.terminalVisits) ∧
    ∀ locking chosen t, select p.policy locking x.root = some chosen →
      x.root.get? chosen.target = some t → t.label.terminal = false → t.visits = 0 := by
  intro p x
  refine ⟨h.counted hkept hfits, fun halone => ?_, fun locking chosen t hchosen ht hn => ?_⟩
  · have hJ := h.accounted halone hfits
    exact ⟨p.plays_toNat ▸ hJ.playouts, hJ.iterations⟩
  · exact ((select_walk h.rooted.1 hchosen).target ht).resolve_right (by simp [hn])

/-- A search that has reached a terminal node, and two short ones that were added up. No plays were
asked for, and one is made for each simulation. -/
theorem exact_accounting_terminal :
    let o : Options Float := ⟨⟨fun _ _ _ => 0, fun _ _ _ => List.length_pos_iff.2⟩, 0, 10⟩
    let s := TicTacToe.Position.ofBoard #v[1, 2, 1, 1, 2, 2, 0, 1, 0]
    let h : History TicTacToe.Position TicTacToe.Action Float Keystream := .run (.start o s 7) 9
    let sum : History TicTacToe.Position TicTacToe.Action Float Keystream :=
      .merge (.run (.start o s 7) 3) (.run (.start o s 11) 2)
    h.Kept TicTacToe.game .o false ∧ h.Fits TicTacToe.game .o ∧
      sum.Kept TicTacToe.game .o true ∧ sum.Fits TicTacToe.game .o ∧
      (h.session TicTacToe.game .o).root.simulated = 6 ∧
      (h.session TicTacToe.game .o).root.terminalVisits = 3 ∧
      (h.session TicTacToe.game .o).counters.iterations.toNat = 6 + 3 ∧
      (h.session TicTacToe.game .o).counters.playouts.toNat = 1 * 6 ∧
      (sum.session TicTacToe.game .o).counters.iterations.toNat =
        (sum.session TicTacToe.game .o).root.visits := by
  intro o s h sum
  have hkept : ∀ merging, h.Kept TicTacToe.game .o merging := fun _ => trivial
  have hfits : h.Fits TicTacToe.game .o := ⟨trivial, by decide +kernel⟩
  have hkept' : sum.Kept TicTacToe.game .o true := ⟨trivial, fun _ => ⟨rfl, trivial⟩⟩
  have hfits' : sum.Fits TicTacToe.game .o := by
    refine ⟨⟨trivial, ?_⟩, ⟨trivial, ?_⟩, ?_⟩ <;> decide +kernel
  have hsimulated : (h.session TicTacToe.game .o).root.simulated = 6 := by decide +kernel
  have hterminal : (h.session TicTacToe.game .o).root.terminalVisits = 3 := by decide +kernel
  obtain ⟨hplayouts, hiterations⟩ := (exact_accounting h (hkept true) hfits).2.1 (hkept false)
  rw [hsimulated] at hplayouts hiterations
  rw [hterminal] at hiterations
  exact ⟨hkept false, hfits, hkept', hfits', hsimulated, hterminal, hiterations, hplayouts,
    (exact_accounting sum hkept' hfits').1⟩

end History

end GameSearch.TreeSearch
