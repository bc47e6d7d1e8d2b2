import GameSearch.Proofs.TreeSearch.Iteration
import GameSearch.Proofs.TreeSearch.Walk
import Mathlib

/-!
# GameSearch.Proofs.TreeSearch.Balance

Where the visits of a node come from. Each visit of a node but its first goes on to one of its
children, so the children together have one visit less than their parent. In a tree that others
were added to, up to one visit may be missing for each of them: `Balanced w` bounds the
difference by a weight `w`.

Like other properties of the counts, the balance is `Steady`: flags and permits do not matter to
it, nor do new nodes, so the growth of a node keeps it (`Steady.grow`). A score that is recorded at
the end of a walk keeps it too (`record_balanced`), and therefore an iteration (`iterate_balanced`),
as long as the count of the root does not go round.
-/

namespace GameSearch.TreeSearch

variable {σ μ α V γ : Type} {t u : Tree σ μ V} {path : Path} {w v : Nat}

def Node.visits (n : Node σ μ V) : UInt32 := n.stats.visits

theorem Tree.visits_eq (t : Tree σ μ V) : t.visits = t.label.visits.toNat := rfl

def Tree.childVisits (t : Tree σ μ V) : Nat := (t.children.map Tree.visits).sum

/-- The children have no more visits than their parent. Below a visited node that is not
terminal between one and `w` visits are missing. -/
structure Balanced (w : Nat) (t : Tree σ μ V) : Prop where
  le : t.childVisits ≤ t.visits
  visited : t.visits ≠ 0 → t.label.terminal = false →
    t.children ≠ [] ∧ t.childVisits < t.visits ∧ t.visits ≤ t.childVisits + w

theorem visits_le_childVisits (hu : u ∈ t.children) : u.visits ≤ t.childVisits :=
  List.le_sum_of_mem (List.mem_map_of_mem hu)

theorem childVisits_eq_zero (h : ∀ u ∈ t.children, u.visits = 0) : t.childVisits = 0 := by
  simpa [Tree.childVisits, List.sum_eq_zero_iff_forall_eq_nat] using h

theorem childVisits_congr {n m : Node σ μ V} {cs cs' : List (Tree σ μ V)}
    (h : cs'.map (·.label.visits) = cs.map (·.label.visits)) :
    (Tree.node m cs').childVisits = (Tree.node n cs).childVisits := by
  have h := congrArg (fun visits => (visits.map UInt32.toNat).sum) h
  simp only [List.map_map] at h
  exact h

theorem balanced_reads : Tree.Reads Node.visits (Balanced w : Tree σ μ V → Prop) := by
  intro n cs cs' hcs h
  have hsum : (Tree.node n cs').childVisits = (Tree.node n cs).childVisits := childVisits_congr hcs
  have hnil : cs' = [] → cs = [] := by
    rintro rfl
    simpa using hcs
  refine ⟨hsum ▸ h.le, fun hvisited hn => ?_⟩
  obtain ⟨hne, hlt, hle⟩ := h.visited hvisited hn
  rw [hsum]
  exact ⟨fun h => hne (hnil h), hlt, hle⟩

theorem Balanced.mono (h : Balanced w t) (hwv : w ≤ v) : Balanced v t := by
  refine ⟨h.le, fun hvisited ht => ?_⟩
  obtain ⟨hcs, hlt, hle⟩ := h.visited hvisited ht
  exact ⟨hcs, hlt, by omega⟩

theorem Balanced.congr {n m : Node σ μ V} {cs : List (Tree σ μ V)} (h : Balanced w (.node n cs))
    (hstats : m.stats = n.stats) (hterminal : m.terminal = n.terminal) :
    Balanced w (.node m cs) := by
  have hvisits : (Tree.node m cs).visits = (Tree.node n cs).visits := by
    simp only [Tree.visits, Tree.label, hstats]
  refine ⟨hvisits ▸ h.le, ?_⟩
  rw [hvisits]
  exact fun hvisited hm => h.visited hvisited (hterminal ▸ hm)

theorem visits_below_le (h : t.Every (Balanced w)) (hu : t.get? path = some u) :
    u.visits ≤ t.visits := by
  induction path generalizing t with
  | nil => cases hu; exact Nat.le_refl _
  | cons i path ih =>
    obtain ⟨c, hc, hu⟩ := Tree.get?_cons_eq_some.1 hu
    have hmem := List.mem_of_getElem? hc
    calc u.visits
      _ ≤ c.visits := ih (h.child hmem) hu
      _ ≤ t.childVisits := visits_le_childVisits hmem
      _ ≤ t.visits := h.here.le

theorem unvisited_below (h : t.Every (Balanced w)) (ht : t.visits = 0)
    (hu : t.get? path = some u) : u.visits = 0 :=
  Nat.eq_zero_of_le_zero (ht ▸ visits_below_le h hu)

/-! ## Permits -/

theorem relabel_busy_visits {busy : Bool} (t : Tree σ μ V) :
    (t.relabel (fun n => { n with busy := busy }) path).visits = t.visits := by
  have hlabel : (t.relabel (fun n => { n with busy := busy }) path).label.visits =
      t.label.visits := Tree.view_modify fun u _ => by cases u; rfl
  rw [Tree.visits_eq, hlabel, Tree.visits_eq]

theorem Walk.relabel_busy {busy : Bool} {guard : Path} (h : Walk t path) :
    Walk (t.relabel (fun n => { n with busy := busy }) guard) path := by
  refine h.modify fun u _ path hu => ?_
  obtain ⟨n, cs⟩ := u
  cases path <;> exact hu

theorem Session.setBusy_visits (busy : Bool) (guard : Option Path) (x : Session σ μ V γ) :
    (x.setBusy busy guard).root.label.visits = x.root.label.visits :=
  setBusy_keeps (Q := fun t => t.label.visits = x.root.label.visits) busy guard rfl fun _ =>
    Tree.view_modify fun u _ => by cases u; rfl

/-! ## Recorded scores -/

/-- The count of visits at the root does not go round. -/
def Grows (t u : Tree σ μ V) : Prop := t.label.visits ≤ u.label.visits

instance : Decidable (Grows t u) := inferInstanceAs (Decidable (_ ≤ _))

theorem room_of_grows (hvisits : u.label.visits = t.label.visits + 1) (h : Grows t u) :
    t.visits + 1 < 2 ^ 32 := by
  have hone : (1 : UInt32).toNat = 1 := rfl
  rw [Grows, hvisits, UInt32.le_iff_toNat_le, UInt32.toNat_add, hone] at h
  have := t.label.visits.toNat_lt
  rw [Tree.visits_eq]
  omega

theorem sum_map_modify {β : Type} {f : β → Nat} {g : β → β} {xs : List β} {i d : Nat} {x : β}
    (hx : xs[i]? = some x) (hg : f (g x) = f x + d) :
    ((xs.modify i g).map f).sum = (xs.map f).sum + d := by
  induction xs generalizing i with
  | nil => cases hx
  | cons y rest ih =>
    cases i with
    | zero =>
      cases hx
      simp only [List.modify_zero_cons, List.map_cons, List.sum_cons, hg]
      omega
    | succ i =>
      simp only [List.modify_succ_cons, List.map_cons, List.sum_cons, ih hx]
      omega

theorem childVisits_modify {n m : Node σ μ V} {cs : List (Tree σ μ V)} {i : Nat} {c : Tree σ μ V}
    {f : Tree σ μ V → Tree σ μ V} (hc : cs[i]? = some c) (hf : (f c).visits = c.visits + 1) :
    (Tree.node m (cs.modify i f)).childVisits = (Tree.node n cs).childVisits + 1 :=
  sum_map_modify hc hf

section

variable [Utility V]

theorem record_visits (score : V) (path : Path) (t : Tree σ μ V) :
    (t.record score path).label.visits = t.label.visits + 1 := by
  obtain ⟨n, cs⟩ := t
  cases path <;> rfl

theorem visits_record (score : V) (path : Path) (hroom : t.visits + 1 < 2 ^ 32) :
    (t.record score path).visits = t.visits + 1 := by
  rw [Tree.visits_eq, record_visits]
  exact toNat_succ_of_lt hroom

/-- A score is recorded at the end of a walk: each node on the way passes a visit on, and the
target, if it was not visited before, keeps its first one. -/
theorem record_balanced {score : V} (hw : 1 ≤ w) (h : t.Every (Balanced w)) (hwalk : Walk t path)
    (htarget : ∀ u, t.get? path = some u → u.label.terminal = true ∨ u.children ≠ [])
    (hroom : t.visits + 1 < 2 ^ 32) : (t.record score path).Every (Balanced w) := by
  induction path generalizing t with
  | nil =>
    obtain ⟨n, cs⟩ := t
    have hvisits : (Tree.node (n.record score) cs).visits = (Tree.node n cs).visits + 1 :=
      visits_record score [] hroom
    have hsame : (Tree.node (n.record score) cs).childVisits = (Tree.node n cs).childVisits := rfl
    have hle := h.here.le
    -- a walk ends at a terminal node or at one without a visit, so this is the first one here
    refine .node ⟨by omega, fun _ hn => ?_⟩ fun c hc => h.child hc
    have hfirst : (Tree.node n cs).visits = 0 :=
      hwalk.resolve_right fun hterminal => by cases hterminal.symm.trans hn
    have hcs := (htarget _ rfl).resolve_left fun hterminal => by cases hterminal.symm.trans hn
    exact ⟨hcs, by omega, by omega⟩
  | cons i path ih =>
    obtain ⟨n, cs⟩ := t
    have hvisits : (Tree.node (n.record score) (cs.modify i (Tree.record score path))).visits =
        (Tree.node n cs).visits + 1 := visits_record score (i :: path) hroom
    obtain ⟨hvisited, hn, c, hc, hwalk⟩ := hwalk
    have hmem := List.mem_of_getElem? hc
    have hle := h.here.le
    have hcroom : c.visits + 1 < 2 ^ 32 := by
      have := visits_le_childVisits (t := .node n cs) hmem
      omega
    have hpassed := childVisits_modify (n := n) (m := n.record score) hc
      (visits_record score path hcroom)
    obtain ⟨hne, hlt, hbound⟩ := h.here.visited hvisited hn
    refine .node ⟨by omega, fun _ _ => ⟨?_, by omega, by omega⟩⟩ ?_
    · exact fun hnil => hne (List.modify_eq_nil_iff.1 hnil)
    · refine Tree.forall_mem_modify (fun d hd => h.child hd) fun d hd => ?_
      cases hc.symm.trans hd
      exact ih (h.child hmem) hwalk
        (fun u hu => htarget u (Tree.get?_cons_eq_some.2 ⟨c, hc, hu⟩)) hcroom

/-! ## Growth -/

/-- A property that reads of the children how often they were visited, and to which neither the
flags of a node matter nor its home nor new children. -/
structure Steady (P : Tree σ μ V → Prop) : Prop where
  reads : Tree.Reads Node.visits P
  flags : ∀ {n : Node σ μ V} {cs : List (Tree σ μ V)} (expanded busy : Bool) (home : Home),
    P (.node n cs) → P (.node { n with expanded := expanded, busy := busy, home := home } cs)
  fresh : ∀ {n : Node σ μ V}, n.stats = .none → P (.node n [])
  grown : ∀ {n : Node σ μ V} {cs : List (Tree σ μ V)}, P (.node n []) →
    (Tree.node n cs).childVisits = 0 → P (.node n cs)

theorem childVisits_of_fresh {n : Node σ μ V} {cs : List (Tree σ μ V)}
    (h : ∀ c ∈ cs, c.Fresh) : (Tree.node n cs).childVisits = 0 := by
  refine childVisits_eq_zero fun c hc => ?_
  rw [Tree.visits, (h c hc).here.1]
  rfl

section

variable {P : Tree σ μ V → Prop} (hP : Steady P)

include hP

theorem Steady.every_fresh (h : t.Fresh) : t.Every P := by
  induction h with
  | node h hcs ih => exact .node (hP.grown (hP.fresh h.1) (childVisits_of_fresh hcs)) ih

theorem Steady.relabel_busy {busy : Bool} (h : t.Every P) :
    (t.relabel (fun n => { n with busy := busy }) path).Every P :=
  h.relabel hP.reads (fun n _ hn => hP.flags n.expanded busy n.home hn) fun _ => rfl

variable [DecidableEq σ] {p : Setup σ μ α V} {grown : Tree σ μ V} {asked : Nat}

theorem Steady.expand (ht : t.Shaped p.game p.agent) (h : t.Every P)
    (he : p.expand t = .ok (asked, grown)) : grown.Every P := by
  obtain ⟨⟨e, hlabel⟩, _, hchildren⟩ := p.expand_ready ht he
  obtain ⟨n, cs⟩ := t
  obtain ⟨m, ds⟩ := grown
  obtain rfl : m = { n with expanded := e } := hlabel
  rcases hchildren with hsame | ⟨hcs, hfresh⟩
  · obtain rfl : ds = cs := hsame
    exact .node (hP.flags e n.busy n.home h.here) fun c hc => h.child hc
  · obtain rfl : cs = [] := hcs
    refine .node (hP.grown (hP.flags e n.busy n.home h.here) (childVisits_of_fresh hfresh)) ?_
    exact fun c hc => hP.every_fresh (hfresh c hc)

theorem Steady.grow (ht : t.Shaped p.game p.agent) (h : t.Every P) (hu : t.get? path = some u)
    (he : p.expand u = .ok (asked, grown)) :
    (t.modify (fun _ => grown) path).Every P ∧
      (t.modify (fun _ => grown) path).label.visits = t.label.visits ∧
      (Walk t path → Walk (t.modify (fun _ => grown) path) path) := by
  obtain ⟨⟨e, hlabel⟩, _⟩ := p.expand_ready (ht.get? hu) he
  have hvisits : ∀ u', t.get? path = some u' → grown.label.visits = u'.label.visits := by
    intro u' hu'
    cases hu.symm.trans hu'
    rw [hlabel]
    rfl
  refine ⟨h.modify hP.reads fun u' hu' => ⟨?_, hvisits u' hu'⟩, Tree.view_modify hvisits,
    fun hwalk => hwalk.grow hu (by rw [hlabel]) (by rw [hlabel])⟩
  exact hP.expand (ht.get? hu) (h.get? hu) he

end

theorem balanced_steady (w : Nat) : Steady (Balanced w : Tree σ μ V → Prop) where
  reads := balanced_reads
  flags _ _ _ h := h.congr rfl rfl
  fresh {n} hn := by
    have hvisits : (Tree.node n []).visits = 0 := by rw [Tree.visits, Tree.label, hn]; rfl
    exact ⟨Nat.zero_le _, fun hvisited => absurd hvisits hvisited⟩
  grown h hnew := ⟨by omega, fun hvisited hn => absurd rfl (h.visited hvisited hn).1⟩

/-! ## Iterations -/

namespace Session

variable [DecidableEq σ] [RandomSource γ] {p : Setup σ μ α V} {x : Session σ μ V γ}

/-- What work keeps is kept by iterations. Permits say nothing about visits, so the work is done as
if none were held. -/
theorem iterate_keeps_of_work {J : Tree σ μ V → Prop} {locking : Locking}
    (hbusy : ∀ (t : Tree σ μ V) (busy : Bool) (path : Path), J t →
      J (t.relabel (fun n => { n with busy := busy }) path))
    (hwork : ∀ (x : Session σ μ V γ) (path : Path), x.root.Shaped p.game p.agent → J x.root →
      Walk x.root path → Grows x.root (x.workAt p path).2.root → J (x.workAt p path).2.root) :
    Keeps p locking γ (fun t => t.Rooted p.game p.agent ∧ J t) Grows := by
  rintro x ⟨hrooted, h⟩ hgrows
  refine ⟨iterate_rooted p x hrooted trivial, ?_⟩
  cases hs : select p.policy locking x.root with
  | none =>
    rw [iterate_of_select_none hs]
    exact h
  | some chosen =>
    rw [iterate_of_select_some hs] at hgrows ⊢
    have hshaped := setBusy_shaped true chosen.guard hrooted.1
    have hheld := setBusy_keeps true chosen.guard h fun path => hbusy _ true path h
    have hwalk : Walk (x.setBusy true chosen.guard).root chosen.target :=
      setBusy_keeps (Q := fun t => Walk t chosen.target) true chosen.guard
        (select_walk hrooted.1 hs) fun _ => (select_walk hrooted.1 hs).relabel_busy
    rw [Grows, setBusy_visits, ← setBusy_visits true chosen.guard x] at hgrows
    have hdone := hwork _ chosen.target hshaped hheld hwalk hgrows
    exact setBusy_keeps false chosen.guard hdone fun path => hbusy _ false path hdone

theorem workAt_balanced (hw : 1 ≤ w) (hshaped : x.root.Shaped p.game p.agent)
    (h : x.root.Every (Balanced w)) (hwalk : Walk x.root path)
    (hgrows : Grows x.root (x.workAt p path).2.root) :
    (x.workAt p path).2.root.Every (Balanced w) := by
  generalize hy : x.workAt p path = y at hgrows
  cases hy ▸ workAt_cases p path x with
  | missing => exact h
  | unexpanded => exact h
  | unscored hu he _ => exact ((balanced_steady w).grow hshaped h hu he).1
  | @completed u grown _ _ _ _ _ hu he _ =>
    obtain ⟨_, hready, _⟩ := p.expand_ready (hshaped.get? hu) he
    obtain ⟨hbalanced, hvisits, hgrow⟩ := (balanced_steady w).grow hshaped h hu he
    refine record_balanced hw hbalanced (hgrow hwalk) (fun u' hu' => ?_) ?_
    · rw [Tree.get?_modify, hu] at hu'
      cases hu'
      exact hready
    · rw [Grows, ← hvisits] at hgrows
      exact room_of_grows (record_visits _ _ _) hgrows

theorem iterate_balanced (hw : 1 ≤ w) {locking : Locking} :
    Keeps p locking γ (fun t => t.Rooted p.game p.agent ∧ t.Every (Balanced w)) Grows :=
  iterate_keeps_of_work (fun _ _ _ h => (balanced_steady w).relabel_busy h)
    fun _ _ hx h hwalk hgrows => workAt_balanced hw hx h hwalk hgrows

end Session

end

end GameSearch.TreeSearch
