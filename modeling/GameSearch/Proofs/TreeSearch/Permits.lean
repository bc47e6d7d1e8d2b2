import GameSearch.Proofs.TreeSearch.Progress
import GameSearch.Proofs.TreeSearch.Subtree

/-!
# GameSearch.Proofs.TreeSearch.Permits

What permits do to an iteration. The only permit that counts is that of the node that
`guardedNode` tells before the work begins: the root until it has been visited, then the child
of the root that the selection rule goes to. If somebody holds it, nothing is done. Otherwise
the permit is taken and given back, and between the two the work goes on as if there were no
permits: it neither reads nor writes them (`workAt_setBusy`, `isBusy_workAt`).

* `History.iterate_rootPermits`: when an iteration under permits is given up, what it does
  otherwise, and what it leaves alone.
-/

namespace GameSearch.TreeSearch

variable {σ μ α V γ : Type} {t u : Tree σ μ V} {path : Path}

def Step.child? : Step → Option Nat
  | .stuck => none
  | .target path => path.head?
  | .descend i => some i

/-- The node whose permit the next iteration needs. Nothing needs to be guarded when the root
is visited again because it is terminal. -/
def guardedNode (policy : Policy V) (root : Tree σ μ V) : Option Path :=
  if isUnvisited root then some []
  else if root.label.terminal then none
  else (step policy root.label root.children).child?.map fun i => [i]

def isGuardHeld (policy : Policy V) (root : Tree σ μ V) : Bool :=
  (guardedNode policy root).any (isBusy root)

/-! ## The permits of a tree -/

@[simp] theorem isBusy_nil (t : Tree σ μ V) : isBusy t [] = t.label.busy := rfl

theorem isBusy_cons (t : Tree σ μ V) (i : Nat) (path : Path) :
    isBusy t (i :: path) = t.children[i]?.any (isBusy · path) := by
  obtain ⟨n, cs⟩ := t
  unfold isBusy
  simp only [Tree.get?, Tree.children]
  cases cs[i]? <;> rfl

theorem isBusy_congr {t' : Tree σ μ V} (hlabel : t'.label.busy = t.label.busy)
    (hchildren : ∀ (i : Nat) (path : Path), t'.children[i]?.any (isBusy · path) =
      t.children[i]?.any (isBusy · path)) (path : Path) : isBusy t' path = isBusy t path := by
  cases path with
  | nil => exact hlabel
  | cons i path => rw [isBusy_cons, isBusy_cons, hchildren]

theorem any_getElem?_modify {β : Type} {q : β → Bool} {f : β → β} {xs : List β} {i : Nat}
    (h : ∀ x, xs[i]? = some x → q (f x) = q x) (j : Nat) :
    (xs.modify i f)[j]?.any q = xs[j]?.any q := by
  rw [List.getElem?_modify]
  by_cases hij : i = j
  · subst hij
    cases hx : xs[i]? with
    | none => rfl
    | some x => simp [h x hx]
  · simp [hij]

theorem isBusy_modify {f : Tree σ μ V → Tree σ μ V}
    (hf : ∀ u, t.get? path = some u → ∀ below, isBusy (f u) below = isBusy u below) :
    ∀ below, isBusy (t.modify f path) below = isBusy t below := by
  induction path generalizing t with
  | nil => exact hf t rfl
  | cons i path ih =>
    obtain ⟨n, cs⟩ := t
    refine isBusy_congr rfl fun j below => any_getElem?_modify (fun c hc => ?_) j
    exact ih (fun u hu => hf u (Tree.get?_cons_eq_some.2 ⟨c, hc, hu⟩)) below

theorem isBusy_record [Utility V] (score : V) (path : Path) (t : Tree σ μ V) :
    ∀ below, isBusy (t.record score path) below = isBusy t below := by
  induction path generalizing t with
  | nil =>
    obtain ⟨n, cs⟩ := t
    exact isBusy_congr rfl fun _ _ => rfl
  | cons i path ih =>
    obtain ⟨n, cs⟩ := t
    exact isBusy_congr rfl fun j below => any_getElem?_modify (fun c _ => ih c below) j

theorem isBusy_fresh [Utility V] (h : t.Fresh) (path : Path) : isBusy t path = false := by
  unfold isBusy
  split
  · rfl
  · rename_i u hu
    exact (h.get? hu).here.2

namespace Session

theorem setBusy_setBusy (taken given : Bool) (guard : Path) (x : Session σ μ V γ) :
    (x.setBusy taken (some guard)).setBusy given (some guard) = x.setBusy given (some guard) := by
  simp only [setBusy, Tree.relabel, Tree.modify_modify]
  congr 2
  funext u
  cases u
  rfl

theorem setBusy_of_not_busy {x : Session σ μ V γ} (h : isBusy x.root path = false) :
    x.setBusy false (some path) = x := by
  have hroot : x.root.relabel (fun n => { n with busy := false }) path = x.root := by
    refine Tree.modify_eq_self fun u hu => ?_
    simp only [isBusy, hu] at h
    obtain ⟨⟨kind, state, terminal, stats, expanded, busy⟩, cs⟩ := u
    obtain rfl : busy = false := h
    rfl
  simp only [setBusy, hroot]

end Session

/-! ## Work under a permit -/

section

variable [Utility V] {f : Node σ μ V → Node σ μ V}

theorem record_relabel {score : V} (hf : ∀ n, f (n.record score) = (f n).record score)
    (path guard : Path) (t : Tree σ μ V) :
    (t.relabel f guard).record score path = (t.record score path).relabel f guard := by
  induction guard generalizing path t with
  | nil =>
    obtain ⟨n, cs⟩ := t
    cases path <;> simp only [Tree.relabel, Tree.modify, Tree.record, hf]
  | cons j guard ih =>
    obtain ⟨n, cs⟩ := t
    cases path with
    | nil => rfl
    | cons i path =>
      simp only [Tree.relabel, Tree.modify, Tree.record]
      by_cases hij : i = j
      · subst hij
        rw [List.modify_modify_eq, List.modify_modify_eq]
        congr 2
        funext c
        exact ih path c
      · rw [List.modify_modify_ne _ _ _ (Ne.symm hij)]

end

theorem Node.expandWith_busy {κ β ε : Type} (n : Node σ μ V) (busy : Bool) (children : List κ)
    (build : Unit → Except ε (β × List κ)) :
    ({ n with busy := busy } : Node σ μ V).expandWith children build =
      (n.expandWith children build).map fun (b, m, cs) => (b, { m with busy := busy }, cs) := by
  obtain ⟨kind, state, terminal, stats, expanded, _⟩ := n
  cases expanded with
  | true => rfl
  | false =>
    simp only [Node.expandWith, Bool.false_eq_true, ↓reduceIte]
    cases build () <;> rfl

namespace Setup

variable [Utility V]

theorem expand_relabel_busy [DecidableEq σ] (p : Setup σ μ α V) (busy : Bool)
    (t : Tree σ μ V) :
    p.expand (t.relabel (fun n => { n with busy := busy }) []) =
      (p.expand t).map fun (asked, grown) =>
        (asked, grown.relabel (fun n => { n with busy := busy }) []) := by
  obtain ⟨n, cs⟩ := t
  simp only [Tree.relabel, Tree.modify, expand, expandMax, expandMin, Node.expandWith_busy]
  by_cases hn : n.terminal = true
  · rw [if_pos hn, if_pos hn]
    rfl
  · rw [if_neg hn, if_neg hn]
    cases n.kind with
    | max => cases n.expandWith cs fun _ => p.choices n.home n.state <;> rfl
    | min action =>
      dsimp only
      cases n.expandWith cs fun _ => p.outcomes n.home n.state action <;> rfl

end Setup

namespace Session

variable [DecidableEq σ] [Utility V] [RandomSource γ] {p : Setup σ μ α V}

/-- Work on a changed tree, where the change `F` of the tree is a change `c` of the target. -/
theorem workAt_map {F c : Tree σ μ V → Tree σ μ V} {x : Session σ μ V γ}
    (hget : (F x.root).get? path = (x.root.get? path).map c)
    (hexpand : ∀ t, p.expand (c t) = (p.expand t).map fun (asked, grown) => (asked, c grown))
    (hsimulate : ∀ t counters (g : γ),
      p.simulate (c t).label counters g = p.simulate t.label counters g)
    (hmodify : ∀ grown, (F x.root).modify (fun _ => c grown) path =
      F (x.root.modify (fun _ => grown) path))
    (hrecord : ∀ score t, (F t).record score path = F (t.record score path)) :
    ({ x with root := F x.root } : Session σ μ V γ).workAt p path =
      ((x.workAt p path).1, { (x.workAt p path).2 with root := F (x.workAt p path).2.root }) := by
  unfold workAt
  rw [hget]
  cases x.root.get? path with
  | none => rfl
  | some t =>
    simp only [Option.map_some, hexpand]
    cases p.expand t with
    | error e => rfl
    | ok r =>
      obtain ⟨asked, grown⟩ := r
      simp only [Except.map, hsimulate, hmodify]
      obtain ⟨result, counters, g⟩ := p.simulate t.label x.counters x.rng
      cases result with
      | error e => rfl
      | ok _ => simp only [hrecord]

theorem workAt_setBusy (p : Setup σ μ α V) (busy : Bool) (guard rest : Path)
    (x : Session σ μ V γ) :
    (x.setBusy busy (some guard)).workAt p (guard ++ rest) =
      ((x.workAt p (guard ++ rest)).1,
        (x.workAt p (guard ++ rest)).2.setBusy busy (some guard)) := by
  cases rest with
  | nil =>
    -- the guarded node is the target
    rw [List.append_nil]
    refine workAt_map (c := fun t => t.relabel (fun n => { n with busy := busy }) []) ?_
      (p.expand_relabel_busy busy) ?_ ?_ fun score t => record_relabel (fun _ => rfl) guard guard t
    · exact Tree.get?_modify _ guard x.root
    · intro t counters g
      obtain ⟨n, cs⟩ := t
      rfl
    · intro grown
      simp only [Tree.relabel, Tree.modify_modify, Tree.modify]
  | cons i rest =>
    refine workAt_map (c := id) ?_ (fun t => ?_) (fun _ _ _ => rfl) ?_ fun score t =>
      record_relabel (fun _ => rfl) _ guard t
    · rw [Option.map_id, id, Tree.get?_append, Tree.get?_append, Tree.relabel, Tree.get?_modify]
      cases x.root.get? guard with
      | none => rfl
      | some t => cases t; rfl
    · change p.expand t = _
      cases p.expand t <;> rfl
    · intro grown
      simp only [Tree.relabel, Tree.modify_append, Tree.modify_modify]
      congr 1
      funext t
      cases t
      rfl

theorem iterate_exclusive {x : Session σ μ V γ} (h : descend p.policy x.root = some path) :
    x.iterate p .exclusive = x.workAt p path := by
  have hselect : select p.policy .exclusive x.root = some ⟨path, none⟩ := by
    simp only [select, h]
  rw [iterate_of_select_some hselect]
  rfl

theorem isBusy_expand {grown : Tree σ μ V} {asked : Nat} (ht : t.Shaped p.game p.agent)
    (h : p.expand t = .ok (asked, grown)) (below : Path) :
    isBusy grown below = isBusy t below := by
  obtain ⟨⟨e, hlabel⟩, _, hchildren⟩ := p.expand_ready ht h
  refine isBusy_congr (by rw [hlabel]) (fun i path => ?_) below
  rcases hchildren with hsame | ⟨hnil, hfresh⟩
  · rw [hsame]
  · rw [hnil]
    cases hc : grown.children[i]? with
    | none => rfl
    | some c => exact isBusy_fresh (hfresh c (List.mem_of_getElem? hc)) path

theorem isBusy_grow {grown : Tree σ μ V} {asked : Nat} (ht : t.Shaped p.game p.agent)
    (hu : t.get? path = some u) (he : p.expand u = .ok (asked, grown)) (below : Path) :
    isBusy (t.modify (fun _ => grown) path) below = isBusy t below := by
  refine isBusy_modify (fun u' hu' below => ?_) below
  cases hu.symm.trans hu'
  exact isBusy_expand (ht.get? hu) he below

theorem isBusy_workAt {x : Session σ μ V γ} (hx : x.root.Shaped p.game p.agent) (path : Path) :
    ∀ below, isBusy (x.workAt p path).2.root below = isBusy x.root below := by
  generalize hy : x.workAt p path = y
  cases hy ▸ workAt_cases p path x with
  | missing => exact fun _ => rfl
  | unexpanded => exact fun _ => rfl
  | unscored ht he _ => exact isBusy_grow hx ht he
  | completed ht he _ =>
    exact fun below => (isBusy_record _ _ _ below).trans (isBusy_grow hx ht he below)

theorem workAt_ne_retry {x : Session σ μ V γ} (hu : x.root.get? path = some u) :
    (x.workAt p path).1 ≠ .ok .retry := by
  generalize hy : x.workAt p path = y
  cases hy ▸ workAt_cases p path x with
  | missing hnone => cases hnone.symm.trans hu
  | unexpanded => exact fun h => by cases h
  | unscored => exact fun h => by cases h
  | completed => exact fun h => by cases h

theorem workAt_other_child {x : Session σ μ V γ} {i k : Nat} {rest : Path} (hik : i ≠ k) :
    (x.workAt p (i :: rest)).2.root.children[k]? = x.root.children[k]? := by
  have hmodify : ∀ f : Tree σ μ V → Tree σ μ V,
      (x.root.modify f (i :: rest)).children[k]? = x.root.children[k]? := by
    intro f
    obtain ⟨n, cs⟩ := x.root
    simp [Tree.modify, Tree.children, hik]
  have hrecord : ∀ (score : V) (t : Tree σ μ V),
      (t.record score (i :: rest)).children[k]? = t.children[k]? := by
    intro score t
    obtain ⟨n, cs⟩ := t
    simp [Tree.record, Tree.children, hik]
  generalize hy : x.workAt p (i :: rest) = y
  cases hy ▸ workAt_cases p (i :: rest) x with
  | missing => rfl
  | unexpanded => rfl
  | unscored => exact hmodify _
  | completed => exact (hrecord _ _).trans (hmodify _)

theorem workAt_terminal_root {x : Session σ μ V γ} (h : x.root.label.terminal = true) :
    (x.workAt p []).2.root.children = x.root.children := by
  have hexpand : p.expand x.root = .ok (0, x.root) := by
    cases hx : x.root with
    | node n cs =>
      rw [hx] at h
      exact if_pos h
  generalize hy : x.workAt p [] = y
  cases hy ▸ workAt_cases p [] x with
  | missing => rfl
  | unexpanded => rfl
  | unscored ht he _ =>
    cases ht
    cases hexpand.symm.trans he
    rfl
  | completed ht he _ =>
    cases ht
    cases hexpand.symm.trans he
    cases x.root
    rfl

end Session

/-! ## The permit that counts -/

theorem guardOf_eq_guardedNode [Utility V] {policy : Policy V} (h : descend policy t = some path) :
    guardOf t path = guardedNode policy t := by
  obtain ⟨n, cs⟩ := t
  unfold descend at h
  unfold guardedNode
  cases hunvisited : isUnvisited (.node n cs) with
  | true =>
    have hn : n.isUnvisited = true := hunvisited
    rw [hn, Bool.true_or, if_pos rfl] at h
    cases h
    simp only [guardOf, hunvisited, ↓reduceIte]
  | false =>
    have hn : n.isUnvisited = false := hunvisited
    cases hterminal : n.terminal with
    | true =>
      rw [hterminal, Bool.or_true, if_pos rfl] at h
      cases h
      simp only [guardOf, hunvisited, Tree.label, hterminal, Bool.false_eq_true, ↓reduceIte]
    | false =>
      simp only [hn, hterminal, Bool.or_false, Bool.false_eq_true, ↓reduceIte] at h
      simp only [Tree.label, Tree.children, hterminal, Bool.false_eq_true, ↓reduceIte]
      cases hstep : step policy n cs with
      | stuck => simp only [hstep] at h; cases h
      | target path' =>
        simp only [hstep] at h
        cases h
        obtain ⟨i, _, _, ⟨rfl, _⟩ | ⟨_, j, _, rfl, _⟩⟩ := step_target hstep <;> rfl
      | descend i =>
        simp only [hstep] at h
        split at h
        · cases h
        · cases h
          rfl

namespace Session

variable [DecidableEq σ] [Utility V] [RandomSource γ] {p : Setup σ μ α V} {x : Session σ μ V γ}

theorem iterate_of_held (hb : x.root.Every Branched)
    (hheld : isGuardHeld p.policy x.root = true) :
    x.iterate p .rootPermits = (.ok .retry, { x with counters := x.counters.retried }) := by
  obtain ⟨path, hpath⟩ := descend_isSome p.policy hb
  rw [isGuardHeld, ← guardOf_eq_guardedNode hpath] at hheld
  obtain ⟨guard, hguard, hbusy⟩ := (Option.any_eq_true _ _).1 hheld
  refine iterate_of_select_none ?_
  simp only [select, hpath, hguard, hbusy, ↓reduceIte]

theorem iterate_of_free (hx : x.root.Shaped p.game p.agent) (hb : x.root.Every Branched)
    (hfree : isGuardHeld p.policy x.root = false) :
    x.iterate p .rootPermits = x.iterate p .exclusive := by
  obtain ⟨path, hpath⟩ := descend_isSome p.policy hb
  rw [isGuardHeld, ← guardOf_eq_guardedNode hpath] at hfree
  rw [iterate_exclusive hpath]
  cases hguard : guardOf x.root path with
  | none =>
    have hselect : select p.policy .rootPermits x.root = some ⟨path, none⟩ := by
      simp only [select, hpath, hguard]
    rw [iterate_of_select_some hselect]
    rfl
  | some guard =>
    have hbusy : isBusy x.root guard = false := by simpa [hguard] using hfree
    have hselect : select p.policy .rootPermits x.root = some ⟨path, some guard⟩ := by
      simp only [select, hpath, hguard, hbusy, Bool.false_eq_true, ↓reduceIte]
    obtain ⟨rest, rfl⟩ : ∃ rest, path = guard ++ rest := by
      cases path with
      | nil =>
        simp only [guardOf] at hguard
        split at hguard
        · cases hguard
          exact ⟨[], rfl⟩
        · cases hguard
      | cons i rest =>
        cases hguard
        exact ⟨rest, rfl⟩
    have hafter := (isBusy_workAt hx (guard ++ rest) guard).trans hbusy
    rw [iterate_of_select_some hselect]
    simp only [workAt_setBusy, setBusy_setBusy, setBusy_of_not_busy hafter]

end Session

namespace History

variable [DecidableEq σ] [DecidableEq μ] [Utility V] [RandomSource γ] {δ : Type} [RandomSource δ]

/-- An iteration under permits is given up exactly when somebody holds the permit that it needs,
and then it only counts itself. Otherwise it does what it does for a lone worker. It leaves all
permits as they are, and after the first visit of the root nothing below a child whose permit is
held is changed. -/
theorem iterate_rootPermits (game : Game σ μ α) (agent : α) (h : History σ μ V γ) (g : δ) :
    let p := h.setup game agent
    let x : Session σ μ V δ := { h.session game agent with rng := g }
    let y := x.iterate p .rootPermits
    (y.1 = .ok .retry ↔ isGuardHeld p.policy x.root = true) ∧
    (isGuardHeld p.policy x.root = true → y.2 = { x with counters := x.counters.retried }) ∧
    (isGuardHeld p.policy x.root = false → y = x.iterate p .exclusive) ∧
    (∀ path, isBusy y.2.root path = isBusy x.root path) ∧
    (x.root.visits ≠ 0 → ∀ (i : Nat) c, x.root.children[i]? = some c → c.label.busy = true →
      y.2.root.children[i]? = some c) := by
  intro p x y
  have hx : x.root.Shaped p.game p.agent := h.rooted.1
  have hb : x.root.Every Branched := h.branched
  obtain ⟨path, hpath⟩ := descend_isSome p.policy hb
  cases hheld : isGuardHeld p.policy x.root with
  | true =>
    have hy : y = (.ok .retry, { x with counters := x.counters.retried }) :=
      Session.iterate_of_held hb hheld
    rw [hy]
    exact ⟨by simp, fun _ => rfl, nofun, fun _ => rfl, fun _ _ _ hc _ => hc⟩
  | false =>
    have hy : y = x.iterate p .exclusive := Session.iterate_of_free hx hb hheld
    have hwork : y = x.workAt p path := hy.trans (Session.iterate_exclusive hpath)
    refine ⟨?_, nofun, fun _ => hy, ?_, ?_⟩
    · obtain ⟨u, hu⟩ := (descend_walk hx hpath).exists_target
      rw [hwork]
      simpa using Session.workAt_ne_retry hu
    · rw [hwork]
      exact Session.isBusy_workAt hx path
    · intro hvisited i c hc hbusy
      rw [hwork]
      cases path with
      | nil =>
        have hterminal := (descend_walk hx hpath).resolve_left hvisited
        rw [Session.workAt_terminal_root hterminal, hc]
      | cons k rest =>
        have hki : k ≠ i := by
          rintro rfl
          rw [isGuardHeld, ← guardOf_eq_guardedNode hpath] at hheld
          simp [guardOf, isBusy_cons, hc, hbusy] at hheld
        rw [Session.workAt_other_child hki, hc]

end History

end GameSearch.TreeSearch
