import GameSearch.Proofs.TreeSearch.History
import GameSearch.Proofs.TreeSearch.Subtree
import GameSearch.Proofs.TreeSearch.Walk
import Mathlib.Data.List.Induction

/-!
# GameSearch.Proofs.TreeSearch.Reroot

What is kept when the root follows the game.

A node that has become the root may still have a parent. `Session.iterateBelow` works on such a
tree where it lies: the selection starts at the new root, and the score goes up from parent to
parent until it has reached the new root. This gives the same as an iteration on the subtree
alone, put back into its place (`iterateBelow_within`), for one iteration after the other
(`takeTurns_within`).

* `History.updateRoot_keeps_subtree`: which node becomes the root, and what later iterations do.
-/

namespace GameSearch.TreeSearch

variable {σ μ α V γ : Type}

namespace Tree

variable {s : σ} {t u whole : Tree σ μ V} {path top : Path}

/-! ## The first grandchild -/

theorem findBelow_eq_none_iff {q : Tree σ μ V → Bool} {cs : List (Tree σ μ V)} :
    findBelow q cs = none ↔ ∀ c ∈ cs, ∀ d ∈ c.children, q d = false := by
  induction cs with
  | nil => simp [findBelow]
  | cons c rest ih =>
    rw [List.forall_mem_cons, ← ih, ← List.findIdx?_eq_none_iff]
    cases hj : c.children.findIdx? q with
    | some j => simp [findBelow, hj]
    | none =>
      cases hrest : findBelow q rest with
      | none => simp [findBelow, hj, hrest]
      | some ij => simp [findBelow, hj, hrest]

theorem findBelow_first {q : Tree σ μ V → Bool} {cs : List (Tree σ μ V)} {i j i' j' : Nat}
    {c d : Tree σ μ V} (h : findBelow q cs = some (i, j)) (hc : cs[i']? = some c)
    (hd : c.children[j']? = some d) (hq : q d = true) : i < i' ∨ i = i' ∧ j ≤ j' := by
  induction cs generalizing i i' with
  | nil => cases h
  | cons b rest ih =>
    simp only [findBelow] at h
    cases hk : b.children.findIdx? q with
    | some k =>
      simp only [hk, Option.some.injEq, Prod.mk.injEq] at h
      obtain ⟨rfl, rfl⟩ := h
      cases i' with
      | succ i' => exact .inl (Nat.succ_pos i')
      | zero =>
        cases hc
        refine .inr ⟨rfl, Nat.not_lt.1 fun hlt => ?_⟩
        obtain ⟨_, _, hbefore⟩ := List.findIdx?_eq_some_iff_getElem.1 hk
        obtain ⟨hlen, rfl⟩ := List.getElem?_eq_some_iff.1 hd
        exact hbefore j' hlt hq
    | none =>
      cases hrest : findBelow q rest with
      | none => simp only [hk, hrest, reduceCtorEq] at h
      | some ij =>
        simp only [hk, hrest, Option.some.injEq, Prod.mk.injEq] at h
        obtain ⟨rfl, rfl⟩ := h
        cases i' with
        | zero =>
          cases hc
          have hnone := List.findIdx?_eq_none_iff.1 hk d (List.mem_of_getElem? hd)
          cases hnone.symm.trans hq
        | succ i' =>
          have := ih hrest hc
          omega

structure FirstBelow (s : σ) (t : Tree σ μ V) (i j : Nat) (d : Tree σ μ V) : Prop where
  place : t.get? [i, j] = some d
  state_eq : d.state = s
  first : ∀ i' j' d', t.get? [i', j'] = some d' → d'.state = s → i < i' ∨ i = i' ∧ j ≤ j'

theorem get?_pair_eq_some {i j : Nat} :
    t.get? [i, j] = some u ↔ ∃ c, t.children[i]? = some c ∧ c.children[j]? = some u := by
  simp only [get?_cons_eq_some, get?_nil, Option.some.injEq, exists_eq_right]

theorem firstBelow_of_findBelow [DecidableEq σ] {i j : Nat}
    (h : findBelow (fun u => u.state = s) t.children = some (i, j)) :
    ∃ d, FirstBelow s t i j d := by
  obtain ⟨c, d, hc, hd, hs⟩ := findBelow_some h
  refine ⟨d, get?_pair_eq_some.2 ⟨c, hc, hd⟩, of_decide_eq_true hs, fun i' j' d' hd' hs' => ?_⟩
  obtain ⟨c', hc', hd'⟩ := get?_pair_eq_some.1 hd'
  exact findBelow_first h hc' hd' (decide_eq_true hs')

/-! ## A tree inside a larger one -/

theorem get?_within (h : whole.get? top = some t) (path : Path) :
    (whole.modify (fun _ => u) top).get? (top ++ path) = u.get? path := by
  rw [get?_append, get?_modify, h]
  rfl

theorem modify_within (f : Tree σ μ V → Tree σ μ V) (path : Path) :
    (whole.modify (fun _ => u) top).modify f (top ++ path) =
      whole.modify (fun _ => u.modify f path) top := by
  rw [modify_append, modify_modify]

section

variable [Utility V] {score : V}

/-- One more visit for the node at the end of a path, then for its parent, and so on up to the
node at `top`. The path is given from its end. -/
def recordUp (score : V) (top : Path) : Path → Tree σ μ V → Tree σ μ V
  | [], t => t.relabel (·.record score) []
  | i :: up, t =>
    let t := t.relabel (·.record score) (i :: up).reverse
    if (i :: up).reverse = top then t else recordUp score top up t

theorem record_concat (path : Path) (k : Nat) (t : Tree σ μ V) :
    t.record score (path ++ [k]) =
      (t.relabel (·.record score) (path ++ [k])).record score path := by
  induction path generalizing t with
  | nil =>
    obtain ⟨n, cs⟩ := t
    simp only [List.nil_append, record, relabel, modify]
    congr 2
    funext c
    cases c
    rfl
  | cons i path ih =>
    obtain ⟨n, cs⟩ := t
    simp only [List.cons_append, record, relabel, modify, List.modify_modify_eq]
    congr 2
    funext c
    exact ih c

/-- The way up from parent to parent meets the nodes on the way down from `top`. -/
theorem recordUp_eq (top path : Path) (t : Tree σ μ V) :
    t.recordUp score top (top ++ path).reverse = t.modify (record score path) top := by
  induction path using List.reverseRecOn generalizing t with
  | nil =>
    have hhere : t.relabel (·.record score) top = t.modify (record score []) top := by
      refine modify_congr fun u _ => ?_
      obtain ⟨n, cs⟩ := u
      rfl
    rw [List.append_nil, ← hhere]
    cases htop : top.reverse with
    | nil =>
      rw [List.reverse_eq_nil_iff.1 htop]
      rfl
    | cons i up =>
      have hreverse : (i :: up).reverse = top := by rw [← htop, List.reverse_reverse]
      simp only [recordUp, hreverse, ↓reduceIte]
  | append_singleton path k ih =>
    have hup : (top ++ (path ++ [k])).reverse = k :: (top ++ path).reverse := by simp
    have hreverse : (k :: (top ++ path).reverse).reverse = top ++ (path ++ [k]) := by simp
    have hbelow : top ++ (path ++ [k]) ≠ top := by simp
    simp only [hup, recordUp, hreverse, if_neg hbelow]
    rw [ih, relabel, modify_append, modify_modify]
    refine modify_congr fun u _ => ?_
    exact (record_concat path k u).symm

theorem recordUp_within (path : Path) :
    (whole.modify (fun _ => u) top).recordUp score top (top ++ path).reverse =
      whole.modify (fun _ => u.record score path) top := by
  rw [recordUp_eq, modify_modify]

end

end Tree

namespace Session

def within (whole : Tree σ μ V) (top : Path) (x : Session σ μ V γ) : Session σ μ V γ :=
  { x with root := whole.modify (fun _ => x.root) top }

section

variable {whole t : Tree σ μ V} {top : Path}

theorem setBusy_within (busy : Bool) (guard : Option Path) (x : Session σ μ V γ) :
    (x.within whole top).setBusy busy (guard.map (top ++ ·)) =
      (x.setBusy busy guard).within whole top := by
  cases guard with
  | none => rfl
  | some path =>
    simp only [within, setBusy, Option.map_some, Tree.relabel]
    rw [Tree.modify_within]

variable [Utility V] [RandomSource γ] [DecidableEq σ] {p : Setup σ μ α V}

def workBelow (p : Setup σ μ α V) (top path : Path) (x : Session σ μ V γ) :
    Except SearchError (Iteration V) × Session σ μ V γ :=
  match x.root.get? path with
  | none => (.ok .retry, x)
  | some t =>
    match p.expand t with
    | .error e => (.error (.rule e), x)
    | .ok (asked, grown) =>
      let root := x.root.modify (fun _ => grown) path
      match p.simulate t.label x.counters x.rng with
      | (.error e, counters, rng) => (.error e, ⟨root, counters, rng⟩)
      | (.ok (score, more), counters, rng) =>
        (.ok (.completed score (asked + more)),
          ⟨root.recordUp score top path.reverse, counters.completed, rng⟩)

/-- One iteration where the root is the node at `top` of a larger tree. -/
def iterateBelow (p : Setup σ μ α V) (top : Path) (locking : Locking) (x : Session σ μ V γ) :
    Except SearchError (Iteration V) × Session σ μ V γ :=
  match (x.root.get? top).bind (select p.policy locking) with
  | none => (.ok .retry, { x with counters := x.counters.retried })
  | some chosen =>
    let guard := chosen.guard.map (top ++ ·)
    let (result, x) := (x.setBusy true guard).workBelow p top (top ++ chosen.target)
    (result, x.setBusy false guard)

theorem workBelow_within (htop : whole.get? top = some t) (path : Path) (x : Session σ μ V γ) :
    (x.within whole top).workBelow p top (top ++ path) =
      ((x.workAt p path).1, (x.workAt p path).2.within whole top) := by
  have hget : (x.within whole top).root.get? (top ++ path) = x.root.get? path :=
    Tree.get?_within htop path
  have hgrow : ∀ grown, (x.within whole top).root.modify (fun _ => grown) (top ++ path) =
      whole.modify (fun _ => x.root.modify (fun _ => grown) path) top := fun grown =>
    Tree.modify_within _ path
  have hcounters : (x.within whole top).counters = x.counters := rfl
  have hrng : (x.within whole top).rng = x.rng := rfl
  unfold workBelow
  generalize hy : x.workAt p path = y
  cases hy ▸ workAt_cases p path x with
  | missing ht => simp only [hget, ht]
  | unexpanded ht he => simp only [hget, ht, he]
  | unscored ht he hs =>
    simp only [hget, ht, he, hcounters, hrng, hs, hgrow]
    rfl
  | completed ht he hs =>
    simp only [hget, ht, he, hcounters, hrng, hs, hgrow, Tree.recordUp_within]
    rfl

theorem iterateBelow_within (htop : whole.get? top = some t) (locking : Locking)
    (x : Session σ μ V γ) :
    (x.within whole top).iterateBelow p top locking =
      ((x.iterate p locking).1, (x.iterate p locking).2.within whole top) := by
  have hroot : (x.within whole top).root.get? top = some x.root := by
    rw [within, Tree.get?_modify, htop]
    rfl
  unfold iterateBelow
  rw [hroot, Option.bind_some]
  cases hs : select p.policy locking x.root with
  | none =>
    rw [iterate_of_select_none hs]
    rfl
  | some chosen =>
    rw [iterate_of_select_some hs]
    simp only [setBusy_within, workBelow_within htop]

def takeTurns
    (step : Locking → Session σ μ V γ → Except SearchError (Iteration V) × Session σ μ V γ) :
    List (Locking × γ) → Session σ μ V γ →
      List (Except SearchError (Iteration V)) × Session σ μ V γ
  | [], x => ([], x)
  | (locking, g) :: turns, x =>
    let (result, y) := step locking { x with rng := g }
    let (results, z) := takeTurns step turns y
    (result :: results, z)

theorem takeTurns_within (htop : whole.get? top = some t) (turns : List (Locking × γ))
    (x : Session σ μ V γ) :
    takeTurns (iterateBelow p top) turns (x.within whole top) =
      ((takeTurns (iterate p) turns x).1, (takeTurns (iterate p) turns x).2.within whole top) := by
  induction turns generalizing x with
  | nil => rfl
  | cons turn turns ih =>
    obtain ⟨locking, g⟩ := turn
    have hstep := iterateBelow_within (p := p) htop locking { x with rng := g }
    have hset : { x.within whole top with rng := g } = within whole top { x with rng := g } := rfl
    simp only [takeTurns, hset, hstep, ih]

/-- Iterations below the root of a subtree do the same whether or not the subtree is part of a
larger tree, and no other node of that one sees them. -/
theorem takeTurns_below {x : Session σ μ V γ} (htop : whole.get? top = some x.root)
    (turns : List (Locking × γ)) :
    let alone := takeTurns (iterate p) turns x
    let inside := takeTurns (iterateBelow p top) turns { x with root := whole }
    inside.1 = alone.1 ∧ inside.2.counters = alone.2.counters ∧ inside.2.rng = alone.2.rng ∧
      inside.2.root.get? top = some alone.2.root ∧
      ∀ path, ¬top <+: path →
        (inside.2.root.get? path).map Tree.label = (whole.get? path).map Tree.label := by
  intro alone inside
  have hwithin : { x with root := whole } = x.within whole top := by
    have hback : whole.modify (fun _ => x.root) top = whole :=
      Tree.modify_eq_self fun u hu => Option.some.inj (htop.symm.trans hu)
    rw [within, hback]
  have hinside : inside = (alone.1, alone.2.within whole top) := by
    rw [← takeTurns_within htop, ← hwithin]
  have hroot : inside.2.root = whole.modify (fun _ => alone.2.root) top := by
    rw [hinside]
    rfl
  refine ⟨?_, ?_, ?_, ?_, fun path hpath => ?_⟩
  · rw [hinside]
  · rw [hinside]
    rfl
  · rw [hinside]
    rfl
  · rw [hroot, Tree.get?_modify, htop]
    rfl
  · rw [hroot]
    exact Tree.label_get?_modify _ hpath

end

/-! ## The new root -/

variable [Utility V] [DecidableEq σ]

/-- Where the new root comes from: it holds the state already, it is the first grandchild that
does, or there is no such grandchild. -/
inductive Followed (p : Setup σ μ α V) (s : σ) (x : Session σ μ V γ) :
    RootUpdate × Session σ μ V γ → Prop where
  | unchanged : x.root.state = s → Followed p s x (.unchanged, x)
  | reused {i j : Nat} {t : Tree σ μ V} : x.root.state ≠ s → x.root.FirstBelow s i j t →
      Followed p s x (.reused [i, j], { x with root := t })
  | rebuilt : x.root.state ≠ s → (∀ c ∈ x.root.children, ∀ d ∈ c.children, d.state ≠ s) →
      Followed p s x (.rebuilt, x.setRoot p s)

theorem updateRoot_followed (p : Setup σ μ α V) (s : σ) (x : Session σ μ V γ) :
    Followed p s x (x.updateRoot p s) := by
  unfold updateRoot
  split
  · rename_i hs
    exact .unchanged hs
  · rename_i hs
    cases hfind : Tree.findBelow (fun t => t.state = s) x.root.children with
    | none =>
      have hnone := Tree.findBelow_eq_none_iff.1 hfind
      exact .rebuilt hs fun c hc d hd => of_decide_eq_false (hnone c hc d hd)
    | some ij =>
      obtain ⟨t, ht⟩ := Tree.firstBelow_of_findBelow hfind
      simp only [ht.place]
      exact .reused hs ht

end Session

namespace History

variable [Utility V] [RandomSource γ] [DecidableEq σ] [DecidableEq μ]

/-- The tree follows the game to a state. It is untouched where its root holds the state. Where a
grandchild does, the first of them becomes the root and nothing below it changes. Otherwise a new
tree is started. Iterations then do the same whether or not the tree is part of a larger one, and
no other node of that one sees them. -/
theorem updateRoot_keeps_subtree (game : Game σ μ α) (agent : α) (h : History σ μ V γ) (s : σ) :
    let p := h.setup game agent
    let x := h.session game agent
    let update := (x.updateRoot p s).1
    let y := (x.updateRoot p s).2
    ((update = .unchanged ↔ x.root.state = s) ∧ (update = .unchanged → y = x)) ∧
    (((∃ path, update = .reused path) ↔
        x.root.state ≠ s ∧ ∃ c ∈ x.root.children, ∃ d ∈ c.children, d.state = s) ∧
      ∀ path, update = .reused path → ∃ i j, path = [i, j] ∧ x.root.FirstBelow s i j y.root) ∧
    ((update = .rebuilt ↔
        x.root.state ≠ s ∧ ∀ c ∈ x.root.children, ∀ d ∈ c.children, d.state ≠ s) ∧
      (update = .rebuilt → y.root = .node (.fresh .max s (game.terminal s) {}) [])) ∧
    (y.root.state = s ∧ y.root.label.terminal = game.terminal s) ∧
    ((h.updateRoot s).setup game agent = p ∧ y.counters = x.counters ∧ y.rng = x.rng) ∧
    ∀ whole top, whole.get? top = some y.root → ∀ turns : List (Locking × γ),
      let alone := Session.takeTurns (Session.iterate p) turns y
      let inside := Session.takeTurns (Session.iterateBelow p top) turns { y with root := whole }
      inside.1 = alone.1 ∧ inside.2.counters = alone.2.counters ∧
        inside.2.rng = alone.2.rng ∧ inside.2.root.get? top = some alone.2.root ∧
        ∀ path, ¬top <+: path →
          (inside.2.root.get? path).map Tree.label = (whole.get? path).map Tree.label := by
  intro p x update y
  have hterminal : y.root.label.terminal = game.terminal y.root.state := by
    have hrooted : y.root.Rooted game agent := (h.updateRoot s).rooted
    exact hrooted.1.conforms.terminal_max hrooted.2
  have hfollowed : Session.Followed p s x (update, y) := Session.updateRoot_followed p s x
  have hlater : ∀ (whole : Tree σ μ V) top, whole.get? top = some y.root → _ :=
    fun whole top htop turns => Session.takeTurns_below (p := p) (x := y) htop turns
  clear_value update y
  cases hfollowed with
  | unchanged hs =>
    refine ⟨⟨iff_of_true rfl hs, fun _ => rfl⟩, ⟨iff_of_false ?_ fun hg => hg.1 hs, nofun⟩,
      ⟨iff_of_false nofun fun hg => hg.1 hs, nofun⟩, ⟨hs, hs ▸ hterminal⟩, ⟨rfl, rfl, rfl⟩, hlater⟩
    rintro ⟨path, hpath⟩
    cases hpath
  | @reused i j t hs hfirst =>
    obtain ⟨c, hc, ht⟩ := Tree.get?_pair_eq_some.1 hfirst.place
    have hc := List.mem_of_getElem? hc
    have ht := List.mem_of_getElem? ht
    have hstate := hfirst.state_eq
    refine ⟨⟨iff_of_false nofun hs, nofun⟩,
      ⟨iff_of_true ⟨_, rfl⟩ ⟨hs, c, hc, t, ht, hstate⟩, ?_⟩,
      ⟨iff_of_false nofun fun hg => hg.2 c hc t ht hstate, nofun⟩,
      ⟨hstate, hstate ▸ hterminal⟩, ⟨rfl, rfl, rfl⟩, hlater⟩
    intro path hpath
    cases hpath
    exact ⟨i, j, rfl, hfirst⟩
  | rebuilt hs hnone =>
    refine ⟨⟨iff_of_false nofun hs, nofun⟩, ⟨iff_of_false ?_ fun hg => ?_, nofun⟩,
      ⟨iff_of_true rfl ⟨hs, hnone⟩, fun _ => rfl⟩, ⟨rfl, hterminal⟩, ⟨rfl, rfl, rfl⟩, hlater⟩
    · rintro ⟨path, hpath⟩
      cases hpath
    · obtain ⟨c, hc, d, hd, hstate⟩ := hg.2
      exact hnone c hc d hd hstate

end History

end GameSearch.TreeSearch
