import GameSearch.Proofs.TreeSearch.Shape
import GameSearch.TreeSearch.Root

/-!
# GameSearch.Proofs.TreeSearch.Iteration

What one iteration and a move of the root do to a session, and what follows for a run of
iterations.

`Moved` lists what can become of the tree when the game has moved on (`updateRoot_cases`), and
`Work` lists all ways in which the work at a selected node can end, with the session that each
leaves behind (`workAt_cases`). Properties of sessions are proved from these cases, and the
drivers that repeat iterations are not opened again: `repeatIterations_carries` and
`iterateUntil_carries` take a property of the tree and the counters from one iteration to all of
them, where each step may also be assumed to be in a given relation (`repeatIterations_keeps` and
`iterateUntil_keeps` if the property is one of the tree alone).
-/

namespace GameSearch.TreeSearch.Session

variable {σ μ α V γ : Type} {game : Game σ μ α} {agent : α} {x : Session σ μ V γ} {path : Path}

/-! ## Permits -/

theorem setBusy_keeps {Q : Tree σ μ V → Prop} (busy : Bool) (guard : Option Path)
    (hroot : Q x.root)
    (hrelabel : ∀ path, Q (x.root.relabel (fun n => { n with busy := busy }) path)) :
    Q (x.setBusy busy guard).root := by
  cases guard with
  | none => exact hroot
  | some path => exact hrelabel path

theorem setBusy_role (busy : Bool) (guard : Option Path) (x : Session σ μ V γ) :
    (x.setBusy busy guard).root.label.role = x.root.label.role :=
  setBusy_keeps (Q := fun t => t.label.role = x.root.label.role) busy guard rfl fun _ =>
    Tree.view_modify fun u _ => by cases u; rfl

variable [DecidableEq σ]

theorem relabel_busy_shaped {t : Tree σ μ V} {busy : Bool} (h : t.Shaped game agent) :
    (t.relabel (fun n => { n with busy := busy }) path).Shaped game agent :=
  h.relabel formed_reads (fun _ _ hn => hn.congr rfl rfl rfl) fun _ => rfl

theorem setBusy_shaped (busy : Bool) (guard : Option Path) (h : x.root.Shaped game agent) :
    (x.setBusy busy guard).root.Shaped game agent :=
  setBusy_keeps busy guard h fun _ => relabel_busy_shaped h

variable [Utility V] {p : Setup σ μ α V}

/-! ## The root -/

/-- What becomes of the tree when the game has moved on: it stays, a grandchild of the root
takes over, or a new tree is started. -/
inductive Moved (p : Setup σ μ α V) (s : σ) (x : Session σ μ V γ) :
    RootUpdate × Session σ μ V γ → Prop where
  | unchanged : Moved p s x (.unchanged, x)
  | reused {c t : Tree σ μ V} {i j : Nat} : c ∈ x.root.children → t ∈ c.children →
      Moved p s x (.reused [i, j], { x with root := t })
  | rebuilt : Moved p s x (.rebuilt, x.setRoot p s)

theorem updateRoot_cases (p : Setup σ μ α V) (s : σ) (x : Session σ μ V γ) :
    Moved p s x (x.updateRoot p s) := by
  unfold updateRoot
  split
  · exact .unchanged
  · split
    · exact .rebuilt
    · split
      · exact .rebuilt
      · rename_i t ht
        obtain ⟨c, hc, ht⟩ := Tree.get?_cons_eq_some.1 ht
        obtain ⟨t', ht', heq⟩ := Tree.get?_cons_eq_some.1 ht
        cases heq
        exact .reused (List.mem_of_getElem? hc) (List.mem_of_getElem? ht')

theorem updateRoot_rooted (p : Setup σ μ α V) (s : σ) (hx : x.root.Rooted p.game p.agent) :
    (x.updateRoot p s).2.root.Rooted p.game p.agent := by
  obtain ⟨hshaped, hk⟩ := hx
  generalize hy : x.updateRoot p s = y
  cases hy ▸ updateRoot_cases p s x with
  | unchanged => exact ⟨hshaped, hk⟩
  | @reused c t _ _ hc ht =>
    have hmin : c.label.kind.isMax = false := by
      rw [hshaped.here.child_isMax hc, hk]
      rfl
    have hmax : t.label.kind.isMax = true := by
      rw [(hshaped.child hc).here.child_isMax ht, hmin]
      rfl
    exact ⟨(hshaped.child hc).child ht, Kind.isMax_iff.1 hmax⟩
  | rebuilt => exact ⟨p.unvisited_shaped s {}, rfl⟩

variable [RandomSource γ]

/-! ## One iteration -/

/-- How the work at a node can end: there is no such node, its expansion fails, its simulation
fails, or a score is recorded. -/
inductive Work (p : Setup σ μ α V) (path : Path) (x : Session σ μ V γ) :
    Except SearchError (Iteration V) × Session σ μ V γ → Prop where
  | missing : x.root.get? path = none → Work p path x (.ok .retry, x)
  | unexpanded {t : Tree σ μ V} {e : RuleError} : x.root.get? path = some t →
      p.expand t = .error e → Work p path x (.error (.rule e), x)
  | unscored {t grown : Tree σ μ V} {asked : Nat} {e : SearchError} {c : Counters} {g : γ} :
      x.root.get? path = some t → p.expand t = .ok (asked, grown) →
      p.simulate t.label x.counters x.rng = (.error e, c, g) →
      Work p path x (.error e, ⟨x.root.modify (fun _ => grown) path, c, g⟩)
  | completed {t grown : Tree σ μ V} {asked more : Nat} {score : V} {c : Counters} {g : γ} :
      x.root.get? path = some t → p.expand t = .ok (asked, grown) →
      p.simulate t.label x.counters x.rng = (.ok (score, more), c, g) →
      Work p path x (.ok (.completed score (asked + more)),
        ⟨(x.root.modify (fun _ => grown) path).record score path, c.completed, g⟩)

theorem workAt_cases (p : Setup σ μ α V) (path : Path) (x : Session σ μ V γ) :
    Work p path x (x.workAt p path) := by
  unfold workAt
  split
  · rename_i h
    exact .missing h
  · rename_i t ht
    split
    · rename_i e he
      exact .unexpanded ht he
    · rename_i asked grown he
      dsimp only
      split
      · rename_i e c g hs
        exact .unscored ht he hs
      · rename_i score more c g hs
        exact .completed ht he hs

theorem iterate_of_select_none {locking : Locking}
    (h : select p.policy locking x.root = none) :
    x.iterate p locking = (.ok .retry, { x with counters := x.counters.retried }) := by
  simp only [iterate, h]

theorem iterate_of_select_some {locking : Locking} {chosen : Selection}
    (h : select p.policy locking x.root = some chosen) :
    x.iterate p locking =
      (((x.setBusy true chosen.guard).workAt p chosen.target).1,
        ((x.setBusy true chosen.guard).workAt p chosen.target).2.setBusy false chosen.guard) := by
  simp only [iterate, h]

theorem workAt_shaped (path : Path) (h : x.root.Shaped p.game p.agent) :
    (x.workAt p path).2.root.Shaped p.game p.agent ∧
      (x.workAt p path).2.root.label.role = x.root.label.role := by
  generalize hy : x.workAt p path = y
  cases hy ▸ workAt_cases p path x with
  | missing => exact ⟨h, rfl⟩
  | unexpanded => exact ⟨h, rfl⟩
  | unscored ht he _ => exact p.grow_shaped h ht he
  | completed ht he _ =>
    obtain ⟨hshaped, hrole⟩ := p.grow_shaped h ht he
    refine ⟨hshaped.record formed_reads ?_ fun _ => rfl, ?_⟩
    · exact fun n cs hn => hn.congr rfl rfl rfl
    · exact (Tree.view_record (fun _ => rfl) _).trans hrole

theorem iterate_shaped (locking : Locking) (h : x.root.Shaped p.game p.agent) :
    (x.iterate p locking).2.root.Shaped p.game p.agent ∧
      (x.iterate p locking).2.root.label.role = x.root.label.role := by
  cases hs : select p.policy locking x.root with
  | none =>
    rw [iterate_of_select_none hs]
    exact ⟨h, rfl⟩
  | some chosen =>
    rw [iterate_of_select_some hs]
    obtain ⟨hshaped, hrole⟩ :=
      workAt_shaped chosen.target (setBusy_shaped true chosen.guard h)
    refine ⟨setBusy_shaped false chosen.guard hshaped, ?_⟩
    rw [setBusy_role, hrole, setBusy_role]

/-! ## Runs of iterations -/

section

variable {G : Tree σ μ V → Tree σ μ V → Prop}

/-- Each iteration keeps `J`, if it takes the root into the relation `G`. -/
def Keeps (p : Setup σ μ α V) (locking : Locking) (γ : Type) [RandomSource γ]
    (J : Tree σ μ V → Prop) (G : Tree σ μ V → Tree σ μ V → Prop) : Prop :=
  ∀ x : Session σ μ V γ, J x.root → G x.root (x.iterate p locking).2.root →
    J (x.iterate p locking).2.root

def Carries (p : Setup σ μ α V) (locking : Locking) (γ : Type) [RandomSource γ]
    (J : Tree σ μ V → Counters → Prop) (G : Tree σ μ V → Tree σ μ V → Prop) : Prop :=
  ∀ x : Session σ μ V γ, J x.root x.counters → G x.root (x.iterate p locking).2.root →
    J (x.iterate p locking).2.root (x.iterate p locking).2.counters

theorem iterate_rooted (p : Setup σ μ α V) {locking : Locking} :
    Keeps p locking γ (Tree.Rooted p.game p.agent) fun _ _ => True := by
  intro x hx _
  obtain ⟨hshaped, hrole⟩ := iterate_shaped locking hx.1
  exact ⟨hshaped, (Node.role_eq_iff.1 hrole).1.trans hx.2⟩

theorem repeatIterations_carries {J : Tree σ μ V → Counters → Prop}
    (hstep : Carries p .exclusive γ J G) (n : Nat) {x : Session σ μ V γ}
    (hx : J x.root x.counters)
    (hG : ∀ m < n, G (repeatIterations p m x).2.root (repeatIterations p (m + 1) x).2.root) :
    J (repeatIterations p n x).2.root (repeatIterations p n x).2.counters := by
  induction n generalizing x with
  | zero => exact hx
  | succ n ih =>
    have hfirst : (repeatIterations p 1 x).2 = (x.iterate p .exclusive).2 := by
      unfold repeatIterations
      split <;> simp_all [repeatIterations]
    have hnext : J (x.iterate p .exclusive).2.root (x.iterate p .exclusive).2.counters := by
      refine hstep x hx ?_
      rw [← hfirst]
      exact hG 0 (Nat.succ_pos n)
    cases hi : x.iterate p .exclusive with
    | mk result y =>
      rw [hi] at hnext
      cases result with
      | error e => simpa only [repeatIterations, hi] using hnext
      | ok _ =>
        have hrest : ∀ m, repeatIterations p (m + 1) x = repeatIterations p m y := fun m => by
          simp only [repeatIterations, hi]
        rw [hrest]
        refine ih hnext fun m hm => ?_
        rw [← hrest, ← hrest]
        exact hG (m + 1) (Nat.succ_lt_succ hm)

theorem repeatIterations_keeps {J : Tree σ μ V → Prop} (hstep : Keeps p .exclusive γ J G) (n : Nat)
    {x : Session σ μ V γ} (hx : J x.root)
    (hG : ∀ m < n, G (repeatIterations p m x).2.root (repeatIterations p (m + 1) x).2.root) :
    J (repeatIterations p n x).2.root :=
  repeatIterations_carries (J := fun t _ => J t) hstep n hx hG

theorem iterateUntil_zero (p : Setup σ μ α V) (locking : Locking) (i : Interrupt) (asked : Nat)
    (x : Session σ μ V γ) : (iterateUntil p locking i 0 asked x).2 = x := by
  unfold iterateUntil
  split <;> rfl

theorem iterateUntil_zero_root {locking : Locking} {i : Interrupt} {asked : Nat}
    {x : Session σ μ V γ} : (iterateUntil p locking i 0 asked x).2.root = x.root := by
  rw [iterateUntil_zero]

/-- The first round of a search: the interrupt stops it, it fails, or the search goes on. -/
theorem iterateUntil_round (p : Setup σ μ α V) (locking : Locking) (i : Interrupt) (asked : Nat)
    (x : Session σ μ V γ) :
    (∀ m, (iterateUntil p locking i m asked x).2 = x) ∨
    (∀ m, (iterateUntil p locking i (m + 1) asked x).2 = (x.iterate p locking).2) ∨
    ∃ asked', ∀ m, iterateUntil p locking i (m + 1) asked x =
      iterateUntil p locking i m asked' (x.iterate p locking).2 := by
  cases hraised : i.isRaised asked with
  | true =>
    refine .inl fun m => ?_
    unfold iterateUntil
    rw [hraised]
    rfl
  | false =>
    refine .inr ?_
    simp only [iterateUntil, hraised, Bool.false_eq_true, ↓reduceIte]
    obtain ⟨result, y⟩ := x.iterate p locking
    cases result with
    | error e => exact .inl fun m => rfl
    | ok done =>
      cases done with
      | retry => exact .inr ⟨asked, fun m => rfl⟩
      | completed score queries => exact .inr ⟨asked + queries, fun m => rfl⟩

theorem iterateUntil_carries {locking : Locking} {i : Interrupt}
    {J : Tree σ μ V → Counters → Prop} (hstep : Carries p locking γ J G) (bound asked : Nat)
    {x : Session σ μ V γ} (hx : J x.root x.counters)
    (hG : ∀ m < bound, G (iterateUntil p locking i m asked x).2.root
      (iterateUntil p locking i (m + 1) asked x).2.root) :
    J (iterateUntil p locking i bound asked x).2.root
      (iterateUntil p locking i bound asked x).2.counters := by
  induction bound generalizing x asked with
  | zero => rwa [iterateUntil_zero]
  | succ bound ih =>
    have hfirst := hG 0 (Nat.succ_pos bound)
    rw [iterateUntil_zero] at hfirst
    rcases iterateUntil_round p locking i asked x with hstop | hfail | ⟨asked', hgo⟩
    · rwa [hstop]
    · rw [hfail] at hfirst ⊢
      exact hstep x hx hfirst
    · rw [hgo, iterateUntil_zero] at hfirst
      rw [hgo]
      refine ih asked' (hstep x hx hfirst) fun m hm => ?_
      rw [← hgo, ← hgo]
      exact hG (m + 1) (Nat.succ_lt_succ hm)

theorem iterateUntil_keeps {locking : Locking} {i : Interrupt} {J : Tree σ μ V → Prop}
    (hstep : Keeps p locking γ J G) (bound asked : Nat) {x : Session σ μ V γ} (hx : J x.root)
    (hG : ∀ m < bound, G (iterateUntil p locking i m asked x).2.root
      (iterateUntil p locking i (m + 1) asked x).2.root) :
    J (iterateUntil p locking i bound asked x).2.root :=
  iterateUntil_carries (J := fun t _ => J t) hstep bound asked hx hG

end

theorem runIterations_root (p : Setup σ μ α V) (n : Nat) (x : Session σ μ V γ) :
    (x.runIterations p n).2.root = (repeatIterations p n x).2.root := by
  unfold runIterations
  split <;> simp_all

theorem runIterations_counters (p : Setup σ μ α V) (n : Nat) (x : Session σ μ V γ) :
    (x.runIterations p n).2.counters = (repeatIterations p n x).2.counters := by
  unfold runIterations
  split <;> simp_all

theorem searchUntil_root (p : Setup σ μ α V) (i : Interrupt) (x : Session σ μ V γ) :
    (x.searchUntil p i).2.root =
      if x.root.label.terminal then x.root
      else (iterateUntil p .exclusive i p.patience 0 x).2.root := by
  unfold searchUntil
  split
  · rfl
  · split <;> simp_all

theorem searchUntil_counters (p : Setup σ μ α V) (i : Interrupt) (x : Session σ μ V γ) :
    (x.searchUntil p i).2.counters =
      if x.root.label.terminal then x.counters
      else (iterateUntil p .exclusive i p.patience 0 x).2.counters := by
  unfold searchUntil
  split
  · rfl
  · split <;> simp_all

end GameSearch.TreeSearch.Session
