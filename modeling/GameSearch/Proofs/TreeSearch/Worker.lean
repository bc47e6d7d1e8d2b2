import GameSearch.Proofs.TreeSearch.Permits
import GameSearch.TreeSearch.Workers

/-!
# GameSearch.Proofs.TreeSearch.Worker

The steps of one worker. When nobody is at work between them, the eight steps of an iteration do
what the iteration does in one (`Crew.solo_completed`, `Crew.solo_failed`).
-/

namespace GameSearch.TreeSearch

variable {σ μ α V γ : Type}

theorem unvisited_of_step {policy : Policy V} {n : Node σ μ V} {cs : List (Tree σ μ V)}
    {path : Path} (h : step policy n cs = .target path) :
    ∃ i rest u, path = i :: rest ∧ (Tree.node n cs).get? path = some u ∧ isUnvisited u = true := by
  obtain ⟨i, c, hc, ⟨rfl, hzero⟩ | ⟨-, j, d, rfl, hd, hzero⟩⟩ := step_target h
  · exact ⟨i, [], c, rfl, Tree.get?_cons_eq_some.2 ⟨c, hc, rfl⟩, isUnvisited_iff.2 hzero⟩
  · have hplace : c.get? [j] = some d := Tree.get?_cons_eq_some.2 ⟨d, hd, rfl⟩
    exact ⟨i, [j], d, rfl, Tree.get?_cons_eq_some.2 ⟨c, hc, hplace⟩, isUnvisited_iff.2 hzero⟩

/-- A look and what follows at once select the same node as an iteration by one step. -/
theorem reserve_look {t : Tree σ μ V} (policy : Policy V) (locking : Locking) (ht : t.label.terminal = false) :
    (look policy t).reserve policy locking t = select policy locking t := by
  obtain ⟨n, cs⟩ := t
  have hn : n.terminal = false := ht
  cases hunvisited : isUnvisited (.node n cs) with
  | true =>
    have hn' : n.isUnvisited = true := hunvisited
    have hlook : look policy (.node n cs) = .target [] := if_pos hunvisited
    have hdescend : descend policy (.node n cs) = some [] := by
      rw [descend, hn', Bool.true_or, if_pos rfl]
    cases locking with
    | exclusive => simp only [hlook, Step.reserve, Step.path?, select, hdescend]
    | rootPermits =>
      simp only [hlook, Step.reserve, Step.path?, Step.guard, Step.isStale, Tree.get?, select,
        hdescend, guardOf, hunvisited, Bool.not_true, Bool.or_false, ↓reduceIte]
  | false =>
    have hn' : n.isUnvisited = false := hunvisited
    have hlook : look policy (.node n cs) = step policy n cs := by
      rw [look, hunvisited]
      rfl
    rw [hlook]
    have hdescend : descend policy (.node n cs) = (step policy n cs).path? policy (.node n cs) := by
      rw [descend, hn', hn]
      cases step policy n cs with
      | stuck => rfl
      | target path => rfl
      | descend i =>
        simp only [Step.path?, Tree.children]
        cases descendInto policy cs i <;> rfl
    simp only [Step.reserve, select, hdescend]
    cases hstep : step policy n cs with
    | stuck => rfl
    | target path =>
      obtain ⟨i, rest, u, rfl, hu, hunvisited⟩ := unvisited_of_step hstep
      cases locking with
      | exclusive => rfl
      | rootPermits =>
        simp only [Step.path?, Step.guard, Step.isStale, hu, hunvisited, guardOf, Bool.not_true,
          Bool.or_false]
    | descend i =>
      simp only [Step.path?, Tree.children]
      cases descendInto policy cs i with
      | none => rfl
      | some path => cases locking <;> simp [Step.guard, Step.isStale, guardOf]

def Rota.Alone (r : Rota) (n : Nat) : Prop :=
  n ≤ r.length ∧ ∀ k < n, r.turn k = some 0

theorem Rota.Alone.turn_eq {r : Rota} {n : Nat} (h : r.Alone n) : ∀ k < n, r.turn (0 + k) = some 0 :=
  fun k hk => (Nat.zero_add k).symm ▸ h.2 k hk

theorem Rota.even_alone {workers length n : Nat} (hworkers : workers ≤ 1) (hn : n ≤ length) :
    (Rota.even workers length).Alone n :=
  ⟨hn, fun k _ => by simp only [Rota.even, Nat.max_eq_right hworkers, Nat.mod_one]⟩

/-! ## The steps of an iteration -/

variable [Utility V]

theorem Tree.record_eq (score : V) (path : Path) (t : Tree σ μ V) :
    (t.recordBelow score path).relabel (·.record score) [] = t.record score path := by
  obtain ⟨n, cs⟩ := t
  cases path <;> rfl

namespace Crew

def solo (task : Task σ μ V) (x : Session σ μ V γ) (asked : Nat) (stopped : Bool) :
    Crew σ μ V γ :=
  ⟨[(x.root, x.counters)], [(task, x.rng)], asked, stopped⟩

variable [RandomSource γ] [DecidableEq σ] {p : Setup σ μ α V} {mode : Mode} {i : Interrupt}
  {rota : Rota} {c : Crew σ μ V γ} {x y : Session σ μ V γ} {task : Task σ μ V} {asked k : Nat}
  {stopped : Bool}

theorem acts_solo {next : Task σ μ V} {queries n : Nat} (h : task.isFinished = false)
    (hnext : task.advance p mode.locking (stopped || i.isRaised asked) x = (next, queries, y))
    (hgoes : next.error? = none) :
    (solo task x asked stopped).acts p mode i 0 (n + 1) =
      (solo next y (asked + queries) stopped).acts p mode i 0 n := by
  rw [acts]
  cases mode <;> simp [act, solo, Mode.treeOf, h, isTold, hnext, hgoes]

theorem acts_solo_failed {e : SearchError} {queries n : Nat} (h : task.isFinished = false)
    (hnext : task.advance p mode.locking (stopped || i.isRaised asked) x =
      (.finished (.error e), queries, y)) :
    (solo task x asked stopped).acts p mode i 0 (n + 1) =
      (solo (.finished (.error e)) y (asked + queries) true).acts p mode i 0 n := by
  rw [acts]
  cases mode <;> simp [act, solo, Mode.treeOf, h, isTold, hnext, Task.error?]

theorem act_finished (h : c.isFinished = true) : c.act p mode i k = c := by
  unfold act
  split
  · rename_i hw
    have hfinished := List.all_eq_true.1 h _ (List.mem_of_getElem? hw)
    exact if_pos hfinished
  · rfl

theorem acts_finished (h : c.isFinished = true) (n : Nat) : c.acts p mode i k n = c := by
  induction n with
  | zero => rfl
  | succ n ih => rw [acts, act_finished h, ih]

theorem solo_selected {chosen : Selection} {n : Nat} (hroot : x.root.label.terminal = false)
    (hs : select p.policy mode.locking x.root = some chosen) (hquiet : i.isRaised asked = false) :
    (solo .idle x asked false).acts p mode i 0 (n + 3) =
      (solo (.expand chosen) (x.setBusy true chosen.guard) asked false).acts p mode i 0 n := by
  have hidle : Task.idle.advance p mode.locking (false || i.isRaised asked) x = (.look, 0, x) := by
    simp only [Task.advance, hquiet, Bool.or_false, Bool.false_eq_true, ↓reduceIte]
  have hlook : Task.look.advance p mode.locking (false || i.isRaised asked) x =
      (.reserve (look p.policy x.root), 0, x) := rfl
  have hreserve : (Task.reserve (look p.policy x.root)).advance p mode.locking
      (false || i.isRaised asked) x = (.expand chosen, 0, x.setBusy true chosen.guard) := by
    simp only [Task.advance, reserve_look p.policy mode.locking hroot, hs]
  exact (acts_solo rfl hidle rfl).trans
    ((acts_solo rfl hlook rfl).trans (acts_solo rfl hreserve rfl))

theorem solo_expanded {t grown : Tree σ μ V} {chosen : Selection} {queries n : Nat}
    (ht : x.root.get? chosen.target = some t) (he : p.expand t = .ok (queries, grown)) :
    (solo (.expand chosen) x asked stopped).acts p mode i 0 (n + 1) =
      (solo (.simulate chosen t.label)
        { x with root := x.root.modify (fun _ => grown) chosen.target } (asked + queries)
          stopped).acts p mode i 0 n :=
  acts_solo rfl (by simp only [Task.advance, ht, he]) rfl

theorem solo_recorded (c : Selection) (score : V) :
    (solo (.record c score) x asked stopped).acts p mode i 0 3 =
      solo .idle (Session.setBusy false c.guard
        ⟨x.root.record score c.target, x.counters.completed, x.rng⟩) asked stopped := by
  let below : Session σ μ V γ := { x with root := x.root.recordBelow score c.target }
  let recorded : Session σ μ V γ := { below with root := below.root.relabel (·.record score) [] }
  have hbelow : (Task.record c score).advance p mode.locking (stopped || i.isRaised asked) x =
      (.recordRoot c score, 0, below) := rfl
  have hroot : (Task.recordRoot c score).advance p mode.locking (stopped || i.isRaised asked) below =
      (.leave c, 0, recorded) := rfl
  have hleave : (Task.leave c).advance p mode.locking (stopped || i.isRaised asked) recorded =
      (.idle, 0, Session.setBusy false c.guard ⟨recorded.root, x.counters.completed, x.rng⟩) := rfl
  rw [← Tree.record_eq]
  exact (acts_solo rfl hbelow rfl).trans
    ((acts_solo rfl hroot rfl).trans (acts_solo rfl hleave rfl))

/-- The eight steps of an iteration that is completed. -/
theorem solo_completed {score : V} {queries : Nat} (hroot : x.root.label.terminal = false)
    (hquiet : i.isRaised asked = false)
    (hi : x.iterate p mode.locking = (.ok (.completed score queries), y)) :
    (solo .idle x asked false).acts p mode i 0 8 = solo .idle y (asked + queries) false := by
  cases hs : select p.policy mode.locking x.root with
  | none =>
    rw [Session.iterate_of_select_none hs] at hi
    cases hi
  | some chosen =>
    rw [Session.iterate_of_select_some hs] at hi
    obtain ⟨hok, rfl⟩ := Prod.mk.inj hi
    refine (solo_selected hroot hs hquiet).trans ?_
    generalize hz : (x.setBusy true chosen.guard).workAt p chosen.target = z at hok ⊢
    cases hz ▸ Session.workAt_cases p chosen.target (x.setBusy true chosen.guard) with
    | missing => cases hok
    | unexpanded => cases hok
    | unscored => cases hok
    | completed ht he hsim =>
      cases hok
      refine (solo_expanded ht he).trans ?_
      refine (acts_solo rfl (by simp only [Task.advance, hsim]; rfl) rfl).trans ?_
      rw [← Nat.add_assoc]
      exact solo_recorded chosen score

theorem solo_failed {e : SearchError} (hroot : x.root.label.terminal = false)
    (hquiet : i.isRaised asked = false) (hi : x.iterate p mode.locking = (.error e, y)) :
    ∃ asked', (solo .idle x asked false).acts p mode i 0 8 =
      solo (.finished (.error e)) y asked' true := by
  have hfinished : ∀ asked' n, (solo (.finished (.error e)) y asked' true).acts p mode i 0 n =
      solo (.finished (.error e)) y asked' true := fun asked' n => acts_finished rfl n
  cases hs : select p.policy mode.locking x.root with
  | none =>
    rw [Session.iterate_of_select_none hs] at hi
    cases hi
  | some chosen =>
    rw [Session.iterate_of_select_some hs] at hi
    obtain ⟨herror, rfl⟩ := Prod.mk.inj hi
    rw [solo_selected hroot hs hquiet]
    generalize hz : (x.setBusy true chosen.guard).workAt p chosen.target = z at herror hfinished ⊢
    cases hz ▸ Session.workAt_cases p chosen.target (x.setBusy true chosen.guard) with
    | missing => cases herror
    | completed => cases herror
    | unexpanded ht he =>
      cases herror
      refine ⟨asked, ?_⟩
      refine (acts_solo_failed rfl (by simp only [Task.advance, ht, he]; rfl)).trans ?_
      exact hfinished _ _
    | @unscored _ _ queries _ _ _ ht he hsim =>
      cases herror
      refine ⟨asked + queries, (solo_expanded ht he).trans ?_⟩
      refine (acts_solo_failed rfl (by simp only [Task.advance, hsim]; rfl)).trans ?_
      exact hfinished _ _

/-! ## A rota with one worker -/

theorem work_finished (h : c.isFinished = true) (left n : Nat) : c.work p mode i rota left n = c := by
  cases left with
  | zero => rfl
  | succ left => exact if_pos h

theorem work_alone {m : Nat} (left n : Nat) (hturns : ∀ j < m, rota.turn (n + j) = some 0) :
    c.work p mode i rota (left + m) n = (c.acts p mode i 0 m).work p mode i rota left (n + m) := by
  induction m generalizing n c with
  | zero => rfl
  | succ m ih =>
    have hturn : rota.turn n = some 0 := hturns 0 (Nat.succ_pos m)
    cases hc : c.isFinished with
    | true => rw [work_finished hc, acts_finished hc, work_finished hc]
    | false =>
      have hrest := ih (c := c.act p mode i 0) (n + 1) fun j hj => by
        rw [Nat.add_assoc, Nat.add_comm 1]
        exact hturns (j + 1) (Nat.succ_lt_succ hj)
      rw [← Nat.add_assoc, work, hc, hturn, if_neg Bool.false_ne_true, acts]
      rw [Nat.add_assoc, Nat.add_comm 1] at hrest
      exact hrest

end Crew

end GameSearch.TreeSearch
