import GameSearch.Proofs.TreeSearch.Frame
import GameSearch.Proofs.TreeSearch.Simulation

/-!
# GameSearch.Proofs.TreeSearch.LoneWorker

A lone worker never tries again. There is always a node to work on, and so each iteration visits
the root once more or fails; it fails because of a fault in the rules of the game, or because of a
play that is longer than plays may be.

* `Session.workAt_outcome`: what work changes and counts, and why it fails.
* `Session.iterate_advances`, `Session.repeatIterations_advances`: one iteration, and a run of them.
* `History.iterate_never_retries`: so it is whatever has happened to the session.
-/

namespace GameSearch.TreeSearch

variable {σ μ α V γ : Type}

/-- A count that does not go round. -/
theorem Tree.visits_add {t u : Tree σ μ V} {n : Nat} (hroom : t.visits + n < 2 ^ 32)
    (h : u.label.stats.visits = t.label.stats.visits + UInt32.ofNat n) :
    u.visits = t.visits + n := by
  have ht : t.label.stats.visits.toNat = t.visits := rfl
  calc u.visits
    _ = (t.visits + n % 2 ^ 32) % 2 ^ 32 := by
      rw [visits, h, UInt32.toNat_add, UInt32.toNat_ofNat', ht]
    _ = t.visits + n := by omega

variable [Utility V] [DecidableEq σ] [RandomSource γ] {p : Setup σ μ α V} {x : Session σ μ V γ}
  {u : Tree σ μ V} {path : Path}

namespace Session

theorem workAt_counters (hu : x.root.get? path = some u) :
    (∃ score queries, (x.workAt p path).1 = .ok (.completed score queries) ∧
      (x.workAt p path).2.counters =
        ⟨x.counters.iterations + 1, x.counters.retries,
          x.counters.playouts + if u.label.terminal then 0 else p.plays.toUInt64,
          (x.workAt p path).2.counters.playoutMoves⟩) ∨
    (∃ e, (x.workAt p path).1 = .error e ∧
      (x.workAt p path).2.counters =
        { x.counters with playoutMoves := (x.workAt p path).2.counters.playoutMoves } ∧
      ((∃ r, e = .rule r) ∨ e = .unfinished ∧ p.Overlong u.label)) := by
  generalize hy : x.workAt p path = y
  cases hy ▸ workAt_cases p path x with
  | missing hnone => cases hnone.symm.trans hu
  | unexpanded => exact .inr ⟨_, rfl, rfl, .inl ⟨_, rfl⟩⟩
  | unscored ht _ hs =>
    cases hu.symm.trans ht
    obtain ⟨hcounters, hfault⟩ := p.simulate_error hs
    exact .inr ⟨_, rfl, hcounters, hfault⟩
  | completed ht _ hs =>
    cases hu.symm.trans ht
    refine .inl ⟨_, _, rfl, ?_⟩
    rw [p.simulate_ok hs]
    rfl

/-- Work at the end of a walk: what it does to the tree and what it counts. -/
theorem workAt_outcome (hx : x.root.Shaped p.game p.agent) (hwalk : Walk x.root path)
    (hu : x.root.get? path = some u) :
    (∃ score queries, (x.workAt p path).1 = .ok (.completed score queries) ∧
      Frame (·.record score) path x.root (x.workAt p path).2.root ∧
      (x.workAt p path).2.counters =
        ⟨x.counters.iterations + 1, x.counters.retries,
          x.counters.playouts + if u.label.terminal then 0 else p.plays.toUInt64,
          (x.workAt p path).2.counters.playoutMoves⟩) ∨
    (∃ e, (x.workAt p path).1 = .error e ∧ Frame id path x.root (x.workAt p path).2.root ∧
      (x.workAt p path).2.counters =
        { x.counters with playoutMoves := (x.workAt p path).2.counters.playoutMoves } ∧
      ((∃ r, e = .rule r) ∨ e = .unfinished ∧ p.Overlong u.label)) := by
  rcases workAt_frame (p := p) hx hwalk with ⟨score, queries, hok, hframe⟩ | ⟨e, he, hframe⟩
  · rcases workAt_counters (p := p) hu with ⟨_, _, _, hcounters⟩ | ⟨_, he, _⟩
    · exact .inl ⟨score, queries, hok, hframe, hcounters⟩
    · cases he.symm.trans hok
  · rcases workAt_counters (p := p) hu with ⟨_, _, hok, _⟩ | ⟨e', he', hcounters, hfault⟩
    · cases he.symm.trans hok
    · exact .inr ⟨e', he', hframe, hcounters, hfault⟩

/-- An iteration by a lone worker visits the root and is counted, or it fails. -/
theorem iterate_advances (hx : x.root.Shaped p.game p.agent) (hb : x.root.Every Branched) :
    (∃ score queries, (x.iterate p .exclusive).1 = .ok (.completed score queries) ∧
      (x.iterate p .exclusive).2.root.label.stats.visits = x.root.label.stats.visits + 1 ∧
      (x.iterate p .exclusive).2.counters.iterations = x.counters.iterations + 1 ∧
      (x.iterate p .exclusive).2.counters.retries = x.counters.retries) ∨
    (∃ e, (x.iterate p .exclusive).1 = .error e ∧ ((∃ r, e = .rule r) ∨
      e = .unfinished ∧ ∃ path u, x.root.get? path = some u ∧ p.Overlong u.label)) := by
  obtain ⟨path, hpath⟩ := descend_isSome p.policy hb
  have hwalk := descend_walk hx hpath
  obtain ⟨u, hu⟩ := hwalk.exists_target
  rw [iterate_exclusive hpath]
  rcases workAt_outcome (p := p) hx hwalk hu with
    ⟨score, queries, hok, hframe, hcounters⟩ | ⟨e, he, _, _, hfault⟩
  · have hvisits := congrArg Stats.visits hframe.root_stats
    exact .inl ⟨score, queries, hok, hvisits, by rw [hcounters], by rw [hcounters]⟩
  · exact .inr ⟨e, he, hfault.imp_right fun ⟨h, hlong⟩ => ⟨h, path, u, hu, hlong⟩⟩

theorem repeatIterations_advances (n : Nat) (hx : x.root.Rooted p.game p.agent)
    (hb : x.root.Every Branched) (h : (repeatIterations p n x).1 = .ok ()) :
    (repeatIterations p n x).2.root.label.stats.visits = x.root.label.stats.visits + UInt32.ofNat n ∧
      (repeatIterations p n x).2.counters.iterations =
        x.counters.iterations + UInt64.ofNat n ∧
      (repeatIterations p n x).2.counters.retries = x.counters.retries := by
  induction n generalizing x with
  | zero => simp [repeatIterations]
  | succ n ih =>
    have hnext := iterate_branched p .exclusive x ⟨hx, hb⟩ trivial
    have hfirst := iterate_advances hx.1 hb
    simp only [repeatIterations] at h ⊢
    cases hi : x.iterate p .exclusive with
    | mk result y =>
      rw [hi] at hnext hfirst
      cases result with
      | error e =>
        rw [hi] at h
        cases h
      | ok done =>
        simp only [hi] at h ⊢
        obtain ⟨hvisits, hiterations, hretries⟩ := ih hnext.1 hnext.2 h
        rcases hfirst with ⟨_, _, _, hvisits', hiterations', hretries'⟩ | ⟨e, he, _⟩
        · rw [hvisits, hiterations, hretries, hvisits', hiterations', hretries']
          have hvisits : x.root.label.stats.visits + 1 + UInt32.ofNat n =
              x.root.label.stats.visits + UInt32.ofNat (n + 1) := by
            rw [UInt32.ofNat_add, UInt32.add_assoc, UInt32.add_comm 1]
            rfl
          have hiterations : x.counters.iterations + 1 + UInt64.ofNat n =
              x.counters.iterations + UInt64.ofNat (n + 1) := by
            rw [UInt64.ofNat_add, UInt64.add_assoc, UInt64.add_comm 1]
            rfl
          exact ⟨hvisits, hiterations, rfl⟩
        · cases he

end Session

/-- Whatever has happened to a session, an iteration by a lone worker is completed and visits the
root once more, or it fails because of the rules or because of a play that is too long; it never
tries again. A run that does not fail has made as many visits as it was asked for. -/
theorem History.iterate_never_retries [DecidableEq μ] (game : Game σ μ α) (agent : α)
    (h : History σ μ V γ) (policy : Policy V) :
    let p := { h.setup game agent with policy := policy }
    let x := h.session game agent
    (∀ (δ : Type) [RandomSource δ] (g : δ),
      let y := Session.iterate p .exclusive { x with rng := g }
      (∃ score queries, y.1 = .ok (.completed score queries) ∧
        (x.root.visits + 1 < 2 ^ 32 → y.2.root.visits = x.root.visits + 1)) ∨
      (∃ e, y.1 = .error e ∧ ((∃ r, e = .rule r) ∨
        e = .unfinished ∧ ∃ path u, x.root.get? path = some u ∧ p.Overlong u.label))) ∧
    ∀ n, (x.runIterations p n).1 = .ok () →
      let y := (x.runIterations p n).2
      (x.root.visits + n < 2 ^ 32 → y.root.visits = x.root.visits + n) ∧
        y.counters.iterations = x.counters.iterations + UInt64.ofNat n ∧
        y.counters.retries = x.counters.retries := by
  intro p x
  have hrooted : x.root.Rooted game agent := h.rooted
  have hbranched : x.root.Every Branched := h.branched
  refine ⟨fun δ _ g => ?_, fun n hok => ?_⟩
  · refine (Session.iterate_advances (p := p) (x := { x with rng := g }) hrooted.1
      hbranched).imp ?_ id
    rintro ⟨score, queries, hok, hvisits, _⟩
    exact ⟨score, queries, hok, fun hroom => Tree.visits_add hroom hvisits⟩
  · have hrun := Session.repeatIterations_advances (p := p) n hrooted hbranched
    unfold Session.runIterations at hok ⊢
    split at hok
    · rename_i y hy
      rw [hy] at hrun
      obtain ⟨hvisits, hcounters⟩ := hrun rfl
      exact ⟨fun hroom => Tree.visits_add hroom hvisits, hcounters⟩
    · cases hok

/-- Two short searches that were added up are searched on by another policy, while somebody holds
the permit of the root's first child. -/
theorem History.iterate_never_retries_held :
    let o : Options Rat := ⟨⟨fun _ _ _ => 0, fun _ _ _ => List.length_pos_iff.2⟩, 1, 10⟩
    let s := TicTacToe.Position.ofBoard #v[1, 2, 1, 1, 2, 2, 0, 1, 0]
    let h : History TicTacToe.Position TicTacToe.Action Rat Keystream :=
      .permit (.merge (.run (.start o s 7) 2) (.run (.start o s 11) 1)) true [0]
    let last : Policy Rat := ⟨fun _ _ cs => cs.length - 1, fun _ _ _ h =>
      Nat.sub_one_lt_of_lt (List.length_pos_iff.2 h)⟩
    let x := h.session TicTacToe.game .o
    let p := { h.setup TicTacToe.game .o with policy := last }
    x.root.visits = 3 ∧ (x.runIterations p 2).1 = .ok () ∧
      (x.runIterations p 2).2.root.visits = 5 ∧
      (x.runIterations p 2).2.counters.retries = x.counters.retries := by
  intro o s h last x p
  obtain ⟨hbefore, hok⟩ : x.root.visits = 3 ∧ (x.runIterations p 2).1 = .ok () := by
    decide +kernel
  obtain ⟨hvisits, _, hretries⟩ := (iterate_never_retries TicTacToe.game .o h last).2 2 hok
  have hroom : x.root.visits + 2 < 2 ^ 32 := by rw [hbefore]; decide
  have hafter : (x.runIterations p 2).2.root.visits = 5 := by rw [hvisits hroom, hbefore]
  exact ⟨hbefore, hok, hafter, hretries⟩

end GameSearch.TreeSearch
