import GameSearch.Minimax.FullWidth
import GameSearch.Proofs.Minimax.Window
import GameSearch.TicTacToe.Rules

/-!
# GameSearch.Proofs.Minimax.Pruning

Leaving out moves and replies does not change what a search finds. `Faithful` says that a search
of a position inside a window answers wherever the full search answers, with a score that
settles the full one. It goes up from the positions below through a list of replies
(`worstReply_faithful`), a move (`minNode_faithful`), a list of moves (`bestMove_faithful`) and
by induction on the bound to every position (`maxNode_faithful`). At the full window it gives
the same score with the same move (`search_eq_fullWidth`).
-/

namespace GameSearch.Minimax

variable {σ μ α κ : Type}

/-! ## Full lists -/

theorem FullWidth.bestMove_some {visit : μ → Tally → Except SearchError (Score μ × Tally)}
    {moves : List μ} {best : Score μ} {t t' : Tally} {r : Option (Score μ)}
    (h : FullWidth.bestMove visit moves (some best) t = .ok (r, t')) :
    ∃ last, r = some last ∧ (last = best ∨ best.value < last.value) := by
  induction moves generalizing best t with
  | nil => cases h; exact ⟨best, rfl, .inl rfl⟩
  | cons action rest ih =>
    simp only [FullWidth.bestMove] at h
    split at h
    · cases h
    · rename_i score t₁ _
      obtain ⟨last, hr, hlast⟩ := ih h
      refine ⟨last, hr, ?_⟩
      grind [keepBetter, Score.betterOf]

theorem FullWidth.worstReply_some {p : Problem σ μ α}
    {below : σ → Tally → Except SearchError (Score μ × Tally)} {s : σ}
    {joints : List (JointMove μ)} {worst : Score μ} {t t' : Tally} {r : Option (Score μ)}
    (h : FullWidth.worstReply p below s joints (some worst) t = .ok (r, t')) :
    ∃ last, r = some last ∧ (last = worst ∨ last.value < worst.value) := by
  induction joints generalizing worst t with
  | nil => cases h; exact ⟨worst, rfl, .inl rfl⟩
  | cons joint rest ih =>
    simp only [FullWidth.worstReply] at h
    split at h
    · cases h
    · split at h
      · cases h
      · obtain ⟨last, hr, hlast⟩ := ih h
        refine ⟨last, hr, ?_⟩
        grind [keepWorse, Score.worseOf]

/-- Where a score comes from: the goal, the evaluator, or the best of the moves. -/
theorem FullWidth.maxNode_ok {p : Problem σ μ α} {bound depth : Nat} {s : σ} {t t' : Tally}
    {score : Score μ} (h : FullWidth.maxNode p bound s depth t = .ok (score, t')) :
    (p.game.terminal s = true ∧ ∃ value, p.game.goal s p.agent = .ok value ∧
      score = .leaf value ∧ t' = t.enter.exact) ∨
    (p.game.terminal s = false ∧ p.atLimit depth = true ∧
      ∃ value, p.evaluator.value s p.agent = .ok value ∧ score = .leaf value ∧
        t' = t.enter.estimate) ∨
    (p.game.terminal s = false ∧ p.atLimit depth = false ∧
      ∃ below moves, bound = below + 1 ∧ p.game.legalMoves s p.agent = .ok moves ∧
        FullWidth.bestMove
          (FullWidth.minNode p (fun s' t => FullWidth.maxNode p below s' (depth + 1) t) s)
          moves none t.enter = .ok (some score, t')) := by
  rw [FullWidth.maxNode.eq_def] at h
  cases ht : p.game.terminal s with
  | true =>
    simp only [ht, ↓reduceIte] at h
    split at h
    · cases h
    · rename_i value hg
      cases h
      exact .inl ⟨rfl, value, hg, rfl, rfl⟩
  | false =>
    cases hd : p.atLimit depth with
    | true =>
      simp only [ht, hd, Bool.false_eq_true, ↓reduceIte] at h
      split at h
      · cases h
      · rename_i value hv
        cases h
        exact .inr (.inl ⟨rfl, rfl, value, hv, rfl, rfl⟩)
    | false =>
      simp only [ht, hd, Bool.false_eq_true, ↓reduceIte] at h
      split at h
      · cases h
      · rename_i below
        split at h
        · cases h
        · rename_i moves hm
          split at h
          · cases h
          · cases h
          · rename_i score t₁ hbest
            cases h
            exact .inr (.inr ⟨rfl, rfl, below, moves, rfl, hm, hbest⟩)

namespace AlphaBeta

/-! ## Budgets that never run out -/

@[simp] theorem share_none (b : Budget) (remaining : Nat) (w : Walk) :
    share b remaining none w = (none, w) := rfl

theorem outOfBudget_never (p : Problem σ μ α) (clock : Nat → Int) (depth : Nat) (w : Walk) :
    outOfBudget p ⟨.never, clock⟩ depth none w = (p.atLimit depth, w) := by
  unfold outOfBudget
  by_cases hd : depth = 0
  · simp [hd]
  · cases hl : p.atLimit depth <;> simp [hd, Interrupt.isRaised, Interrupt.never]

/-! ## From the positions below to a position -/

/-- In every open window without a limit on time, `visit` answers where `full` does, and with a
score that settles that of `full`. -/
def Faithful (full : κ → Tally → Except SearchError (Score μ × Tally)) (visit : Visit κ μ) :
    Prop :=
  ∀ (x : κ) (t t' : Tally) (exact : Score μ) (v : Window) (w : Walk),
    full x t = .ok (exact, t') → v.alpha < v.beta → v.limit = none →
    ∃ found w', visit x v w = .ok (found, w') ∧ v.Settles found exact

variable {p : Problem σ μ α} (clock : Nat → Int)

theorem worstReply_faithful {below : σ → Tally → Except SearchError (Score μ × Tally)}
    {visit : Visit σ μ} (hb : Faithful below visit) {s : σ} {joints : List (JointMove μ)}
    {v₀ v : Window} {found exact r : Option (Score μ)} {t t' : Tally} (w : Walk)
    (hv : Falling v₀ found exact v) (hl : v.limit = none)
    (h : FullWidth.worstReply p below s joints exact t = .ok (r, t')) :
    ∃ found' w', worstReply p ⟨.never, clock⟩ visit s joints found v w = .ok (found', w') ∧
      Option.Rel v₀.Settles found' r := by
  induction joints generalizing v found exact t w with
  | nil => cases h; exact ⟨found, w, rfl, hv.last⟩
  | cons joint rest ih =>
    simp only [FullWidth.worstReply] at h
    split at h
    · cases h
    · rename_i s' hn
      split at h
      · cases h
      · rename_i score' t₁ hf
        obtain ⟨score, w₁, hvisit, hs⟩ := hb s' t t₁ score' v w.step hf hv.isOpen hl
        have hw : { v with limit := none } = v := by rw [← hl]
        simp only [worstReply, hl, share_none, hn, hw, hvisit]
        split
        · rename_i hcut
          -- the full loop reads on, but the score it ends with is no better than this one
          obtain ⟨last, rfl, hlast⟩ := FullWidth.worstReply_some h
          exact ⟨_, _, rfl, .some (hv.cut hs hcut hlast)⟩
        · rename_i hopen
          have hk := hv.keep hs hopen
          rw [hl] at hk
          exact ih w₁ hk rfl h

theorem minNode_faithful {below : σ → Tally → Except SearchError (Score μ × Tally)}
    {visit : Visit σ μ} (hb : Faithful below visit) (s : σ) :
    Faithful (FullWidth.minNode p below s) (minNode p ⟨.never, clock⟩ visit s) := by
  intro action t t' exact v w h hv hl
  change FullWidth.minNode p below s action t = _ at h
  unfold FullWidth.minNode at h
  split at h
  · cases h
  · rename_i joints hj
    split at h
    · cases h
    · cases h
    · rename_i score' t₁ hr
      cases h
      obtain ⟨_, w₁, hw, hs⟩ := worstReply_faithful clock hb w.enter (.start hv) hl hr
      cases hs with
      | @some score _ hs =>
        refine ⟨score.tagged action, w₁, ?_, hs.tagged action⟩
        simp only [minNode, hj, hw]

theorem bestMove_faithful {full : μ → Tally → Except SearchError (Score μ × Tally)}
    {visit : Visit μ μ} (hb : Faithful full visit) {b : Budget} {moves : List μ}
    {v₀ v : Window} {found exact r : Option (Score μ)} {t t' : Tally} (w : Walk)
    (hv : Rising v₀ found exact v) (hl : v.limit = none)
    (h : FullWidth.bestMove full moves exact t = .ok (r, t')) :
    ∃ found' w', bestMove b visit moves found v w = .ok (found', w') ∧
      Option.Rel v₀.Settles found' r := by
  induction moves generalizing v found exact t w with
  | nil => cases h; exact ⟨found, w, rfl, hv.last⟩
  | cons action rest ih =>
    simp only [FullWidth.bestMove] at h
    split at h
    · cases h
    · rename_i score' t₁ hf
      obtain ⟨score, w₁, hvisit, hs⟩ := hb action t t₁ score' v w hf hv.isOpen hl
      have hw : { v with limit := none } = v := by rw [← hl]
      simp only [bestMove, hl, share_none, hw, hvisit]
      split
      · rename_i hcut
        -- the full loop reads on, but the score it ends with is no worse than this one
        obtain ⟨last, rfl, hlast⟩ := FullWidth.bestMove_some h
        exact ⟨_, _, rfl, .some (hv.cut hs hcut hlast)⟩
      · rename_i hopen
        have hk := hv.keep hs hopen
        rw [hl] at hk
        exact ih w₁ hk rfl h

theorem maxNode_faithful {bound bound' : Nat} (hb : bound ≤ bound') (depth : Nat) :
    Faithful (fun s t => FullWidth.maxNode p bound s depth t)
      (maxNode p ⟨.never, clock⟩ bound' depth) := by
  induction bound using Nat.strongRecOn generalizing bound' depth with
  | ind bound ih =>
    intro s t t' exact v w h hv hl
    unfold maxNode
    rw [hl, outOfBudget_never]
    rcases FullWidth.maxNode_ok h with ⟨ht, value, hg, rfl, -⟩ | ⟨ht, hd, value, hg, rfl, -⟩ |
      ⟨ht, hd, below, moves, rfl, hm, hbest⟩
    · simp only [ht, hg, ↓reduceIte]
      exact ⟨_, _, rfl, .same rfl⟩
    · simp only [ht, hd, hg, Bool.false_eq_true, ↓reduceIte]
      exact ⟨_, _, rfl, .same rfl⟩
    · obtain ⟨below', rfl⟩ : ∃ k, bound' = k + 1 := ⟨bound' - 1, by omega⟩
      have hbelow := ih below (by omega) (show below ≤ below' by omega) (depth + 1)
      obtain ⟨_, w', hw, hs⟩ := bestMove_faithful (b := ⟨.never, clock⟩)
        (minNode_faithful clock hbelow s) w.enter (.start hv) hl hbest
      cases hs with
      | @some found _ hs =>
        simp only [ht, hd, hm, hw, Bool.false_eq_true, ↓reduceIte]
        exact ⟨found, w', rfl, hs⟩

/-- A search that is neither interrupted nor short of time finds the score and the move of the
full search, and it always answers where that one does. -/
theorem search_eq_fullWidth (p : Problem σ μ α) (clock : Nat → Int) {bound bound' : Nat}
    {s : σ} {report : Report μ} (hb : bound ≤ bound')
    (h : FullWidth.search p bound s = .ok report) :
    ∃ tally, search p ⟨.never, clock⟩ none bound' s = .ok ⟨report.score, tally⟩ := by
  unfold FullWidth.search at h
  split at h
  · cases h
  · rename_i score t hfull
    cases h
    obtain ⟨found, w, hw, hs⟩ := maxNode_faithful clock hb 0 s {} t score
      (.full none) {} hfull (by decide) rfl
    rw [settles_full hs] at hw
    exact ⟨w.tally, by simp only [search, run, hw]⟩

/-- Three cells are open and positions two moves ahead are given the least value there is, so
that every move is worth as little as the window allows. The first of them is kept. -/
theorem search_eq_fullWidth_least :
    let p : Problem TicTacToe.Position TicTacToe.Action TicTacToe.Mark :=
      ⟨TicTacToe.game, .x, Heuristic.evaluator TicTacToe.game (.constant Int32.minValue), some 2⟩
    let s := TicTacToe.Position.ofBoard #v[1, 1, 2, 2, 2, 0, 1, 0, 0]
    FullWidth.search p 2 s = .ok ⟨.withAction Int32.minValue (.place 5), ⟨16, 2, 4, 0⟩⟩ ∧
      ∃ tally, search p ⟨.never, fun _ => 0⟩ none 5 s =
        .ok ⟨.withAction Int32.minValue (.place 5), tally⟩ := by
  intro p s
  have h : FullWidth.search p 2 s =
      .ok ⟨.withAction Int32.minValue (.place 5), ⟨16, 2, 4, 0⟩⟩ := by
    have hsome : (FullWidth.search p 2 s).toOption =
        some ⟨.withAction Int32.minValue (.place 5), ⟨16, 2, 4, 0⟩⟩ := by decide +kernel
    cases hs : FullWidth.search p 2 s with
    | error e => simp [hs, Except.toOption] at hsome
    | ok report => simpa [hs, Except.toOption] using hsome
  exact ⟨h, search_eq_fullWidth p (fun _ => 0) (by decide) h⟩

end AlphaBeta

end GameSearch.Minimax
