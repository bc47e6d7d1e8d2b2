import GameSearch.Proofs.Minimax.Anytime
import GameSearch.Proofs.Minimax.Checks
import Mathlib.Data.Int.ConditionallyCompleteOrder

/-!
# GameSearch.Proofs.Minimax.Spent

Searches that start on a spent budget. Once the interrupt has come or the time is over, it stays
so (`Spent.later`), also for every share of the time (`Spent.share`). Then a position below the
root is evaluated instead of being searched (`maxNode_spent`), as at a depth limit of one unit.
This goes up through replies and moves to the root (`searchChecks_spent`), which is searched in any
case.

* `search_spent`: an interrupt from the start, a time that is over and the two least depth limits
  give the same result.
-/

namespace GameSearch.Minimax.AlphaBeta

variable {σ μ α β κ : Type} {p : Problem σ μ α} {b : Budget}

/-! ## Nothing left -/

/-- The interrupt has come, or the time is over. -/
def Spent (b : Budget) (limit : Option Int) (w : Walk) : Prop :=
  b.interrupt.isRaised w.queries = true ∨ ∃ stop, limit = some stop ∧ stop ≤ b.clock w.readings

structure Walk.Later (w w' : Walk) : Prop where
  queries_le : w.queries ≤ w'.queries
  readings_le : w.readings ≤ w'.readings

namespace Walk.Later

variable {w w₁ w' : Walk}

theorem refl (w : Walk) : Later w w := ⟨Nat.le_refl _, Nat.le_refl _⟩

theorem trans (h : Later w w₁) (h' : Later w₁ w') : Later w w' :=
  ⟨Nat.le_trans h.queries_le h'.queries_le, Nat.le_trans h.readings_le h'.readings_le⟩

theorem enter (w : Walk) : Later w w.enter := ⟨Nat.le_refl _, Nat.le_refl _⟩

theorem exact (w : Walk) : Later w w.exact := ⟨Nat.le_succ _, Nat.le_refl _⟩

theorem step (w : Walk) : Later w w.step := ⟨Nat.le_succ _, Nat.le_refl _⟩

theorem look (w : Walk) : Later w w.look := ⟨Nat.le_refl _, Nat.le_succ _⟩

theorem estimate (w : Walk) (queries : Nat) : Later w (w.estimate queries) :=
  ⟨Nat.le_add_right _ _, Nat.le_refl _⟩

theorem cutBefore (w : Walk) (rest : List β) : Later w (w.cutBefore rest) := by
  cases rest <;> exact ⟨Nat.le_refl _, Nat.le_refl _⟩

theorem share (b : Budget) (n : Nat) (limit : Option Int) (w : Walk) :
    Later w (share b n limit w).2 := by
  cases limit with
  | none => exact refl w
  | some stop => exact look w

theorem outOfBudget (p : Problem σ μ α) (b : Budget) (depth : Nat) (limit : Option Int)
    (w : Walk) : Later w (outOfBudget p b depth limit w).2 := by
  unfold AlphaBeta.outOfBudget
  split
  · exact refl w
  · split
    · exact refl w
    · split
      · exact refl w
      · split <;> exact look w

end Walk.Later

section

variable {limit : Option Int} {w w' : Walk}

theorem Spent.later (hclock : Monotone b.clock) (h : Spent b limit w) (hw : w.Later w') :
    Spent b limit w' := by
  rcases h with hraised | ⟨stop, hlimit, hstop⟩
  · exact .inl (Interrupt.isRaised_mono hraised hw.queries_le)
  · exact .inr ⟨stop, hlimit, hstop.trans (hclock hw.readings_le)⟩

/-- Nothing is shared out of a time that is over: the share ends now. -/
theorem Spent.share (hclock : Monotone b.clock) (h : Spent b limit w) (n : Nat) :
    Spent b (share b n limit w).1 (share b n limit w).2 := by
  rcases h with hraised | ⟨stop, rfl, hstop⟩
  · exact .inl (Interrupt.isRaised_mono hraised (Walk.Later.share b n limit w).queries_le)
  · refine .inr ⟨b.clock w.readings, ?_, hclock (Nat.le_succ w.readings)⟩
    have hleft : max (stop - b.clock w.readings) 0 = 0 := by omega
    simp only [AlphaBeta.share, hleft, Int.zero_ediv, Int.add_zero]

theorem Spent.outOfBudget (h : Spent b limit w) {depth : Nat} (hdepth : 0 < depth) :
    (outOfBudget p b depth limit w).1 = true := by
  unfold AlphaBeta.outOfBudget
  rw [if_neg (Nat.ne_of_gt hdepth)]
  split
  · rfl
  · rcases h with hraised | ⟨stop, rfl, hstop⟩
    · split
      · exact hraised
      · split
        · rfl
        · exact hraised
    · simp only [if_pos hstop]

end

/-! ## From the positions below the root to the root -/

theorem atLimit_one (p : Problem σ μ α) (depth : Nat) :
    (p.withDepth (some 1)).atLimit depth = decide (0 < depth) := by
  cases depth <;> simp [Problem.atLimit, Problem.withDepth]

inductive Onward (w : Walk) : Except SearchError (β × Walk) → Prop where
  | error (e : SearchError) : Onward w (.error e)
  | ok (found : β) {w' : Walk} (h : w.Later w') : Onward w (.ok (found, w'))

theorem Onward.after {w w₁ : Walk} {r : Except SearchError (β × Walk)} (h : Onward w₁ r)
    (hw : w.Later w₁) : Onward w r := by
  cases h with
  | error e => exact .error e
  | ok found h => exact .ok found (hw.trans h)

/-- Started on a spent budget, `visit` makes its checks as at a depth limit of one unit. -/
def Shallow (p : Problem σ μ α) (b : Budget) (checks : κ → Window → Walk → List Check)
    (visit : Visit κ μ) : Prop :=
  ∀ (x : κ) (v : Window) (w : Walk), Spent b v.limit w →
    (∀ c ∈ checks x v w, c.AsDepth p b (some 1)) ∧ Onward w (visit x v w)

theorem maxNode_spent (p : Problem σ μ α) (b : Budget) (bound depth : Nat) :
    Shallow p b (checks p b bound (depth + 1)) (maxNode p b bound (depth + 1)) := by
  intro s v w hspent
  have henter : Spent b v.limit w.enter := hspent
  have hout := henter.outOfBudget (p := p) (Nat.succ_pos depth)
  have hlater := Walk.Later.outOfBudget p b (depth + 1) v.limit w.enter
  have hcheck : Check.AsDepth p b (some 1) ⟨depth + 1, v.limit, w.enter⟩ := by
    simp [Check.AsDepth, hout, atLimit_one]
  unfold checks maxNode
  cases hs : p.game.terminal s with
  | true =>
    simp only [↓reduceIte]
    refine ⟨List.forall_mem_nil _, ?_⟩
    cases p.game.goal s p.agent with
    | error e => exact .error _
    | ok value => exact .ok _ (.trans (.enter w) (.exact w.enter))
  | false =>
    simp only [Bool.false_eq_true, ↓reduceIte]
    generalize outOfBudget p b (depth + 1) v.limit w.enter = out at hout hlater ⊢
    obtain ⟨out, w₁⟩ := out
    obtain rfl : out = true := hout
    refine ⟨List.forall_mem_singleton.2 hcheck, ?_⟩
    cases p.evaluator.value s p.agent with
    | error e => exact .error _
    | ok value =>
      exact .ok _ (((Walk.Later.enter w).trans hlater).trans (.estimate w₁ _))

theorem worstReply_spent (hclock : Monotone b.clock)
    {checks : σ → Window → Walk → List Check} {below : Visit σ μ}
    (hbelow : Shallow p b checks below) (s : σ) (joints : List (JointMove μ))
    (worst : Option (Score μ)) (v : Window) (w : Walk) (hspent : Spent b v.limit w) :
    (∀ c ∈ replyChecks p b below checks s joints worst v w, c.AsDepth p b (some 1)) ∧
      Onward w (worstReply p b below s joints worst v w) := by
  induction joints generalizing worst v w with
  | nil => exact ⟨List.forall_mem_nil _, .ok worst (.refl w)⟩
  | cons joint rest ih =>
    have hshare := hspent.share hclock (rest.length + 1)
    have hlater := Walk.Later.share b (rest.length + 1) v.limit w
    simp only [replyChecks, worstReply]
    generalize share b (rest.length + 1) v.limit w = shared at hshare hlater ⊢
    obtain ⟨limit, w₁⟩ := shared
    dsimp only at hshare hlater ⊢
    cases p.game.next s joint with
    | error e => exact ⟨List.forall_mem_nil _, .error _⟩
    | ok s' =>
      obtain ⟨hchecks, hfound⟩ := hbelow s' { v with limit := limit } w₁.step
        (hshare.later hclock (.step w₁))
      dsimp only
      generalize below s' { v with limit := limit } w₁.step = found at hfound ⊢
      cases hfound with
      | error e => exact ⟨List.forall_mem_append.2 ⟨hchecks, List.forall_mem_nil _⟩, .error e⟩
      | @ok score w₂ hnext =>
        have hbeyond := (hlater.trans (.step w₁)).trans hnext
        dsimp only
        by_cases hcut : min v.beta (keepWorse worst score).value ≤ v.alpha
        · simp only [if_pos hcut]
          exact ⟨List.forall_mem_append.2 ⟨hchecks, List.forall_mem_nil _⟩,
            .ok _ (hbeyond.trans (.cutBefore w₂ rest))⟩
        · simp only [if_neg hcut]
          obtain ⟨hrest, hlast⟩ := ih (some (keepWorse worst score))
            { v with beta := min v.beta (keepWorse worst score).value } w₂
            (hspent.later hclock hbeyond)
          exact ⟨List.forall_mem_append.2 ⟨hchecks, hrest⟩, hlast.after hbeyond⟩

theorem minNode_spent (hclock : Monotone b.clock) {checks : σ → Window → Walk → List Check}
    {below : Visit σ μ} (hbelow : Shallow p b checks below) (s : σ) :
    Shallow p b (actionChecks p b below checks s) (minNode p b below s) := by
  intro action v w hspent
  unfold actionChecks minNode
  cases p.game.replies s p.agent action with
  | error e => exact ⟨List.forall_mem_nil _, .error _⟩
  | ok joints =>
    obtain ⟨hchecks, hfound⟩ := worstReply_spent hclock hbelow s joints none v w.enter hspent
    refine ⟨hchecks, .after ?_ (.enter w)⟩
    dsimp only
    generalize worstReply p b below s joints none v w.enter = found at hfound ⊢
    cases hfound with
    | error e => exact .error e
    | ok worst hlater =>
      cases worst with
      | none => exact .error _
      | some score => exact .ok _ hlater

theorem bestMove_spent (hclock : Monotone b.clock) {checks : μ → Window → Walk → List Check}
    {visit : Visit μ μ} (hvisit : Shallow p b checks visit) (moves : List μ)
    (best : Option (Score μ)) (v : Window) (w : Walk) (hspent : Spent b v.limit w) :
    ∀ c ∈ moveChecks b visit checks moves best v w, c.AsDepth p b (some 1) := by
  induction moves generalizing best v w with
  | nil => exact List.forall_mem_nil _
  | cons action rest ih =>
    have hshare := hspent.share hclock (rest.length + 1)
    have hlater := Walk.Later.share b (rest.length + 1) v.limit w
    simp only [moveChecks]
    generalize share b (rest.length + 1) v.limit w = shared at hshare hlater ⊢
    obtain ⟨limit, w₁⟩ := shared
    dsimp only at hshare hlater ⊢
    obtain ⟨hchecks, hfound⟩ := hvisit action { v with limit := limit } w₁ hshare
    refine List.forall_mem_append.2 ⟨hchecks, ?_⟩
    generalize visit action { v with limit := limit } w₁ = found at hfound ⊢
    cases hfound with
    | error e => exact List.forall_mem_nil _
    | @ok score w₂ hnext =>
      dsimp only
      split
      · exact List.forall_mem_nil _
      · exact ih _ _ w₂ (hspent.later hclock (hlater.trans hnext))

theorem searchChecks_spent (p : Problem σ μ α) (hclock : Monotone b.clock) {limit : Option Int}
    (hspent : Spent b limit {}) (bound : Nat) (s : σ) :
    ∀ c ∈ searchChecks p b limit bound s, c.AsDepth p b (some 1) := by
  have hroot : Check.AsDepth p b (some 1) ⟨0, limit, Walk.enter {}⟩ := rfl
  have hout : outOfBudget p b 0 limit (Walk.enter {}) = (false, Walk.enter {}) := rfl
  unfold searchChecks checks
  split
  · exact List.forall_mem_nil _
  · refine List.forall_mem_cons.2 ⟨hroot, ?_⟩
    dsimp only [Window.full]
    rw [hout]
    cases bound with
    | zero => exact List.forall_mem_nil _
    | succ bound =>
      cases p.game.legalMoves s p.agent with
      | error e => exact List.forall_mem_nil _
      | ok moves =>
        exact bestMove_spent hclock (minNode_spent hclock (maxNode_spent p b bound 0) s) moves none
          _ _ hspent

/-! ## The whole search -/

/-- A search without a limit on time comes to its end where the bound is not below the depth
limit. -/
theorem search_finishes {bound : Nat} (hlimit : p.atLimit bound = true) (s : σ) :
    search p b none bound s ≠ .error .unfinished := by
  intro h
  have hforget : forget (explore p b.interrupt bound 0 s (.full none) {}) =
      run p b none bound s := forget_explore bound 0 s (.full none) {} rfl
  have houtcome := explore_outcome p b.interrupt bound 0 s (.full none) {} (by decide)
  unfold search at h
  rw [← hforget] at h
  generalize explore p b.interrupt bound 0 s (.full none) {} = found at houtcome h
  cases houtcome with
  | answered _ => cases h
  | @stopped stop hstop =>
    cases stop with
    | query q e => cases h
    | tooDeep =>
      have hpos : 0 < bound := (Problem.atLimit_iff.1 hlimit).1
      rcases hstop with hzero | ⟨hopen, -⟩
      · omega
      · cases hopen.symm.trans hlimit

theorem search_zero (p : Problem σ μ α) (clock : Nat → Int) (bound : Nat) (s : σ) :
    search (p.withDepth (some 0)) ⟨.never, clock⟩ none bound s =
      search (p.withDepth (some 1)) ⟨.never, clock⟩ none bound s := by
  have hchecks : ∀ c ∈ searchChecks (p.withDepth (some 0)) ⟨.never, clock⟩ none bound s,
      c.AsDepth (p.withDepth (some 0)) ⟨.never, clock⟩ (some 1) := by
    rintro ⟨depth, limit, w⟩ -
    cases depth with
    | zero => rfl
    | succ depth => simp [Check.AsDepth, outOfBudget, Problem.withDepth, Problem.atLimit]
  exact (search_eq_of_checks clock hchecks (Nat.le_refl bound)).resolve_left
    fun h => Nat.lt_irrefl bound h.2

/-- A search that is interrupted before it starts, or whose time is over at its first look at the
clock, has the result of a search with a depth limit of nothing and of one unit, which come to
their end: the same score with the same move and the same tally, or the same error. Where the
full search of one unit answers, that is its score. -/
theorem search_spent (p : Problem σ μ α) (hclock : Monotone b.clock) {limit : Option Int}
    (hspent : b.interrupt = .fromStart ∨ ∃ stop, limit = some stop ∧ stop ≤ b.clock 0)
    (clock : Nat → Int) (bound : Nat) (s : σ) :
    search p b limit bound s = search (p.withDepth (some 0)) ⟨.never, clock⟩ none bound s ∧
    search p b limit bound s = search (p.withDepth (some 1)) ⟨.never, clock⟩ none bound s ∧
    (0 < bound → search p b limit bound s ≠ .error .unfinished) ∧
    ∀ n report, n ≤ bound → FullWidth.search (p.withDepth (some 1)) n s = .ok report →
      ∃ tally, search p b limit bound s = .ok ⟨report.score, tally⟩ := by
  have hstart : Spent b limit {} := by
    rcases hspent with hfrom | hover
    · refine .inl ?_
      rw [hfrom]
      rfl
    · exact .inr hover
  have hchecks := searchChecks_spent p hclock hstart bound s
  have hone : search p b limit bound s =
      search (p.withDepth (some 1)) ⟨.never, clock⟩ none bound s :=
    (search_eq_of_checks clock hchecks (Nat.le_refl bound)).resolve_left
      fun h => Nat.lt_irrefl bound h.2
  refine ⟨hone.trans (search_zero p clock bound s).symm, hone, fun hbound => ?_,
    fun n report hn hfull => ?_⟩
  · rw [hone]
    exact search_finishes (by simp [atLimit_one, hbound]) s
  · exact (search_score_of_checks hchecks hfull).resolve_left
      fun h => Nat.not_lt.2 hn h.2

/-- The clock reads more than the limit from the start. The three positions two moves ahead are
evaluated, although the search may look three units deep. -/
theorem search_spent_three_open :
    let p : Problem TicTacToe.Position TicTacToe.Action TicTacToe.Mark :=
      ⟨TicTacToe.game, .x, Heuristic.evaluator TicTacToe.game (.constant 50), some 3⟩
    let b : Budget := ⟨.never, fun k => 10 + k⟩
    let s := TicTacToe.Position.ofBoard #v[1, 1, 2, 2, 2, 0, 1, 0, 0]
    Monotone b.clock ∧ (∃ stop, some (10 : Int) = some stop ∧ stop ≤ b.clock 0) ∧
      search p b (some 10) 3 s = search (p.withDepth (some 1)) ⟨.never, fun _ => 0⟩ none 3 s ∧
      FullWidth.search (p.withDepth (some 1)) 1 s = .ok ⟨.withAction 50 (.place 5), ⟨7, 0, 3, 0⟩⟩ ∧
      ∃ tally, search p b (some 10) 3 s = .ok ⟨.withAction 50 (.place 5), tally⟩ := by
  intro p b s
  have hclock : Monotone b.clock := fun m n h => Int.add_le_add_left (Int.ofNat_le.2 h) 10
  have hover : ∃ stop, some (10 : Int) = some stop ∧ stop ≤ b.clock 0 := ⟨10, rfl, by decide⟩
  have hfull : FullWidth.search (p.withDepth (some 1)) 1 s =
      .ok ⟨.withAction 50 (.place 5), ⟨7, 0, 3, 0⟩⟩ := by decide +kernel
  obtain ⟨-, hone, -, hscore⟩ := search_spent p hclock (.inr hover) (fun _ => 0) 3 s
  exact ⟨hclock, hover, hone, hfull, hscore 1 _ (by decide) hfull⟩

end GameSearch.Minimax.AlphaBeta
