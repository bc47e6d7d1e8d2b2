import GameSearch.Proofs.Minimax.Checks
import GameSearch.Table.Entry
import GameSearch.TicTacToe.Rules

/-!
# GameSearch.Proofs.Minimax.Selection

The two searches select the same move. Where neither the time nor an interrupt ends the other
one's search at a check (`selectionChecks`), the move of the full search is also its move
(`selectMove_of_fullWidth`), and when it comes to a fault in the rules, so does the full search,
there or at a position that the other one leaves out (`fullWidth_fault`).

They differ where the agent has no legal move although the play is not over: the full search
searches that position and reports a fault in its rules (`selectMove_stuck`).
-/

namespace GameSearch.Minimax

variable {σ μ α : Type} {p : Problem σ μ α}

/-! ## Why a full search fails -/

namespace FullWidth

theorem worstReply_error {below : σ → Tally → Except SearchError (Score μ × Tally)} {s : σ}
    {joints : List (JointMove μ)} {worst : Option (Score μ)} {t : Tally} {e : SearchError}
    (h : worstReply p below s joints worst t = .error e) :
    (∃ fault, e = .rule fault) ∨ ∃ s' t', below s' t' = .error e := by
  induction joints generalizing worst t with
  | nil => cases h
  | cons joint rest ih =>
    simp only [worstReply] at h
    split at h
    · cases h
      exact .inl ⟨_, rfl⟩
    · split at h
      · rename_i hbelow
        cases h
        exact .inr ⟨_, _, hbelow⟩
      · exact ih h

theorem minNode_error {below : σ → Tally → Except SearchError (Score μ × Tally)} {s : σ}
    {action : μ} {t : Tally} {e : SearchError} (h : minNode p below s action t = .error e) :
    (∃ fault, e = .rule fault) ∨ ∃ s' t', below s' t' = .error e := by
  unfold minNode at h
  split at h
  · cases h
    exact .inl ⟨_, rfl⟩
  · split at h
    · rename_i hreplies
      cases h
      exact worstReply_error hreplies
    · cases h
      exact .inl ⟨_, rfl⟩
    · cases h

theorem bestMove_error {visit : μ → Tally → Except SearchError (Score μ × Tally)} {moves : List μ}
    {best : Option (Score μ)} {t : Tally} {e : SearchError}
    (h : bestMove visit moves best t = .error e) : ∃ action t', visit action t' = .error e := by
  induction moves generalizing best t with
  | nil => cases h
  | cons action rest ih =>
    simp only [bestMove] at h
    split at h
    · rename_i hvisit
      cases h
      exact ⟨_, _, hvisit⟩
    · exact ih h

theorem maxNode_error {bound depth : Nat} {s : σ} {t : Tally} {e : SearchError}
    (h : maxNode p bound s depth t = .error e) :
    (∃ fault, e = .rule fault) ∨ e = .unfinished ∧ p.atLimit (bound + depth) = false := by
  induction bound using Nat.strongRecOn generalizing depth s t with
  | ind bound ih =>
    rw [maxNode.eq_def] at h
    cases hs : p.game.terminal s with
    | true =>
      simp only [hs, ↓reduceIte] at h
      split at h
      · cases h
        exact .inl ⟨_, rfl⟩
      · cases h
    | false =>
      cases hlimit : p.atLimit depth with
      | true =>
        simp only [hs, hlimit, Bool.false_eq_true, ↓reduceIte] at h
        split at h
        · cases h
          exact .inl ⟨_, rfl⟩
        · cases h
      | false =>
        simp only [hs, hlimit, Bool.false_eq_true, ↓reduceIte] at h
        cases bound with
        | zero =>
          cases h
          rw [Nat.zero_add]
          exact .inr ⟨rfl, hlimit⟩
        | succ bound =>
          dsimp only at h
          split at h
          · cases h
            exact .inl ⟨_, rfl⟩
          · split at h
            · rename_i hbest
              cases h
              obtain ⟨action, t₁, hmove⟩ := bestMove_error hbest
              obtain hfault | ⟨s', t₂, hbelow⟩ := minNode_error hmove
              · exact .inl hfault
              · have hdeep : bound + 1 + depth = bound + (depth + 1) := by omega
                rw [hdeep]
                exact ih bound (Nat.lt_succ_self bound) hbelow
            · cases h
              exact .inl ⟨_, rfl⟩
            · cases h

theorem search_error {n : Nat} {s : σ} {e : SearchError} (h : search p n s = .error e) :
    (∃ fault, e = .rule fault) ∨ e = .unfinished ∧ p.atLimit n = false := by
  unfold search at h
  split at h
  · rename_i hfound
    cases h
    exact maxNode_error hfound
  · cases h

end FullWidth

/-! ## One move -/

open AlphaBeta

/-- The checks of a selection. There is no search where there is nothing to choose. -/
def selectionChecks (p : Problem σ μ α) (settings : Settings) (b : Budget) (deadline : Int)
    (bound : Nat) (s : σ) : List Check :=
  match p.game.legalMoves s p.agent with
  | .ok (_ :: _ :: _) =>
    let limit :=
      if settings.timeSliced then some (stopAt deadline settings.safetyMargin) else none
    searchChecks p b limit bound s
  | _ => []

section

variable {settings : Settings} {b : Budget} {deadline : Int} {n bound : Nat} {s : σ}

theorem selectMove_terminal (hs : p.game.terminal s = true) :
    AlphaBeta.selectMove p settings b deadline bound s = .error .terminalRoot ∧
      FullWidth.selectMove p n s = .error .terminalRoot := by
  simp only [AlphaBeta.selectMove, FullWidth.selectMove, hs, ↓reduceIte, and_self]

theorem search_stuck (hs : p.game.terminal s = false)
    (hmoves : p.game.legalMoves s p.agent = .ok []) (hn : 0 < n) :
    FullWidth.search p n s = .error (.rule (p.game.noLegalMoves s p.agent)) := by
  obtain ⟨n, rfl⟩ : ∃ k, n = k + 1 := ⟨n - 1, by omega⟩
  simp only [FullWidth.search, FullWidth.maxNode, FullWidth.bestMove, hs, hmoves,
    Problem.atLimit_zero, Bool.false_eq_true, ↓reduceIte]

theorem selectMove_stuck (hs : p.game.terminal s = false)
    (hmoves : p.game.legalMoves s p.agent = .ok []) :
    AlphaBeta.selectMove p settings b deadline bound s = .error .noLegalMoves ∧
      (0 < n → FullWidth.selectMove p n s = .error (.rule (p.game.noLegalMoves s p.agent))) := by
  refine ⟨by simp only [AlphaBeta.selectMove, hs, hmoves, Bool.false_eq_true, ↓reduceIte],
    fun hn => ?_⟩
  simp only [FullWidth.selectMove, hs, hmoves, search_stuck hs hmoves hn, Bool.false_eq_true,
    ↓reduceIte]

theorem selectMove_of_fullWidth
    (h : ∀ c ∈ selectionChecks p settings b deadline bound s, c.AsDepth p b p.maxDepth)
    (hn : n ≤ bound) {m : μ} (hm : FullWidth.selectMove p n s = .ok m) :
    AlphaBeta.selectMove p settings b deadline bound s = .ok m := by
  unfold FullWidth.selectMove at hm
  unfold AlphaBeta.selectMove
  cases hs : p.game.terminal s with
  | true => simp [hs] at hm
  | false =>
    simp only [hs, Bool.false_eq_true, ↓reduceIte] at hm ⊢
    cases hmoves : p.game.legalMoves s p.agent with
    | error e => simp [hmoves] at hm
    | ok moves =>
      unfold selectionChecks at h
      simp only [hmoves] at h hm ⊢
      cases moves with
      | nil =>
        cases n with
        | zero => simp [FullWidth.search, FullWidth.maxNode, hs] at hm
        | succ n => simp [search_stuck hs hmoves (Nat.succ_pos n)] at hm
      | cons first others =>
        cases others with
        | nil => exact hm
        | cons second rest =>
          dsimp only at h hm ⊢
          cases hfull : FullWidth.search p n s with
          | error e => simp [hfull] at hm
          | ok report =>
            obtain ⟨tally, hfound⟩ := (search_score_of_checks h hfull).resolve_left
              fun hshort => Nat.not_lt.2 hn hshort.2
            simp only [hfull] at hm
            simp only [hfound]
            exact hm

/-- A fault in the rules. The full search may come to another one before, at a position that the
other search leaves out. -/
theorem fullWidth_fault
    (h : ∀ c ∈ selectionChecks p settings b deadline bound s, c.AsDepth p b p.maxDepth)
    {fault : RuleError}
    (hfault : AlphaBeta.selectMove p settings b deadline bound s = .error (.rule fault)) :
    (∃ fault', FullWidth.selectMove p n s = .error (.rule fault')) ∨
      FullWidth.selectMove p n s = .error .unfinished ∧ p.atLimit n = false := by
  unfold AlphaBeta.selectMove at hfault
  unfold FullWidth.selectMove
  cases hs : p.game.terminal s with
  | true => simp [hs] at hfault
  | false =>
    simp only [hs, Bool.false_eq_true, ↓reduceIte] at hfault ⊢
    cases hmoves : p.game.legalMoves s p.agent with
    | error e => exact .inl ⟨e, rfl⟩
    | ok moves =>
      unfold selectionChecks at h
      simp only [hmoves] at h hfault ⊢
      cases moves with
      | nil => cases hfault
      | cons first others =>
        cases others with
        | nil => cases hfault
        | cons second rest =>
          dsimp only at h hfault ⊢
          cases hfull : FullWidth.search p n s with
          | error e =>
            obtain ⟨fault', rfl⟩ | ⟨rfl, hlimit⟩ := FullWidth.search_error hfull
            · exact .inl ⟨fault', rfl⟩
            · exact .inr ⟨rfl, hlimit⟩
          | ok report =>
            -- the other search would have had a score, and so no fault
            obtain ⟨hshort, -⟩ | ⟨tally, hfound⟩ := search_score_of_checks h hfull
            · simp [hshort] at hfault
            · simp only [hfound] at hfault
              split at hfault <;> cases hfault

end

/-- The two searches compared. At the end of a play both refuse. Without a legal move one says so
and the other reports a fault in the rules, where its bound lets it look at the position. If every
check is answered as the depth limit alone would have it, then the move of the full search is that
of the other one, and where that one fails because of a fault in the rules, the full search does
so too, or it is given up because its bound is below the depth limit. -/
theorem selectMove_agrees (p : Problem σ μ α) (settings : Settings) (b : Budget) (deadline : Int)
    (n bound : Nat) (s : σ) :
    (p.game.terminal s = true →
      AlphaBeta.selectMove p settings b deadline bound s = .error .terminalRoot ∧
        FullWidth.selectMove p n s = .error .terminalRoot) ∧
    (p.game.terminal s = false → p.game.legalMoves s p.agent = .ok [] →
      AlphaBeta.selectMove p settings b deadline bound s = .error .noLegalMoves ∧
        (0 < n → FullWidth.selectMove p n s = .error (.rule (p.game.noLegalMoves s p.agent)))) ∧
    ((∀ c ∈ selectionChecks p settings b deadline bound s, c.AsDepth p b p.maxDepth) →
      (n ≤ bound → ∀ m, FullWidth.selectMove p n s = .ok m →
        AlphaBeta.selectMove p settings b deadline bound s = .ok m) ∧
      ∀ fault, AlphaBeta.selectMove p settings b deadline bound s = .error (.rule fault) →
        (∃ fault', FullWidth.selectMove p n s = .error (.rule fault')) ∨
          FullWidth.selectMove p n s = .error .unfinished ∧ p.atLimit n = false) :=
  ⟨selectMove_terminal, selectMove_stuck, fun h =>
    ⟨fun hn _ hm => selectMove_of_fullWidth h hn hm, fun _ hfault => fullWidth_fault h hfault⟩⟩

/-- Three cells are open, each look at the clock takes a millisecond, and the time is over after
seven seconds. The move is the one of the full search. Where a move has no replies, both searches
come to that fault. -/
theorem selectMove_agrees_three_open :
    let evaluator := Heuristic.evaluator TicTacToe.game (.constant 50)
    let p : Problem TicTacToe.Position TicTacToe.Action TicTacToe.Mark :=
      ⟨TicTacToe.game, .x, evaluator, some 6⟩
    let q : Problem TicTacToe.Position TicTacToe.Action TicTacToe.Mark :=
      ⟨TicTacToe.game.withoutReplies [.place 7], .x, evaluator, some 1⟩
    let b : Budget := ⟨.never, fun k => k * 1000000⟩
    let s := TicTacToe.Position.ofBoard #v[1, 1, 2, 2, 2, 0, 1, 0, 0]
    (∀ c ∈ selectionChecks p {} b 10000000000 6 s, c.AsDepth p b p.maxDepth) ∧
      FullWidth.selectMove p 6 s = .ok (.place 5) ∧
      AlphaBeta.selectMove p {} b 10000000000 6 s = .ok (.place 5) ∧
      AlphaBeta.selectMove q {} b 10000000000 6 s =
        .error (.rule (q.game.noJointMoves s (.place 7))) ∧
      ∃ fault, FullWidth.selectMove q 6 s = .error (.rule fault) := by
  intro evaluator p q b s
  have hp : ∀ c ∈ selectionChecks p {} b 10000000000 6 s, c.AsDepth p b p.maxDepth := by
    decide +kernel
  have hq : ∀ c ∈ selectionChecks q {} b 10000000000 6 s, c.AsDepth q b q.maxDepth := by
    decide +kernel
  have hfull : FullWidth.selectMove p 6 s = .ok (.place 5) := by decide +kernel
  have hfault : AlphaBeta.selectMove q {} b 10000000000 6 s =
      .error (.rule (q.game.noJointMoves s (.place 7))) := by decide +kernel
  obtain ⟨-, -, hmove⟩ := selectMove_agrees p {} b 10000000000 6 6 s
  obtain ⟨-, -, hstop⟩ := selectMove_agrees q {} b 10000000000 6 6 s
  refine ⟨hp, hfull, (hmove hp).1 (Nat.le_refl 6) _ hfull, hfault, ?_⟩
  refine ((hstop hq).2 _ hfault).resolve_right fun hdeep => ?_
  cases hdeep.2

/-- In a table whose only move leads to a state without moves, which is no end of the play. -/
theorem selectMove_stuck_differs :
    let es : List Table.Entry := [.edge "start" ["go"] "stuck"]
    (Table.ofEntries ["self"] es).toOption.map (fun t =>
      let p : Problem String String String :=
        ⟨t.game, "self", Heuristic.evaluator t.game (.constant 50), none⟩
      (p.game.terminal "stuck", p.game.legalMoves "stuck" "self",
        AlphaBeta.selectMove p .unlimited ⟨.never, fun _ => 0⟩ 0 1 "stuck",
        FullWidth.selectMove p 1 "stuck")) =
      some (false, .ok [], .error .noLegalMoves,
        .error (.rule (.noLegalMoves "\"stuck\"" "\"self\""))) := by
  decide +kernel

end GameSearch.Minimax
