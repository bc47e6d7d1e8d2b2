import GameSearch.Minimax.AlphaBeta
import GameSearch.Minimax.FullWidth
import GameSearch.Proofs.Rules

/-!
# GameSearch.Proofs.Minimax.Answers

A search answers where the rules do. Nothing but a gap in the rules or in the evaluator, or a play
that is too long, keeps a search from coming to its end, whatever its budget is; and the move that
it finds is one of the legal ones.

* `FullWidth.selectMove_ok`, `AlphaBeta.selectMove_ok`: such a search selects a legal move.
-/

namespace GameSearch.Minimax

variable {σ μ α : Type} {p : Problem σ μ α} {s : σ} {n bound depth : Nat}

/-! ## Full searches -/

namespace FullWidth

/-- The best of the scores that `visit` gives to the moves, which `Q` tells about. -/
theorem bestMove_ok {visit : μ → Tally → Except SearchError (Score μ × Tally)}
    {Q : μ → Score μ → Prop} {moves : List μ}
    (hvisit : ∀ m ∈ moves, ∀ t, ∃ score t', visit m t = .ok (score, t') ∧ Q m score)
    (best : Score μ) (t : Tally) :
    ∃ last t', bestMove visit moves (some best) t = .ok (some last, t') ∧
      (last = best ∨ ∃ m ∈ moves, Q m last) ∧ best.value ≤ last.value ∧
      ∀ m ∈ moves, ∃ score, Q m score ∧ score.value ≤ last.value := by
  induction moves generalizing best t with
  | nil => exact ⟨best, t, rfl, .inl rfl, Int32.le_refl _, nofun⟩
  | cons m rest ih =>
    obtain ⟨score, t₁, hm, hscore⟩ := hvisit m List.mem_cons_self t
    obtain ⟨last, t', hlast, hfrom, hle, hrest⟩ :=
      ih (fun m hm => hvisit m (List.mem_cons_of_mem _ hm)) (best.betterOf score) t₁
    have hbetter : (best.betterOf score = best ∨ best.betterOf score = score) ∧
        best.value ≤ (best.betterOf score).value ∧ score.value ≤ (best.betterOf score).value := by
      grind [Score.betterOf]
    refine ⟨last, t', ?_, ?_, Int32.le_trans hbetter.2.1 hle, ?_⟩
    · simp only [bestMove, hm, keepBetter, hlast]
    · rcases hfrom with rfl | ⟨m', hm', hlast⟩
      · rcases hbetter.1 with h | h
        · exact .inl h
        · exact .inr ⟨m, List.mem_cons_self, by rwa [h]⟩
      · exact .inr ⟨m', List.mem_cons_of_mem _ hm', hlast⟩
    · rintro m' (_ | ⟨_, hm'⟩)
      · exact ⟨score, hscore, Int32.le_trans hbetter.2.2 hle⟩
      · exact hrest m' hm'

theorem worstReply_ok {below : σ → Tally → Except SearchError (Score μ × Tally)}
    {Q : JointMove μ → Score μ → Prop} {joints : List (JointMove μ)}
    (hbelow : ∀ joint ∈ joints, ∃ s', p.game.next s joint = .ok s' ∧
      ∀ t, ∃ score t', below s' t = .ok (score, t') ∧ Q joint score)
    (worst : Score μ) (t : Tally) :
    ∃ last t', worstReply p below s joints (some worst) t = .ok (some last, t') ∧
      (last = worst ∨ ∃ joint ∈ joints, Q joint last) ∧ last.value ≤ worst.value ∧
      ∀ joint ∈ joints, ∃ score, Q joint score ∧ last.value ≤ score.value := by
  induction joints generalizing worst t with
  | nil => exact ⟨worst, t, rfl, .inl rfl, Int32.le_refl _, nofun⟩
  | cons joint rest ih =>
    obtain ⟨s', hnext, hs'⟩ := hbelow joint List.mem_cons_self
    obtain ⟨score, t₁, hfound, hscore⟩ := hs' t
    obtain ⟨last, t', hlast, hfrom, hle, hrest⟩ :=
      ih (fun joint h => hbelow joint (List.mem_cons_of_mem _ h)) (worst.worseOf score) t₁
    have hworse : (worst.worseOf score = worst ∨ worst.worseOf score = score) ∧
        (worst.worseOf score).value ≤ worst.value ∧ (worst.worseOf score).value ≤ score.value := by
      grind [Score.worseOf]
    refine ⟨last, t', ?_, ?_, Int32.le_trans hle hworse.2.1, ?_⟩
    · simp only [worstReply, hnext, hfound, keepWorse, hlast]
    · rcases hfrom with rfl | ⟨joint', hjoint', hlast⟩
      · rcases hworse.1 with h | h
        · exact .inl h
        · exact .inr ⟨joint, List.mem_cons_self, by rwa [h]⟩
      · exact .inr ⟨joint', List.mem_cons_of_mem _ hjoint', hlast⟩
    · rintro joint' (_ | ⟨_, hjoint'⟩)
      · exact ⟨score, hscore, Int32.le_trans hle hworse.2.2⟩
      · exact hrest joint' hjoint'

theorem minNode_ok {below : σ → Tally → Except SearchError (Score μ × Tally)}
    {Q : JointMove μ → Score μ → Prop} {m : μ} {joints : List (JointMove μ)}
    (hjoints : p.game.replies s p.agent m = .ok joints) (hne : joints ≠ [])
    (hbelow : ∀ joint ∈ joints, ∃ s', p.game.next s joint = .ok s' ∧
      ∀ t, ∃ score t', below s' t = .ok (score, t') ∧ Q joint score) (t : Tally) :
    ∃ worst t', minNode p below s m t = .ok (worst.tagged m, t') ∧
      (∃ joint ∈ joints, Q joint worst) ∧
      ∀ joint ∈ joints, ∃ score, Q joint score ∧ worst.value ≤ score.value := by
  cases joints with
  | nil => exact absurd rfl hne
  | cons joint rest =>
    obtain ⟨s', hnext, hs'⟩ := hbelow joint List.mem_cons_self
    obtain ⟨score, t₁, hfound, hscore⟩ := hs' t.enter
    obtain ⟨last, t', hlast, hfrom, hle, hrest⟩ :=
      worstReply_ok (fun joint h => hbelow joint (List.mem_cons_of_mem _ h)) score t₁
    refine ⟨last, t', ?_, ?_, ?_⟩
    · simp only [minNode, hjoints, worstReply, hnext, hfound, keepWorse, hlast]
    · rcases hfrom with rfl | ⟨joint', hjoint', hlast⟩
      · exact ⟨joint, List.mem_cons_self, hscore⟩
      · exact ⟨joint', List.mem_cons_of_mem _ hjoint', hlast⟩
    · rintro joint' (_ | ⟨_, hjoint'⟩)
      · exact ⟨score, hscore, hle⟩
      · exact hrest joint' hjoint'

theorem maxNode_best {Q : μ → Score μ → Prop} {moves : List μ}
    (hs : p.game.terminal s = false) (hdepth : p.atLimit depth = false)
    (hmoves : p.game.legalMoves s p.agent = .ok moves) (hne : moves ≠ [])
    (hvisit : ∀ m ∈ moves, ∀ t, ∃ score t',
      minNode p (fun s' t => maxNode p bound s' (depth + 1) t) s m t = .ok (score, t') ∧ Q m score)
    (t : Tally) :
    ∃ best t', maxNode p (bound + 1) s depth t = .ok (best, t') ∧ (∃ m ∈ moves, Q m best) ∧
      ∀ m ∈ moves, ∃ score, Q m score ∧ score.value ≤ best.value := by
  cases moves with
  | nil => exact absurd rfl hne
  | cons m rest =>
    obtain ⟨score, t₁, hfound, hscore⟩ := hvisit m List.mem_cons_self t.enter
    obtain ⟨last, t', hlast, hfrom, hle, hrest⟩ :=
      bestMove_ok (fun m h => hvisit m (List.mem_cons_of_mem _ h)) score t₁
    refine ⟨last, t', ?_, ?_, ?_⟩
    · simp only [maxNode, hs, hdepth, hmoves, bestMove, hfound, keepBetter, hlast,
        Bool.false_eq_true, ↓reduceIte]
    · rcases hfrom with rfl | ⟨m', hm', hlast⟩
      · exact ⟨m, List.mem_cons_self, hscore⟩
      · exact ⟨m', List.mem_cons_of_mem _ hm', hlast⟩
    · rintro m' (_ | ⟨_, hm'⟩)
      · exact ⟨score, hscore, hle⟩
      · exact hrest m' hm'

/-- By induction on the length of plays. -/
theorem maxNode_answers (hagent : p.agent ∈ p.game.agents)
    (hvalue : ∀ s, ∃ v, p.evaluator.value s p.agent = .ok v) (h : p.game.Complete s)
    (hn : p.game.EndsWithin n s) (hbound : n ≤ bound) (depth : Nat) (t : Tally) :
    ∃ score t', maxNode p bound s depth t = .ok (score, t') ∧
      (p.game.terminal s = false → p.atLimit depth = false →
        ∃ moves, p.game.legalMoves s p.agent = .ok moves ∧ ∃ m ∈ moves, score.action = some m) := by
  induction n using Nat.strongRecOn generalizing s bound depth t with
  | ind n ih =>
    cases hs : p.game.terminal s with
    | true =>
      obtain ⟨v, hv⟩ := h.here.goal hs p.agent hagent
      rw [maxNode.eq_def]
      simp only [hs, hv, ↓reduceIte]
      exact ⟨_, _, rfl, nofun⟩
    | false =>
      cases hdepth : p.atLimit depth with
      | true =>
        obtain ⟨v, hv⟩ := hvalue s
        rw [maxNode.eq_def]
        simp only [hs, hdepth, hv, Bool.false_eq_true, ↓reduceIte]
        exact ⟨_, _, rfl, nofun⟩
      | false =>
        obtain ⟨k, moves, rfl, hne, hmoves, hreplies⟩ := h.moves_on hn hs hagent
        obtain ⟨bound, rfl⟩ : ∃ b, bound = b + 1 := ⟨bound - 1, by omega⟩
        have hvisit : ∀ m ∈ moves, ∀ t, ∃ score t', minNode p
            (fun s' t => maxNode p bound s' (depth + 1) t) s m t = .ok (score, t') ∧
              score.action = some m := by
          intro m hm t
          obtain ⟨joints, hne, hjoints, hnext⟩ := hreplies m hm
          have hbelow : ∀ joint ∈ joints, ∃ s', p.game.next s joint = .ok s' ∧
              ∀ t, ∃ score t', maxNode p bound s' (depth + 1) t = .ok (score, t') ∧ True := by
            intro joint hjoint
            obtain ⟨s', hs', hcomplete, hends⟩ := hnext joint hjoint
            refine ⟨s', hs', fun t => ?_⟩
            obtain ⟨score, t', hfound, -⟩ := ih k (Nat.lt_succ_self k) hcomplete hends
              (Nat.le_of_succ_le_succ hbound) (depth + 1) t
            exact ⟨score, t', hfound, trivial⟩
          obtain ⟨worst, t', hworst, -⟩ :=
            minNode_ok (Q := fun _ _ => True) hjoints hne hbelow t
          exact ⟨_, t', hworst, rfl⟩
        obtain ⟨best, t', hbest, ⟨m, hm, haction⟩, -⟩ :=
          maxNode_best hs hdepth hmoves hne hvisit t
        exact ⟨best, t', hbest, fun _ _ => ⟨moves, hmoves, m, hm, haction⟩⟩

theorem selectMove_ok (hagent : p.agent ∈ p.game.agents)
    (hvalue : ∀ s, ∃ v, p.evaluator.value s p.agent = .ok v) (h : p.game.Complete s)
    (hn : p.game.EndsWithin n s) (hbound : n ≤ bound) (hs : p.game.terminal s = false) :
    ∃ m moves, selectMove p bound s = .ok m ∧ p.game.legalMoves s p.agent = .ok moves ∧
      m ∈ moves := by
  obtain ⟨moves, hne, hmoves, -⟩ := h.here.moves hs p.agent hagent
  obtain ⟨score, t, hsearch, haction⟩ := maxNode_answers hagent hvalue h hn hbound 0 {}
  obtain ⟨moves', hmoves', m, hm, haction⟩ := haction hs p.atLimit_zero
  cases hmoves.symm.trans hmoves'
  match moves, hmoves, hm with
  | [only], hmoves, hm => exact ⟨only, [only], by simp [selectMove, hs, hmoves], hmoves, by simp⟩
  | first :: second :: rest, hmoves, hm =>
    exact ⟨m, _, by simp [selectMove, hs, hmoves, search, hsearch, haction], hmoves, hm⟩

end FullWidth

/-! ## Searches within a window and a budget -/

namespace AlphaBeta

variable {b : Budget}

theorem bestMove_ok {visit : Visit μ μ} {Q : Score μ → Prop} {moves : List μ}
    (hvisit : ∀ m ∈ moves, ∀ v w, ∃ score w', visit m v w = .ok (score, w') ∧ Q score)
    (best : Option (Score μ)) (hbest : ∀ score, best = some score → Q score)
    (hne : best = none → moves ≠ []) (v : Window) (w : Walk) :
    ∃ last w', bestMove b visit moves best v w = .ok (some last, w') ∧ Q last := by
  induction moves generalizing best v w with
  | nil =>
    cases best with
    | none => exact absurd rfl (hne rfl)
    | some score => exact ⟨score, w, rfl, hbest score rfl⟩
  | cons m rest ih =>
    obtain ⟨score, w', hfound, hscore⟩ := hvisit m List.mem_cons_self
      { v with limit := (share b (rest.length + 1) v.limit w).1 }
      (share b (rest.length + 1) v.limit w).2
    have hcurrent : Q (keepBetter best score) := by
      cases best with
      | none => exact hscore
      | some best =>
        simp only [keepBetter, Score.betterOf]
        split
        · exact hscore
        · exact hbest best rfl
    simp only [bestMove, hfound]
    split
    · exact ⟨_, _, rfl, hcurrent⟩
    · refine ih (fun m hm => hvisit m (List.mem_cons_of_mem _ hm)) (some (keepBetter best score))
        ?_ nofun _ w'
      rintro _ ⟨⟩
      exact hcurrent

theorem worstReply_ok {below : Visit σ μ} {joints : List (JointMove μ)}
    (hbelow : ∀ joint ∈ joints, ∃ s', p.game.next s joint = .ok s' ∧
      ∀ v w, ∃ score w', below s' v w = .ok (score, w'))
    (worst : Option (Score μ)) (hne : worst = none → joints ≠ []) (v : Window) (w : Walk) :
    ∃ last w', worstReply p b below s joints worst v w = .ok (some last, w') := by
  induction joints generalizing worst v w with
  | nil =>
    cases worst with
    | none => exact absurd rfl (hne rfl)
    | some score => exact ⟨score, w, rfl⟩
  | cons joint rest ih =>
    obtain ⟨s', hnext, hs'⟩ := hbelow joint List.mem_cons_self
    obtain ⟨score, w', hfound⟩ := hs' { v with limit := (share b (rest.length + 1) v.limit w).1 }
      (share b (rest.length + 1) v.limit w).2.step
    simp only [worstReply, hnext, hfound]
    split
    · exact ⟨_, _, rfl⟩
    · exact ih (fun joint h => hbelow joint (List.mem_cons_of_mem _ h))
        (some (keepWorse worst score)) nofun _ w'

theorem maxNode_answers (hagent : p.agent ∈ p.game.agents)
    (hvalue : ∀ s, ∃ v, p.evaluator.value s p.agent = .ok v) (h : p.game.Complete s)
    (hn : p.game.EndsWithin n s) (hbound : n ≤ bound) (depth : Nat) (v : Window) (w : Walk) :
    ∃ score w', maxNode p b bound depth s v w = .ok (score, w') ∧
      (p.game.terminal s = false → depth = 0 →
        ∃ moves, p.game.legalMoves s p.agent = .ok moves ∧ ∃ m ∈ moves, score.action = some m) := by
  induction n using Nat.strongRecOn generalizing s bound depth v w with
  | ind n ih =>
    rw [maxNode.eq_def]
    cases hs : p.game.terminal s with
    | true =>
      obtain ⟨v, hv⟩ := h.here.goal hs p.agent hagent
      simp only [hs, hv, ↓reduceIte]
      exact ⟨_, _, rfl, nofun⟩
    | false =>
      cases hout : outOfBudget p b depth v.limit w.enter with
      | mk out w =>
        cases out with
        | true =>
          obtain ⟨v, hv⟩ := hvalue s
          simp only [hs, hout, hv, Bool.false_eq_true, ↓reduceIte]
          refine ⟨_, _, rfl, ?_⟩
          rintro - rfl
          simp [outOfBudget] at hout
        | false =>
          obtain ⟨k, moves, rfl, hne, hmoves, hreplies⟩ := h.moves_on hn hs hagent
          obtain ⟨bound, rfl⟩ : ∃ b, bound = b + 1 := ⟨bound - 1, by omega⟩
          have hvisit : ∀ m ∈ moves, ∀ v w, ∃ score w',
              minNode p b (maxNode p b bound (depth + 1)) s m v w = .ok (score, w') ∧
                ∃ m ∈ moves, score.action = some m := by
            intro m hm v w
            obtain ⟨joints, hne, hjoints, hnext⟩ := hreplies m hm
            have hbelow : ∀ joint ∈ joints, ∃ s', p.game.next s joint = .ok s' ∧
                ∀ v w, ∃ score w', maxNode p b bound (depth + 1) s' v w = .ok (score, w') := by
              intro joint hjoint
              obtain ⟨s', hs', hcomplete, hends⟩ := hnext joint hjoint
              refine ⟨s', hs', fun v w => ?_⟩
              obtain ⟨score, w', hfound, -⟩ := ih k (Nat.lt_succ_self k) hcomplete hends
                (Nat.le_of_succ_le_succ hbound) (depth + 1) v w
              exact ⟨score, w', hfound⟩
            obtain ⟨worst, w', hworst⟩ :=
              worstReply_ok (b := b) hbelow none (fun _ => hne) v w.enter
            refine ⟨worst.tagged m, w', ?_, m, hm, rfl⟩
            simp only [minNode, hjoints, hworst]
          obtain ⟨best, w', hbest, haction⟩ := bestMove_ok (b := b) hvisit none nofun
            (fun _ => hne) v w
          simp only [hs, hout, hmoves, hbest, Bool.false_eq_true, ↓reduceIte]
          exact ⟨best, w', rfl, fun _ _ => ⟨moves, rfl, haction⟩⟩

/-- The move is legal whatever the budget is. -/
theorem selectMove_ok (hagent : p.agent ∈ p.game.agents)
    (hvalue : ∀ s, ∃ v, p.evaluator.value s p.agent = .ok v) (h : p.game.Complete s)
    (hn : p.game.EndsWithin n s) (hbound : n ≤ bound) (hs : p.game.terminal s = false)
    (settings : Settings) (deadline : Int) :
    ∃ m moves, selectMove p settings b deadline bound s = .ok m ∧
      p.game.legalMoves s p.agent = .ok moves ∧ m ∈ moves := by
  obtain ⟨moves, hne, hmoves, -⟩ := h.here.moves hs p.agent hagent
  have hanswer := fun limit => maxNode_answers (b := b) hagent hvalue h hn hbound 0
    (.full limit) {}
  match moves, hmoves, hne with
  | [only], hmoves, _ => exact ⟨only, [only], by simp [selectMove, hs, hmoves], hmoves, by simp⟩
  | first :: second :: rest, hmoves, _ =>
    obtain ⟨score, w, hsearch, haction⟩ := hanswer
      (if settings.timeSliced then some (stopAt deadline settings.safetyMargin) else none)
    obtain ⟨moves, hmoves', m, hm, haction⟩ := haction hs rfl
    cases hmoves.symm.trans hmoves'
    exact ⟨m, _, by simp [selectMove, hs, hmoves, search, run, hsearch, haction], hmoves, hm⟩

end AlphaBeta

end GameSearch.Minimax
