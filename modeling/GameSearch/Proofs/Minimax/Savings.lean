import GameSearch.Proofs.Minimax.Lines
import GameSearch.Proofs.Minimax.Pruning

/-!
# GameSearch.Proofs.Minimax.Savings

What a search saves by leaving out moves and replies. `Saves` compares a stretch of the search with
the same stretch of the full one: nothing is counted more often, and unless something was left out
everything is counted as often. It goes up from the positions below through a list of replies
(`worstReply_saves`), a move (`minNode_saves`), a list of moves (`bestMove_saves`) and by induction
on the bound to every position (`maxNode_saves`). Where each move has one reply and nothing is worth
the greatest value there is, nothing is left out (`maxNode_uncut`).

* `search_saves`: the search enters, scores and evaluates no more positions than the full one.
-/

namespace GameSearch.Minimax

variable {σ μ α κ : Type}

/-! ## Positions without a reply to choose -/

/-- From a state that many turns below the root there is one reply to each move, and nothing that a
search finds at its ends is the greatest value there is. -/
structure Problem.Unopposed (p : Problem σ μ α) (depth : Nat) (s : σ) : Prop where
  reply : ∀ line s', p.Leads s line s' → p.game.terminal s' = false →
    ((depth + line.length : Nat) : ℕ∞) < p.horizon → ∀ moves,
    p.game.legalMoves s' p.agent = .ok moves → ∀ m ∈ moves, ∀ joints,
    p.game.replies s' p.agent m = .ok joints → joints.length = 1
  goal : ∀ line s' v, p.Leads s line s' → p.game.terminal s' = true →
    ((depth + line.length : Nat) : ℕ∞) ≤ p.horizon → p.game.goal s' p.agent = .ok v →
    v ≠ Int32.maxValue
  estimate : ∀ line s' v, p.Leads s line s' → p.game.terminal s' = false →
    ((depth + line.length : Nat) : ℕ∞) = p.horizon → p.evaluator.value s' p.agent = .ok v →
    v ≠ Int32.maxValue

theorem Problem.Unopposed.after {p : Problem σ μ α} {depth : Nat} {s s' : σ} {turn : Nat × Nat}
    (h : p.Unopposed depth s) (hs : p.game.terminal s = false) (hturn : p.Turn s turn s') :
    p.Unopposed (depth + 1) s' where
  reply line t hline := by
    rw [← Problem.depth_cons depth turn line]
    exact h.reply (turn :: line) t ⟨hs, s', hturn, hline⟩
  goal line t v hline := by
    rw [← Problem.depth_cons depth turn line]
    exact h.goal (turn :: line) t v ⟨hs, s', hturn, hline⟩
  estimate line t v hline := by
    rw [← Problem.depth_cons depth turn line]
    exact h.estimate (turn :: line) t v ⟨hs, s', hturn, hline⟩

theorem lt_maxValue {v : Int32} (h : v ≠ Int32.maxValue) : v < Int32.maxValue :=
  Int32.lt_of_le_of_ne (Int32.le_maxValue v) h

/-! ## Full searches only ever count on -/

structure Tally.CountsOn (t t' : Tally) : Prop where
  nodes : t.nodes ≤ t'.nodes
  terminals : t.terminals ≤ t'.terminals
  estimates : t.estimates ≤ t'.estimates

theorem Tally.CountsOn.trans {t t₁ t' : Tally} (h : t.CountsOn t₁) (h' : t₁.CountsOn t') :
    t.CountsOn t' :=
  ⟨h.nodes.trans h'.nodes, h.terminals.trans h'.terminals, h.estimates.trans h'.estimates⟩

def Enters (full : κ → Tally → Except SearchError (Score μ × Tally)) : Prop :=
  ∀ x t score t', full x t = .ok (score, t') → t.enter.CountsOn t'

namespace FullWidth

variable {p : Problem σ μ α} {s : σ} {t t' : Tally}

theorem worstReply_countsOn {below : σ → Tally → Except SearchError (Score μ × Tally)}
    (hbelow : Enters below) {joints : List (JointMove μ)} {worst r : Option (Score μ)}
    (h : worstReply p below s joints worst t = .ok (r, t')) :
    t.CountsOn t' ∧ (joints ≠ [] → t.nodes < t'.nodes) := by
  induction joints generalizing worst t with
  | nil => cases h; exact ⟨⟨le_rfl, le_rfl, le_rfl⟩, fun hne => absurd rfl hne⟩
  | cons joint rest ih =>
    simp only [worstReply] at h
    split at h
    · cases h
    · rename_i s' _
      split at h
      · cases h
      · rename_i score t₁ hscore
        obtain ⟨hnodes, hterminals, hestimates⟩ := hbelow s' t score t₁ hscore
        have hrest := (ih h).1
        have hfirst : t.CountsOn t₁ := ⟨(Nat.le_succ _).trans hnodes, hterminals, hestimates⟩
        exact ⟨hfirst.trans hrest, fun _ => Nat.lt_of_lt_of_le hnodes hrest.nodes⟩

theorem minNode_enters {below : σ → Tally → Except SearchError (Score μ × Tally)}
    (hbelow : Enters below) (s : σ) : Enters (minNode p below s) := by
  intro m t score t' h
  unfold minNode at h
  split at h
  · cases h
  · split at h
    · cases h
    · cases h
    · rename_i hworst
      cases h
      exact (worstReply_countsOn hbelow hworst).1

theorem bestMove_countsOn {visit : μ → Tally → Except SearchError (Score μ × Tally)}
    (hvisit : Enters visit) {moves : List μ} {best r : Option (Score μ)}
    (h : bestMove visit moves best t = .ok (r, t')) :
    t.CountsOn t' ∧ (moves ≠ [] → t.nodes < t'.nodes) := by
  induction moves generalizing best t with
  | nil => cases h; exact ⟨⟨le_rfl, le_rfl, le_rfl⟩, fun hne => absurd rfl hne⟩
  | cons m rest ih =>
    simp only [bestMove] at h
    split at h
    · cases h
    · rename_i score t₁ hscore
      obtain ⟨hnodes, hterminals, hestimates⟩ := hvisit m t score t₁ hscore
      have hrest := (ih h).1
      have hfirst : t.CountsOn t₁ := ⟨(Nat.le_succ _).trans hnodes, hterminals, hestimates⟩
      exact ⟨hfirst.trans hrest, fun _ => Nat.lt_of_lt_of_le hnodes hrest.nodes⟩

theorem maxNode_enters (bound depth : Nat) :
    Enters fun s t => maxNode p bound s depth t := by
  induction bound using Nat.strongRecOn generalizing depth with
  | ind bound ih =>
    intro s t score t' h
    rcases maxNode_ok h with ⟨-, _, -, -, rfl⟩ | ⟨-, -, _, -, -, rfl⟩ |
      ⟨-, -, below, moves, rfl, -, hbest⟩
    · exact ⟨le_rfl, Nat.le_succ _, le_rfl⟩
    · exact ⟨le_rfl, le_rfl, Nat.le_succ _⟩
    · exact (bestMove_countsOn (minNode_enters (ih below (Nat.lt_succ_self below) _) s) hbest).1

end FullWidth

namespace AlphaBeta

/-! ## A search beside the full one -/

/-- While the full search counts from `t` to `t'`, the search counts from `u` to `u'`. -/
structure Saves (t t' u u' : Tally) : Prop where
  nodes : u'.nodes + t.nodes ≤ u.nodes + t'.nodes
  terminals : u'.terminals + t.terminals ≤ u.terminals + t'.terminals
  estimates : u'.estimates + t.estimates ≤ u.estimates + t'.estimates
  cutoffs : u.cutoffs ≤ u'.cutoffs
  fewer : u.cutoffs < u'.cutoffs → u'.nodes + t.nodes < u.nodes + t'.nodes
  same : u'.cutoffs = u.cutoffs → u'.nodes + t.nodes = u.nodes + t'.nodes ∧
    u'.terminals + t.terminals = u.terminals + t'.terminals ∧
    u'.estimates + t.estimates = u.estimates + t'.estimates

namespace Saves

variable {t t₁ t' u u₁ u' : Tally}

theorem alike (hnodes : u'.nodes + t.nodes = u.nodes + t'.nodes)
    (hterminals : u'.terminals + t.terminals = u.terminals + t'.terminals)
    (hestimates : u'.estimates + t.estimates = u.estimates + t'.estimates)
    (hcutoffs : u'.cutoffs = u.cutoffs) : Saves t t' u u' where
  nodes := hnodes.le
  terminals := hterminals.le
  estimates := hestimates.le
  cutoffs := hcutoffs.ge
  fewer h := absurd hcutoffs h.ne'
  same _ := ⟨hnodes, hterminals, hestimates⟩

theorem refl (t u : Tally) : Saves t t u u := alike rfl rfl rfl rfl

theorem trans (h : Saves t t₁ u u₁) (h' : Saves t₁ t' u₁ u') : Saves t t' u u' := by
  obtain ⟨hn, ht, he, hc, hf, hs⟩ := h
  obtain ⟨hn', ht', he', hc', hf', hs'⟩ := h'
  refine ⟨by omega, by omega, by omega, hc.trans hc', fun hlt => ?_, fun heq => ?_⟩
  · by_cases hfirst : u.cutoffs < u₁.cutoffs
    · have := hf hfirst
      omega
    · have := hf' (by omega)
      omega
  · obtain ⟨h₁, h₂, h₃⟩ := hs (by omega)
    obtain ⟨h₁', h₂', h₃'⟩ := hs' (by omega)
    omega

theorem enter (t : Tally) (w : Walk) : Saves t t.enter w.tally w.enter.tally :=
  alike (by simp only [Walk.enter, Tally.enter]; omega) rfl rfl rfl

/-- Where something is left out, the full search goes on and enters more positions. -/
theorem cut {β : Type} {rest : List β} (w : Walk) (h : t.CountsOn t')
    (hmore : rest ≠ [] → t.nodes < t'.nodes) (hend : rest = [] → t' = t) :
    Saves t t' w.tally (w.cutBefore rest).tally := by
  cases rest with
  | nil =>
    rw [hend rfl]
    exact refl t w.tally
  | cons x rest =>
    exact {
      nodes := Nat.add_le_add_left h.nodes _
      terminals := Nat.add_le_add_left h.terminals _
      estimates := Nat.add_le_add_left h.estimates _
      cutoffs := Nat.le_succ _
      fewer := fun _ => Nat.add_lt_add_left (hmore nofun) _
      same := fun heq => absurd heq (Nat.succ_ne_self _) }

end Saves

def SavesOn (full : κ → Tally → Except SearchError (Score μ × Tally)) (visit : Visit κ μ) : Prop :=
  ∀ x t exact t' v w found w', v.limit = none → full x t = .ok (exact, t') →
    visit x v w = .ok (found, w') → Saves t t' w.tally w'.tally

section

variable {p : Problem σ μ α} {b : Budget} {s : σ} {t t' : Tally} {v : Window} {w w' : Walk}

theorem worstReply_saves {below : σ → Tally → Except SearchError (Score μ × Tally)}
    {visit : Visit σ μ} (hsaves : SavesOn below visit) (henters : Enters below)
    {joints : List (JointMove μ)} {exact found r r' : Option (Score μ)} (hv : v.limit = none)
    (hfull : FullWidth.worstReply p below s joints exact t = .ok (r, t'))
    (h : worstReply p b visit s joints found v w = .ok (r', w')) :
    Saves t t' w.tally w'.tally := by
  induction joints generalizing exact found t v w with
  | nil =>
    cases hfull
    cases h
    exact .refl _ _
  | cons joint rest ih =>
    simp only [FullWidth.worstReply] at hfull
    simp only [worstReply, hv, share_none] at h
    cases hnext : p.game.next s joint with
    | error e => simp only [hnext, reduceCtorEq] at h
    | ok s' =>
      simp only [hnext] at hfull h
      split at hfull
      · cases hfull
      · rename_i score t₁ hscore
        split at h
        · cases h
        · rename_i score' w₁ hscore'
          have hfirst : Saves t t₁ w.tally w₁.tally :=
            hsaves s' t score t₁ _ w.step score' w₁ rfl hscore hscore'
          split at h
          · cases h
            obtain ⟨hon, hmore⟩ := FullWidth.worstReply_countsOn henters hfull
            refine hfirst.trans (.cut w₁ hon hmore fun hrest => ?_)
            subst hrest
            cases hfull
            rfl
          · exact hfirst.trans (ih rfl hfull h)

theorem minNode_saves {below : σ → Tally → Except SearchError (Score μ × Tally)}
    {visit : Visit σ μ} (hsaves : SavesOn below visit) (henters : Enters below) (s : σ) :
    SavesOn (FullWidth.minNode p below s) (minNode p b visit s) := by
  intro m t exact t' v w found w' hv hfull h
  simp only [FullWidth.minNode] at hfull
  simp only [minNode] at h
  split at hfull
  · cases hfull
  · rename_i joints hjoints
    simp only [hjoints] at h
    split at hfull
    · cases hfull
    · cases hfull
    · rename_i worst t₁ hworst
      cases hfull
      split at h
      · cases h
      · cases h
      · rename_i worst' w₁ hworst'
        cases h
        exact (Saves.enter t w).trans (worstReply_saves hsaves henters hv hworst hworst')

theorem bestMove_saves {full : μ → Tally → Except SearchError (Score μ × Tally)}
    {visit : Visit μ μ} (hsaves : SavesOn full visit) (henters : Enters full) {moves : List μ}
    {exact found r r' : Option (Score μ)} (hv : v.limit = none)
    (hfull : FullWidth.bestMove full moves exact t = .ok (r, t'))
    (h : bestMove b visit moves found v w = .ok (r', w')) : Saves t t' w.tally w'.tally := by
  induction moves generalizing exact found t v w with
  | nil =>
    cases hfull
    cases h
    exact .refl _ _
  | cons m rest ih =>
    simp only [FullWidth.bestMove] at hfull
    simp only [bestMove, hv, share_none] at h
    split at hfull
    · cases hfull
    · rename_i score t₁ hscore
      split at h
      · cases h
      · rename_i score' w₁ hscore'
        have hfirst := hsaves m t score t₁ _ w score' w₁ rfl hscore hscore'
        split at h
        · cases h
          obtain ⟨hon, hmore⟩ := FullWidth.bestMove_countsOn henters hfull
          refine hfirst.trans (.cut w₁ hon hmore fun hrest => ?_)
          subst hrest
          cases hfull
          rfl
        · exact hfirst.trans (ih rfl hfull h)

end

section

variable {p : Problem σ μ α} (clock : Nat → Int)

theorem maxNode_never {bound depth : Nat} {s : σ} {v : Window} {w w' : Walk} {found : Score μ}
    (hv : v.limit = none) (h : maxNode p ⟨.never, clock⟩ bound depth s v w = .ok (found, w')) :
    (p.game.terminal s = true ∧ ∃ value, p.game.goal s p.agent = .ok value ∧
      found = .leaf value ∧ w' = w.enter.exact) ∨
    (p.game.terminal s = false ∧ p.atLimit depth = true ∧
      ∃ value, p.evaluator.value s p.agent = .ok value ∧ found = .leaf value ∧
        w' = w.enter.estimate (p.evaluator.queries s p.agent)) ∨
    (p.game.terminal s = false ∧ p.atLimit depth = false ∧
      ∃ below moves, bound = below + 1 ∧ p.game.legalMoves s p.agent = .ok moves ∧
        bestMove ⟨.never, clock⟩
          (minNode p ⟨.never, clock⟩ (maxNode p ⟨.never, clock⟩ below (depth + 1)) s) moves none v
          w.enter = .ok (some found, w')) := by
  rw [maxNode.eq_def] at h
  cases ht : p.game.terminal s with
  | true =>
    simp only [ht, ↓reduceIte] at h
    split at h
    · cases h
    · rename_i value hg
      cases h
      exact .inl ⟨rfl, value, hg, rfl, rfl⟩
  | false =>
    simp only [ht, hv, outOfBudget_never, Bool.false_eq_true, ↓reduceIte] at h
    cases hd : p.atLimit depth with
    | true =>
      simp only [hd] at h
      split at h
      · cases h
      · rename_i value hg
        cases h
        exact .inr (.inl ⟨rfl, rfl, value, hg, rfl, rfl⟩)
    | false =>
      simp only [hd] at h
      split at h
      · cases h
      · rename_i below
        split at h
        · cases h
        · rename_i moves hm
          split at h
          · cases h
          · cases h
          · rename_i hbest
            cases h
            exact .inr (.inr ⟨rfl, rfl, below, moves, rfl, hm, hbest⟩)

theorem maxNode_saves (bound bound' depth : Nat) :
    SavesOn (fun s t => FullWidth.maxNode p bound s depth t)
      (maxNode p ⟨.never, clock⟩ bound' depth) := by
  induction bound using Nat.strongRecOn generalizing bound' depth with
  | ind bound ih =>
    intro s t exact t' v w found w' hv hfull h
    rcases FullWidth.maxNode_ok hfull with ⟨ht, value, hg, -, rfl⟩ | ⟨ht, hd, value, hg, -, rfl⟩ |
      ⟨ht, hd, below, moves, rfl, hm, hbest⟩
    · obtain ⟨-, _, -, -, rfl⟩ := (maxNode_never clock hv h).resolve_right (by simp [ht])
      exact .alike (by simp only [Walk.enter, Walk.exact, Tally.enter, Tally.exact]; omega)
        (by simp only [Walk.enter, Walk.exact, Tally.enter, Tally.exact]; omega) rfl rfl
    · obtain ⟨-, -, _, -, -, rfl⟩ :=
        ((maxNode_never clock hv h).resolve_left (by simp [ht])).resolve_right (by simp [hd])
      exact .alike (by simp only [Walk.enter, Walk.estimate, Tally.enter, Tally.estimate]; omega)
        rfl (by simp only [Walk.enter, Walk.estimate, Tally.enter, Tally.estimate]; omega) rfl
    · obtain ⟨-, -, below', moves', rfl, hm', hbest'⟩ :=
        ((maxNode_never clock hv h).resolve_left (by simp [ht])).resolve_left (by simp [hd])
      cases hm.symm.trans hm'
      have henters := FullWidth.maxNode_enters (p := p) below (depth + 1)
      exact (Saves.enter t w).trans (bestMove_saves
        (minNode_saves (ih below (Nat.lt_succ_self below) below' (depth + 1)) henters s)
        (FullWidth.minNode_enters henters s) hv hbest hbest')

/-! ## Nothing to leave out -/

/-- In a wide enough window `visit` leaves nothing out at `x`, and its score is below the greatest
one. -/
def Uncut (visit : Visit κ μ) (x : κ) : Prop :=
  ∀ v w found w', v.limit = none → v.beta = Int32.maxValue → v.alpha < Int32.maxValue →
    visit x v w = .ok (found, w') →
    found.value < Int32.maxValue ∧ w'.tally.cutoffs = w.tally.cutoffs

theorem minNode_uncut {b : Budget} {visit : Visit σ μ} {s : σ} {m : μ}
    (hone : ∀ joints, p.game.replies s p.agent m = .ok joints → joints.length = 1)
    (hbelow : ∀ joint s', p.game.replies s p.agent m = .ok [joint] →
      p.game.next s joint = .ok s' → Uncut visit s') : Uncut (minNode p b visit s) m := by
  intro v w found w' hv hbeta halpha h
  unfold minNode at h
  split at h
  · cases h
  · rename_i joints hjoints
    obtain ⟨joint, rfl⟩ := List.length_eq_one_iff.1 (hone joints hjoints)
    have hlimit : { v with limit := none } = v := by rw [← hv]
    simp only [worstReply, hv, share_none, hlimit] at h
    cases hnext : p.game.next s joint with
    | error e => simp only [hnext, reduceCtorEq] at h
    | ok s' =>
      simp only [hnext] at h
      cases hvisit : visit s' v w.enter.step with
      | error e => simp only [hvisit, reduceCtorEq] at h
      | ok found' =>
        obtain ⟨score, w₁⟩ := found'
        obtain ⟨hvalue, hcutoffs⟩ :=
          hbelow joint s' hjoints hnext v _ score w₁ hv hbeta halpha hvisit
        simp only [hvisit] at h
        -- a score that falls to the bottom of the window cuts nothing off an empty rest
        have hsame : w₁.cutBefore ([] : List (JointMove μ)) = w₁ := rfl
        rw [hsame, ite_self] at h
        cases h
        exact ⟨hvalue, hcutoffs⟩

theorem bestMove_uncut {b : Budget} {visit : Visit μ μ} {moves : List μ}
    (hvisit : ∀ m ∈ moves, Uncut visit m) {best r : Option (Score μ)} {v : Window} {w w' : Walk}
    (hv : v.limit = none) (hbeta : v.beta = Int32.maxValue) (halpha : v.alpha < Int32.maxValue)
    (hbest : ∀ score ∈ best, score.value < Int32.maxValue)
    (h : bestMove b visit moves best v w = .ok (r, w')) :
    (∀ score ∈ r, score.value < Int32.maxValue) ∧ w'.tally.cutoffs = w.tally.cutoffs := by
  induction moves generalizing best v w with
  | nil =>
    cases h
    exact ⟨hbest, rfl⟩
  | cons m rest ih =>
    have hlimit : { v with limit := none } = v := by rw [← hv]
    simp only [bestMove, hv, share_none, hlimit] at h
    split at h
    · cases h
    · rename_i score w₁ hscore
      obtain ⟨hvalue, hcutoffs⟩ := hvisit m List.mem_cons_self v w score w₁ hv hbeta halpha hscore
      have hcurrent : (keepBetter best score).value < Int32.maxValue := by
        cases best with
        | none => exact hvalue
        | some old =>
          simp only [keepBetter, Score.betterOf]
          split
          · exact hvalue
          · exact hbest old rfl
      have hopen : max v.alpha (keepBetter best score).value < Int32.maxValue := by
        rw [max_eq]
        split
        · exact hcurrent
        · exact halpha
      rw [if_neg (by rw [hbeta]; exact Int32.not_le.2 hopen)] at h
      have hkept : ∀ score' ∈ some (keepBetter best score), score'.value < Int32.maxValue := by
        rintro _ ⟨⟩
        exact hcurrent
      obtain ⟨hlast, hrest⟩ :=
        ih (v := ⟨max v.alpha (keepBetter best score).value, v.beta, none⟩)
          (fun m hm => hvisit m (List.mem_cons_of_mem _ hm)) rfl hbeta hopen hkept h
      exact ⟨hlast, hrest.trans hcutoffs⟩

theorem maxNode_uncut {bound depth : Nat} {s : σ} (hdepth : (depth : ℕ∞) ≤ p.horizon)
    (h : p.Unopposed depth s) : Uncut (maxNode p ⟨.never, clock⟩ bound depth) s := by
  induction bound using Nat.strongRecOn generalizing depth s with
  | ind bound ih =>
    intro v w found w' hv hbeta halpha hfound
    rcases maxNode_never clock hv hfound with ⟨hs, value, hg, rfl, rfl⟩ |
      ⟨hs, hlimit, value, hg, rfl, rfl⟩ | ⟨hs, hlimit, below, moves, rfl, hmoves, hbest⟩
    · exact ⟨lt_maxValue (h.goal [] s value rfl hs hdepth hg), rfl⟩
    · have heq := (Problem.atLimit_iff_eq hdepth).1 hlimit
      exact ⟨lt_maxValue (h.estimate [] s value rfl hs heq hg), rfl⟩
    · have hlt := Problem.lt_horizon hdepth hlimit
      have hvisit : ∀ m ∈ moves,
          Uncut (minNode p ⟨.never, clock⟩ (maxNode p ⟨.never, clock⟩ below (depth + 1)) s) m := by
        intro m hm
        obtain ⟨i, hi⟩ := List.getElem?_of_mem hm
        refine minNode_uncut (h.reply [] s rfl hs hlt moves hmoves m hm)
          fun joint s' hjoints hnext => ?_
        have hturn : p.Turn s (i, 0) s' :=
          ⟨moves, m, [joint], joint, hmoves, hi, hjoints, rfl, hnext⟩
        exact ih below (Nat.lt_succ_self below) (Problem.succ_le_horizon hlt) (h.after hs hturn)
      obtain ⟨hvalue, hcutoffs⟩ :=
        bestMove_uncut hvisit hv hbeta halpha (by nofun) hbest
      exact ⟨hvalue found rfl, hcutoffs⟩

end

/-- A search that is neither interrupted nor short of time answers where the full one does. It does
no more, and it does less just if it leaves something out, which it has no reason to do where each
move has one reply and no end is worth the greatest value there is. -/
theorem search_saves (p : Problem σ μ α) (clock : Nat → Int) {bound bound' : Nat} {s : σ}
    {full : Report μ} (hb : bound ≤ bound') (h : FullWidth.search p bound s = .ok full) :
    ∃ report, search p ⟨.never, clock⟩ none bound' s = .ok report ∧
      report.tally.nodes ≤ full.tally.nodes ∧
      report.tally.terminals ≤ full.tally.terminals ∧
      report.tally.estimates ≤ full.tally.estimates ∧
      (report.tally.nodes = full.tally.nodes ↔ report.tally.cutoffs = 0) ∧
      (report.tally.cutoffs = 0 → report.tally.nodes = full.tally.nodes ∧
        report.tally.terminals = full.tally.terminals ∧
        report.tally.estimates = full.tally.estimates) ∧
      (p.Unopposed 0 s → report.tally.cutoffs = 0) := by
  unfold FullWidth.search at h
  split at h
  · cases h
  · rename_i score t hfull
    cases h
    have hopen : (Window.full none).alpha < (Window.full none).beta := by decide
    obtain ⟨found, w, hfound, -⟩ :=
      maxNode_faithful clock hb 0 s {} t score (.full none) {} hfull hopen rfl
    obtain ⟨hnodes, hterminals, hestimates, -, hfewer, hsame⟩ :=
      maxNode_saves clock bound bound' 0 s {} score t (.full none) {} found w rfl hfull hfound
    simp only [Nat.zero_add, Nat.add_zero] at hnodes hterminals hestimates hfewer hsame
    refine ⟨⟨found, w.tally⟩, by simp only [search, run, hfound], hnodes, hterminals, hestimates,
      ⟨fun heq => ?_, fun hzero => (hsame hzero).1⟩, hsame, fun hunopposed => ?_⟩
    · by_contra hcut
      exact absurd heq (hfewer (Nat.pos_of_ne_zero hcut)).ne
    · have hdepth : ((0 : Nat) : ℕ∞) ≤ p.horizon := by simp
      exact (maxNode_uncut clock hdepth hunopposed (.full none) {} found w rfl rfl hopen hfound).2

/-- Three cells are open. One turn ahead the only reply to each move is to pass, so that nothing is
left out. -/
theorem search_saves_three_open :
    let p : Option Nat → Problem TicTacToe.Position TicTacToe.Action TicTacToe.Mark :=
      fun limit => ⟨TicTacToe.game, .x, Heuristic.evaluator TicTacToe.game (.constant 50), limit⟩
    let s := TicTacToe.Position.ofBoard #v[1, 1, 2, 2, 2, 0, 1, 0, 0]
    (∃ report, search (p none) ⟨.never, fun _ => 0⟩ none 3 s = .ok report ∧
      report.tally.nodes ≤ 24) ∧
    ∃ report, search (p (some 1)) ⟨.never, fun _ => 0⟩ none 3 s = .ok report ∧
      report.tally.cutoffs = 0 ∧ report.tally.nodes = 7 := by
  intro p s
  have hdeep : FullWidth.search (p none) 3 s = .ok ⟨.withAction 50 (.place 5), ⟨24, 6, 0, 0⟩⟩ := by
    decide +kernel
  have hshallow : FullWidth.search (p (some 1)) 3 s =
      .ok ⟨.withAction 50 (.place 5), ⟨7, 0, 3, 0⟩⟩ := by decide +kernel
  have hunopposed : (p (some 1)).Unopposed 0 s := by
    constructor
    · intro line s' hline hopen hdepth moves hmoves m hm joints hjoints
      have hlength : line.length < 1 := by simpa [p, Problem.horizon] using hdepth
      obtain rfl := List.eq_nil_of_length_eq_zero (Nat.lt_one_iff.1 hlength)
      cases hline
      cases hjoints
      have hpass : TicTacToe.legalMoves s .o = [.pass] := by decide +kernel
      exact List.length_map _ |>.trans (congrArg List.length hpass)
    · intro line s' v _ hdone _ hv
      cases (if_pos hdone : TicTacToe.goal s' .x = _).symm.trans hv
      unfold TicTacToe.outcome
      split <;> [decide; (split <;> decide)]
    · intro line s' v _ _ _ hv
      cases hv
      decide
  obtain ⟨report, hreport, hnodes, -⟩ := search_saves (p none) (fun _ => 0) (Nat.le_refl 3) hdeep
  obtain ⟨report', hreport', -, -, -, -, hsame, huncut⟩ :=
    search_saves (p (some 1)) (fun _ => 0) (Nat.le_refl 3) hshallow
  exact ⟨⟨report, hreport, hnodes⟩, report', hreport', huncut hunopposed,
    (hsame (huncut hunopposed)).1⟩

end AlphaBeta

end GameSearch.Minimax
