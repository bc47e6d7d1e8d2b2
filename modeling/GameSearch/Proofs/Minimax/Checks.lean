import GameSearch.Proofs.Minimax.Lines
import GameSearch.Proofs.Minimax.Pruning

/-!
# GameSearch.Proofs.Minimax.Checks

Where a search asks whether it is out of budget. `checks` goes through a search and lists these
places. The budget has no other influence: if every answer is the one that some depth limit alone
gives (`Check.AsDepth`), then the report is that of a search with this limit and an unlimited
budget (`search_eq_of_checks`).

`Agrees` says that two searches give the same result. Their walks may differ in the queries and
the looks at the clock, which are not reported. It goes up from the positions below through a list
of replies (`worstReply_agrees`), a move (`minNode_inStep`), a list of moves (`bestMove_agrees`)
and by induction on the bound to every position (`maxNode_inStep`).
-/

namespace GameSearch.Minimax.AlphaBeta

variable {σ μ α β κ : Type}

/-! ## The checks of a search -/

/-- A search asks whether it is out of budget: at which depth, with the time until when, and
after which walk. -/
structure Check where
  depth : Nat
  limit : Option Int
  walk : Walk
  deriving DecidableEq, Repr

def replyChecks (p : Problem σ μ α) (b : Budget) (below : Visit σ μ)
    (checks : σ → Window → Walk → List Check) (s : σ) :
    List (JointMove μ) → Option (Score μ) → Window → Walk → List Check
  | [], _, _, _ => []
  | joint :: rest, worst, v, w =>
    let (limit, w) := share b (rest.length + 1) v.limit w
    match p.game.next s joint with
    | .error _ => []
    | .ok s' =>
      checks s' { v with limit := limit } w.step ++
        match below s' { v with limit := limit } w.step with
        | .error _ => []
        | .ok (score, w) =>
          let current := keepWorse worst score
          let beta := min v.beta current.value
          if beta ≤ v.alpha then []
          else replyChecks p b below checks s rest (some current) { v with beta := beta } w

def actionChecks (p : Problem σ μ α) (b : Budget) (below : Visit σ μ)
    (checks : σ → Window → Walk → List Check) (s : σ) (action : μ) (v : Window) (w : Walk) :
    List Check :=
  match p.game.replies s p.agent action with
  | .error _ => []
  | .ok joints => replyChecks p b below checks s joints none v w.enter

def moveChecks (b : Budget) (visit : Visit μ μ) (checks : μ → Window → Walk → List Check) :
    List μ → Option (Score μ) → Window → Walk → List Check
  | [], _, _, _ => []
  | action :: rest, best, v, w =>
    let (limit, w) := share b (rest.length + 1) v.limit w
    checks action { v with limit := limit } w ++
      match visit action { v with limit := limit } w with
      | .error _ => []
      | .ok (score, w) =>
        let current := keepBetter best score
        let alpha := max v.alpha current.value
        if v.beta ≤ alpha then []
        else moveChecks b visit checks rest (some current) { v with alpha := alpha } w

def checks (p : Problem σ μ α) (b : Budget) : Nat → Nat → σ → Window → Walk → List Check
  | bound, depth, s, v, w =>
    if p.game.terminal s then []
    else
      ⟨depth, v.limit, w.enter⟩ ::
        match outOfBudget p b depth v.limit w.enter with
        | (true, _) => []
        | (false, w) =>
          match bound with
          | 0 => []
          | bound + 1 =>
            match p.game.legalMoves s p.agent with
            | .error _ => []
            | .ok moves =>
              let below := maxNode p b bound (depth + 1)
              let check := actionChecks p b below (checks p b bound (depth + 1)) s
              moveChecks b (minNode p b below s) check moves none v w

def Check.AsDepth (p : Problem σ μ α) (b : Budget) (limit : Option Nat) (c : Check) : Prop :=
  (outOfBudget p b c.depth c.limit c.walk).1 = (p.withDepth limit).atLimit c.depth

instance (p : Problem σ μ α) (b : Budget) (limit : Option Nat) :
    DecidablePred (Check.AsDepth p b limit) :=
  fun c => inferInstanceAs (Decidable ((outOfBudget p b c.depth c.limit c.walk).1 = _))

/-! ## Walks with the same tally -/

@[simp] theorem share_tally (b : Budget) (n : Nat) (limit : Option Int) (w : Walk) :
    (share b n limit w).2.tally = w.tally := by
  cases limit <;> rfl

@[simp] theorem outOfBudget_tally (p : Problem σ μ α) (b : Budget) (depth : Nat)
    (limit : Option Int) (w : Walk) : (outOfBudget p b depth limit w).2.tally = w.tally := by
  unfold outOfBudget
  split
  · rfl
  · split
    · rfl
    · split
      · rfl
      · split <;> rfl

theorem cutBefore_tally {w w' : Walk} (h : w.tally = w'.tally) (rest : List β) :
    (w.cutBefore rest).tally = (w'.cutBefore rest).tally := by
  cases rest with
  | nil => exact h
  | cons x rest => exact congrArg Tally.cut h

/-- The same result, up to what the walks do not report. A search that is given up may be
compared with one that has a larger bound, where `short` says so. -/
inductive Agrees (short : Prop) :
    Except SearchError (β × Walk) → Except SearchError (β × Walk) → Prop where
  | short (h : short) (r : Except SearchError (β × Walk)) : Agrees short (.error .unfinished) r
  | error (e : SearchError) : Agrees short (.error e) (.error e)
  | ok (found : β) {w w' : Walk} (h : w.tally = w'.tally) :
      Agrees short (.ok (found, w)) (.ok (found, w'))

/-- Where all checks are as they should be, `visit` does what `untimed` does without a limit. -/
def InStep (short : Prop) (Should : Check → Prop) (checks : κ → Window → Walk → List Check)
    (visit untimed : Visit κ μ) : Prop :=
  ∀ (x : κ) (v : Window) (w w' : Walk), (∀ c ∈ checks x v w, Should c) → w.tally = w'.tally →
    Agrees short (visit x v w) (untimed x { v with limit := none } w')

/-! ## From the positions below to a position -/

section

variable {short : Prop} {Should : Check → Prop} {p : Problem σ μ α} {b : Budget}

theorem worstReply_agrees {checks : σ → Window → Walk → List Check} {below untimed : Visit σ μ}
    (hbelow : InStep short Should checks below untimed) (limit : Option Nat) (u : Budget) {s : σ}
    {joints : List (JointMove μ)} {worst : Option (Score μ)} {v : Window} {w w' : Walk}
    (h : ∀ c ∈ replyChecks p b below checks s joints worst v w, Should c)
    (hw : w.tally = w'.tally) :
    Agrees short (worstReply p b below s joints worst v w)
      (worstReply (p.withDepth limit) u untimed s joints worst { v with limit := none } w') := by
  induction joints generalizing worst v w w' with
  | nil => exact .ok worst hw
  | cons joint rest ih =>
    simp only [worstReply, share_none, Problem.withDepth_game]
    simp only [replyChecks] at h
    cases hnext : p.game.next s joint with
    | error e => exact .error (.rule e)
    | ok s' =>
      simp only [hnext, List.forall_mem_append] at h
      obtain ⟨hhere, hrest⟩ := h
      have hfirst := hbelow s' _ _ w'.step hhere ((share_tally ..).trans hw)
      dsimp only at hfirst ⊢
      generalize below s' _ _ = found at hfirst hrest ⊢
      generalize untimed s' _ _ = found' at hfirst ⊢
      cases hfirst with
      | short h => exact .short h _
      | error e => exact .error e
      | ok score hscore =>
        dsimp only at hrest ⊢
        split
        · exact .ok _ (cutBefore_tally hscore rest)
        · rename_i hopen
          rw [if_neg hopen] at hrest
          exact ih hrest hscore

theorem minNode_inStep {checks : σ → Window → Walk → List Check} {below untimed : Visit σ μ}
    (hbelow : InStep short Should checks below untimed) (limit : Option Nat) (u : Budget) (s : σ) :
    InStep short Should (actionChecks p b below checks s) (minNode p b below s)
      (minNode (p.withDepth limit) u untimed s) := by
  intro action v w w' h hw
  simp only [minNode, Problem.withDepth_game, Problem.withDepth_agent]
  unfold actionChecks at h
  cases hjoints : p.game.replies s p.agent action with
  | error e => exact .error (.rule e)
  | ok joints =>
    simp only [hjoints] at h
    have henter : w.enter.tally = w'.enter.tally := congrArg Tally.enter hw
    have hreplies := worstReply_agrees hbelow limit u h henter
    dsimp only
    generalize worstReply p b below s joints none v w.enter = found at hreplies ⊢
    generalize worstReply _ u untimed s joints none _ _ = found' at hreplies ⊢
    cases hreplies with
    | short h => exact .short h _
    | error e => exact .error e
    | ok worst hworst =>
      cases worst with
      | none => exact .error _
      | some score => exact .ok _ hworst

theorem bestMove_agrees {checks : μ → Window → Walk → List Check} {visit untimed : Visit μ μ}
    (hvisit : InStep short Should checks visit untimed) (u : Budget) {moves : List μ}
    {best : Option (Score μ)} {v : Window} {w w' : Walk}
    (h : ∀ c ∈ moveChecks b visit checks moves best v w, Should c) (hw : w.tally = w'.tally) :
    Agrees short (bestMove b visit moves best v w)
      (bestMove u untimed moves best { v with limit := none } w') := by
  induction moves generalizing best v w w' with
  | nil => exact .ok best hw
  | cons action rest ih =>
    simp only [bestMove, share_none]
    simp only [moveChecks, List.forall_mem_append] at h
    obtain ⟨hhere, hrest⟩ := h
    have hfirst := hvisit action _ _ w' hhere ((share_tally ..).trans hw)
    dsimp only at hfirst
    generalize visit action _ _ = found at hfirst hrest ⊢
    generalize untimed action _ _ = found' at hfirst ⊢
    cases hfirst with
    | short h => exact .short h _
    | error e => exact .error e
    | ok score hscore =>
      dsimp only at hrest ⊢
      split
      · exact .ok _ (cutBefore_tally hscore rest)
      · rename_i hopen
        rw [if_neg hopen] at hrest
        exact ih hrest hscore

theorem maxNode_inStep (p : Problem σ μ α) (b : Budget) (limit : Option Nat) (clock : Nat → Int)
    {bound bound' : Nat} (hbound : bound ≤ bound') (hshort : bound ≠ bound' → short)
    (depth : Nat) :
    InStep short (Check.AsDepth p b limit) (checks p b bound depth) (maxNode p b bound depth)
      (maxNode (p.withDepth limit) ⟨.never, clock⟩ bound' depth) := by
  induction bound using Nat.strongRecOn generalizing bound' depth with
  | ind bound ih =>
    intro s v w w' h hw
    have henter : w.enter.tally = w'.enter.tally := congrArg Tally.enter hw
    unfold checks at h
    unfold maxNode
    rw [outOfBudget_never]
    cases hs : p.game.terminal s with
    | true =>
      simp only [hs, Problem.withDepth_game, Problem.withDepth_agent, ↓reduceIte]
      cases p.game.goal s p.agent with
      | error e => exact .error (.rule e)
      | ok value => exact .ok _ (congrArg Tally.exact henter)
    | false =>
      simp only [hs, Bool.false_eq_true, ↓reduceIte, List.forall_mem_cons] at h
      simp only [hs, Problem.withDepth_game, Problem.withDepth_agent, Problem.withDepth_evaluator,
        Bool.false_eq_true, ↓reduceIte]
      obtain ⟨hhere, hbelow⟩ := h
      have htally := (outOfBudget_tally p b depth v.limit w.enter).trans henter
      rw [Check.AsDepth] at hhere
      generalize outOfBudget p b depth v.limit w.enter = out at hhere hbelow htally ⊢
      obtain ⟨out, w₁⟩ := out
      rw [← hhere]
      cases out with
      | true =>
        cases p.evaluator.value s p.agent with
        | error e => exact .error (.rule e)
        | ok value => exact .ok _ (congrArg Tally.estimate htally)
      | false =>
        cases bound with
        | zero =>
          cases bound' with
          | zero => exact .error _
          | succ bound' => exact .short (hshort (Nat.succ_ne_zero bound').symm) _
        | succ bound =>
          obtain ⟨bound', rfl⟩ : ∃ k, bound' = k + 1 := ⟨bound' - 1, by omega⟩
          cases hmoves : p.game.legalMoves s p.agent with
          | error e => exact .error (.rule e)
          | ok moves =>
            simp only [hmoves] at hbelow
            have hposition := ih bound (Nat.lt_succ_self bound) (Nat.le_of_succ_le_succ hbound)
              (fun hne => hshort fun heq => hne (Nat.succ.inj heq)) (depth + 1)
            have hmove := minNode_inStep (p := p) (b := b) hposition limit ⟨.never, clock⟩ s
            have hbest := bestMove_agrees hmove ⟨.never, clock⟩ hbelow htally
            dsimp only at hbest ⊢
            generalize bestMove b _ moves none v w₁ = found at hbest ⊢
            generalize bestMove _ _ moves none _ w'.enter = found' at hbest ⊢
            cases hbest with
            | short h => exact .short h _
            | error e => exact .error e
            | ok best hfound =>
              cases best with
              | none => exact .error _
              | some score => exact .ok _ hfound

end

/-! ## The whole search -/

section

variable {p : Problem σ μ α} {b : Budget} {limit : Option Int} {depthLimit : Option Nat}
  {n bound bound' : Nat} {s : σ}

def searchChecks (p : Problem σ μ α) (b : Budget) (limit : Option Int) (bound : Nat) (s : σ) :
    List Check :=
  checks p b bound 0 s (.full limit) {}

/-- The budget makes no difference where all checks are answered as the depth alone would have
them. A larger bound makes one only where the search is given up. -/
theorem search_eq_of_checks (clock : Nat → Int)
    (h : ∀ c ∈ searchChecks p b limit bound s, c.AsDepth p b depthLimit) (hbound : bound ≤ bound') :
    (search p b limit bound s = .error .unfinished ∧ bound < bound') ∨
      search p b limit bound s = search (p.withDepth depthLimit) ⟨.never, clock⟩ none bound' s := by
  have hrun : Agrees (bound < bound') (run p b limit bound s)
      (run (p.withDepth depthLimit) ⟨.never, clock⟩ none bound' s) :=
    maxNode_inStep p b depthLimit clock hbound (Nat.lt_of_le_of_ne hbound) 0 s _ _ _ h rfl
  unfold search
  generalize run p b limit bound s = found at hrun ⊢
  generalize run (p.withDepth depthLimit) ⟨.never, clock⟩ none bound' s = found' at hrun ⊢
  cases hrun with
  | short h => exact .inl ⟨rfl, h⟩
  | error e => exact .inr rfl
  | ok score htally => simp only [htally, or_true]

theorem search_score_of_checks
    (h : ∀ c ∈ searchChecks p b limit bound s, c.AsDepth p b depthLimit) {report : Report μ}
    (hfull : FullWidth.search (p.withDepth depthLimit) n s = .ok report) :
    (search p b limit bound s = .error .unfinished ∧ bound < n) ∨
      ∃ tally, search p b limit bound s = .ok ⟨report.score, tally⟩ := by
  obtain ⟨hshort, hlt⟩ | heq := search_eq_of_checks (fun _ => 0) h (Nat.le_max_right n bound)
  · exact .inl ⟨hshort, by omega⟩
  · unfold FullWidth.search at hfull
    split at hfull
    · cases hfull
    · rename_i score t hscore
      cases hfull
      obtain ⟨found, w, hfound, hsettles⟩ := maxNode_faithful (fun _ => 0)
        (Nat.le_max_left n bound) 0 s {} t score (.full none) {} hscore (by decide) rfl
      rw [settles_full hsettles] at hfound
      exact .inr ⟨w.tally, by rw [heq]; simp only [search, run, hfound]⟩

end

end GameSearch.Minimax.AlphaBeta
