import GameSearch.Minimax.AlphaBeta

/-!
# GameSearch.Proofs.Minimax.Explored

What a search without a limit on time goes through. `explore` is the search with a record of it:
each position that was entered, with the queries that had begun by then, the moves and replies
that were tried there, and those that were left out. Where the search fails the record is the
question that stopped it. Without the record it is the search (`forget_explore`).

The value of a record (`Explored.exact`) is that of all its moves and replies, where `fill` gives
a value to each place that was left out.
-/

namespace GameSearch.Minimax.AlphaBeta

variable {σ μ α β κ τ : Type}

mutual

/-- A position that was entered, and how many queries had begun by then. -/
inductive Explored (σ μ : Type) where
  | leaf (s : σ) (asked : Nat) (value : Int32)
  | inner (s : σ) (asked : Nat) (moves : TriedMoves σ μ)

inductive TriedMoves (σ μ : Type) where
  | skipped (rest : List μ)
  | tried (action : μ) (replies : TriedReplies σ μ) (rest : TriedMoves σ μ)

inductive TriedReplies (σ μ : Type) where
  | skipped (rest : List (JointMove μ))
  | tried (joint : JointMove μ) (below : Explored σ μ) (rest : TriedReplies σ μ)

end

def Explored.state : Explored σ μ → σ
  | .leaf s _ _ => s
  | .inner s _ _ => s

def Explored.asked : Explored σ μ → Nat
  | .leaf _ asked _ => asked
  | .inner _ asked _ => asked

def TriedMoves.actions : TriedMoves σ μ → List μ
  | .skipped rest => rest
  | .tried action _ rest => action :: rest.actions

def TriedReplies.joints : TriedReplies σ μ → List (JointMove μ)
  | .skipped rest => rest
  | .tried joint _ rest => joint :: rest.joints

mutual

def Explored.entered (depth : Nat) : Explored σ μ → List (Nat × Explored σ μ)
  | .leaf s asked value => [(depth, .leaf s asked value)]
  | .inner s asked moves => (depth, .inner s asked moves) :: moves.entered depth

def TriedMoves.entered (depth : Nat) : TriedMoves σ μ → List (Nat × Explored σ μ)
  | .skipped _ => []
  | .tried _ replies rest => replies.entered depth ++ rest.entered depth

def TriedReplies.entered (depth : Nat) : TriedReplies σ μ → List (Nat × Explored σ μ)
  | .skipped _ => []
  | .tried _ below rest => below.entered (depth + 1) ++ rest.entered depth

end

mutual

def Explored.size : Explored σ μ → Nat
  | .leaf _ _ _ => 1
  | .inner _ _ moves => moves.size + 1

def TriedMoves.size : TriedMoves σ μ → Nat
  | .skipped _ => 0
  | .tried _ replies rest => replies.size + 1 + rest.size

def TriedReplies.size : TriedReplies σ μ → Nat
  | .skipped _ => 0
  | .tried _ below rest => below.size + rest.size

end

/-! ## The value of all moves and replies -/

/-- The best score after moves that were left out, the first of which is the `i`-th. -/
def bestSkipped (fill : List Nat → Int32) : Nat → List μ → Option (Score μ) → Option (Score μ)
  | _, [], best => best
  | i, action :: rest, best =>
    bestSkipped fill (i + 1) rest (some (keepBetter best (.withAction (fill [i]) action)))

def worstSkipped (fill : List Nat → Int32) :
    Nat → List (JointMove μ) → Option (Score μ) → Option (Score μ)
  | _, [], worst => worst
  | j, _ :: rest, worst =>
    worstSkipped fill (j + 1) rest (some (keepWorse worst (.leaf (fill [j]))))

mutual

/-- The best of all moves, each with the worst of all replies. A place that was left out has the
value that `fill` gives to the positions of the moves and replies that lead there. -/
def Explored.exact (fill : List Nat → Int32) : Explored σ μ → Option (Score μ)
  | .leaf _ _ value => some (.leaf value)
  | .inner _ _ moves => moves.best fill 0 none

def TriedMoves.best (fill : List Nat → Int32) (i : Nat) (best : Option (Score μ)) :
    TriedMoves σ μ → Option (Score μ)
  | .skipped rest => bestSkipped fill i rest best
  | .tried action replies rest =>
    match replies.worst (fun path => fill (i :: path)) 0 none with
    | none => none
    | some score => rest.best fill (i + 1) (some (keepBetter best (score.tagged action)))

def TriedReplies.worst (fill : List Nat → Int32) (j : Nat) (worst : Option (Score μ)) :
    TriedReplies σ μ → Option (Score μ)
  | .skipped rest => worstSkipped fill j rest worst
  | .tried _ below rest =>
    match below.exact (fun path => fill (j :: path)) with
    | none => none
    | some score => rest.worst fill (j + 1) (some (keepWorse worst score))

end

/-! ## The search with its record -/

inductive Query (σ μ : Type) where
  | moves (s : σ)
  | replies (s : σ) (action : μ)
  | next (s : σ) (joint : JointMove μ)
  | goal (s : σ)
  | value (s : σ)

def Query.fault (p : Problem σ μ α) : Query σ μ → Option RuleError
  | .moves s =>
    match p.game.legalMoves s p.agent with
    | .error e => some e
    | .ok [] => some (p.game.noLegalMoves s p.agent)
    | .ok _ => none
  | .replies s action =>
    match p.game.replies s p.agent action with
    | .error e => some e
    | .ok [] => some (p.game.noJointMoves s action)
    | .ok _ => none
  | .next s joint =>
    match p.game.next s joint with
    | .error e => some e
    | .ok _ => none
  | .goal s =>
    match p.game.goal s p.agent with
    | .error e => some e
    | .ok _ => none
  | .value s =>
    match p.evaluator.value s p.agent with
    | .error e => some e
    | .ok _ => none

/-- What stops a search. -/
inductive Stop (σ μ : Type) where
  | query (q : Query σ μ) (e : RuleError)
  | tooDeep

def Stop.error : Stop σ μ → SearchError
  | .query _ e => .rule e
  | .tooDeep => .unfinished

abbrev Recorded (σ μ β τ : Type) := Except (Stop σ μ) (β × Walk × τ)

def forget : Recorded σ μ β τ → Except SearchError (β × Walk)
  | .error stop => .error stop.error
  | .ok (found, w, _) => .ok (found, w)

/-- Whether a position below the root is evaluated: the depth tells so, or the interrupt. -/
def isCutOff (p : Problem σ μ α) (i : Interrupt) (depth : Nat) (w : Walk) : Bool :=
  0 < depth && (p.atLimit depth || i.isRaised w.queries)

def exploreReplies (p : Problem σ μ α)
    (below : σ → Window → Walk → Recorded σ μ (Score μ) (Explored σ μ)) (s : σ) :
    List (JointMove μ) → Option (Score μ) → Window → Walk →
      Recorded σ μ (Option (Score μ)) (TriedReplies σ μ)
  | [], worst, _, w => .ok (worst, w, .skipped [])
  | joint :: rest, worst, v, w =>
    match p.game.next s joint with
    | .error e => .error (.query (.next s joint) e)
    | .ok s' =>
      match below s' v w.step with
      | .error stop => .error stop
      | .ok (score, w, x) =>
        let current := keepWorse worst score
        let beta := min v.beta current.value
        if beta ≤ v.alpha then .ok (some current, w.cutBefore rest, .tried joint x (.skipped rest))
        else
          match exploreReplies p below s rest (some current) { v with beta := beta } w with
          | .error stop => .error stop
          | .ok (worst, w, replies) => .ok (worst, w, .tried joint x replies)

def exploreMove (p : Problem σ μ α)
    (below : σ → Window → Walk → Recorded σ μ (Score μ) (Explored σ μ)) (s : σ) (action : μ)
    (v : Window) (w : Walk) : Recorded σ μ (Score μ) (TriedReplies σ μ) :=
  match p.game.replies s p.agent action with
  | .error e => .error (.query (.replies s action) e)
  | .ok joints =>
    match exploreReplies p below s joints none v w.enter with
    | .error stop => .error stop
    | .ok (none, _, _) => .error (.query (.replies s action) (p.game.noJointMoves s action))
    | .ok (some score, w, replies) => .ok (score.tagged action, w, replies)

def exploreMoves (visit : μ → Window → Walk → Recorded σ μ (Score μ) (TriedReplies σ μ)) :
    List μ → Option (Score μ) → Window → Walk →
      Recorded σ μ (Option (Score μ)) (TriedMoves σ μ)
  | [], best, _, w => .ok (best, w, .skipped [])
  | action :: rest, best, v, w =>
    match visit action v w with
    | .error stop => .error stop
    | .ok (score, w, replies) =>
      let current := keepBetter best score
      let alpha := max v.alpha current.value
      if v.beta ≤ alpha then
        .ok (some current, w.cutBefore rest, .tried action replies (.skipped rest))
      else
        match exploreMoves visit rest (some current) { v with alpha := alpha } w with
        | .error stop => .error stop
        | .ok (best, w, moves) => .ok (best, w, .tried action replies moves)

def explore (p : Problem σ μ α) (i : Interrupt) :
    Nat → Nat → σ → Window → Walk → Recorded σ μ (Score μ) (Explored σ μ)
  | bound, depth, s, v, w =>
    if p.game.terminal s then
      match p.game.goal s p.agent with
      | .error e => .error (.query (.goal s) e)
      | .ok value => .ok (.leaf value, w.enter.exact, .leaf s w.queries value)
    else if isCutOff p i depth w then
      match p.evaluator.value s p.agent with
      | .error e => .error (.query (.value s) e)
      | .ok value =>
        .ok (.leaf value, w.enter.estimate (p.evaluator.queries s p.agent),
          .leaf s w.queries value)
    else
      match bound with
      | 0 => .error .tooDeep
      | bound + 1 =>
        match p.game.legalMoves s p.agent with
        | .error e => .error (.query (.moves s) e)
        | .ok moves =>
          let visit := exploreMove p (explore p i bound (depth + 1)) s
          match exploreMoves visit moves none v w.enter with
          | .error stop => .error stop
          | .ok (none, _, _) => .error (.query (.moves s) (p.game.noLegalMoves s p.agent))
          | .ok (some score, w', tried) => .ok (score, w', .inner s w.queries tried)

/-! ## Without the record -/

def Records (explored : κ → Window → Walk → Recorded σ μ (Score μ) τ) (visit : Visit κ μ) : Prop :=
  ∀ x v w, v.limit = none → forget (explored x v w) = visit x v w

section

variable {p : Problem σ μ α} {b : Budget} {v : Window}

theorem forget_exploreReplies {below : σ → Window → Walk → Recorded σ μ (Score μ) (Explored σ μ)}
    {visit : Visit σ μ} (hbelow : Records below visit) (s : σ) (joints : List (JointMove μ))
    (worst : Option (Score μ)) (hv : v.limit = none) (w : Walk) :
    forget (exploreReplies p below s joints worst v w) =
      worstReply p b visit s joints worst v w := by
  induction joints generalizing worst v w with
  | nil => rfl
  | cons joint rest ih =>
    have hlimit : { v with limit := none } = v := by rw [← hv]
    simp only [exploreReplies, worstReply, hv, share, hlimit]
    cases p.game.next s joint with
    | error e => rfl
    | ok s' =>
      dsimp only
      rw [← hbelow s' v w.step hv]
      cases below s' v w.step with
      | error stop => rfl
      | ok found =>
        obtain ⟨score, w', x⟩ := found
        by_cases hcut : min v.beta (keepWorse worst score).value ≤ v.alpha
        · simp only [forget, if_pos hcut]
        · simp only [forget, if_neg hcut]
          have hrest := ih (v := { v with beta := min v.beta (keepWorse worst score).value })
            (some (keepWorse worst score)) hv w'
          rw [hv] at hrest
          rw [← hrest]
          cases exploreReplies p below s rest _ _ w' <;> rfl

theorem forget_exploreMove {below : σ → Window → Walk → Recorded σ μ (Score μ) (Explored σ μ)}
    {visit : Visit σ μ} (hbelow : Records below visit) (s : σ) :
    Records (exploreMove p below s) (minNode p b visit s) := by
  intro action v w hv
  unfold exploreMove minNode
  cases p.game.replies s p.agent action with
  | error e => rfl
  | ok joints =>
    dsimp only
    rw [← forget_exploreReplies hbelow s joints none hv]
    cases exploreReplies p below s joints none v w.enter with
    | error stop => rfl
    | ok found =>
      obtain ⟨worst, w', replies⟩ := found
      cases worst <;> rfl

theorem forget_exploreMoves
    {explored : μ → Window → Walk → Recorded σ μ (Score μ) (TriedReplies σ μ)} {visit : Visit μ μ}
    (hvisit : Records explored visit) (moves : List μ) (best : Option (Score μ))
    (hv : v.limit = none) (w : Walk) :
    forget (exploreMoves explored moves best v w) = bestMove b visit moves best v w := by
  induction moves generalizing best v w with
  | nil => rfl
  | cons action rest ih =>
    have hlimit : { v with limit := none } = v := by rw [← hv]
    simp only [exploreMoves, bestMove, hv, share, hlimit]
    rw [← hvisit action v w hv]
    cases explored action v w with
    | error stop => rfl
    | ok found =>
      obtain ⟨score, w', replies⟩ := found
      by_cases hcut : v.beta ≤ max v.alpha (keepBetter best score).value
      · simp only [forget, if_pos hcut]
      · simp only [forget, if_neg hcut]
        have hrest := ih (v := { v with alpha := max v.alpha (keepBetter best score).value })
          (some (keepBetter best score)) hv w'
        rw [hv] at hrest
        rw [← hrest]
        cases exploreMoves explored rest _ _ w' <;> rfl

theorem outOfBudget_untimed (depth : Nat) (w : Walk) :
    outOfBudget p b depth none w = (isCutOff p b.interrupt depth w, w) := by
  by_cases hdepth : depth = 0
  · simp [outOfBudget, isCutOff, hdepth]
  · cases hlimit : p.atLimit depth <;>
      simp [outOfBudget, isCutOff, hdepth, hlimit, Nat.pos_of_ne_zero hdepth]

/-- The search itself knows nothing of the record. -/
theorem forget_explore (bound depth : Nat) :
    Records (explore p b.interrupt bound depth) (maxNode p b bound depth) := by
  induction bound using Nat.strongRecOn generalizing depth with
  | ind bound ih =>
    intro s v w hv
    have hcutoff : isCutOff p b.interrupt depth w.enter = isCutOff p b.interrupt depth w := rfl
    unfold explore maxNode
    rw [hv, outOfBudget_untimed, hcutoff]
    cases p.game.terminal s with
    | true =>
      cases p.game.goal s p.agent <;> rfl
    | false =>
      cases isCutOff p b.interrupt depth w with
      | true =>
        cases p.evaluator.value s p.agent <;> rfl
      | false =>
        cases bound with
        | zero => rfl
        | succ bound =>
          cases p.game.legalMoves s p.agent with
          | error e => rfl
          | ok moves =>
            have hbelow := ih bound (Nat.lt_succ_self bound) (depth + 1)
            have hmove := forget_exploreMove (p := p) (b := b) hbelow s
            have hmoves := forget_exploreMoves (b := b) hmove moves none hv w.enter
            simp only [Bool.false_eq_true, ↓reduceIte]
            rw [← hmoves]
            cases exploreMoves (exploreMove p (explore p b.interrupt bound (depth + 1)) s) moves
              none v w.enter with
            | error stop => rfl
            | ok found =>
              obtain ⟨best, w', tried⟩ := found
              cases best <;> rfl

end

end GameSearch.Minimax.AlphaBeta
