import GameSearch.Proofs.Minimax.Explored
import GameSearch.Proofs.Minimax.Window
import GameSearch.TicTacToe.Rules
import Mathlib.Control.Monad.Basic

/-!
# GameSearch.Proofs.Minimax.Anytime

What a search without a limit on time has found, whenever it is interrupted. `Explained` says of a
recorded search that it stops only for a reason and that its answer is the one its record gives,
whatever the places that were left out are worth. It goes up from the positions below through a
list of replies (`exploreReplies_outcome`), a move (`exploreMove_outcome`), a list of moves
(`exploreMoves_outcome`) and by induction on the bound to every position (`explore_outcome`).

* `search_anytime`: why a search fails, and what holds of its answer.
-/

namespace GameSearch.Minimax.AlphaBeta

variable {σ μ α β κ τ : Type} {p : Problem σ μ α} {i : Interrupt}

/-! ## What a record says -/

def TriedReplies.Follow (p : Problem σ μ α) (s : σ) : TriedReplies σ μ → Prop
  | .skipped _ => True
  | .tried joint below rest => p.game.next s joint = .ok below.state ∧ rest.Follow p s

def TriedMoves.Follow (p : Problem σ μ α) (s : σ) : TriedMoves σ μ → Prop
  | .skipped _ => True
  | .tried action replies rest =>
    p.game.replies s p.agent action = .ok replies.joints ∧ replies.Follow p s ∧ rest.Follow p s

/-- What becomes of a position that is entered at some depth. -/
inductive Entered (p : Problem σ μ α) (i : Interrupt) (depth : Nat) : Explored σ μ → Prop where
  | goal {s : σ} {asked : Nat} {value : Int32} : p.game.terminal s = true →
      p.game.goal s p.agent = .ok value → Entered p i depth (.leaf s asked value)
  | estimate {s : σ} {asked : Nat} {value : Int32} : p.game.terminal s = false → 0 < depth →
      p.atLimit depth = true ∨ i.isRaised asked = true →
      p.evaluator.value s p.agent = .ok value → Entered p i depth (.leaf s asked value)
  | searched {s : σ} {asked : Nat} {moves : TriedMoves σ μ} : p.game.terminal s = false →
      depth = 0 ∨ p.atLimit depth = false ∧ i.isRaised asked = false →
      p.game.legalMoves s p.agent = .ok moves.actions → moves.Follow p s →
      Entered p i depth (.inner s asked moves)

/-- A stretch of a search: the positions that it entered, and how many of them there are, those
after the agent's move included. -/
structure Stretch (p : Problem σ μ α) (i : Interrupt) (w w' : Walk) (size : Nat)
    (entered : List (Nat × Explored σ μ)) : Prop where
  queries_le : w.queries ≤ w'.queries
  nodes_eq : w'.tally.nodes = w.tally.nodes + size
  each : ∀ depth x, (depth, x) ∈ entered → Entered p i depth x

/-- Why a search may stop without an answer: a question has none, or the search is at a position
`deep` units below the root that has to be searched after `asked` queries. -/
def Stop.Justified (p : Problem σ μ α) (i : Interrupt) (deep asked : Nat) : Stop σ μ → Prop
  | .query q e => q.fault p = some e
  | .tooDeep => deep = 0 ∨ p.atLimit deep = false ∧ i.isRaised asked = false

inductive Outcome (S : Stop σ μ → Prop) (P : β → Walk → τ → Prop) : Recorded σ μ β τ → Prop where
  | stopped {stop : Stop σ μ} : S stop → Outcome S P (.error stop)
  | answered {found : β} {w : Walk} {x : τ} : P found w x → Outcome S P (.ok (found, w, x))

section

variable {w w₁ w₂ : Walk} {m n deep asked asked' : Nat} {xs ys : List (Nat × Explored σ μ)}

theorem Stretch.none (hqueries : w.queries ≤ w₁.queries)
    (hnodes : w₁.tally.nodes = w.tally.nodes + n) : Stretch p i w w₁ n [] :=
  ⟨hqueries, hnodes, nofun⟩

theorem Stretch.cut {ε : Type} (rest : List ε) : Stretch p i w (w.cutBefore rest) 0 [] := by
  unfold Walk.cutBefore
  split
  · exact .none (Nat.le_refl _) rfl
  · exact .none (Nat.le_refl _) rfl

theorem Stretch.single {depth : Nat} {x : Explored σ μ} (hx : Entered p i depth x)
    (hqueries : w.queries ≤ w₁.queries) (hnodes : w₁.tally.nodes = w.tally.nodes + 1) :
    Stretch p i w w₁ 1 [(depth, x)] := by
  refine ⟨hqueries, hnodes, fun depth' x' hx' => ?_⟩
  cases List.mem_singleton.1 hx'
  exact hx

theorem Stretch.append (h₁ : Stretch p i w w₁ m xs) (h₂ : Stretch p i w₁ w₂ n ys) :
    Stretch p i w w₂ (m + n) (xs ++ ys) := by
  refine ⟨Nat.le_trans h₁.queries_le h₂.queries_le, ?_, fun depth x hx => ?_⟩
  · rw [h₂.nodes_eq, h₁.nodes_eq, Nat.add_assoc]
  · rcases List.mem_append.1 hx with hx | hx
    · exact h₁.each depth x hx
    · exact h₂.each depth x hx

theorem Stop.Justified.mono {stop : Stop σ μ} (h : stop.Justified p i deep asked')
    (hle : asked ≤ asked') : stop.Justified p i deep asked := by
  cases stop with
  | query q e => exact h
  | tooDeep =>
    refine h.imp_right fun ⟨hlimit, hraised⟩ => ⟨hlimit, ?_⟩
    rw [← Bool.not_eq_true] at hraised ⊢
    exact fun hr => hraised (Interrupt.isRaised_mono hr hle)

end

/-! ## What is left out -/

theorem bestSkipped_some (fill : List Nat → Int32) (k : Nat) (moves : List μ) (best : Score μ) :
    ∃ last, bestSkipped fill k moves (some best) = some last ∧
      (last = best ∨ best.value < last.value) := by
  induction moves generalizing k best with
  | nil => exact ⟨best, rfl, .inl rfl⟩
  | cons action rest ih =>
    obtain ⟨last, hlast, h⟩ := ih (k + 1) (best.betterOf (.withAction (fill [k]) action))
    refine ⟨last, hlast, ?_⟩
    grind [Score.betterOf]

theorem worstSkipped_some (fill : List Nat → Int32) (k : Nat) (joints : List (JointMove μ))
    (worst : Score μ) :
    ∃ last, worstSkipped fill k joints (some worst) = some last ∧
      (last = worst ∨ last.value < worst.value) := by
  induction joints generalizing k worst with
  | nil => exact ⟨worst, rfl, .inl rfl⟩
  | cons joint rest ih =>
    obtain ⟨last, hlast, h⟩ := ih (k + 1) (worst.worseOf (.leaf (fill [k])))
    refine ⟨last, hlast, ?_⟩
    grind [Score.worseOf]

/-! ## The move of a record -/

theorem keepBetter_eq (best : Option (Score μ)) (score : Score μ) :
    keepBetter best score = score ∨ best = some (keepBetter best score) := by
  cases best with
  | none => exact .inl rfl
  | some best =>
    simp only [keepBetter, Score.betterOf]
    split
    · exact .inl rfl
    · exact .inr rfl

theorem bestSkipped_action {fill : List Nat → Int32} {k : Nat} {moves : List μ}
    {best : Option (Score μ)} {score : Score μ} (h : bestSkipped fill k moves best = some score) :
    best = some score ∨ ∃ action ∈ moves, score.action = some action := by
  induction moves generalizing k best with
  | nil => exact .inl h
  | cons action rest ih =>
    rcases ih h with hbest | ⟨other, hmem, haction⟩
    · cases hbest
      refine (keepBetter_eq best (.withAction (fill [k]) action)).symm.imp_right fun heq => ?_
      exact ⟨action, List.mem_cons_self, by rw [heq]; rfl⟩
    · exact .inr ⟨other, List.mem_cons_of_mem action hmem, haction⟩

theorem TriedMoves.best_action {fill : List Nat → Int32} {k : Nat} {best : Option (Score μ)}
    {score : Score μ} : (moves : TriedMoves σ μ) → moves.best fill k best = some score →
      best = some score ∨ ∃ action ∈ moves.actions, score.action = some action
  | .skipped rest, h => bestSkipped_action h
  | .tried action replies rest, h => by
    rw [TriedMoves.best] at h
    split at h
    · cases h
    · rename_i worst hworst
      rcases rest.best_action h with hbest | ⟨other, hmem, haction⟩
      · cases hbest
        refine (keepBetter_eq best (worst.tagged action)).symm.imp_right fun heq => ?_
        exact ⟨action, List.mem_cons_self, by rw [heq]; rfl⟩
      · exact .inr ⟨other, List.mem_cons_of_mem action hmem, haction⟩

/-! ## From the positions below to a position -/

/-- In every open window, `explored` gives an answer of which `P` holds, or it stops with good
reason. -/
def Explained (p : Problem σ μ α) (i : Interrupt) (deep bound : Nat)
    (P : κ → Window → Walk → β → Walk → τ → Prop)
    (explored : κ → Window → Walk → Recorded σ μ β τ) : Prop :=
  ∀ x v w, v.alpha < v.beta →
    Outcome (Stop.Justified p i deep (w.queries + bound)) (P x v w) (explored x v w)

/-- The answer for a position settles the score of its record, whatever is filled in. -/
structure PositionFound (p : Problem σ μ α) (i : Interrupt) (depth : Nat) (s : σ) (v : Window)
    (w : Walk) (score : Score μ) (w' : Walk) (x : Explored σ μ) : Prop where
  state_eq : x.state = s
  stretch : Stretch p i w w' x.size (x.entered depth)
  settles : ∀ fill, ∃ full, x.exact fill = some full ∧ v.Settles score full

/-- The worst reply so far, after some more. -/
structure RepliesFound (p : Problem σ μ α) (i : Interrupt) (depth : Nat) (s : σ)
    (joints : List (JointMove μ)) (worst : Option (Score μ)) (v : Window) (w : Walk)
    (worst' : Option (Score μ)) (w' : Walk) (replies : TriedReplies σ μ) : Prop where
  joints_eq : replies.joints = joints
  follow : replies.Follow p s
  stretch : Stretch p i w w' replies.size (replies.entered depth)
  isNone : worst' = none → worst = none ∧ joints = []
  settles : ∀ fill j v₀ full, Falling v₀ worst full v →
    Option.Rel v₀.Settles worst' (replies.worst fill j full)

structure MoveFound (p : Problem σ μ α) (i : Interrupt) (depth : Nat) (s : σ) (action : μ)
    (v : Window) (w : Walk) (score : Score μ) (w' : Walk) (replies : TriedReplies σ μ) : Prop where
  replies_eq : p.game.replies s p.agent action = .ok replies.joints
  follow : replies.Follow p s
  stretch : Stretch p i w w' (replies.size + 1) (replies.entered depth)
  settles : ∀ fill, ∃ full, replies.worst fill 0 none = some full ∧
    v.Settles score (full.tagged action)

/-- The best move so far, after some more. -/
structure MovesFound (p : Problem σ μ α) (i : Interrupt) (depth : Nat) (s : σ)
    (actions : List μ) (best : Option (Score μ)) (v : Window) (w : Walk)
    (best' : Option (Score μ)) (w' : Walk) (moves : TriedMoves σ μ) : Prop where
  actions_eq : moves.actions = actions
  follow : moves.Follow p s
  stretch : Stretch p i w w' moves.size (moves.entered depth)
  isNone : best' = none → best = none ∧ actions = []
  settles : ∀ fill j v₀ full, Rising v₀ best full v →
    Option.Rel v₀.Settles best' (moves.best fill j full)

theorem exists_of_rel_some {r : Score μ → Score μ → Prop} {score : Score μ}
    {full : Option (Score μ)} (h : Option.Rel r (some score) full) :
    ∃ score', full = some score' ∧ r score score' := by
  cases h with
  | some h => exact ⟨_, rfl, h⟩

theorem TriedReplies.worst_tried {fill : List Nat → Int32} {j : Nat} {joint : JointMove μ}
    {below : Explored σ μ} {score : Score μ}
    (h : below.exact (fun path => fill (j :: path)) = some score) (worst : Option (Score μ))
    (rest : TriedReplies σ μ) :
    (TriedReplies.tried joint below rest).worst fill j worst =
      rest.worst fill (j + 1) (some (keepWorse worst score)) := by
  rw [TriedReplies.worst, h]

section

variable {depth : Nat} {s s' : σ} {joint : JointMove μ} {rest : List (JointMove μ)}
  {worst worst' : Option (Score μ)} {v : Window} {w w₁ w₂ : Walk} {score : Score μ}
  {x : Explored σ μ} {replies : TriedReplies σ μ}

theorem PositionFound.stretch_step (hx : PositionFound p i (depth + 1) s' v w.step score w₁ x) :
    Stretch p i w w₁ x.size (x.entered (depth + 1)) := by
  have hstep : Stretch p i w w.step 0 ([] : List (Nat × Explored σ μ)) :=
    .none (Nat.le_succ w.queries) rfl
  have h := hstep.append hx.stretch
  rwa [Nat.zero_add, List.nil_append] at h

/-- A reply that closes the window. Those that are left out can only lower the score further. -/
theorem RepliesFound.cut (hx : PositionFound p i (depth + 1) s' v w.step score w₁ x)
    (hnext : p.game.next s joint = .ok s')
    (hcut : min v.beta (keepWorse worst score).value ≤ v.alpha) :
    RepliesFound p i depth s (joint :: rest) worst v w (some (keepWorse worst score))
      (w₁.cutBefore rest) (.tried joint x (.skipped rest)) := by
  refine ⟨rfl, ⟨hx.state_eq ▸ hnext, trivial⟩, hx.stretch_step.append (.cut rest),
    fun hnone => absurd hnone (Option.some_ne_none _), ?_⟩
  intro fill j v₀ full hfull
  obtain ⟨score', hscore', hs⟩ := hx.settles fun path => fill (j :: path)
  obtain ⟨last, hlast, hle⟩ := worstSkipped_some fill (j + 1) rest (keepWorse full score')
  rw [TriedReplies.worst_tried hscore', TriedReplies.worst, hlast]
  exact .some (hfull.cut hs hcut hle)

theorem RepliesFound.cons (hx : PositionFound p i (depth + 1) s' v w.step score w₁ x)
    (hnext : p.game.next s joint = .ok s')
    (hopen : ¬min v.beta (keepWorse worst score).value ≤ v.alpha)
    (h : RepliesFound p i depth s rest (some (keepWorse worst score))
      { v with beta := min v.beta (keepWorse worst score).value } w₁ worst' w₂ replies) :
    RepliesFound p i depth s (joint :: rest) worst v w worst' w₂ (.tried joint x replies) := by
  refine ⟨?_, ⟨hx.state_eq ▸ hnext, h.follow⟩, hx.stretch_step.append h.stretch,
    fun hnone => ?_, ?_⟩
  · rw [TriedReplies.joints, h.joints_eq]
  · cases (h.isNone hnone).1
  · intro fill j v₀ full hfull
    obtain ⟨score', hscore', hs⟩ := hx.settles fun path => fill (j :: path)
    rw [TriedReplies.worst_tried hscore']
    exact h.settles fill (j + 1) v₀ _ (hfull.keep hs hopen)

end

theorem exploreReplies_outcome {deep bound depth : Nat}
    {below : σ → Window → Walk → Recorded σ μ (Score μ) (Explored σ μ)}
    (hbelow : Explained p i deep bound (PositionFound p i (depth + 1)) below)
    (s : σ) (joints : List (JointMove μ)) (worst : Option (Score μ)) {v : Window}
    (hv : v.alpha < v.beta) (w : Walk) :
    Outcome (Stop.Justified p i deep (w.queries + (bound + 1)))
      (RepliesFound p i depth s joints worst v w) (exploreReplies p below s joints worst v w) := by
  induction joints generalizing worst v w with
  | nil =>
    refine .answered ⟨rfl, trivial, .none (Nat.le_refl _) rfl, fun h => ⟨h, rfl⟩, ?_⟩
    intro fill j v₀ full hfull
    exact hfull.last
  | cons joint rest ih =>
    simp only [exploreReplies]
    cases hnext : p.game.next s joint with
    | error e =>
      refine .stopped ?_
      simp only [Stop.Justified, Query.fault, hnext]
    | ok s' =>
      have hfirst := hbelow s' v w.step hv
      dsimp only
      generalize below s' v w.step = first at hfirst ⊢
      cases hfirst with
      | stopped hstop =>
        -- the query for the position makes up for the depth that is left below it
        refine .stopped (hstop.mono ?_)
        exact Nat.le_of_eq (by simp only [Walk.step]; omega)
      | @answered score w₁ x hx =>
        dsimp only
        by_cases hcut : min v.beta (keepWorse worst score).value ≤ v.alpha
        · rw [if_pos hcut]
          exact .answered (.cut hx hnext hcut)
        · rw [if_neg hcut]
          have hopen : v.alpha < min v.beta (keepWorse worst score).value := Int32.not_le.1 hcut
          have hrest := ih (some (keepWorse worst score))
            (v := { v with beta := min v.beta (keepWorse worst score).value }) hopen w₁
          generalize exploreReplies p below s rest _ _ w₁ = others at hrest ⊢
          cases hrest with
          | stopped hstop =>
            have hle := Nat.add_le_add_right hx.stretch_step.queries_le (bound + 1)
            exact .stopped (hstop.mono hle)
          | answered hreplies => exact .answered (.cons hx hnext hcut hreplies)

theorem MoveFound.of_replies {depth : Nat} {s : σ} {action : μ} {joints : List (JointMove μ)}
    {v : Window} {w w' : Walk} {score : Score μ} {replies : TriedReplies σ μ}
    (hjoints : p.game.replies s p.agent action = .ok joints) (hv : v.alpha < v.beta)
    (h : RepliesFound p i depth s joints none v w.enter (some score) w' replies) :
    MoveFound p i depth s action v w (score.tagged action) w' replies := by
  have henter : Stretch p i w w.enter 1 ([] : List (Nat × Explored σ μ)) :=
    .none (Nat.le_refl _) rfl
  have hw := henter.append h.stretch
  rw [Nat.add_comm, List.nil_append] at hw
  refine ⟨h.joints_eq ▸ hjoints, h.follow, hw, fun fill => ?_⟩
  obtain ⟨full, hfull, hs⟩ := exists_of_rel_some (h.settles fill 0 v none (.start hv))
  exact ⟨full, hfull, hs.tagged action⟩

theorem exploreMove_outcome {deep bound depth : Nat}
    {below : σ → Window → Walk → Recorded σ μ (Score μ) (Explored σ μ)}
    (hbelow : Explained p i deep bound (PositionFound p i (depth + 1)) below) (s : σ) :
    Explained p i deep (bound + 1) (MoveFound p i depth s) (exploreMove p below s) := by
  intro action v w hv
  unfold exploreMove
  cases hjoints : p.game.replies s p.agent action with
  | error e =>
    refine .stopped ?_
    simp only [Stop.Justified, Query.fault, hjoints]
  | ok joints =>
    have hreplies := exploreReplies_outcome hbelow s joints none hv w.enter
    dsimp only
    generalize exploreReplies p below s joints none v w.enter = found at hreplies ⊢
    cases hreplies with
    | stopped hstop => exact .stopped hstop
    | @answered worst w' replies h =>
      cases worst with
      | none =>
        obtain ⟨-, rfl⟩ := h.isNone rfl
        refine .stopped ?_
        simp only [Stop.Justified, Query.fault, hjoints]
      | some score => exact .answered (.of_replies hjoints hv h)

theorem TriedMoves.best_tried {fill : List Nat → Int32} {j : Nat} {action : μ}
    {replies : TriedReplies σ μ} {score : Score μ}
    (h : replies.worst (fun path => fill (j :: path)) 0 none = some score)
    (best : Option (Score μ)) (rest : TriedMoves σ μ) :
    (TriedMoves.tried action replies rest).best fill j best =
      rest.best fill (j + 1) (some (keepBetter best (score.tagged action))) := by
  rw [TriedMoves.best, h]

section

variable {depth : Nat} {s : σ} {action : μ} {rest : List μ} {best best' : Option (Score μ)}
  {v : Window} {w w₁ w₂ : Walk} {score : Score μ} {replies : TriedReplies σ μ}
  {moves : TriedMoves σ μ}

/-- A move that closes the window. Those that are left out can only raise the score further. -/
theorem MovesFound.cut (hx : MoveFound p i depth s action v w score w₁ replies)
    (hcut : v.beta ≤ max v.alpha (keepBetter best score).value) :
    MovesFound p i depth s (action :: rest) best v w (some (keepBetter best score))
      (w₁.cutBefore rest) (.tried action replies (.skipped rest)) := by
  refine ⟨rfl, ⟨hx.replies_eq, hx.follow, trivial⟩, hx.stretch.append (.cut rest),
    fun hnone => absurd hnone (Option.some_ne_none _), ?_⟩
  intro fill j v₀ full hfull
  obtain ⟨score', hscore', hs⟩ := hx.settles fun path => fill (j :: path)
  obtain ⟨last, hlast, hle⟩ :=
    bestSkipped_some fill (j + 1) rest (keepBetter full (score'.tagged action))
  rw [TriedMoves.best_tried hscore', TriedMoves.best, hlast]
  exact .some (hfull.cut hs hcut hle)

theorem MovesFound.cons (hx : MoveFound p i depth s action v w score w₁ replies)
    (hopen : ¬v.beta ≤ max v.alpha (keepBetter best score).value)
    (h : MovesFound p i depth s rest (some (keepBetter best score))
      { v with alpha := max v.alpha (keepBetter best score).value } w₁ best' w₂ moves) :
    MovesFound p i depth s (action :: rest) best v w best' w₂ (.tried action replies moves) := by
  refine ⟨?_, ⟨hx.replies_eq, hx.follow, h.follow⟩, hx.stretch.append h.stretch,
    fun hnone => ?_, ?_⟩
  · rw [TriedMoves.actions, h.actions_eq]
  · cases (h.isNone hnone).1
  · intro fill j v₀ full hfull
    obtain ⟨score', hscore', hs⟩ := hx.settles fun path => fill (j :: path)
    rw [TriedMoves.best_tried hscore']
    exact h.settles fill (j + 1) v₀ _ (hfull.keep hs hopen)

end

theorem exploreMoves_outcome {deep bound depth : Nat} {s : σ}
    {visit : μ → Window → Walk → Recorded σ μ (Score μ) (TriedReplies σ μ)}
    (hvisit : Explained p i deep bound (MoveFound p i depth s) visit) (actions : List μ)
    (best : Option (Score μ)) {v : Window} (hv : v.alpha < v.beta) (w : Walk) :
    Outcome (Stop.Justified p i deep (w.queries + bound))
      (MovesFound p i depth s actions best v w) (exploreMoves visit actions best v w) := by
  induction actions generalizing best v w with
  | nil =>
    refine .answered ⟨rfl, trivial, .none (Nat.le_refl _) rfl, fun h => ⟨h, rfl⟩, ?_⟩
    intro fill j v₀ full hfull
    exact hfull.last
  | cons action rest ih =>
    have hfirst := hvisit action v w hv
    simp only [exploreMoves]
    generalize visit action v w = first at hfirst ⊢
    cases hfirst with
    | stopped hstop => exact .stopped hstop
    | @answered score w₁ replies hx =>
      dsimp only
      by_cases hcut : v.beta ≤ max v.alpha (keepBetter best score).value
      · rw [if_pos hcut]
        exact .answered (.cut hx hcut)
      · rw [if_neg hcut]
        have hopen : max v.alpha (keepBetter best score).value < v.beta := Int32.not_le.1 hcut
        have hrest := ih (some (keepBetter best score))
          (v := { v with alpha := max v.alpha (keepBetter best score).value }) hopen w₁
        generalize exploreMoves visit rest _ _ w₁ = others at hrest ⊢
        cases hrest with
        | stopped hstop =>
          have hle := Nat.add_le_add_right hx.stretch.queries_le bound
          exact .stopped (hstop.mono hle)
        | answered hmoves => exact .answered (.cons hx hcut hmoves)

theorem isCutOff_eq_true {depth : Nat} {w : Walk} :
    isCutOff p i depth w = true ↔
      0 < depth ∧ (p.atLimit depth = true ∨ i.isRaised w.queries = true) := by
  simp [isCutOff]

theorem isCutOff_eq_false {depth : Nat} {w : Walk} :
    isCutOff p i depth w = false ↔
      depth = 0 ∨ p.atLimit depth = false ∧ i.isRaised w.queries = false := by
  cases depth <;> simp [isCutOff]

theorem PositionFound.of_moves {depth : Nat} {s : σ} {actions : List μ} {v : Window}
    {w w' : Walk} {score : Score μ} {moves : TriedMoves σ μ} (hterminal : p.game.terminal s = false)
    (hreason : depth = 0 ∨ p.atLimit depth = false ∧ i.isRaised w.queries = false)
    (hlegal : p.game.legalMoves s p.agent = .ok actions) (hv : v.alpha < v.beta)
    (h : MovesFound p i depth s actions none v w.enter (some score) w' moves) :
    PositionFound p i depth s v w score w' (.inner s w.queries moves) := by
  have henter : Stretch p i w w.enter 1 [(depth, .inner s w.queries moves)] :=
    .single (.searched hterminal hreason (h.actions_eq ▸ hlegal) h.follow) (Nat.le_refl _) rfl
  have hw := henter.append h.stretch
  rw [Nat.add_comm] at hw
  refine ⟨rfl, hw, fun fill => ?_⟩
  exact exists_of_rel_some (h.settles fill 0 v none (.start hv))

/-- By induction on the bound, which is what is left of the depth. -/
theorem explore_outcome (p : Problem σ μ α) (i : Interrupt) (bound depth : Nat) :
    Explained p i (bound + depth) bound (PositionFound p i depth) (explore p i bound depth) := by
  induction bound using Nat.strongRecOn generalizing depth with
  | ind bound ih =>
    intro s v w hv
    unfold explore
    cases hterminal : p.game.terminal s with
    | true =>
      simp only [↓reduceIte]
      cases hgoal : p.game.goal s p.agent with
      | error e =>
        refine .stopped ?_
        simp only [Stop.Justified, Query.fault, hgoal]
      | ok value =>
        exact .answered ⟨rfl, .single (.goal hterminal hgoal) (Nat.le_succ _) rfl,
          fun fill => ⟨_, rfl, .same rfl⟩⟩
    | false =>
      simp only [Bool.false_eq_true, ↓reduceIte]
      cases hcutoff : isCutOff p i depth w with
      | true =>
        obtain ⟨hdepth, hreason⟩ := isCutOff_eq_true.1 hcutoff
        cases hvalue : p.evaluator.value s p.agent with
        | error e =>
          refine .stopped ?_
          simp only [Stop.Justified, Query.fault, hvalue]
        | ok value =>
          exact .answered ⟨rfl, .single (.estimate hterminal hdepth hreason hvalue)
            (Nat.le_add_right _ _) rfl, fun fill => ⟨_, rfl, .same rfl⟩⟩
      | false =>
        have hreason := isCutOff_eq_false.1 hcutoff
        simp only [Bool.false_eq_true, ↓reduceIte]
        cases bound with
        | zero =>
          refine .stopped ?_
          rwa [Stop.Justified, Nat.zero_add, Nat.add_zero]
        | succ bound =>
          cases hlegal : p.game.legalMoves s p.agent with
          | error e =>
            refine .stopped ?_
            simp only [Stop.Justified, Query.fault, hlegal]
          | ok moves =>
            have hdeep : bound + 1 + depth = bound + (depth + 1) := by omega
            have hbelow := ih bound (Nat.lt_succ_self bound) (depth + 1)
            have hmoves := exploreMoves_outcome (exploreMove_outcome hbelow s) moves none hv w.enter
            rw [hdeep]
            dsimp only
            generalize exploreMoves (exploreMove p (explore p i bound (depth + 1)) s) moves none v
              w.enter = found at hmoves ⊢
            cases hmoves with
            | stopped hstop => exact .stopped hstop
            | @answered best w' tried h =>
              cases best with
              | none =>
                obtain ⟨-, rfl⟩ := h.isNone rfl
                refine .stopped ?_
                simp only [Stop.Justified, Query.fault, hlegal]
              | some score => exact .answered (.of_moves hterminal hreason hlegal hv h)

/-! ## The whole search -/

theorem Entered.goal_of_terminal {depth : Nat} {x : Explored σ μ} (h : Entered p i depth x)
    (hterminal : p.game.terminal x.state = true) :
    ∃ value, p.game.goal x.state p.agent = .ok value ∧ x = .leaf x.state x.asked value := by
  cases h with
  | goal _ hgoal => exact ⟨_, hgoal, rfl⟩
  | estimate hn => cases hn.symm.trans hterminal
  | searched hn => cases hn.symm.trans hterminal

theorem Entered.leaf_of_raised {depth : Nat} {x : Explored σ μ} (h : Entered p i depth x)
    (hdepth : 0 < depth) (hraised : i.isRaised x.asked = true) :
    ∃ value, x = .leaf x.state x.asked value := by
  cases h with
  | goal => exact ⟨_, rfl⟩
  | estimate => exact ⟨_, rfl⟩
  | searched _ hreason =>
    rcases hreason with rfl | ⟨_, hquiet⟩
    · exact absurd hdepth (Nat.lt_irrefl 0)
    · cases hquiet.symm.trans hraised

theorem PositionFound.exists_action {v : Window} {w w' : Walk} {s : σ} {score : Score μ}
    {x : Explored σ μ} (h : PositionFound p i 0 s v w score w' x)
    (hs : p.game.terminal s = false) {fill : List Nat → Int32} (hfull : x.exact fill = some score) :
    ∃ moves action, p.game.legalMoves s p.agent = .ok moves ∧ action ∈ moves ∧
      score.action = some action := by
  have hroot := h.state_eq
  cases x with
  | leaf s' asked value =>
    cases hroot
    cases h.stretch.each 0 _ List.mem_cons_self with
    | goal hterminal => cases hs.symm.trans hterminal
    | estimate _ hdepth => exact absurd hdepth (Nat.lt_irrefl 0)
  | inner s' asked moves =>
    cases hroot
    cases h.stretch.each 0 _ List.mem_cons_self with
    | searched _ _ hlegal _ =>
      obtain ⟨action, hmem, haction⟩ := (moves.best_action hfull).resolve_left nofun
      exact ⟨moves.actions, action, hlegal, hmem, haction⟩

/-- A search that does not answer has asked a question that has no answer or an empty one, or its
bound was too small for both the depth limit and the interrupt to end it. Otherwise its move is
legal. Each position that it entered is as `Entered` says: a terminal one has the value of its
goal, and below the root none is searched after the interrupt. The score is the one of all moves
and replies, where each position that was scored at once keeps its value and each place that was
left out may have any value. -/
theorem search_anytime (p : Problem σ μ α) (b : Budget) (bound : Nat) {s : σ}
    (hs : p.game.terminal s = false) :
    (∃ q e, explore p b.interrupt bound 0 s (.full none) {} = .error (.query q e) ∧
      search p b none bound s = .error (.rule e) ∧ q.fault p = some e) ∨
    (search p b none bound s = .error .unfinished ∧
      (bound = 0 ∨ p.atLimit bound = false ∧ b.interrupt.isRaised bound = false)) ∨
    ∃ score w x, explore p b.interrupt bound 0 s (.full none) {} = .ok (score, w, x) ∧
      search p b none bound s = .ok ⟨score, w.tally⟩ ∧ w.tally.nodes = x.size ∧
      (∃ moves action, p.game.legalMoves s p.agent = .ok moves ∧ action ∈ moves ∧
        score.action = some action) ∧
      (∀ depth y, (depth, y) ∈ x.entered 0 → Entered p b.interrupt depth y ∧
        (p.game.terminal y.state = true → ∃ value, p.game.goal y.state p.agent = .ok value ∧
          y = .leaf y.state y.asked value) ∧
        (0 < depth → b.interrupt.isRaised y.asked = true →
          ∃ value, y = .leaf y.state y.asked value)) ∧
      ∀ fill, x.exact fill = some score := by
  have hforget := forget_explore (p := p) (b := b) bound 0 s (.full none) {} rfl
  have houtcome := explore_outcome p b.interrupt bound 0 s (.full none) {} (by decide)
  have hsearch : search p b none bound s =
      (maxNode p b bound 0 s (.full none) {}).map fun found => ⟨found.1, found.2.tally⟩ := by
    unfold search run
    cases maxNode p b bound 0 s (.full none) {} <;> rfl
  rw [← hforget] at hsearch
  generalize explore p b.interrupt bound 0 s (.full none) {} = found at houtcome hsearch ⊢
  cases houtcome with
  | @stopped stop hstop =>
    cases stop with
    | query q e => exact .inl ⟨q, e, rfl, hsearch, hstop⟩
    | tooDeep =>
      refine .inr (.inl ⟨hsearch, ?_⟩)
      simpa [Stop.Justified] using hstop
  | @answered score w x h =>
    have hexact : ∀ fill, x.exact fill = some score := by
      intro fill
      obtain ⟨full, hfull, hsettles⟩ := h.settles fill
      rw [hfull, settles_full hsettles]
    have hnodes : w.tally.nodes = x.size := h.stretch.nodes_eq.trans (Nat.zero_add x.size)
    refine .inr (.inr ⟨score, w, x, rfl, hsearch, hnodes, h.exists_action hs (hexact fun _ => 0),
      fun depth y hy => ?_, hexact⟩)
    have hentered := h.stretch.each depth y hy
    exact ⟨hentered, hentered.goal_of_terminal, hentered.leaf_of_raised⟩

/-- The interrupt comes with the ninth query. One of the positions below the root is evaluated,
and one of the replies to the second move is left out. -/
theorem search_anytime_ninth :
    let p : Problem TicTacToe.Position TicTacToe.Action TicTacToe.Mark :=
      ⟨TicTacToe.game, .x, Heuristic.evaluator TicTacToe.game (.constant 50), none⟩
    let b : Budget := ⟨⟨some 9⟩, fun _ => 0⟩
    let s := TicTacToe.Position.ofBoard #v[1, 1, 2, 2, 2, 0, 1, 0, 0]
    search p b none 9 s = .ok ⟨.withAction 50 (.place 5), ⟨16, 3, 1, 1⟩⟩ ∧
      ∃ w x, explore p b.interrupt 9 0 s (.full none) {} = .ok (.withAction 50 (.place 5), w, x) ∧
        ∀ fill, x.exact fill = some (.withAction 50 (.place 5)) := by
  intro p b s
  have hsearch : search p b none 9 s = .ok ⟨.withAction 50 (.place 5), ⟨16, 3, 1, 1⟩⟩ := by
    decide +kernel
  refine ⟨hsearch, ?_⟩
  rcases search_anytime p b 9 (s := s) (by decide +kernel) with ⟨q, e, -, hstop, -⟩ | ⟨hstop, -⟩ |
    ⟨score, w, x, hexplore, hfound, -, -, -, hexact⟩
  · cases hsearch.symm.trans hstop
  · cases hsearch.symm.trans hstop
  · obtain rfl : .withAction 50 (.place 5) = score :=
      congrArg Report.score (Except.ok.inj (hsearch.symm.trans hfound))
    exact ⟨w, x, hexplore, hexact⟩

end GameSearch.Minimax.AlphaBeta
