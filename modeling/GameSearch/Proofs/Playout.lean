import GameSearch.Playout
import Mathlib.Data.List.Forall2

/-!
# GameSearch.Proofs.Playout

Random plays, step by step. `Plays n s s'` says that `n` joint moves that a random play may draw
lead from `s` to `s'`, and that none of the states that are left is terminal.

* `drawJoint_ok`: a random play draws a legal move for each agent, or one of the joint moves that
  the game offers.
* `playoutFrom_ok`: a random play that comes to an end is worth the goal of the terminal state that
  it leads to, and counts the joint moves.
* `playoutFrom_error`: a random play fails because of a fault in the rules, or because it made all
  the steps that it was allowed and is not over.
-/

namespace GameSearch.Game

variable {σ μ α γ : Type} {game : Game σ μ α} {s s' s'' : σ} {n : Nat}

def LegalFor (game : Game σ μ α) (s : σ) (agents : List α) (joint : JointMove μ) : Prop :=
  List.Forall₂ (fun a m => ∃ moves, game.legalMoves s a = .ok moves ∧ m ∈ moves) agents joint

/-- What a random play may draw in a state. -/
def MayDraw (game : Game σ μ α) (s : σ) (joint : JointMove μ) : Prop :=
  match game.offered with
  | none => game.LegalFor s game.agents joint
  | some offers => ∃ joints, offers s = .ok joints ∧ joint ∈ joints

inductive Plays (game : Game σ μ α) : Nat → σ → σ → Prop where
  | none (s : σ) : Plays game 0 s s
  | step {n : Nat} {s s' s'' : σ} {joint : JointMove μ} : game.terminal s = false →
      game.MayDraw s joint → game.next s joint = .ok s' → Plays game n s' s'' →
      Plays game (n + 1) s s''

/-- There is a play of `n` steps that is not over then. -/
def Outlasts (game : Game σ μ α) (n : Nat) (s : σ) : Prop :=
  ∃ s', game.Plays n s s' ∧ game.terminal s' = false

variable [RandomSource γ]

theorem drawEach_ok {agents : List α} {joint : JointMove μ} {g g' : γ}
    (h : game.drawEach s agents g = (.ok joint, g')) : game.LegalFor s agents joint := by
  induction agents generalizing joint g g' with
  | nil =>
    cases h
    exact .nil
  | cons a rest ih =>
    simp only [drawEach] at h
    split at h
    · cases h
    · rename_i moves hmoves
      split at h
      · cases h
      · rename_i m g₁ hm
        split at h
        · cases h
        · rename_i joint' g₂ hrest
          cases h
          exact .cons ⟨moves, hmoves, RandomSource.choose_mem hm⟩ (ih hrest)

theorem drawJoint_ok {joint : JointMove μ} {g g' : γ}
    (h : game.drawJoint s g = (.ok joint, g')) : game.MayDraw s joint := by
  unfold MayDraw
  unfold drawJoint at h
  cases hoffered : game.offered with
  | none =>
    simp only [hoffered] at h
    exact drawEach_ok h
  | some offers =>
    simp only [hoffered] at h
    split at h
    · cases h
    · rename_i joints hjoints
      split at h
      · cases h
      · rename_i joint' g₁ hjoint
        cases h
        exact ⟨joints, hjoints, RandomSource.choose_mem hjoint⟩

theorem playoutFrom_terminal {a : α} {v : Int32} (hs : game.terminal s = true)
    (hv : game.goal s a = .ok v) (bound : Nat) (depth : UInt32) (moves : Nat) (g : γ) :
    game.playoutFrom a bound s depth moves g = (.ok ⟨v, depth, moves⟩, g) := by
  rw [playoutFrom.eq_def]
  simp only [hs, hv, ↓reduceIte]

theorem playoutFrom_step {joint : JointMove μ} {g g' : γ} (hs : game.terminal s = false)
    (hjoint : game.drawJoint s g = (.ok joint, g')) (hnext : game.next s joint = .ok s') (a : α)
    (bound : Nat) (depth : UInt32) (moves : Nat) :
    game.playoutFrom a (bound + 1) s depth moves g =
      game.playoutFrom a bound s' (depth + 1) (moves + 1) g' := by
  rw [playoutFrom]
  simp only [hs, hjoint, hnext, Bool.false_eq_true, ↓reduceIte]

theorem playoutFrom_ok {a : α} {bound moves : Nat} {depth : UInt32} {play : Playout} {g g' : γ}
    (h : game.playoutFrom a bound s depth moves g = (.ok play, g')) :
    ∃ n s', game.Plays n s s' ∧ game.terminal s' = true ∧ game.goal s' a = .ok play.goal ∧
      play.depth = depth + .ofNat n ∧ play.moves = moves + n := by
  -- induction on the number of steps that are left
  induction bound generalizing s depth moves g with
  | zero =>
    simp only [playoutFrom] at h
    split at h
    · rename_i hs
      split at h
      · cases h
      · rename_i v hv
        cases h
        exact ⟨0, s, .none s, hs, hv, (UInt32.add_zero depth).symm, rfl⟩
    · cases h
  | succ bound ih =>
    simp only [playoutFrom] at h
    split at h
    · rename_i hs
      split at h
      · cases h
      · rename_i v hv
        cases h
        exact ⟨0, s, .none s, hs, hv, (UInt32.add_zero depth).symm, rfl⟩
    · rename_i hs
      split at h
      · cases h
      · rename_i joint g₁ hjoint
        split at h
        · cases h
        · rename_i s₁ hnext
          obtain ⟨n, s', hplays, hs', hv, hdepth, hmoves⟩ := ih h
          refine ⟨n + 1, s', ?_, hs', hv, ?_, by omega⟩
          · exact .step (Bool.eq_false_iff.2 hs) (drawJoint_ok hjoint) hnext hplays
          · rw [hdepth, Nat.add_comm n, UInt32.ofNat_add, UInt32.add_assoc]
            rfl

theorem playoutFrom_error {a : α} {bound moves : Nat} {depth : UInt32} {g g' : γ} {e : SearchError}
    (h : game.playoutFrom a bound s depth moves g = (.error e, g')) :
    (∃ r, e = .rule r) ∨ e = .unfinished ∧ game.Outlasts bound s := by
  -- induction on the number of steps that are left
  induction bound generalizing s depth moves g with
  | zero =>
    simp only [playoutFrom] at h
    split at h
    · split at h
      · cases h
        exact .inl ⟨_, rfl⟩
      · cases h
    · rename_i hs
      cases h
      exact .inr ⟨rfl, s, .none s, Bool.eq_false_iff.2 hs⟩
  | succ bound ih =>
    simp only [playoutFrom] at h
    split at h
    · split at h
      · cases h
        exact .inl ⟨_, rfl⟩
      · cases h
    · rename_i hs
      split at h
      · cases h
        exact .inl ⟨_, rfl⟩
      · rename_i joint g₁ hjoint
        split at h
        · cases h
          exact .inl ⟨_, rfl⟩
        · rename_i s₁ hnext
          refine (ih h).imp_right fun ⟨he, s', hplays, hs'⟩ => ?_
          exact ⟨he, s', .step (Bool.eq_false_iff.2 hs) (drawJoint_ok hjoint) hnext hplays, hs'⟩

end GameSearch.Game
