import GameSearch.Match.Seat
import GameSearch.Proofs.Minimax.Answers
import GameSearch.Proofs.TicTacToe
import GameSearch.Proofs.TreeSearch.Crew

/-!
# GameSearch.Proofs.Match.Seats

A seat of any engine answers in every position of a match. A seat is `Fit` when its search is for
its own side and the tree that it keeps, if it keeps one, is fit for another search. It is so when
it is made (`create_fit`), the time before the first move leaves it so (`prepare_answers`), and in a
position that goes on it makes a legal move and is fit again (`play_answers`).
-/

namespace GameSearch.Match

open TicTacToe

namespace Seat

variable {bound : Nat} {m : Mark} {s : Position} {x : Seat}

theorem mem_agents (m : Mark) : m ∈ game.agents := by cases m <;> simp [game]

/-- What a minimax search is asked on behalf of a player. -/
structure OnBehalf (p : Minimax.Problem Position Action Mark) (m : Mark) : Prop where
  game_eq : p.game = game
  agent_eq : p.agent = m
  value_ok : ∀ s, ∃ v, p.evaluator.value s m = .ok v

def Fit (x : Seat) : Prop :=
  match x.player with
  | .alphaBeta p _ => OnBehalf p x.mark
  | .minimax p => OnBehalf p x.mark
  | .treeSearch settings session => session.root.state.Sound ∧
    ∀ bound, TreeSearch.Ready (settings.setup game x.mark bound) session.root
  | .random _ => True

theorem problem_onBehalf (o : SeatOptions) (m : Mark) (maxDepth : Option Nat) :
    OnBehalf (problem o m maxDepth) m where
  game_eq := rfl
  agent_eq := rfl
  value_ok s := by
    unfold problem
    cases o.heuristic with
    | constant v => exact ⟨v, rfl⟩
    | goal fallback =>
      cases hs : s.isDone <;>
        simp [Minimax.Heuristic.evaluator, Minimax.Heuristic.goalOr, game, goal, hs]

theorem treeSearch_fit {settings : TreeSearch.Settings}
    {session : TreeSearch.Session Position Action Float Keystream} (hs : s.Sound)
    (h : TreeSearch.Fit (settings.setup game m bound) s session.root) :
    Fit ⟨m, .treeSearch settings session⟩ :=
  ⟨h.state_eq ▸ hs, fun _ => ⟨h.ready.rooted, h.ready.branched, h.ready.free⟩⟩

theorem create_fit (e : Engine) (m : Mark) {initial : Position} (o : SeatOptions)
    (h : initial.Sound) : (create e m initial o).Fit := by
  cases e with
  | alphaBeta => exact problem_onBehalf o m _
  | minimax => exact problem_onBehalf o m _
  | treeSearch => exact treeSearch_fit h (TreeSearch.fit_unvisited _ initial)
  | random => trivial

theorem playable (hs : s.Sound) (hbound : 9 ≤ bound) (settings : TreeSearch.Settings) (m : Mark) :
    TreeSearch.Playable (settings.setup game m bound) s where
  complete := TicTacToe.complete hs
  ends := endsWithin (Nat.le_trans (Board.vacancies_le s.board) hbound)

theorem prepare_answers (hx : x.Fit) (hbound : 9 ≤ bound) (a : Allowance) :
    ∃ x', x.prepare a bound = (.ok (), x') ∧ x'.mark = x.mark ∧ x'.Fit := by
  obtain ⟨m, player⟩ := x
  cases player with
  | alphaBeta p settings => exact ⟨_, rfl, rfl, hx⟩
  | minimax p => exact ⟨_, rfl, rfl, hx⟩
  | random rng => exact ⟨_, rfl, rfl, hx⟩
  | treeSearch settings session =>
    obtain ⟨hsound, hready⟩ := hx
    obtain ⟨raised, y, hy, hfit⟩ := TreeSearch.Session.searchWith_answers (x := session)
      (p := settings.setup game m bound) (mem_agents m) ⟨hready bound, rfl⟩
      (playable hsound hbound settings m) settings.mode settings.workers a.rota a.interrupt
    exact ⟨⟨m, .treeSearch settings y⟩, by simp only [prepare, hy], rfl, treeSearch_fit hsound hfit⟩

/-- The answer of a seat in a position that goes on. -/
theorem play_answers (hx : x.Fit) (hs : s.Sound) (hgoing : s.isDone = false) (hbound : 9 ≤ bound)
    (a : Allowance) :
    ∃ action x', x.play a bound s = (.ok action, x') ∧ action ∈ legalMoves s x.mark ∧
      x'.mark = x.mark ∧ x'.Fit := by
  obtain ⟨m, player⟩ := x
  have hends := endsWithin (Nat.le_trans (Board.vacancies_le s.board) hbound)
  cases player with
  | alphaBeta p settings =>
    obtain ⟨hgame, hagent, hvalue⟩ := hx
    obtain ⟨_, _, evaluator, maxDepth⟩ := p
    subst hgame hagent
    obtain ⟨action, moves, haction, hmoves, hmem⟩ :=
      Minimax.AlphaBeta.selectMove_ok (b := a.budget) (mem_agents _) hvalue (TicTacToe.complete hs)
        hends (Nat.le_refl bound) hgoing settings a.deadline
    cases hmoves
    exact ⟨action, _, by simp only [play, haction, searched], hmem, rfl, rfl, rfl, hvalue⟩
  | minimax p =>
    obtain ⟨hgame, hagent, hvalue⟩ := hx
    obtain ⟨_, _, evaluator, maxDepth⟩ := p
    subst hgame hagent
    obtain ⟨action, moves, haction, hmoves, hmem⟩ := Minimax.FullWidth.selectMove_ok
      (mem_agents _) hvalue (TicTacToe.complete hs) hends (Nat.le_refl bound) hgoing
    cases hmoves
    exact ⟨action, _, by simp only [play, haction, searched], hmem, rfl, rfl, rfl, hvalue⟩
  | random rng =>
    obtain ⟨action, rng', hchoice⟩ := RandomSource.exists_choose (legalMoves_ne_nil hs hgoing m) rng
    have hmoves : game.legalMoves s m = .ok (legalMoves s m) := rfl
    exact ⟨action, ⟨m, .random rng'⟩, by simp only [play, hmoves, hchoice],
      RandomSource.choose_mem hchoice, rfl, trivial⟩
  | treeSearch settings session =>
    obtain ⟨-, hready⟩ := hx
    have hfollowed := TreeSearch.Session.updateRoot_fit (hready bound) s
    obtain ⟨raised, y, hy, hfit⟩ := TreeSearch.Session.searchWith_answers (mem_agents m) hfollowed
      (playable hs hbound settings m) settings.mode settings.workers a.rota a.interrupt
    obtain ⟨action, moves, haction, hmoves, hmem⟩ :=
      TreeSearch.Session.chooseMove_answers (mem_agents m) hfit (completeAt hs) hgoing
    cases hmoves
    exact ⟨action, ⟨m, .treeSearch settings y⟩, by simp only [play, hy, haction, searched], hmem, rfl,
      treeSearch_fit hs hfit⟩

end Seat

end GameSearch.Match
