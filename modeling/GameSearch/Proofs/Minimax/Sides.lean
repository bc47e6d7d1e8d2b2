import GameSearch.Proofs.Table.Uniform
import GameSearch.Proofs.TicTacToe
import GameSearch.Random.Keystream
import Mathlib.Control.Monad.Basic

/-!
# GameSearch.Proofs.Minimax.Sides

What a game is worth to its two sides.

* `values_add_le`: the values of the two agents in a duel add up to what there is to win at most,
  and to just that where one of the agents has no choice in each position. So it is in tic-tac-toe,
  and in random trees the values add up to 100 at most.
-/

namespace GameSearch.TicTacToe

variable {p : Position}

open Minimax

theorem fullProduct (hsound : p.Sound) (hp : p.isDone = false) :
    FullProduct game .x .o p (legalMoves p .x) (legalMoves p .o) where
  left_moves := rfl
  right_moves := rfl
  left_nonempty := legalMoves_ne_nil hsound hp .x
  right_nonempty := legalMoves_ne_nil hsound hp .o
  left_replies m _ := ⟨_, rfl, fun joint => by simp [replies, pair, Mark.other, eq_comm]⟩
  right_replies n _ := ⟨_, rfl, fun joint => by simp [replies, pair, Mark.other, eq_comm]⟩
  next_ok m hm n hn := (completeAt hsound).next hp [m, n]
    (.cons ⟨_, rfl, hm⟩ (.cons ⟨_, rfl, hn⟩ .nil))

theorem duel (hsound : p.Sound) : Duel game .x .o 100 p where
  goals hp := ⟨_, _, if_pos hp, if_pos hp, outcome_add p⟩
  moves hp := ⟨_, _, fullProduct hsound hp⟩

theorem forced (p : Position) : Forced game .x .o p := by
  intro hp
  have hother := legalMoves_other hp
  refine ⟨.pass, ?_⟩
  cases h : p.player <;> rw [h] at hother
  · exact .inr (congrArg Except.ok hother)
  · exact .inl (congrArg Except.ok hother)

end GameSearch.TicTacToe

namespace GameSearch.Minimax

/-- Both agents show a coin, and the first one wins if they show the same side. -/
def matchingPennies : Game (Option Bool) Bool Bool where
  agents := [true, false]
  legalMoves s _ := .ok (if s.isNone then [true, false] else [])
  replies _ a m := .ok ([true, false].map fun n => if a then [m, n] else [n, m])
  next _ joint := .ok (some (joint[0]? == joint[1]?))
  terminal s := s.isSome
  goal s a := .ok (if s = some a then 100 else 0)
  offered := none
  showState _ := ""
  showMove _ := ""
  showAgent _ := ""

theorem duel_pennies (s : Option Bool) : Duel matchingPennies true false 100 s where
  goals hs := by
    cases s with
    | none => cases hs
    | some b => cases b <;> exact ⟨_, _, rfl, rfl, by decide⟩
  moves hs := by
    cases s with
    | some b => cases hs
    | none =>
      refine ⟨[true, false], [true, false], rfl, rfl, by simp, by simp, fun m _ => ?_,
        fun n _ => ?_, fun m _ n _ => ⟨_, rfl⟩⟩
      · exact ⟨_, rfl, fun joint => by simp [or_comm]⟩
      · exact ⟨_, rfl, fun joint => by simp [or_comm]⟩

theorem endsWithin_pennies : matchingPennies.EndsWithin 1 none := by
  rintro s' ⟨-, _, -, hs'⟩ s'' ⟨hs, -⟩
  cases hs'
  cases hs

/-- The values of the two agents in a duel for `c` add up to `c` at most. They add up to `c` where
in each position at most one of the agents has a choice. In tic-tac-toe they add up to 100, and in
random trees to 100 at most. -/
theorem values_add_le :
    (∀ {σ μ α : Type} (game : Game σ μ α) (a b : α) (c : Int) (root : σ) (e e' : Evaluator σ α),
      game.agents = [a, b] → Acc (fun s' s => game.Succeeds s s') root →
      (∀ s, game.Reaches root s → Duel game a b c s) →
      ∃ n, ∀ bound ≥ n, ∃ v w,
        Worth ⟨game, a, e, none⟩ bound root v ∧ Worth ⟨game, b, e', none⟩ bound root w ∧
        v.toInt + w.toInt ≤ c ∧
        ((∀ s, game.Reaches root s → Forced game a b s) → v.toInt + w.toInt = c)) ∧
    (∀ (board : TicTacToe.Board) (e e' : Evaluator TicTacToe.Position TicTacToe.Mark) (bound : Nat),
      9 ≤ bound → ∃ v w,
        Worth ⟨TicTacToe.game, .x, e, none⟩ bound (.ofBoard board) v ∧
        Worth ⟨TicTacToe.game, .o, e', none⟩ bound (.ofBoard board) w ∧
        v.toInt + w.toInt = 100) ∧
    (∀ {γ : Type} [RandomSource γ] (g : γ) (branching depth : Nat) (e e' : Evaluator String String)
      (bound : Nat), depth ≤ bound →
      let t := Table.uniform g 2 branching depth
      ∃ v w,
        Worth ⟨t.game, "agent0", e, none⟩ bound t.initial v ∧
        Worth ⟨t.game, "agent1", e', none⟩ bound t.initial w ∧
        v.toInt + w.toInt ≤ 100) := by
  refine ⟨fun game a b c root e e' hagents hfinite hduel => ?_, fun board e e' bound hbound => ?_,
    fun g branching depth e e' bound hbound => ?_⟩
  · obtain ⟨n, hn⟩ := Game.exists_endsWithin hfinite
    refine ⟨n, fun bound hbound => ?_⟩
    obtain ⟨v, w, hv, hw, hle, hge⟩ := Duel.exists_values e e' hagents hduel hn hbound
    exact ⟨v, w, hv.worth, hw.worth, hle, fun hforced => Int.le_antisymm hle (hge hforced)⟩
  · have hsound := TicTacToe.Position.sound_ofBoard board
    have hends := TicTacToe.endsWithin (p := .ofBoard board) (TicTacToe.Board.vacancies_le board)
    obtain ⟨v, w, hv, hw, hle, hge⟩ := Duel.exists_values e e' rfl
      (fun s hs => TicTacToe.duel (TicTacToe.sound_of_reaches hsound hs)) hends hbound
    exact ⟨v, w, hv.worth, hw.worth, Int.le_antisymm hle (hge fun s _ => TicTacToe.forced s)⟩
  · intro t
    have hagents : (Table.uniform g 2 branching depth).agents = ["agent0", "agent1"] :=
      Table.agents_uniform_two g
    have hduel : ∀ s, t.game.Reaches "r" s → Duel t.game "agent0" "agent1" 100 s := fun s hs => by
      obtain ⟨k, hk, hs⟩ := Table.exists_level_of_reaches g hs
      exact Table.duel_uniform g hs hk
    have hends : t.game.EndsWithin depth "r" :=
      Table.endsWithin_uniform g Table.root_mem_uniformLevel (Nat.zero_le _) (Nat.le_refl _)
    obtain ⟨v, w, hv, hw, hle, -⟩ := Duel.exists_values e e' hagents hduel hends hbound
    exact ⟨v, w, hv.worth, hw.worth, hle⟩

/-- Where both show their coins at once, neither agent is sure of anything, and the values add up to
less than there is to win. -/
theorem values_add_le_pennies :
    let e : Evaluator (Option Bool) Bool := ⟨fun _ _ => .ok 7, fun _ _ => 0⟩
    let board : TicTacToe.Board := #v[1, 2, 1, 1, 2, 2, 0, 1, 0]
    let t := Table.uniform (RandomSource.seeded 7 : Keystream) 2 2 1
    (Acc (fun s' s => matchingPennies.Succeeds s s') none ∧
      ∀ s, matchingPennies.Reaches none s → Duel matchingPennies true false 100 s) ∧
    (∃ n, ∀ bound ≥ n, ∃ v w, Worth ⟨matchingPennies, true, e, none⟩ bound none v ∧
      Worth ⟨matchingPennies, false, e, none⟩ bound none w ∧ v.toInt + w.toInt ≤ 100) ∧
    Worth ⟨matchingPennies, true, e, none⟩ 1 none 0 ∧
    Worth ⟨matchingPennies, false, e, none⟩ 1 none 0 ∧
    (∃ v w, Worth ⟨TicTacToe.game, .x, Heuristic.evaluator TicTacToe.game (.constant 7), none⟩ 9
        (.ofBoard board) v ∧
      Worth ⟨TicTacToe.game, .o, Heuristic.evaluator TicTacToe.game (.constant 7), none⟩ 9
        (.ofBoard board) w ∧ v.toInt + w.toInt = 100) ∧
    ∃ v w, Worth ⟨t.game, "agent0", Heuristic.evaluator t.game (.constant 7), none⟩ 1 t.initial v ∧
      Worth ⟨t.game, "agent1", Heuristic.evaluator t.game (.constant 7), none⟩ 1 t.initial w ∧
      v.toInt + w.toInt ≤ 100 := by
  intro e board t
  have hfinite := endsWithin_pennies.acc
  have hduel := fun s (_ : matchingPennies.Reaches none s) => duel_pennies s
  obtain ⟨hgeneral, hboards, htrees⟩ := values_add_le
  obtain ⟨n, hn⟩ := hgeneral matchingPennies true false 100 none e e rfl hfinite hduel
  refine ⟨⟨hfinite, hduel⟩, ⟨n, fun bound hbound => ?_⟩,
    ⟨⟨.withAction 0 true, ⟨7, 4, 0, 0⟩⟩, by decide +kernel, rfl⟩,
    ⟨⟨.withAction 0 true, ⟨7, 4, 0, 0⟩⟩, by decide +kernel, rfl⟩,
    hboards board _ _ 9 (Nat.le_refl 9), htrees _ 2 1 _ _ 1 (Nat.le_refl 1)⟩
  obtain ⟨v, w, hv, hw, hle, -⟩ := hn bound hbound
  exact ⟨v, w, hv, hw, hle⟩

end GameSearch.Minimax
