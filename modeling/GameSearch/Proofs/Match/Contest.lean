import GameSearch.Match.Contest
import GameSearch.Proofs.Match.Seats

/-!
# GameSearch.Proofs.Match.Contest

A contest comes to its end by the rules. `Course` is how it should go: in each turn the player to
move takes an empty cell and the other one passes. In a position that goes on the two seats answer
like that (`askBoth_play`), and each turn fills a cell, so a contest takes its course
(`playFrom_course`).

* `Contest.run_finishes`: this holds of all engines, for any positions that the seats start from.
-/

namespace GameSearch.TicTacToe.Position

def replay (p : Position) : Action → Position
  | .place cell => p.move cell
  | .pass => p

end GameSearch.TicTacToe.Position

namespace GameSearch.Match

open TicTacToe

/-- Both seats are ready, each on its own side. -/
structure Pair.Fit (seats : Pair Seat) : Prop where
  x_fit : seats.x.Fit
  o_fit : seats.o.Fit
  x_mark : seats.x.mark = .x
  o_mark : seats.o.mark = .o

namespace Contest

variable {c : Schedule} {search bound : Nat} {s : Position} {seats : Pair Seat}

/-- The rest of a contest, the next turn of which is turn `n`: the player to move takes an empty
cell and the other one passes, until the game is over. -/
inductive Course (c : Schedule) (search : Nat) :
    Nat → Position → Pair Seat → List Turn → Position → Prop where
  | ended {n : Nat} {s : Position} {seats : Pair Seat} : s.isDone = true →
      Course c search n s seats [] s
  | turn {n : Nat} {s final : Position} {seats seats' : Pair Seat} {joint : Pair Action}
      {cell : Fin 9} {turns : List Turn} : s.isDone = false →
      askBoth (fun a seat => seat.play a search s) (c.turn n) seats = (.ok joint, seats') →
      s.isOpen cell = true → joint.of s.player = .place (UInt8.ofNat cell.val) →
      joint.of s.player.other = .pass →
      Course c search (n + 1) (s.move (UInt8.ofNat cell.val)) seats' turns final →
      Course c search n s seats
        (⟨s.player, (seats'.of s.player).engine, joint.of s.player⟩ :: turns) final

theorem Course.isDone {n : Nat} {turns : List Turn} {final : Position}
    (h : Course c search n s seats turns final) : final.isDone = true := by
  induction h with
  | ended h => exact h
  | turn _ _ _ _ _ _ ih => exact ih

theorem Course.replay {n : Nat} {turns : List Turn} {final : Position}
    (h : Course c search n s seats turns final) :
    (turns.map Turn.action).foldl Position.replay s = final := by
  induction h with
  | ended => rfl
  | turn _ _ _ haction _ _ ih =>
    rw [List.map_cons, List.foldl_cons, haction]
    exact ih

theorem Course.length_le {n : Nat} {turns : List Turn} {final : Position}
    (h : Course c search n s seats turns final) : turns.length ≤ s.board.vacancies := by
  induction h with
  | ended => exact Nat.zero_le _
  | turn hgoing _ hopen _ _ _ ih =>
    rw [Position.move_of_isOpen hgoing hopen] at ih
    have := Position.vacancies_place hopen
    rw [List.length_cons]
    omega

/-! ## One turn -/

theorem askBoth_prepare (hseats : seats.Fit) (hsearch : 9 ≤ search) (a : Pair Allowance) :
    ∃ seats', askBoth (fun a seat => seat.prepare a search) a seats = (.ok ⟨(), ()⟩, seats') ∧
      seats'.Fit := by
  obtain ⟨x, hx, hxmark, hxfit⟩ := Seat.prepare_answers hseats.x_fit hsearch a.x
  obtain ⟨o, ho, homark, hofit⟩ := Seat.prepare_answers hseats.o_fit hsearch a.o
  refine ⟨⟨x, o⟩, ?_, hxfit, hofit, hxmark.trans hseats.x_mark, homark.trans hseats.o_mark⟩
  simp only [askBoth, hx, ho]

theorem askBoth_play (hseats : seats.Fit) (hs : s.Sound) (hgoing : s.isDone = false)
    (hsearch : 9 ≤ search) (a : Pair Allowance) :
    ∃ joint seats', askBoth (fun a seat => seat.play a search s) a seats = (.ok joint, seats') ∧
      seats'.Fit ∧ joint.of s.player.other = .pass ∧
      ∃ cell, s.isOpen cell = true ∧ joint.of s.player = .place (UInt8.ofNat cell.val) := by
  obtain ⟨mx, x, hx, hxlegal, hxmark, hxfit⟩ :=
    Seat.play_answers hseats.x_fit hs hgoing hsearch a.x
  obtain ⟨mo, o, ho, holegal, homark, hofit⟩ :=
    Seat.play_answers hseats.o_fit hs hgoing hsearch a.o
  rw [hseats.x_mark] at hxlegal
  rw [hseats.o_mark] at holegal
  have hlegal : ∀ m, (Pair.mk mx mo).of m ∈ legalMoves s m := fun m => by
    cases m
    · exact hxlegal
    · exact holegal
  refine ⟨⟨mx, mo⟩, ⟨x, o⟩, ?_, ⟨hxfit, hofit, hxmark.trans hseats.x_mark,
    homark.trans hseats.o_mark⟩, (mem_legalMoves_other hgoing).1 (hlegal _),
    (mem_legalMoves_player hgoing).1 (hlegal _)⟩
  simp only [askBoth, hx, ho]

theorem next_of_answers {joint : Pair Action} {cell : Fin 9} (hgoing : s.isDone = false)
    (hopen : s.isOpen cell = true) (hmover : joint.of s.player = .place (UInt8.ofNat cell.val))
    (hidle : joint.of s.player.other = .pass) :
    game.next s [joint.x, joint.o] = .ok (s.place cell) := by
  have hpair : [joint.x, joint.o] = pair s.player (.place (UInt8.ofNat cell.val)) .pass := by
    cases hplayer : s.player <;> rw [hplayer] at hmover hidle
    · exact congrArg₂ (fun a b => [a, b]) hmover hidle
    · exact congrArg₂ (fun a b => [b, a]) hmover hidle
  rw [hpair]
  exact next_pair hgoing hopen

/-! ## The whole contest -/

theorem finish_done (hs : s.isDone = true) (moves : List Action) :
    finish moves s = .ok ⟨⟨outcome s .x, outcome s .o⟩, moves, s⟩ := by
  simp [finish, game, goal, hs]

/-- By induction on the bound: each turn takes one of the empty cells. -/
theorem playFrom_course (hseats : seats.Fit) (hs : s.Sound) (hsearch : 9 ≤ search)
    (c : Schedule) (hbound : s.board.vacancies ≤ bound) (before : List Turn) :
    ∃ turns final, Course c search before.length s seats turns final ∧
      playFrom c search bound s before seats =
        (before ++ turns, finish ((before ++ turns).map Turn.action) final) := by
  induction bound using Nat.strongRecOn generalizing s seats before with
  | ind bound ih =>
    rw [playFrom.eq_def]
    cases hdone : s.isDone with
    | true =>
      have hterminal : game.terminal s = true := hdone
      refine ⟨[], s, .ended hdone, ?_⟩
      simp only [hterminal, ↓reduceIte, List.append_nil]
    | false =>
      have hterminal : game.terminal s = false := hdone
      obtain ⟨joint, seats', hask, hseats', hidle, cell, hopen, hmover⟩ :=
        askBoth_play hseats hs hdone hsearch (c.turn before.length)
      have hnext := next_of_answers hdone hopen hmover hidle
      have hmove := Position.move_of_isOpen hdone hopen
      have hvacancies := Position.vacancies_place hopen
      obtain ⟨bound, rfl⟩ : ∃ b, bound = b + 1 := ⟨bound - 1, by omega⟩
      let turn : Turn := ⟨s.player, (seats'.of s.player).engine, joint.of s.player⟩
      have hleft : (s.place cell).board.vacancies ≤ bound := by omega
      obtain ⟨turns, final, hcourse, hplay⟩ := ih bound (Nat.lt_succ_self bound) hseats'
        (s.sound_place cell) hleft (before ++ [turn])
      rw [List.length_append, List.length_singleton, ← hmove] at hcourse
      refine ⟨turn :: turns, final, .turn hdone hask hopen hmover hidle hcourse, ?_⟩
      simp only [hterminal, hask, hnext, Bool.false_eq_true, ↓reduceIte]
      rw [hplay, List.append_assoc, List.singleton_append]

/-- Every contest ends by the rules, whatever engines play it and however far they may search, and
in whatever order the workers of a tree search take their steps. The seats start from positions of
their own. There are at most as many turns as there are empty cells.
In each of them the player to move takes an empty cell and the other one passes. The recorded moves
lead to the final position, the game is over there, and the goals add up to 100. -/
theorem run_finishes (e e' : Engine) (o o' : SeatOptions) {root root' initial : Position}
    (hroot : root.Built) (hroot' : root'.Built) (hinitial : initial.Built) (hsearch : 9 ≤ search)
    (c : Schedule) (hbound : initial.board.vacancies ≤ bound) :
    let start : Pair Seat := ⟨.create e .x root o, .create e' .o root' o'⟩
    ∃ seats turns out,
      askBoth (fun a seat => seat.prepare a search) c.start start = (.ok ⟨(), ()⟩, seats) ∧
      run c search bound initial start = (turns, .ok out) ∧
      turns.length ≤ initial.board.vacancies ∧
      Course c search 0 initial seats turns out.final ∧
      out.moves = turns.map Turn.action ∧ out.moves.foldl Position.replay initial = out.final ∧
      game.terminal out.final = true ∧ out.goals.x.toInt + out.goals.o.toInt = 100 := by
  intro start
  have hstart : start.Fit :=
    ⟨Seat.create_fit e .x o hroot.sound, Seat.create_fit e' .o o' hroot'.sound, rfl, rfl⟩
  obtain ⟨seats, hask, hseats⟩ := askBoth_prepare hstart hsearch c.start
  obtain ⟨turns, final, hcourse, hplay⟩ :=
    playFrom_course hseats hinitial.sound hsearch c hbound []
  rw [List.nil_append, finish_done hcourse.isDone] at hplay
  refine ⟨seats, turns, ⟨⟨outcome final .x, outcome final .o⟩, turns.map Turn.action, final⟩, hask,
    ?_, hcourse.length_le, hcourse, rfl, hcourse.replay, hcourse.isDone, outcome_add final⟩
  simp only [run, hask, hplay]

/-- Two workers that grow trees of their own and begin elsewhere, against three at one tree. In each
search they take turns for sixty steps. -/
theorem run_finishes_elsewhere :
    let a : Allowance := ⟨⟨.never, fun _ => 0⟩, 0, .never, .even 3 60⟩
    let c : Schedule := ⟨⟨a, a⟩, fun _ => ⟨a, a⟩⟩
    let o : SeatOptions := ⟨.unlimited, none, .constant 50, { workers := 2, mode := .ownTrees }, 7⟩
    let o' : SeatOptions := { o with trees := { workers := 3, mode := .sharedTree } }
    let initial := Position.ofBoard #v[1, 2, 1, 1, 2, 2, 0, 1, 0]
    let start : Pair Seat := ⟨.create .treeSearch .x .initial o, .create .treeSearch .o initial o'⟩
    ∃ turns out, run c 9 2 initial start = (turns, .ok out) ∧ turns.length ≤ 2 ∧
      out.moves.foldl Position.replay initial = out.final ∧ game.terminal out.final = true ∧
      out.goals.x.toInt + out.goals.o.toInt = 100 := by
  intro a c o o' initial start
  have hbound : initial.board.vacancies ≤ 2 := by decide +kernel
  obtain ⟨_, turns, out, -, hrun, hlength, -, -, hreplay, hdone, hgoals⟩ :=
    run_finishes .treeSearch .treeSearch o o' .initial (.ofBoard _) (.ofBoard _) (Nat.le_refl 9) c
      hbound
  exact ⟨turns, out, hrun, Nat.le_trans hlength hbound, hreplay, hdone, hgoals⟩

end Contest

end GameSearch.Match
