import GameSearch.Proofs.TicTacToe

/-!
# GameSearch.Proofs.TicTacToe.Turns

Whose turn it is, told from the board or kept up to date by the moves. On boards where X has as many
marks as O or one more, a mark of the player whose turn it is makes it the other one's
(`Board.TurnOf.set`). So the two agree as long as the game goes on. The move that ends a game leaves
the turn with the player who made it, while by the marks it would be the other one's.

* `ofBoard_moves`: what the board of a position tells of it, after any moves.
* `ofBoard_winning_move`: a position that its own board does not give.
-/

namespace GameSearch.TicTacToe

/-! ## Boards -/

namespace Board

def TurnOf (b : Board) : Mark → Prop
  | .x => b.count .x = b.count .o
  | .o => b.count .x = b.count .o + 1

variable {b : Board} {c : Fin 9} {m : Mark}

theorem count_set (h : b.get c = 0) (m m' : Mark) :
    count (b.set c.val m.cell c.isLt) m' = b.count m' + if m = m' then 1 else 0 := by
  have hlt : c.val < b.toList.length := by simp
  have hempty : b.toList[c.val] = 0 := h
  have hmark : (0 == m'.cell) = false := by cases m' <;> decide
  have hsame : (m.cell == m'.cell) = decide (m = m') := by cases m <;> cases m' <;> decide
  rw [count, count, Vector.toList_set, List.count_set hlt, hempty, hmark, hsame]
  simp

theorem TurnOf.set (h : b.TurnOf m) (hc : b.get c = 0) :
    TurnOf (b.set c.val m.cell c.isLt) m.other := by
  have hx := count_set hc m .x
  have ho := count_set hc m .o
  cases m with
  | x =>
    have hcounts : b.count .x = b.count .o := h
    simp only [reduceCtorEq, ↓reduceIte] at hx ho
    show count _ .x = count _ .o + 1
    omega
  | o =>
    have hcounts : b.count .x = b.count .o + 1 := h
    simp only [reduceCtorEq, ↓reduceIte] at hx ho
    show count _ .x = count _ .o
    omega

theorem exists_turnOf (h : b.count .x = b.count .o ∨ b.count .x = b.count .o + 1) :
    ∃ m, b.TurnOf m := by
  rcases h with h | h
  · exact ⟨.x, h⟩
  · exact ⟨.o, h⟩

end Board

namespace Position

variable {p : Position} {b : Board} {c : Fin 9} {m : Mark}

theorem ofBoard_eq (h : b.TurnOf m) : ofBoard b = ⟨b, m, b.verdict⟩ := by
  cases m with
  | x =>
    have hcounts : b.count .x = b.count .o := h
    rw [ofBoard, if_neg (by omega)]
  | o =>
    have hcounts : b.count .x = b.count .o + 1 := h
    rw [ofBoard, if_pos (by omega)]

/-! ## Moves -/

/-- The position with the other player to move. -/
def passed (p : Position) : Position := { p with player := p.player.other }

/-- What moves make of a position in which the game goes on: turns go by the marks on the board,
until a move ends the game. -/
structure Tracked (p : Position) : Prop where
  sound : p.Sound
  going : p.isDone = false → p.board.TurnOf p.player
  ended : p.isDone = true → ofBoard p.board = p.passed

theorem ofBoard_of_turnOf (hsound : p.Sound) (h : p.board.TurnOf p.player) :
    ofBoard p.board = p := by
  rw [ofBoard_eq h, ← hsound]

theorem tracked_place (hopen : p.isOpen c = true) (h : p.board.TurnOf p.player) :
    (p.place c).Tracked := by
  have hturn := h.set (eq_of_beq hopen)
  have hdone : (p.place c).isDone = ((p.place c).board.verdict != 0) := rfl
  refine ⟨p.sound_place c, fun hgoing => ?_, fun hover => ?_⟩
  · have hverdict : (p.place c).board.verdict = 0 := by simpa [hdone] using hgoing
    have hplayer : (p.place c).player = p.player.other := if_pos hverdict
    rw [hplayer]
    exact hturn
  · have hverdict : (p.place c).board.verdict ≠ 0 := by simpa [hdone] using hover
    have hplayer : (p.place c).player = p.player := if_neg hverdict
    rw [passed, hplayer]
    exact ofBoard_eq hturn

theorem Tracked.move (h : p.Tracked) (cell : UInt8) : (p.move cell).Tracked := by
  rcases p.move_cases cell with hsame | ⟨c, hp, hopen, hplace⟩
  · rwa [hsame]
  · rw [hplace]
    exact tracked_place hopen (h.going hp)

theorem Tracked.foldl (h : p.Tracked) (cells : List UInt8) :
    (cells.foldl Position.move p).Tracked := by
  induction cells generalizing p with
  | nil => exact h
  | cons cell rest ih => exact ih (h.move cell)

theorem foldl_move_of_isDone (hp : p.isDone = true) (cells : List UInt8) :
    cells.foldl Position.move p = p := by
  induction cells with
  | nil => rfl
  | cons cell rest ih =>
    rcases p.move_cases cell with hsame | ⟨c, hgoing, -, -⟩
    · rw [List.foldl_cons, hsame, ih]
    · cases hp.symm.trans hgoing

theorem tracked_ofBoard (h : b.count .x = b.count .o ∨ b.count .x = b.count .o + 1)
    (hgoing : (ofBoard b).isDone = false) : (ofBoard b).Tracked := by
  obtain ⟨m, hm⟩ := Board.exists_turnOf h
  refine ⟨sound_ofBoard b, fun _ => ?_, fun hover => ?_⟩
  · rw [ofBoard_eq hm]
    exact hm
  · cases hgoing.symm.trans hover

/-- After any moves, allowed or not, the board tells the position, unless one of the moves ended the
game: then only the turn is told differently. -/
theorem ofBoard_moves (b : Board) (h : b.count .x = b.count .o ∨ b.count .x = b.count .o + 1)
    (cells : List UInt8) :
    let p := cells.foldl Position.move (ofBoard b)
    ((ofBoard b).isDone = true ∨ p.isDone = false → ofBoard p.board = p) ∧
      ((ofBoard b).isDone = false → p.isDone = true → ofBoard p.board = p.passed) := by
  intro p
  cases hstart : (ofBoard b).isDone with
  | true =>
    have hp : p = ofBoard b := foldl_move_of_isDone hstart cells
    exact ⟨fun _ => by rw [hp]; rfl, nofun⟩
  | false =>
    have htracked : p.Tracked := (tracked_ofBoard h hstart).foldl cells
    refine ⟨fun hgoing => ?_, fun _ => htracked.ended⟩
    exact ofBoard_of_turnOf htracked.sound (htracked.going (hgoing.resolve_left nofun))

/-- O wins from a board with a foreign mark, after two moves that are not allowed. -/
theorem ofBoard_moves_won :
    let b : Board := #v[1, 1, 0, 2, 2, 0, 7, 1, 0]
    let p := [0, 200, 5].foldl Position.move (ofBoard b)
    (b.count .x = b.count .o ∨ b.count .x = b.count .o + 1) ∧ p.winner = some .o ∧
      ofBoard p.board = p.passed := by
  intro b p
  have hb : b.count .x = b.count .o ∨ b.count .x = b.count .o + 1 := by decide +kernel
  exact ⟨hb, by decide +kernel,
    (ofBoard_moves b hb [0, 200, 5]).2 (by decide +kernel) (by decide +kernel)⟩

/-- X completes the first row. By the marks on the board it would be the turn of O then. -/
theorem ofBoard_winning_move :
    let b : Board := #v[1, 1, 0, 2, 2, 0, 0, 0, 0]
    let p := [2].foldl Position.move (ofBoard b)
    b.count .x = b.count .o ∧ p.player = .x ∧ (ofBoard p.board).player = .o ∧
      ofBoard p.board ≠ p := by
  decide +kernel

end Position

end GameSearch.TicTacToe
