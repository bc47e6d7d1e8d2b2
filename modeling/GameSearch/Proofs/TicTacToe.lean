import GameSearch.Proofs.Rules
import GameSearch.TicTacToe.Rules

/-!
# GameSearch.Proofs.TicTacToe

The rules of tic-tac-toe have no gaps. In the positions that come from boards and from moves
(`Position.Built`) the verdict is that of the board (`Position.Sound`), and a game goes on in them
only where a cell is empty. Each joint move fills an empty cell (`succeeds_iff`), so there are no
more moves than empty cells (`endsWithin`) and there is an answer to every question (`complete`).
-/

namespace GameSearch.TicTacToe

theorem Mark.eq_other {m m' : Mark} (h : m ≠ m') : m = m'.other := by
  cases m <;> cases m' <;> first | rfl | exact absurd rfl h

/-! ## Boards -/

namespace Board

def vacancies (b : Board) : Nat := Vector.count 0 b

theorem verdict_ne_zero_of_complete {b : Board} {l : Fin 9 × Fin 9 × Fin 9}
    (h : b.isComplete l = true) : b.get l.1 ≠ 0 := by
  simp only [isComplete, Bool.and_eq_true, bne_iff_ne] at h
  exact h.1.1

theorem exists_vacant {b : Board} (h : b.verdict = 0) : ∃ c, b.get c = 0 := by
  unfold verdict at h
  split at h
  · rename_i l hl
    exact absurd h (verdict_ne_zero_of_complete (List.find?_some hl))
  · by_contra hnone
    have hfull : b.isFull = true := by
      simp only [isFull, Vector.all_eq_true, bne_iff_ne]
      exact fun i hi h => hnone ⟨⟨i, hi⟩, h⟩
    simp [hfull] at h

theorem vacancies_set {b : Board} {c : Fin 9} {m : Mark} (h : b.get c = 0) :
    vacancies (b.set c.val m.cell c.isLt) + 1 = b.vacancies := by
  have hmark : m.cell ≠ 0 := by cases m <;> decide
  have hcell : b[c.val] = 0 := h
  have hpos : 0 < Vector.count 0 b := Vector.count_pos_iff.2 (hcell ▸ Vector.getElem_mem c.isLt)
  simp only [vacancies, Vector.count_set, hcell, beq_self_eq_true, beq_iff_eq, hmark, ↓reduceIte]
  omega

theorem vacancies_le (b : Board) : b.vacancies ≤ 9 := Vector.count_le_size

end Board

/-! ## Positions -/

namespace Position

variable {p : Position} {c : Fin 9}

/-- The verdict is that of the board. -/
def Sound (p : Position) : Prop := p.verdict = p.board.verdict

theorem sound_ofBoard (b : Board) : (ofBoard b).Sound := rfl

theorem sound_initial : initial.Sound := by
  unfold Sound
  decide +kernel

theorem sound_place (p : Position) (c : Fin 9) : (p.place c).Sound := rfl

theorem toNat_cell (c : Fin 9) : (UInt8.ofNat c.val).toNat = c.val :=
  UInt8.toNat_ofNat_of_lt' (Nat.lt_trans c.isLt (by decide))

theorem move_of_isOpen (hp : p.isDone = false) (hc : p.isOpen c = true) :
    p.move (UInt8.ofNat c.val) = p.place c := by
  simp only [move, toNat_cell, c.isLt, ↓reduceDIte, Fin.eta, hp, hc, Bool.not_true, Bool.or_self,
    Bool.false_eq_true, ↓reduceIte]

/-- A move puts a mark into an empty cell, or it changes nothing. -/
theorem move_cases (p : Position) (cell : UInt8) :
    p.move cell = p ∨ ∃ c, p.isDone = false ∧ p.isOpen c = true ∧ p.move cell = p.place c := by
  simp only [Position.move]
  split
  · rename_i hcell
    split
    · exact .inl rfl
    · rename_i hallowed
      simp only [Bool.or_eq_true, Bool.not_eq_true', not_or, Bool.not_eq_true,
        Bool.not_eq_false] at hallowed
      exact .inr ⟨⟨cell.toNat, hcell⟩, hallowed.1, hallowed.2, rfl⟩
  · exact .inl rfl

theorem Sound.move (h : p.Sound) (cell : UInt8) : (p.move cell).Sound := by
  rcases p.move_cases cell with hsame | ⟨c, -, -, hplace⟩
  · rwa [hsame]
  · rw [hplace]
    exact p.sound_place c

/-- A position that is read off a board, the start of a game, or what a move makes of one. -/
inductive Built : Position → Prop where
  | ofBoard (b : Board) : Built (.ofBoard b)
  | initial : Built .initial
  | move {p : Position} (cell : UInt8) : Built p → Built (p.move cell)

theorem Built.sound {p : Position} (h : p.Built) : p.Sound := by
  induction h with
  | ofBoard b => exact sound_ofBoard b
  | initial => exact sound_initial
  | move cell _ ih => exact ih.move cell

theorem Sound.exists_open (h : p.Sound) (hp : p.isDone = false) : ∃ c, p.isOpen c = true := by
  have hverdict : p.board.verdict = 0 := by
    rw [← h]
    simpa [isDone] using hp
  obtain ⟨c, hc⟩ := Board.exists_vacant hverdict
  exact ⟨c, beq_iff_eq.2 hc⟩

theorem vacancies_place (h : p.isOpen c = true) :
    (p.place c).board.vacancies + 1 = p.board.vacancies :=
  Board.vacancies_set (eq_of_beq h)

theorem mem_openCells (hp : p.isDone = false) : c ∈ p.openCells ↔ p.isOpen c = true := by
  simp [openCells, hp]

end Position

/-! ## Rules -/

variable {p p' : Position} {m : Mark} {a : Action} {joint : JointMove Action} {c : Fin 9} {n : Nat}

open Position (toNat_cell)

theorem mem_legalMoves_player (hp : p.isDone = false) :
    a ∈ legalMoves p p.player ↔ ∃ c, p.isOpen c = true ∧ a = .place (UInt8.ofNat c.val) := by
  have hmoves : legalMoves p p.player =
      p.openCells.map fun c : Fin 9 => .place (UInt8.ofNat c.val) := by simp [legalMoves, hp]
  simp only [hmoves, List.mem_map, Position.mem_openCells hp]
  exact exists_congr fun c => and_congr_right fun _ => eq_comm

theorem legalMoves_other (hp : p.isDone = false) : legalMoves p p.player.other = [.pass] := by
  cases h : p.player <;> simp [legalMoves, hp, h, Mark.other]

theorem mem_legalMoves_other (hp : p.isDone = false) :
    a ∈ legalMoves p p.player.other ↔ a = .pass := by
  rw [legalMoves_other hp, List.mem_singleton]

theorem mem_replies : joint ∈ replies p m a ↔ ∃ b ∈ legalMoves p m.other, joint = pair m a b := by
  simp only [replies, List.mem_map, eq_comm]

theorem legalFor_iff_pair (m : Mark) :
    game.LegalFor p game.agents joint ↔
      ∃ a ∈ legalMoves p m, ∃ b ∈ legalMoves p m.other, joint = pair m a b := by
  have hlegal : game.LegalFor p game.agents joint ↔
      ∃ a ∈ legalMoves p .x, ∃ b ∈ legalMoves p .o, joint = [a, b] := by
    constructor
    · rintro (_ | ⟨⟨_, ⟨⟩, ha⟩, _ | ⟨⟨_, ⟨⟩, hb⟩, _ | _⟩⟩)
      exact ⟨_, ha, _, hb, rfl⟩
    · rintro ⟨a, ha, b, hb, rfl⟩
      exact .cons ⟨_, rfl, ha⟩ (.cons ⟨_, rfl, hb⟩ .nil)
  cases m with
  | x => exact hlegal
  | o =>
    rw [hlegal]
    constructor
    · rintro ⟨a, ha, b, hb, rfl⟩
      exact ⟨b, hb, a, ha, rfl⟩
    · rintro ⟨b, hb, a, ha, rfl⟩
      exact ⟨a, ha, b, hb, rfl⟩

theorem legalFor_iff (hp : p.isDone = false) :
    game.LegalFor p game.agents joint ↔
      ∃ c, p.isOpen c = true ∧ joint = pair p.player (.place (UInt8.ofNat c.val)) .pass := by
  simp only [legalFor_iff_pair p.player, mem_legalMoves_player hp, mem_legalMoves_other hp]
  constructor
  · rintro ⟨_, ⟨c, hc, rfl⟩, _, rfl, rfl⟩
    exact ⟨c, hc, rfl⟩
  · rintro ⟨c, hc, rfl⟩
    exact ⟨_, ⟨c, hc, rfl⟩, _, rfl, rfl⟩

theorem next_pair (hp : p.isDone = false) (hc : p.isOpen c = true) :
    next p (pair p.player (.place (UInt8.ofNat c.val)) .pass) = .ok (p.place c) := by
  have hmove := Position.move_of_isOpen hp hc
  cases h : p.player <;>
    simp only [next, pair, hp, h, toNat_cell, c.isLt, ↓reduceDIte, Fin.eta, hc, hmove,
      Bool.false_eq_true, ↓reduceIte]

/-- A joint move fills an empty cell. -/
theorem succeeds_iff :
    game.Succeeds p p' ↔ p.isDone = false ∧ ∃ c, p.isOpen c = true ∧ p' = p.place c := by
  refine and_congr_right fun hp : p.isDone = false => ?_
  constructor
  · rintro ⟨joint, hjoint, hnext⟩
    obtain ⟨c, hc, rfl⟩ := (legalFor_iff hp).1 hjoint
    cases (next_pair hp hc).symm.trans hnext
    exact ⟨c, hc, rfl⟩
  · rintro ⟨c, hc, rfl⟩
    exact ⟨_, (legalFor_iff hp).2 ⟨c, hc, rfl⟩, next_pair hp hc⟩

theorem sound_of_reaches (hp : p.Sound) (h : game.Reaches p p') : p'.Sound := by
  induction h with
  | refl => exact hp
  | tail _ hlast _ =>
    obtain ⟨-, c, -, rfl⟩ := succeeds_iff.1 hlast
    exact Position.sound_place _ c

theorem vacancies_of_succeeds (h : game.Succeeds p p') :
    p'.board.vacancies + 1 = p.board.vacancies := by
  obtain ⟨-, c, hc, rfl⟩ := succeeds_iff.1 h
  exact Position.vacancies_place hc

theorem endsWithin (hn : p.board.vacancies ≤ n) : game.EndsWithin n p :=
  Game.endsWithin_of_rank (fun p => p.board.vacancies)
    (fun _ _ _ h => (Nat.lt_succ_self _).trans_eq (vacancies_of_succeeds h)) hn

theorem replies_legal (ha : a ∈ legalMoves p m)
    (hjoint : joint ∈ replies p m a) : game.LegalFor p game.agents joint :=
  (legalFor_iff_pair m).2 ⟨a, ha, mem_replies.1 hjoint⟩

theorem legalMoves_ne_nil (hsound : p.Sound) (hp : p.isDone = false) (m : Mark) :
    legalMoves p m ≠ [] := by
  by_cases hm : m = p.player
  · subst hm
    obtain ⟨c, hc⟩ := hsound.exists_open hp
    exact List.ne_nil_of_mem ((mem_legalMoves_player hp).2 ⟨c, hc, rfl⟩)
  · have hother : m = p.player.other := Mark.eq_other hm
    rw [hother, legalMoves_other hp]
    exact List.cons_ne_nil _ _

theorem completeAt (hsound : p.Sound) : game.CompleteAt p where
  goal hp m _ := ⟨outcome p m, if_pos hp⟩
  moves hp m _ := by
    refine ⟨_, legalMoves_ne_nil hsound hp m, rfl, fun a ha => ?_⟩
    refine ⟨_, ?_, rfl, fun joint => replies_legal ha⟩
    rw [replies, ne_eq, List.map_eq_nil_iff]
    exact legalMoves_ne_nil hsound hp m.other
  offered _ _ h := nomatch h
  next hp joint hjoint := by
    obtain ⟨c, hc, rfl⟩ := (legalFor_iff hp).1 hjoint
    exact ⟨_, next_pair hp hc⟩

theorem complete (hsound : p.Sound) : game.Complete p :=
  fun _ h => completeAt (sound_of_reaches hsound h)

/-! ## Outcomes -/

theorem outcome_add (p : Position) : (outcome p .x).toInt + (outcome p .o).toInt = 100 := by
  unfold outcome
  cases p.winner with
  | none => decide
  | some w => cases w <;> decide

end GameSearch.TicTacToe
