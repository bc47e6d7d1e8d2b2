import GameSearch.Proofs.TicTacToe

/-!
# GameSearch.Proofs.TicTacToe.Rules

Tic-tac-toe from any board: foreign marks, more marks of one player than of the other, and several
complete lines included. What the agents may do, which joint moves are listed for them and which
ones the rules accept is worked out in three places, and the three agree (`goesOn`). A game that is
over stays over and is worth 100 between the players (`isOver`). Each move fills an empty cell, so
every play comes to an end (`ends`).

* `rules_wellFormed`: all of this holds of every position that boards and moves give.
-/

namespace GameSearch.TicTacToe

/-- What the rules say of a position in which the game goes on. -/
structure GoesOn (p : Position) : Prop where
  moves : ∀ m, ∃ moves part, game.legalMoves p m = .ok moves ∧ moves ≠ [] ∧ moves.Nodup ∧
    (∀ a, game.replies p m a = .ok (part a)) ∧ (moves.flatMap part).Nodup ∧
    ∀ joint, joint ∈ moves.flatMap part ↔ game.LegalFor p game.agents joint
  next : ∀ joint, (∃ p', game.next p joint = .ok p') ↔ game.LegalFor p game.agents joint
  fills : ∀ joint p', game.next p joint = .ok p' → ∃ c, p.board.get c = 0 ∧
    joint = pair p.player (.place (UInt8.ofNat c.val)) .pass ∧ p' = p.move (UInt8.ofNat c.val) ∧
    p'.board.get c ≠ 0 ∧ ∀ c', c' ≠ c → p'.board.get c' = p.board.get c'

structure IsOver (p : Position) : Prop where
  moves : ∀ m, game.legalMoves p m = .ok []
  next : ∀ joint, ∃ e, game.next p joint = .error e
  goals : ∃ v w, game.goal p .x = .ok v ∧ game.goal p .o = .ok w ∧ v.toInt + w.toInt = 100

/-- The rules leave nothing open in a position. -/
def Settled (p : Position) : Prop :=
  (game.terminal p = false → GoesOn p) ∧ (game.terminal p = true → IsOver p)

/-- How plays from a position go. -/
structure Ends (p : Position) : Prop where
  plays : ∀ joints p', game.follow p joints = .ok p' →
    joints.length + p'.board.vacancies = p.board.vacancies ∧ Settled p'
  playouts : ∀ {γ : Type} [RandomSource γ] (g : γ) (agent : Mark) (bound : Nat),
    p.board.vacancies ≤ bound → ∃ v n g',
      game.playout bound p agent g = (.ok ⟨v, .ofNat n, n⟩, g') ∧ n ≤ p.board.vacancies

variable {p p' : Position} {m : Mark} {a a' b b' : Action} {joint : JointMove Action} {c : Fin 9}
  {n : Nat}

/-! ## Joint moves -/

theorem place_inj {c c' : Fin 9}
    (h : Action.place (UInt8.ofNat c.val) = .place (UInt8.ofNat c'.val)) : c = c' := by
  have hcell : (UInt8.ofNat c.val).toNat = (UInt8.ofNat c'.val).toNat :=
    congrArg UInt8.toNat (Action.place.inj h)
  rw [Position.toNat_cell, Position.toNat_cell] at hcell
  exact Fin.ext hcell

theorem pair_inj (h : pair m a b = pair m a' b') : a = a' ∧ b = b' := by
  cases m <;> simp_all [pair]

theorem nodup_legalMoves (p : Position) (m : Mark) : (legalMoves p m).Nodup := by
  have hopen : p.openCells.Nodup := by
    unfold Position.openCells
    split
    · exact List.nodup_nil
    · exact (List.nodup_finRange 9).filter _
  unfold legalMoves
  split
  · exact List.nodup_nil
  · split
    · exact hopen.map fun c c' h => place_inj h
    · exact List.nodup_singleton _

theorem mem_listed : joint ∈ (legalMoves p m).flatMap (replies p m) ↔
    game.LegalFor p game.agents joint := by
  simp only [List.mem_flatMap, mem_replies, legalFor_iff_pair m]

theorem nodup_listed (p : Position) (m : Mark) :
    ((legalMoves p m).flatMap (replies p m)).Nodup := by
  refine List.nodup_flatMap.2 ⟨fun a _ => ?_, (nodup_legalMoves p m).imp fun hne => ?_⟩
  · exact (nodup_legalMoves p m.other).map fun b b' h => (pair_inj h).2
  · intro joint hjoint hjoint'
    obtain ⟨b, -, rfl⟩ := mem_replies.1 hjoint
    obtain ⟨b', -, heq⟩ := mem_replies.1 hjoint'
    exact hne (pair_inj heq).1

theorem next_of_isDone (hp : p.isDone = true) (joint : JointMove Action) :
    ∃ e, next p joint = .error e := by
  unfold next
  split
  · exact ⟨_, if_pos hp⟩
  · exact ⟨_, rfl⟩

theorem exists_eq_pair (m : Mark) (a b : Action) : ∃ mine idle, [a, b] = pair m mine idle := by
  cases m with
  | x => exact ⟨a, b, rfl⟩
  | o => exact ⟨b, a, rfl⟩

theorem isOpen_of_next (h : next p joint = .ok p') :
    p.isDone = false ∧ ∃ c, p.isOpen c = true ∧
      joint = pair p.player (.place (UInt8.ofNat c.val)) .pass := by
  have hp : p.isDone = false := by
    refine Bool.eq_false_iff.2 fun hp => ?_
    obtain ⟨e, he⟩ := next_of_isDone hp joint
    cases he.symm.trans h
  refine ⟨hp, ?_⟩
  match joint with
  | [] | [_] | _ :: _ :: _ :: _ => cases h
  | [a, b] =>
    obtain ⟨mine, idle, hpair⟩ := exists_eq_pair p.player a b
    rw [hpair] at h ⊢
    -- the checks in their order: the idle agent, the kind of move, the cell
    cases idle with
    | place cell => cases hplayer : p.player <;> simp [next, pair, hp, hplayer] at h
    | pass =>
      cases mine with
      | pass => cases hplayer : p.player <;> simp [next, pair, hp, hplayer] at h
      | place cell =>
        by_cases hcell : cell.toNat < 9
        · by_cases hopen : p.isOpen ⟨cell.toNat, hcell⟩ = true
          · exact ⟨⟨cell.toNat, hcell⟩, hopen, by rw [UInt8.ofNat_toNat]⟩
          · cases hplayer : p.player <;> simp [next, pair, hp, hplayer, hcell, hopen] at h
        · cases hplayer : p.player <;> simp [next, pair, hp, hplayer, hcell] at h

theorem next_fills (h : next p joint = .ok p') :
    ∃ c, p.board.get c = 0 ∧ joint = pair p.player (.place (UInt8.ofNat c.val)) .pass ∧
      p' = p.move (UInt8.ofNat c.val) ∧ p'.board.get c ≠ 0 ∧
      ∀ c', c' ≠ c → p'.board.get c' = p.board.get c' := by
  obtain ⟨hp, c, hc, rfl⟩ := isOpen_of_next h
  cases (next_pair hp hc).symm.trans h
  refine ⟨c, eq_of_beq hc, rfl, (Position.move_of_isOpen hp hc).symm, ?_, fun c' hne => ?_⟩
  · have hmark : p.player.cell ≠ 0 := by cases p.player <;> decide
    have hset : (p.place c).board.get c = p.player.cell := Vector.getElem_set_self c.isLt
    rwa [hset]
  · have hval : c.val ≠ c'.val := fun h => hne (Fin.ext h.symm)
    exact Vector.getElem_set_ne c.isLt c'.isLt hval

/-! ## Positions -/

theorem goesOn (hsound : p.Sound) (hp : p.isDone = false) : GoesOn p where
  moves m := ⟨legalMoves p m, replies p m, rfl, legalMoves_ne_nil hsound hp m, nodup_legalMoves p m,
    fun _ => rfl, nodup_listed p m, fun _ => mem_listed⟩
  next joint := by
    constructor
    · rintro ⟨p', hp'⟩
      exact (legalFor_iff hp).2 (isOpen_of_next hp').2
    · exact (completeAt hsound).next hp joint
  fills _ _ := next_fills

theorem isOver (hp : p.isDone = true) : IsOver p where
  moves _ := congrArg Except.ok (if_pos hp)
  next := next_of_isDone hp
  goals := ⟨outcome p .x, outcome p .o, if_pos hp, if_pos hp, outcome_add p⟩

theorem settled (hsound : p.Sound) : Settled p := ⟨goesOn hsound, isOver⟩

/-! ## Plays -/

theorem vacancies_of_next (h : next p joint = .ok p') :
    p'.board.vacancies + 1 = p.board.vacancies := by
  obtain ⟨hp, hjoint⟩ := isOpen_of_next h
  exact vacancies_of_succeeds ⟨hp, joint, (legalFor_iff hp).2 hjoint, h⟩

theorem sound_of_next (h : next p joint = .ok p') : p'.Sound := by
  obtain ⟨hp, c, hc, rfl⟩ := isOpen_of_next h
  cases (next_pair hp hc).symm.trans h
  exact Position.sound_place p c

theorem follow_settled {joints : List (JointMove Action)} (hsound : p.Sound)
    (h : game.follow p joints = .ok p') :
    joints.length + p'.board.vacancies = p.board.vacancies ∧ Settled p' := by
  induction joints generalizing p with
  | nil =>
    cases h
    exact ⟨Nat.zero_add _, settled hsound⟩
  | cons joint rest ih =>
    obtain ⟨p₁, hnext, hrest⟩ := Game.follow_cons.1 h
    obtain ⟨hlength, hsettled⟩ := ih (sound_of_next hnext) hrest
    have hvacancies := vacancies_of_next hnext
    rw [List.length_cons]
    exact ⟨by omega, hsettled⟩

theorem vacancies_of_plays (h : game.Plays n p p') :
    n + p'.board.vacancies = p.board.vacancies := by
  induction h with
  | none => exact Nat.zero_add _
  | step _ _ hnext _ ih =>
    have hvacancies := vacancies_of_next hnext
    omega

theorem ends (hsound : p.Sound) : Ends p where
  plays _ _ := follow_settled hsound
  playouts g agent bound hbound := by
    have hagent : agent ∈ game.agents := by cases agent <;> decide
    obtain ⟨⟨v, depth, moves⟩, g', hplay⟩ := Game.playoutFrom_answers hagent (complete hsound)
      (endsWithin le_rfl) hbound 0 0 g
    obtain ⟨n, p', hplays, -, -, hdepth, hmoves⟩ := Game.playoutFrom_ok hplay
    have hvacancies := vacancies_of_plays hplays
    obtain rfl : depth = .ofNat n := hdepth.trans (UInt32.zero_add _)
    obtain rfl : moves = n := hmoves.trans (Nat.zero_add n)
    exact ⟨v, _, g', hplay, by omega⟩

/-- The rules leave nothing open in any position that boards and moves give, and every play from
there comes to an end. -/
theorem rules_wellFormed (h : p.Built) : Settled p ∧ Ends p :=
  ⟨settled h.sound, ends h.sound⟩

/-- Foreign marks, far more of X than of O, and O moves. -/
theorem rules_wellFormed_foreign :
    let p := (Position.ofBoard #v[7, 1, 1, 0, 1, 7, 0, 0, 9]).move 3
    p.Built ∧ p.player = .x ∧ p.board.vacancies = 2 ∧ GoesOn p ∧ Ends p := by
  intro p
  have hp : p.Built := .move 3 (.ofBoard _)
  have hgoes : game.terminal p = false := by decide +kernel
  exact ⟨hp, by decide +kernel, by decide +kernel, (rules_wellFormed hp).1.1 hgoes,
    (rules_wellFormed hp).2⟩

end GameSearch.TicTacToe
