import GameSearch.Proofs.Rules
import GameSearch.Proofs.TicTacToe
import GameSearch.Random.Keystream
import GameSearch.Table.Basic

/-!
# GameSearch.Proofs.Playout.Ending

How random plays end. `Faulty a s e` says that the rules have a gap in the state `s`, which gives
the error `e` to a random play for `a` that comes there.

* `playoutFrom_rule`: an error in the rules is one that stands in the way of some play.
* `playoutFrom_mono`: a play that has come to its end would not have been longer under a larger
  bound.
* `playout_genuine`: what a random play returns is the end of a play by the moves that may be drawn,
  and where all those plays are short and free of faults it does return.
-/

namespace GameSearch

theorem RandomSource.choose_none {γ β : Type} [RandomSource γ] {xs : List β} {g g' : γ}
    (h : choose xs g = (none, g')) : xs = [] := by
  by_contra hne
  have hsome := choose_isSome g hne
  rw [h] at hsome
  cases hsome

namespace Game

variable {σ μ α γ : Type} {game : Game σ μ α} {a : α} {s s' s'' : σ} {e : RuleError} {d n : Nat}

/-- What a random play for `a` asks in the state has an error for an answer, or leaves it without a
move. -/
inductive Faulty (game : Game σ μ α) (a : α) (s : σ) : RuleError → Prop where
  | goal {e : RuleError} : game.terminal s = true → game.goal s a = .error e → Faulty game a s e
  | moves {e : RuleError} {b : α} : game.terminal s = false → game.offered = none →
      b ∈ game.agents → game.legalMoves s b = .error e → Faulty game a s e
  | noMoves {b : α} : game.terminal s = false → game.offered = none → b ∈ game.agents →
      game.legalMoves s b = .ok [] → Faulty game a s (game.noLegalMoves s b)
  | offers {e : RuleError} {offers : σ → Except RuleError (List (JointMove μ))} :
      game.terminal s = false → game.offered = some offers → offers s = .error e →
      Faulty game a s e
  | noOffers {offers : σ → Except RuleError (List (JointMove μ))} : game.terminal s = false →
      game.offered = some offers → offers s = .ok [] →
      Faulty game a s (.noLegalMoves (game.showState s) "")
  | next {e : RuleError} {joint : JointMove μ} : game.terminal s = false → game.MayDraw s joint →
      game.next s joint = .error e → Faulty game a s e

/-! ## Plays -/

theorem Plays.concat {joint : JointMove μ} (h : game.Plays n s s') (hs : game.terminal s' = false)
    (hjoint : game.MayDraw s' joint) (hnext : game.next s' joint = .ok s'') :
    game.Plays (n + 1) s s'' := by
  induction h with
  | none s => exact .step hs hjoint hnext (.none s'')
  | step hs₁ hjoint₁ hnext₁ _ ih => exact .step hs₁ hjoint₁ hnext₁ (ih hs hjoint hnext)

theorem exists_legalFor {agents : List α}
    (h : ∀ b ∈ agents, ∃ moves, game.legalMoves s b = .ok moves ∧ moves ≠ []) :
    ∃ joint, game.LegalFor s agents joint := by
  induction agents with
  | nil => exact ⟨[], .nil⟩
  | cons b rest ih =>
    obtain ⟨moves, hmoves, hne⟩ := h b List.mem_cons_self
    obtain ⟨m, hm⟩ := List.exists_mem_of_ne_nil moves hne
    obtain ⟨joint, hjoint⟩ := ih fun b hb => h b (List.mem_cons_of_mem _ hb)
    exact ⟨m :: joint, .cons ⟨moves, hmoves, hm⟩ hjoint⟩

theorem exists_mayDraw (hs : game.terminal s = false) (h : ∀ e, ¬game.Faulty a s e) :
    ∃ joint, game.MayDraw s joint := by
  unfold MayDraw
  cases hoffered : game.offered with
  | none =>
    refine exists_legalFor fun b hb => ?_
    cases hmoves : game.legalMoves s b with
    | error e => exact absurd (.moves hs hoffered hb hmoves) (h e)
    | ok moves =>
      refine ⟨moves, rfl, ?_⟩
      rintro rfl
      exact h _ (.noMoves hs hoffered hb hmoves)
  | some offers =>
    cases hjoints : offers s with
    | error e => exact absurd (.offers hs hoffered hjoints) (h e)
    | ok joints =>
      cases joints with
      | nil => exact absurd (.noOffers hs hoffered hjoints) (h _)
      | cons joint rest => exact ⟨joint, _, hjoints, List.mem_cons_self⟩

theorem Outlasts.longer (h : game.Outlasts n s)
    (hfaultless : ∀ n s' e, game.Plays n s s' → ¬game.Faulty a s' e) :
    ∃ s', game.Plays (n + 1) s s' := by
  obtain ⟨s', hplays, hs'⟩ := h
  obtain ⟨joint, hjoint⟩ := exists_mayDraw hs' fun e => hfaultless n s' e hplays
  cases hnext : game.next s' joint with
  | error e => exact absurd (.next hs' hjoint hnext) (hfaultless n s' e hplays)
  | ok s'' => exact ⟨s'', hplays.concat hs' hjoint hnext⟩

/-! ## Rules without gaps -/

theorem CompleteAt.legalFor_of_mayDraw {joint : JointMove μ} (h : game.CompleteAt s)
    (hs : game.terminal s = false) (hjoint : game.MayDraw s joint) :
    game.LegalFor s game.agents joint := by
  unfold MayDraw at hjoint
  cases hoffered : game.offered with
  | none =>
    rw [hoffered] at hjoint
    exact hjoint
  | some offers =>
    rw [hoffered] at hjoint
    obtain ⟨joints, hjoints, hmem⟩ := hjoint
    obtain ⟨joints', -, hjoints', hlegal⟩ := h.offered hs offers hoffered
    cases hjoints.symm.trans hjoints'
    exact hlegal joint hmem

theorem CompleteAt.faultless (h : game.CompleteAt s) (ha : a ∈ game.agents) :
    ¬game.Faulty a s e := by
  intro hfault
  cases hfault with
  | goal hs hv =>
    obtain ⟨v, hv'⟩ := h.goal hs a ha
    cases hv.symm.trans hv'
  | moves hs _ hb hmoves =>
    obtain ⟨moves, -, hmoves', -⟩ := h.moves hs _ hb
    cases hmoves.symm.trans hmoves'
  | noMoves hs _ hb hmoves =>
    obtain ⟨moves, hne, hmoves', -⟩ := h.moves hs _ hb
    cases hmoves.symm.trans hmoves'
    exact hne rfl
  | offers hs hoffered hjoints =>
    obtain ⟨joints, -, hjoints', -⟩ := h.offered hs _ hoffered
    cases hjoints.symm.trans hjoints'
  | noOffers hs hoffered hjoints =>
    obtain ⟨joints, hne, hjoints', -⟩ := h.offered hs _ hoffered
    cases hjoints.symm.trans hjoints'
    exact hne rfl
  | next hs hjoint hnext =>
    obtain ⟨s', hnext'⟩ := h.next hs _ (h.legalFor_of_mayDraw hs hjoint)
    cases hnext.symm.trans hnext'

theorem Complete.plays (h : game.Complete s) (hplays : game.Plays n s s') :
    game.Complete s' ∧ ∀ d, game.EndsWithin d s → n ≤ d := by
  induction hplays with
  | none => exact ⟨h, fun d _ => Nat.zero_le d⟩
  | step hs hjoint hnext _ ih =>
    have hsucceeds : game.Succeeds _ _ := ⟨hs, _, h.here.legalFor_of_mayDraw hs hjoint, hnext⟩
    obtain ⟨hcomplete, hlength⟩ := ih (h.after hsucceeds)
    refine ⟨hcomplete, fun d hd => ?_⟩
    obtain ⟨k, rfl, hk⟩ := hd.after hsucceeds
    exact Nat.succ_le_succ (hlength k hk)

/-! ## Faults -/

section

variable [RandomSource γ]

theorem drawEach_error {agents : List α} {g g' : γ}
    (h : game.drawEach s agents g = (.error e, g')) :
    ∃ b ∈ agents, game.legalMoves s b = .error e ∨
      game.legalMoves s b = .ok [] ∧ e = game.noLegalMoves s b := by
  induction agents generalizing g with
  | nil => cases h
  | cons b rest ih =>
    simp only [drawEach] at h
    split at h
    · rename_i hmoves
      cases h
      exact ⟨b, List.mem_cons_self, .inl hmoves⟩
    · rename_i moves hmoves
      split at h
      · rename_i hnone
        cases h
        obtain rfl := RandomSource.choose_none hnone
        exact ⟨b, List.mem_cons_self, .inr ⟨hmoves, rfl⟩⟩
      · split at h
        · rename_i hrest
          cases h
          obtain ⟨b', hb', hfault⟩ := ih hrest
          exact ⟨b', List.mem_cons_of_mem _ hb', hfault⟩
        · cases h

theorem drawJoint_error {g g' : γ} (hs : game.terminal s = false)
    (h : game.drawJoint s g = (.error e, g')) : game.Faulty a s e := by
  unfold drawJoint at h
  cases hoffered : game.offered with
  | none =>
    simp only [hoffered] at h
    obtain ⟨b, hb, hmoves | ⟨hmoves, rfl⟩⟩ := drawEach_error h
    · exact .moves hs hoffered hb hmoves
    · exact .noMoves hs hoffered hb hmoves
  | some offers =>
    simp only [hoffered] at h
    split at h
    · rename_i hjoints
      cases h
      exact .offers hs hoffered hjoints
    · rename_i joints hjoints
      split at h
      · rename_i hnone
        cases h
        obtain rfl := RandomSource.choose_none hnone
        exact .noOffers hs hoffered hjoints
      · cases h

theorem playoutFrom_of_terminal (hs : game.terminal s = true) (bound : Nat) (depth : UInt32)
    (moves : Nat) (g : γ) :
    game.playoutFrom a bound s depth moves g = match game.goal s a with
      | .error e => (.error (.rule e), g)
      | .ok v => (.ok ⟨v, depth, moves⟩, g) := by
  rw [playoutFrom.eq_def]
  cases hv : game.goal s a <;> simp only [hs, hv, ↓reduceIte]

theorem playoutFrom_cases (hs : game.terminal s = false) (bound : Nat) (depth : UInt32)
    (moves : Nat) (g : γ) :
    (∃ e g', game.playoutFrom a (bound + 1) s depth moves g = (.error (.rule e), g') ∧
      game.Faulty a s e) ∨
    ∃ joint s' g', game.MayDraw s joint ∧ game.next s joint = .ok s' ∧ ∀ k,
      game.playoutFrom a (k + 1) s depth moves g =
        game.playoutFrom a k s' (depth + 1) (moves + 1) g' := by
  cases hdraw : game.drawJoint s g with
  | mk drawn g₁ =>
    cases drawn with
    | error e =>
      refine .inl ⟨e, g₁, ?_, drawJoint_error hs hdraw⟩
      simp [playoutFrom, hs, hdraw]
    | ok joint =>
      have hjoint := drawJoint_ok hdraw
      cases hnext : game.next s joint with
      | error e =>
        refine .inl ⟨e, g₁, ?_, .next hs hjoint hnext⟩
        simp [playoutFrom, hs, hdraw, hnext]
      | ok s' =>
        exact .inr ⟨joint, s', g₁, hjoint, hnext,
          fun k => playoutFrom_step hs hdraw hnext a k depth moves⟩

theorem faulty_of_terminal {bound moves : Nat} {depth : UInt32} {g g' : γ}
    (hs : game.terminal s = true)
    (h : game.playoutFrom a bound s depth moves g = (.error (.rule e), g')) :
    game.Faulty a s e := by
  rw [playoutFrom_of_terminal hs] at h
  split at h
  · rename_i hv
    cases h
    exact .goal hs hv
  · cases h

theorem playoutFrom_rule {bound moves : Nat} {depth : UInt32} {g g' : γ}
    (h : game.playoutFrom a bound s depth moves g = (.error (.rule e), g')) :
    ∃ n s', game.Plays n s s' ∧ game.Faulty a s' e := by
  -- induction on the number of steps that are left
  induction bound generalizing s depth moves g with
  | zero =>
    cases hs : game.terminal s with
    | true => exact ⟨0, s, .none s, faulty_of_terminal hs h⟩
    | false => simp [playoutFrom, hs] at h
  | succ bound ih =>
    cases hs : game.terminal s with
    | true => exact ⟨0, s, .none s, faulty_of_terminal hs h⟩
    | false =>
      rcases playoutFrom_cases (a := a) hs bound depth moves g with
        ⟨e', g₁, herror, hfault⟩ | ⟨joint, s₁, g₁, hjoint, hnext, hstep⟩
      · cases herror.symm.trans h
        exact ⟨0, s, .none s, hfault⟩
      · obtain ⟨n, s', hplays, hfault⟩ := ih ((hstep bound).symm.trans h)
        exact ⟨n + 1, s', .step hs hjoint hnext hplays, hfault⟩

theorem playoutFrom_mono {bound bound' moves : Nat} {depth : UInt32} {play : Playout} {g g' : γ}
    (h : game.playoutFrom a bound s depth moves g = (.ok play, g')) (hbound : bound ≤ bound') :
    game.playoutFrom a bound' s depth moves g = (.ok play, g') := by
  induction bound generalizing bound' s depth moves g with
  | zero =>
    cases hs : game.terminal s with
    | true =>
      rw [playoutFrom_of_terminal hs] at h ⊢
      exact h
    | false => simp [playoutFrom, hs] at h
  | succ bound ih =>
    cases hs : game.terminal s with
    | true =>
      rw [playoutFrom_of_terminal hs] at h ⊢
      exact h
    | false =>
      obtain ⟨bound', rfl⟩ : ∃ b, bound' = b + 1 := ⟨bound' - 1, by omega⟩
      rcases playoutFrom_cases (a := a) hs bound depth moves g with
        ⟨e', g₁, herror, -⟩ | ⟨joint, s₁, g₁, -, -, hstep⟩
      · cases herror.symm.trans h
      · rw [hstep] at h ⊢
        exact ih h (Nat.le_of_succ_le_succ hbound)

theorem playout_ok {bound : Nat} {play : Playout} {g g' : γ}
    (h : game.playout bound s a g = (.ok play, g')) :
    ∃ n s', game.Plays n s s' ∧ game.terminal s' = true ∧ game.goal s' a = .ok play.goal ∧
      play.depth = .ofNat n ∧ play.moves = n := by
  obtain ⟨n, s', hplays, hs', hv, hdepth, hmoves⟩ := playoutFrom_ok h
  exact ⟨n, s', hplays, hs', hv, hdepth.trans (UInt32.zero_add _), hmoves.trans (Nat.zero_add n)⟩

/-- A random play that is allowed the length of the longest play comes to its end. -/
theorem playout_returns (hlength : ∀ n s', game.Plays n s s' → n ≤ d)
    (hfaultless : ∀ n s' e, game.Plays n s s' → ¬game.Faulty a s' e) (g : γ) :
    ∃ play g', game.playout d s a g = (.ok play, g') := by
  cases hplay : game.playout d s a g with
  | mk result g' =>
    cases result with
    | ok play => exact ⟨play, g', rfl⟩
    | error e =>
      rcases playoutFrom_error hplay with ⟨r, rfl⟩ | ⟨rfl, hlong⟩
      · obtain ⟨n, s', hplays, hfault⟩ := playoutFrom_rule hplay
        exact absurd hfault (hfaultless n s' r hplays)
      · obtain ⟨s', hplays⟩ := hlong.longer hfaultless
        exact absurd (hlength (d + 1) s' hplays) (Nat.not_succ_le_self d)

end

end Game

theorem Table.mayDraw_iff (t : Table) (s : String) (joint : JointMove String) :
    t.game.MayDraw s joint ↔ joint ∈ t.jointMoves s := by
  have hoffered : t.game.MayDraw s joint ↔ ∃ joints, t.offered s = .ok joints ∧ joint ∈ joints :=
    Iff.rfl
  rw [hoffered, offered]
  cases t.jointMoves s <;> simp

namespace Game

variable {σ μ α γ : Type} [RandomSource γ]

/-- A random play that returns has made a play: as many joint moves as it says, modulo `2 ^ 32`, from
states that are not terminal to one that is, whose goal it returns. Where no play has more than `d`
joint moves and none meets a fault, it does return, with every source of randomness and however far
beyond `d` it is allowed to go. The joint moves are a legal move of every agent each, or in a table
one of those that are listed for the state. -/
theorem playout_genuine (game : Game σ μ α) (a : α) (s : σ) :
    (∀ bound (g : γ) play g', game.playout bound s a g = (.ok play, g') →
      ∃ n s', game.Plays n s s' ∧ play.depth.toNat = n % 2 ^ 32 ∧ game.terminal s' = true ∧
        game.goal s' a = .ok play.goal) ∧
    (∀ d, (∀ n s', game.Plays n s s' → n ≤ d) →
      (∀ n s' e, game.Plays n s s' → ¬game.Faulty a s' e) →
      ∀ g : γ, ∃ play g', play.depth.toNat ≤ d ∧
        ∀ bound, d ≤ bound → game.playout bound s a g = (.ok play, g')) ∧
    (game.offered = none → ∀ s joint, game.MayDraw s joint ↔
      List.Forall₂ (fun b m => ∃ moves, game.legalMoves s b = .ok moves ∧ m ∈ moves)
        game.agents joint) ∧
    ∀ (t : Table) s joint, t.game.MayDraw s joint ↔ joint ∈ t.jointMoves s := by
  refine ⟨fun bound g play g' hplay => ?_, fun d hlength hfaultless g => ?_,
    fun hoffered s joint => ?_, Table.mayDraw_iff⟩
  · obtain ⟨n, s', hplays, hs', hv, hdepth, -⟩ := playout_ok hplay
    exact ⟨n, s', hplays, hdepth ▸ UInt32.toNat_ofNat', hs', hv⟩
  · obtain ⟨play, g', hplay⟩ := playout_returns hlength hfaultless g
    obtain ⟨n, s', hplays, -, -, hdepth, -⟩ := playout_ok hplay
    refine ⟨play, g', ?_, fun bound hbound => playoutFrom_mono hplay hbound⟩
    rw [hdepth, UInt32.toNat_ofNat']
    exact Nat.le_trans (Nat.mod_le n _) (hlength n s' hplays)
  · simp only [MayDraw, hoffered, LegalFor]

/-- Random plays of tic-tac-toe, with any numbers. -/
theorem playout_genuine_ticTacToe :
    let game := TicTacToe.game
    (∀ n p, game.Plays n .initial p → n ≤ 9) ∧
      (∀ n p e, game.Plays n .initial p → ¬game.Faulty .x p e) ∧
      ∀ g : Keystream, ∃ play g' p, play.depth.toNat ≤ 9 ∧
        (∀ bound, 9 ≤ bound → game.playout bound .initial .x g = (.ok play, g')) ∧
        game.Plays play.depth.toNat .initial p ∧ game.terminal p = true ∧
        game.goal p .x = .ok play.goal := by
  intro game
  have hcomplete : game.Complete .initial := TicTacToe.complete TicTacToe.Position.sound_initial
  have hends : game.EndsWithin 9 .initial := TicTacToe.endsWithin (TicTacToe.Board.vacancies_le _)
  have hlength : ∀ n p, game.Plays n .initial p → n ≤ 9 :=
    fun n p hplays => (hcomplete.plays hplays).2 9 hends
  have hagent : TicTacToe.Mark.x ∈ game.agents := by decide
  have hfaultless : ∀ n p e, game.Plays n .initial p → ¬game.Faulty .x p e :=
    fun n p e hplays => (hcomplete.plays hplays).1.here.faultless hagent
  obtain ⟨hplayed, hreturns, -⟩ := playout_genuine (γ := Keystream) game .x .initial
  refine ⟨hlength, hfaultless, fun g => ?_⟩
  obtain ⟨play, g', hdepth, hplay⟩ := hreturns 9 hlength hfaultless g
  obtain ⟨n, p, hplays, hcount, hp, hv⟩ := hplayed 9 g play g' (hplay 9 (Nat.le_refl 9))
  have hn : play.depth.toNat = n := by
    have := hlength n p hplays
    omega
  exact ⟨play, g', p, hdepth, hplay, hn ▸ hplays, hp, hv⟩

/-! ### A play that is too long to be counted -/

def countdown : Game Nat Unit Unit where
  agents := [()]
  legalMoves _ _ := .ok [()]
  replies _ _ _ := .ok [[()]]
  next n _ := .ok (n - 1)
  terminal n := n == 0
  goal _ _ := .ok 100
  offered := none
  showState n := toString n
  showMove _ := "count"
  showAgent _ := "self"

theorem countdown_playoutFrom (n : Nat) (depth : UInt32) (moves : Nat) (g : γ) :
    ∃ g', countdown.playoutFrom () n n depth moves g =
      (.ok ⟨100, depth + .ofNat n, moves + n⟩, g') := by
  induction n generalizing depth moves g with
  | zero =>
    have hend : countdown.goal 0 () = .ok 100 := rfl
    refine ⟨g, (playoutFrom_terminal rfl hend 0 depth moves g).trans ?_⟩
    rw [Nat.add_zero, show UInt32.ofNat 0 = 0 from rfl, UInt32.add_zero]
  | succ n ih =>
    obtain ⟨g₁, hchoose⟩ : ∃ g₁, RandomSource.choose [()] g = (some (), g₁) := by
      obtain ⟨u, hu⟩ := Option.isSome_iff_exists.1
        (RandomSource.choose_isSome g (List.cons_ne_nil () []))
      exact ⟨_, Prod.ext hu rfl⟩
    have hdraw : countdown.drawJoint (n + 1) g = (.ok [()], g₁) := by
      simp only [drawJoint, drawEach, countdown, hchoose]
    obtain ⟨g', hplay⟩ := ih (depth + 1) (moves + 1) g₁
    refine ⟨g', (playoutFrom_step rfl hdraw rfl () n depth moves).trans (hplay.trans ?_)⟩
    have hdepth : depth + 1 + .ofNat n = depth + .ofNat (n + 1) := by
      rw [UInt32.add_assoc, Nat.add_comm n, UInt32.ofNat_add]
      rfl
    rw [hdepth, Nat.add_right_comm, Nat.add_assoc]

/-- A play of `2 ^ 32` joint moves has depth zero, though it did not start at its end. -/
theorem depth_goes_round : ∃ play g',
    countdown.playout (2 ^ 32) (2 ^ 32) () (RandomSource.seeded 42 : Keystream) = (.ok play, g') ∧
      ¬∃ s', countdown.Plays play.depth.toNat (2 ^ 32) s' ∧ countdown.terminal s' = true ∧
        countdown.goal s' () = .ok play.goal := by
  obtain ⟨g', hplay⟩ := countdown_playoutFrom (2 ^ 32) 0 0 (RandomSource.seeded 42 : Keystream)
  refine ⟨_, g', hplay, ?_⟩
  rintro ⟨s', hplays, hs', -⟩
  have hdepth : (0 + UInt32.ofNat (2 ^ 32)).toNat = 0 := by decide +kernel
  rw [hdepth] at hplays
  cases hplays
  exact absurd hs' (by decide +kernel)

end Game

end GameSearch
