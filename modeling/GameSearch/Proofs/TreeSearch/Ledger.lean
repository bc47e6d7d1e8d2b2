import GameSearch.Proofs.Playout.Ending
import GameSearch.Proofs.TreeSearch.History
import GameSearch.Proofs.TreeSearch.Simulation
import GameSearch.Table.Entry
import Mathlib.Data.Nat.ModEq

/-!
# GameSearch.Proofs.TreeSearch.Ledger

The plays behind the counters. A `Ledger` has all plays that came to their end, those of
simulations that were finished and those of simulations in which a later play failed. It is read
off the source of randomness before a step, not off the counters.

* `Setup.simulate_booked`: a simulation that is finished counts all its plays with their moves, and
  one that fails counts the moves of the plays before the failure, but not the plays.
* `Session.iterate_booked`: the same for an iteration.
* `History.ledger_agrees`: the counters of a session are the totals of its ledger.
-/

namespace GameSearch

/-- A play for the goal of `a` that came to its end: a random play, perhaps behind a reply to a move
of `a` that was settled before. Its depth is the number of joint moves, modulo `2 ^ 32`. -/
inductive Game.Finished {σ μ α : Type} (game : Game σ μ α) (a : α) : Playout → Prop where
  | random {s s' : σ} {v : Int32} {n : Nat} : game.Plays n s s' → game.terminal s' = true →
      game.goal s' a = .ok v → Finished game a ⟨v, .ofNat n, n⟩
  | replied {s₀ s s' : σ} {action : μ} {joints : List (JointMove μ)} {joint : JointMove μ}
      {v : Int32} {n : Nat} : game.replies s₀ a action = .ok joints → joint ∈ joints →
      game.next s₀ joint = .ok s → game.Plays n s s' → game.terminal s' = true →
      game.goal s' a = .ok v → Finished game a ⟨v, .ofNat (n + 1), n + 1⟩

theorem Game.Finished.depth {σ μ α : Type} {game : Game σ μ α} {a : α} {play : Playout}
    (h : game.Finished a play) : play.depth.toNat = play.moves % 2 ^ 32 := by
  cases h <;> exact UInt32.toNat_ofNat'

namespace TreeSearch

def movesIn (plays : List Playout) : Nat := (plays.map Playout.moves).sum

/-- The joint moves made in some plays, as far as the depths tell them. -/
def depthsIn (plays : List Playout) : Nat := (plays.map fun play => play.depth.toNat).sum

theorem depthsIn_append (plays plays' : List Playout) :
    depthsIn (plays ++ plays') = depthsIn plays + depthsIn plays' := by
  rw [depthsIn, List.map_append, List.sum_append, depthsIn, depthsIn]

theorem depthsIn_eq_movesIn {plays : List Playout}
    (h : ∀ play ∈ plays, play.depth.toNat = play.moves) : depthsIn plays = movesIn plays :=
  congrArg List.sum (List.map_congr_left h)

theorem ofNat_eq_iff (m n : Nat) : UInt64.ofNat m = UInt64.ofNat n ↔ m ≡ n [MOD 2 ^ 64] := by
  rw [← UInt64.toNat_inj, UInt64.toNat_ofNat', UInt64.toNat_ofNat', Nat.ModEq]

/-- Plays that came to their end. -/
structure Ledger where
  /-- Those of simulations that were finished. -/
  counted : List Playout
  /-- Those of simulations in which a later play failed. -/
  abandoned : List Playout
  deriving DecidableEq, Repr

namespace Ledger

def empty : Ledger := ⟨[], []⟩

def append (l l' : Ledger) : Ledger := ⟨l.counted ++ l'.counted, l.abandoned ++ l'.abandoned⟩

instance : Append Ledger := ⟨append⟩

def plays (l : Ledger) : List Playout := l.counted ++ l.abandoned

theorem mem_plays_append {l l' : Ledger} {play : Playout} (h : play ∈ (l ++ l').plays) :
    play ∈ l.plays ∨ play ∈ l'.plays := by
  have hparts : play ∈ (l.counted ++ l'.counted) ++ (l.abandoned ++ l'.abandoned) := h
  simp only [plays, List.mem_append] at hparts ⊢
  tauto

theorem depthsIn_plays (l : Ledger) :
    depthsIn l.plays = depthsIn l.counted + depthsIn l.abandoned :=
  depthsIn_append _ _

theorem depthsIn_plays_append (l l' : Ledger) :
    depthsIn (l ++ l').plays = depthsIn l.plays + depthsIn l'.plays := by
  have hcounted : (l ++ l').counted = l.counted ++ l'.counted := rfl
  have habandoned : (l ++ l').abandoned = l.abandoned ++ l'.abandoned := rfl
  rw [depthsIn_plays, depthsIn_plays, depthsIn_plays, hcounted, habandoned, depthsIn_append,
    depthsIn_append]
  omega

end Ledger

/-- The plays of a ledger bring the counters from `c` to `c'`. -/
structure Counters.Advances (c c' : Counters) (l : Ledger) : Prop where
  playouts : c'.playouts = c.playouts + UInt64.ofNat l.counted.length
  moves : c'.playoutMoves = c.playoutMoves + UInt64.ofNat (depthsIn l.plays)

namespace Counters

variable {c c' c'' : Counters} {l l' : Ledger}

theorem Advances.of_eq (hplayouts : c'.playouts = c.playouts)
    (hmoves : c'.playoutMoves = c.playoutMoves) : c.Advances c' .empty :=
  ⟨by simpa [Ledger.empty] using hplayouts,
    by simpa [Ledger.empty, Ledger.plays, depthsIn] using hmoves⟩

theorem Advances.trans (h : c.Advances c' l) (h' : c'.Advances c'' l') :
    c.Advances c'' (l ++ l') where
  playouts := by
    calc c''.playouts
      _ = c.playouts + UInt64.ofNat l.counted.length + UInt64.ofNat l'.counted.length := by
          rw [h'.playouts, h.playouts]
      _ = c.playouts + UInt64.ofNat (l.counted ++ l'.counted).length := by
          rw [List.length_append, UInt64.ofNat_add, UInt64.add_assoc]
  moves := by
    calc c''.playoutMoves
      _ = c.playoutMoves + UInt64.ofNat (depthsIn l.plays) + UInt64.ofNat (depthsIn l'.plays) := by
          rw [h'.moves, h.moves]
      _ = c.playoutMoves + UInt64.ofNat (depthsIn (l ++ l').plays) := by
          rw [Ledger.depthsIn_plays_append, UInt64.ofNat_add, UInt64.add_assoc]

end Counters

section

variable {σ μ α ρ ρ' : Type} {game : Game σ μ α} {a : α} {c c' c'' : Counters} {l l' : Ledger}

/-- The plays of a ledger explain how the counters have changed. -/
structure Explained (game : Game σ μ α) (a : α) (c c' : Counters) (l : Ledger) : Prop where
  advances : c.Advances c' l
  finished : ∀ play ∈ l.plays, game.Finished a play

/-- A step that may fail has changed the counters. -/
structure Booked (game : Game σ μ α) (a : α) (c : Counters) (result : Except SearchError ρ)
    (c' : Counters) (l : Ledger) : Prop extends Explained game a c c' l where
  ok : ∀ r, result = .ok r → l.abandoned = []
  error : ∀ e, result = .error e → l.counted = []

namespace Explained

theorem unplayed (hplayouts : c'.playouts = c.playouts)
    (hmoves : c'.playoutMoves = c.playoutMoves) : Explained game a c c' .empty :=
  ⟨.of_eq hplayouts hmoves, fun _ h => by cases h⟩

theorem trans (h : Explained game a c c' l) (h' : Explained game a c' c'' l') :
    Explained game a c c'' (l ++ l') :=
  ⟨h.advances.trans h'.advances, fun play hplay =>
    (Ledger.mem_plays_append hplay).elim (h.finished play) (h'.finished play)⟩

theorem absorb (h : Explained game a {} c l) (h' : Explained game a {} c' l') :
    Explained game a {} (c.absorb c') (l ++ l') := by
  refine h.trans ⟨⟨?_, ?_⟩, h'.finished⟩
  · have hplayouts : c'.playouts = UInt64.ofNat l'.counted.length := by
      simpa using h'.advances.playouts
    rw [← hplayouts]
    rfl
  · have hmoves : c'.playoutMoves = UInt64.ofNat (depthsIn l'.plays) := by
      simpa using h'.advances.moves
    rw [← hmoves]
    rfl

end Explained

namespace Booked

theorem unplayed (result : Except SearchError ρ) (hplayouts : c'.playouts = c.playouts)
    (hmoves : c'.playoutMoves = c.playoutMoves) : Booked game a c result c' .empty :=
  ⟨.unplayed hplayouts hmoves, fun _ _ => rfl, fun _ _ => rfl⟩

theorem congr {result : Except SearchError ρ} {result' : Except SearchError ρ'}
    (h : Booked game a c result c' l) (hresult : result.isOk = result'.isOk)
    (hplayouts : c''.playouts = c'.playouts) (hmoves : c''.playoutMoves = c'.playoutMoves) :
    Booked game a c result' c'' l where
  advances := ⟨hplayouts.trans h.advances.playouts, hmoves.trans h.advances.moves⟩
  finished := h.finished
  ok := by
    rintro r rfl
    cases result with
    | ok r => exact h.ok r rfl
    | error e => cases hresult
  error := by
    rintro e rfl
    cases result with
    | ok r => cases hresult
    | error e => exact h.error e rfl

end Booked

end

variable {σ μ α V γ : Type}

/-! ## Simulations -/

/-- The plays that `n` draws bring before one fails. -/
def drawn (draw : γ → Except SearchError Playout × γ) : Nat → γ → List Playout
  | 0, _ => []
  | n + 1, g =>
    match draw g with
    | (.error _, _) => []
    | (.ok play, g) => play :: drawn draw n g

namespace Setup

variable {p : Setup σ μ α V} {draw : γ → Except SearchError Playout × γ}

def drawnLedger (p : Setup σ μ α V) (draw : γ → Except SearchError Playout × γ) (g : γ) : Ledger :=
  let plays := drawn draw p.plays.toNat g
  if plays.length = p.plays.toNat then ⟨plays, []⟩ else ⟨[], plays⟩

theorem mem_drawn {n : Nat} {g : γ} {play : Playout} (h : play ∈ drawn draw n g) :
    ∃ g₁ g₂, draw g₁ = (.ok play, g₂) := by
  induction n generalizing g with
  | zero => cases h
  | succ n ih =>
    simp only [drawn] at h
    split at h
    · cases h
    · rename_i play' g' hdraw
      rcases List.mem_cons.1 h with rfl | h
      · exact ⟨g, g', hdraw⟩
      · exact ih h

theorem drawnLedger_plays (p : Setup σ μ α V) (draw : γ → Except SearchError Playout × γ)
    (g : γ) : (p.drawnLedger draw g).plays = drawn draw p.plays.toNat g := by
  unfold drawnLedger
  dsimp only
  split <;> simp [Ledger.plays]

theorem playout_finished [RandomSource γ] {s : σ} {g g' : γ} {play : Playout}
    (h : p.game.playout p.patience s p.agent g = (.ok play, g')) :
    p.game.Finished p.agent play := by
  obtain ⟨n, s', hplays, hs', hv, hdepth, hmoves⟩ := Game.playout_ok h
  obtain ⟨v, d, m⟩ := play
  obtain rfl : m = n := hmoves
  obtain rfl : d = .ofNat m := hdepth
  exact .random hplays hs' hv

theorem playAfter_finished [RandomSource γ] {s : σ} {action : μ}
    {joints : List (JointMove μ)} {g g' : γ} {play : Playout}
    (hjoints : p.game.replies s p.agent action = .ok joints)
    (h : p.playAfter s action joints g = (.ok play, g')) : p.game.Finished p.agent play := by
  unfold playAfter at h
  split at h
  · cases h
  · rename_i joint g₁ hjoint
    split at h
    · cases h
    · rename_i s₁ hnext
      obtain ⟨n, s', hplays, hs', hv, hdepth, hmoves⟩ := Game.playoutFrom_ok h
      obtain ⟨v, d, m⟩ := play
      obtain rfl : m = n + 1 := hmoves.trans (Nat.add_comm 1 n)
      obtain rfl : d = .ofNat (n + 1) := by
        rw [Nat.add_comm n, UInt32.ofNat_add]
        exact hdepth
      exact .replied hjoints (RandomSource.choose_mem hjoint) hnext hplays hs' hv

variable [Utility V]

theorem sumPlays_moves (draw : γ → Except SearchError Playout × γ) (k : Nat) (total : V)
    (asked : Nat) (c : Counters) (g : γ) :
    (sumPlays draw k total asked c g).2.1.playoutMoves =
      c.playoutMoves + UInt64.ofNat (depthsIn (drawn draw k g)) := by
  induction k generalizing total asked c g with
  | zero => simp [sumPlays, drawn, depthsIn]
  | succ k ih =>
    cases hdraw : draw g with
    | mk result g' =>
      cases result with
      | error e => simp [sumPlays, drawn, hdraw, depthsIn]
      | ok play =>
        have hmoves : depthsIn (play :: drawn draw k g') =
            play.depth.toNat + depthsIn (drawn draw k g') := rfl
        simp only [sumPlays, drawn, hdraw, ih, hmoves, UInt64.ofNat_add, Counters.moved,
          UInt64.ofNat_uInt32ToNat]
        rw [UInt64.add_assoc]

theorem sumPlays_isOk (draw : γ → Except SearchError Playout × γ) (k : Nat) (total : V)
    (asked : Nat) (c : Counters) (g : γ) :
    (sumPlays draw k total asked c g).1.isOk = decide ((drawn draw k g).length = k) := by
  induction k generalizing total asked c g with
  | zero => rfl
  | succ k ih =>
    cases hdraw : draw g with
    | mk result g' =>
      cases result with
      | error e => simp [sumPlays, drawn, hdraw, Except.isOk, Except.toBool]
      | ok play => simp [sumPlays, drawn, hdraw, ih]

theorem meanOf_booked {a : α}
    (hfinished : ∀ g₁ g₂ play, draw g₁ = (.ok play, g₂) → p.game.Finished a play)
    (c : Counters) (g : γ) : Booked p.game a c (p.meanOf draw c g).1 (p.meanOf draw c g).2.1
      (p.drawnLedger draw g) := by
  have hcounters := sumPlays_counters draw p.plays.toNat (Utility.zero : V) 0 c g
  have hmoves := sumPlays_moves draw p.plays.toNat (Utility.zero : V) 0 c g
  have hisOk := sumPlays_isOk draw p.plays.toNat (Utility.zero : V) 0 c g
  have hfinished' : ∀ play ∈ (p.drawnLedger draw g).plays, p.game.Finished a play := by
    intro play hplay
    obtain ⟨g₁, g₂, hdraw⟩ := mem_drawn (drawnLedger_plays p draw g ▸ hplay)
    exact hfinished g₁ g₂ play hdraw
  unfold meanOf
  cases hsum : sumPlays draw p.plays.toNat (Utility.zero : V) 0 c g with
  | mk result rest =>
    obtain ⟨c₁, g₁⟩ := rest
    rw [hsum] at hcounters hmoves hisOk
    have hplayouts : c₁.playouts = c.playouts := (congrArg Counters.playouts hcounters :)
    cases result with
    | error e =>
      have hfew : (drawn draw p.plays.toNat g).length ≠ p.plays.toNat :=
        of_decide_eq_false hisOk.symm
      have hledger : p.drawnLedger draw g = ⟨[], drawn draw p.plays.toNat g⟩ := if_neg hfew
      refine ⟨⟨⟨?_, ?_⟩, hfinished'⟩, nofun, fun _ _ => ?_⟩
      · simp [hledger, hplayouts]
      · rw [drawnLedger_plays]
        exact hmoves
      · rw [hledger]
    | ok r =>
      obtain ⟨total, asked⟩ := r
      have hall : (drawn draw p.plays.toNat g).length = p.plays.toNat :=
        of_decide_eq_true hisOk.symm
      have hledger : p.drawnLedger draw g = ⟨drawn draw p.plays.toNat g, []⟩ := if_pos hall
      refine ⟨⟨⟨?_, ?_⟩, hfinished'⟩, fun _ _ => ?_, nofun⟩
      · rw [hledger, hall, UInt64.ofNat_uInt32ToNat]
        exact congrArg (· + p.plays.toUInt64) hplayouts
      · rw [drawnLedger_plays]
        exact hmoves
      · rw [hledger]

variable [RandomSource γ]

def simulationLedger (p : Setup σ μ α V) (n : Node σ μ V) (g : γ) : Ledger :=
  if n.terminal then .empty
  else
    match n.kind with
    | .max => p.drawnLedger (p.game.playout p.patience n.state p.agent) g
    | .min action =>
      match p.game.replies n.state p.agent action with
      | .error _ => .empty
      | .ok joints => p.drawnLedger (p.playAfter n.state action joints) g

theorem simulate_booked (p : Setup σ μ α V) (n : Node σ μ V) (c : Counters) (g : γ) :
    Booked p.game p.agent c (p.simulate n c g).1 (p.simulate n c g).2.1
      (p.simulationLedger n g) := by
  unfold simulate simulationLedger
  cases n.terminal with
  | true =>
    simp only [↓reduceIte]
    cases p.game.goal n.state p.agent <;> exact .unplayed _ rfl rfl
  | false =>
    simp only [Bool.false_eq_true, ↓reduceIte]
    cases n.kind with
    | max => exact meanOf_booked (fun _ _ _ => playout_finished) c g
    | min action =>
      dsimp only
      cases hjoints : p.game.replies n.state p.agent action with
      | error e => exact .unplayed _ rfl rfl
      | ok joints => exact meanOf_booked (fun _ _ _ => playAfter_finished hjoints) c g

end Setup

/-! ## Iterations -/

namespace Session

theorem setBusy_counters (busy : Bool) (guard : Option Path) (x : Session σ μ V γ) :
    (x.setBusy busy guard).counters = x.counters := by
  cases guard <;> rfl

variable [Utility V] [DecidableEq σ]

theorem updateRoot_counters (p : Setup σ μ α V) (s : σ) (x : Session σ μ V γ) :
    (x.updateRoot p s).2.counters = x.counters := by
  generalize hy : x.updateRoot p s = y
  cases hy ▸ updateRoot_cases p s x <;> rfl

variable [RandomSource γ]

def workLedger (p : Setup σ μ α V) (path : Path) (x : Session σ μ V γ) : Ledger :=
  match x.root.get? path with
  | none => .empty
  | some t =>
    match p.expand t with
    | .error _ => .empty
    | .ok _ => p.simulationLedger t.label x.rng

def iterationLedger (p : Setup σ μ α V) (locking : Locking) (x : Session σ μ V γ) : Ledger :=
  match select p.policy locking x.root with
  | none => .empty
  | some chosen => (x.setBusy true chosen.guard).workLedger p chosen.target

def repeatLedger (p : Setup σ μ α V) : Nat → Session σ μ V γ → Ledger
  | 0, _ => .empty
  | n + 1, x =>
    x.iterationLedger p .exclusive ++
      match x.iterate p .exclusive with
      | (.error _, _) => .empty
      | (.ok _, y) => repeatLedger p n y

def untilLedger (p : Setup σ μ α V) (locking : Locking) (i : Interrupt) :
    Nat → Nat → Session σ μ V γ → Ledger
  | 0, _, _ => .empty
  | bound + 1, asked, x =>
    if i.isRaised asked then .empty
    else
      x.iterationLedger p locking ++
        match x.iterate p locking with
        | (.error _, _) => .empty
        | (.ok .retry, y) => untilLedger p locking i bound asked y
        | (.ok (.completed _ queries), y) => untilLedger p locking i bound (asked + queries) y

theorem workAt_booked (p : Setup σ μ α V) (path : Path) (x : Session σ μ V γ) :
    Booked p.game p.agent x.counters (x.workAt p path).1 (x.workAt p path).2.counters
      (x.workLedger p path) := by
  have hsimulate : ∀ {t grown : Tree σ μ V} {asked : Nat}, x.root.get? path = some t →
      p.expand t = .ok (asked, grown) → x.workLedger p path = p.simulationLedger t.label x.rng := by
    intro t grown asked ht he
    simp only [workLedger, ht, he]
  generalize hy : x.workAt p path = y
  cases hy ▸ workAt_cases p path x with
  | missing hnone =>
    simp only [workLedger, hnone]
    exact .unplayed _ rfl rfl
  | unexpanded ht he =>
    simp only [workLedger, ht, he]
    exact .unplayed _ rfl rfl
  | @unscored t _ _ _ _ _ ht he hs =>
    have hbooked := p.simulate_booked t.label x.counters x.rng
    rw [hs] at hbooked
    rw [hsimulate ht he]
    exact hbooked.congr rfl rfl rfl
  | @completed t _ _ _ _ _ _ ht he hs =>
    have hbooked := p.simulate_booked t.label x.counters x.rng
    rw [hs] at hbooked
    rw [hsimulate ht he]
    exact hbooked.congr rfl rfl rfl

theorem iterate_booked (p : Setup σ μ α V) (locking : Locking) (x : Session σ μ V γ) :
    Booked p.game p.agent x.counters (x.iterate p locking).1 (x.iterate p locking).2.counters
      (x.iterationLedger p locking) := by
  cases hs : select p.policy locking x.root with
  | none =>
    simp only [iterate, iterationLedger, hs]
    exact .unplayed _ rfl rfl
  | some chosen =>
    have hbooked := (x.setBusy true chosen.guard).workAt_booked p chosen.target
    rw [setBusy_counters] at hbooked
    rw [iterate_of_select_some hs]
    simp only [iterationLedger, hs, setBusy_counters]
    exact hbooked

/-! ## Runs of iterations -/

theorem repeatIterations_explained (p : Setup σ μ α V) (n : Nat) (x : Session σ μ V γ) :
    Explained p.game p.agent x.counters (repeatIterations p n x).2.counters
      (repeatLedger p n x) := by
  induction n generalizing x with
  | zero => exact .unplayed rfl rfl
  | succ n ih =>
    have hfirst := (x.iterate_booked p .exclusive).toExplained
    simp only [repeatIterations, repeatLedger]
    cases hi : x.iterate p .exclusive with
    | mk result y =>
      rw [hi] at hfirst
      cases result with
      | error e => exact hfirst.trans (.unplayed rfl rfl)
      | ok _ => exact hfirst.trans (ih y)

theorem iterateUntil_explained (p : Setup σ μ α V) (locking : Locking) (i : Interrupt)
    (bound asked : Nat) (x : Session σ μ V γ) :
    Explained p.game p.agent x.counters (iterateUntil p locking i bound asked x).2.counters
      (untilLedger p locking i bound asked x) := by
  induction bound generalizing x asked with
  | zero =>
    rw [iterateUntil_zero]
    exact .unplayed rfl rfl
  | succ bound ih =>
    have hfirst := (x.iterate_booked p locking).toExplained
    simp only [iterateUntil, untilLedger]
    cases i.isRaised asked with
    | true => exact .unplayed rfl rfl
    | false =>
      simp only [Bool.false_eq_true, ↓reduceIte]
      cases hi : x.iterate p locking with
      | mk result y =>
        rw [hi] at hfirst
        cases result with
        | error e => exact hfirst.trans (.unplayed rfl rfl)
        | ok done =>
          cases done with
          | retry => exact hfirst.trans (ih asked y)
          | completed score queries => exact hfirst.trans (ih (asked + queries) y)

end Session

/-! ## Histories -/

namespace History

variable [Utility V] [RandomSource γ] [DecidableEq σ] [DecidableEq μ]

/-- The plays of all steps, also of those of the trees that were added. -/
def ledger (game : Game σ μ α) (agent : α) : History σ μ V γ → Ledger
  | start _ _ _ => .empty
  | iterate h locking g =>
    h.ledger game agent ++
      Session.iterationLedger (h.setup game agent) locking { h.session game agent with rng := g }
  | run h n => h.ledger game agent ++ (h.session game agent).repeatLedger (h.setup game agent) n
  | search h i =>
    let p := h.setup game agent
    let x := h.session game agent
    h.ledger game agent ++
      if x.root.label.terminal then .empty else x.untilLedger p .exclusive i p.patience 0
  | permit h _ _ => h.ledger game agent
  | updateRoot h _ => h.ledger game agent
  | setRoot h _ => h.ledger game agent
  | merge h other =>
    if (h.session game agent).root.state = (other.session game agent).root.state then
      h.ledger game agent ++ other.ledger game agent
    else h.ledger game agent

theorem explained (game : Game σ μ α) (agent : α) (h : History σ μ V γ) :
    Explained game agent {} (h.session game agent).counters (h.ledger game agent) := by
  induction h with
  | start o s seed => exact .unplayed rfl rfl
  | iterate h locking g ih =>
    exact ih.trans (Session.iterate_booked (h.setup game agent) locking
      { h.session game agent with rng := g }).toExplained
  | run h n ih =>
    rw [session, Session.runIterations_counters]
    exact ih.trans (Session.repeatIterations_explained (h.setup game agent) n _)
  | search h i ih =>
    rw [session, Session.searchUntil_counters]
    refine ih.trans ?_
    split
    · exact .unplayed rfl rfl
    · exact Session.iterateUntil_explained (h.setup game agent) .exclusive i _ 0 _
  | permit h busy path ih =>
    rw [session, Session.setBusy_counters]
    exact ih
  | updateRoot h s ih =>
    rw [session, Session.updateRoot_counters]
    exact ih
  | setRoot h s ih => exact ih
  | merge h other ih ih' =>
    simp only [session, Session.merge, ledger]
    split
    · exact ih.absorb ih'
    · exact ih

/-- The number of plays that a search counts is that of the plays of all simulations that were
finished. The number of joint moves is the total of the depths of these plays and of those that came
to their end in simulations in which a later play failed. As long as no play has `2 ^ 32` joint moves
the two are in step exactly if the moves of such plays come to nothing modulo `2 ^ 64`. An iteration
that fails counts no plays, and the depths of those plays of its simulation that came to their end;
any other iteration counts all its plays with all their depths. -/
theorem ledger_agrees {δ : Type} [RandomSource δ] (game : Game σ μ α) (agent : α)
    (h : History σ μ V γ) :
    let x := h.session game agent
    let l := h.ledger game agent
    x.counters.playouts = UInt64.ofNat l.counted.length ∧
    x.counters.playoutMoves = UInt64.ofNat (depthsIn l.counted + depthsIn l.abandoned) ∧
    (x.counters.playoutMoves = UInt64.ofNat (movesIn l.counted) ↔
      depthsIn l.counted + depthsIn l.abandoned ≡ movesIn l.counted [MOD 2 ^ 64]) ∧
    ((∀ play ∈ l.plays, play.moves < 2 ^ 32) →
      (x.counters.playoutMoves = UInt64.ofNat (movesIn l.counted) ↔
        2 ^ 64 ∣ movesIn l.abandoned)) ∧
    (∀ play ∈ l.plays, game.Finished agent play ∧ play.depth.toNat = play.moves % 2 ^ 32) ∧
    ∀ locking (g : δ), Booked game agent x.counters
      (Session.iterate (h.setup game agent) locking { x with rng := g }).1
      (Session.iterate (h.setup game agent) locking { x with rng := g }).2.counters
      (Session.iterationLedger (h.setup game agent) locking { x with rng := g }) := by
  intro x l
  have hexplained := h.explained game agent
  have hplayouts : x.counters.playouts = UInt64.ofNat l.counted.length := by
    simpa using hexplained.advances.playouts
  have hmoves : x.counters.playoutMoves =
      UInt64.ofNat (depthsIn l.counted + depthsIn l.abandoned) := by
    simpa [Ledger.depthsIn_plays] using hexplained.advances.moves
  have hdepth : ∀ play ∈ l.plays, play.depth.toNat = play.moves % 2 ^ 32 :=
    fun play hplay => (hexplained.finished play hplay).depth
  refine ⟨hplayouts, hmoves, ?_, fun hshort => ?_,
    fun play hplay => ⟨hexplained.finished play hplay, hdepth play hplay⟩, fun locking g => ?_⟩
  · rw [hmoves]
    exact ofNat_eq_iff _ _
  · have hplain : ∀ play ∈ l.plays, play.depth.toNat = play.moves := fun play hplay =>
      (hdepth play hplay).trans (Nat.mod_eq_of_lt (hshort play hplay))
    rw [hmoves, depthsIn_eq_movesIn fun play hplay => hplain play (List.mem_append_left _ hplay),
      depthsIn_eq_movesIn fun play hplay => hplain play (List.mem_append_right _ hplay),
      ofNat_eq_iff, Nat.add_modEq_left_iff]
  · exact Session.iterate_booked (h.setup game agent) locking { x with rng := g }

/-- One of the two moves at the start leads to a state without moves. The first of two plays wins,
the second one does not come to its end, and the iteration fails. It has counted a joint move and no
play. -/
theorem moves_without_plays :
    let es : List Table.Entry := [.edge "start" ["left"] "won", .edge "start" ["right"] "stuck",
      .terminal "won" [100]]
    let o : Options Float := ⟨⟨fun _ _ _ => 0, fun _ _ _ => List.length_pos_iff.2⟩, 2, 10⟩
    let h : History String String Float Keystream := .run (.start o "start" 2) 1
    ∃ t, Table.ofEntries ["self"] es = .ok t ∧
      (h.session t.game "self").counters.playouts = 0 ∧
      (h.session t.game "self").counters.playoutMoves = 1 ∧
      h.ledger t.game "self" = ⟨[], [⟨100, 1, 1⟩]⟩ ∧
      (h.session t.game "self").counters.playoutMoves ≠
        UInt64.ofNat (movesIn (h.ledger t.game "self").counted) := by
  intro es o h
  cases ht : Table.ofEntries ["self"] es with
  | error f =>
    have hok : (Table.ofEntries ["self"] es).isOk = true := by decide +kernel
    rw [ht] at hok
    cases hok
  | ok t =>
    have hanswers : (Table.ofEntries ["self"] es).toOption.map (fun t =>
        ((h.session t.game "self").counters.playouts,
          (h.session t.game "self").counters.playoutMoves, h.ledger t.game "self")) =
        some (0, 1, ⟨[], [⟨100, 1, 1⟩]⟩) := by decide +kernel
    rw [ht] at hanswers
    simp only [Except.toOption, Option.map_some, Option.some.injEq, Prod.mk.injEq] at hanswers
    obtain ⟨hplayouts, hmoves, hledger⟩ := hanswers
    refine ⟨t, rfl, hplayouts, hmoves, hledger, ?_⟩
    rw [hmoves, hledger]
    decide

end History

end TreeSearch

end GameSearch
