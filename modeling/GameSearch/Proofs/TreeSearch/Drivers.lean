import GameSearch.Proofs.TreeSearch.Failure
import GameSearch.Proofs.TreeSearch.Worker

/-!
# GameSearch.Proofs.TreeSearch.Drivers

A lone worker does the same whoever drives it. What counts is after how many iterations it is told
to stop, or whether one of them fails before that (`StopsAfter`, `FailsAfter`). For each moment of
the interrupt it is one or the other, since every iteration makes a query (`stops_or_fails`). The
loop of a search then does as many iterations as it should (`iterateUntil_of_stops`,
`iterateUntil_of_fails`), and so does a crew of one, step by step (`work_of_stops`,
`work_of_fails`). It is the same under permits, which nobody else holds.

* `History.drivers_agree`: a search, a run of iterations, and a search by one worker in either mode.
-/

namespace GameSearch.TreeSearch

variable {σ μ α V γ : Type}

def Iteration.queries : Iteration V → Nat
  | .completed _ queries => queries
  | .retry => 0

variable [Utility V] [DecidableEq σ]

/-- What a tree needs for a lone worker: its shape, no dead ends, and no permit in other hands. -/
structure Ready (p : Setup σ μ α V) (t : Tree σ μ V) : Prop where
  rooted : t.Rooted p.game p.agent
  branched : t.Every Branched
  free : ∀ path, isBusy t path = false

namespace Session

variable [RandomSource γ] {p : Setup σ μ α V} {x y : Session σ μ V γ} {i : Interrupt}
  {e : SearchError} {done : Iteration V} {asked bound m n : Nat}

/-! ## One iteration -/

theorem iterate_of_ready (hx : Ready p x.root) : ∃ path, x.iterate p .exclusive = x.workAt p path ∧
    ((∃ score queries, 0 < queries ∧ (x.workAt p path).1 = .ok (.completed score queries)) ∨
      ∃ e, (x.workAt p path).1 = .error e) := by
  obtain ⟨path, hpath⟩ := descend_isSome p.policy hx.branched
  obtain ⟨u, hu⟩ := (descend_walk hx.rooted.1 hpath).exists_target
  refine ⟨path, iterate_exclusive hpath, ?_⟩
  generalize hy : x.workAt p path = y
  cases hy ▸ workAt_cases p path x with
  | missing hnone => cases hnone.symm.trans hu
  | unexpanded => exact .inr ⟨_, rfl⟩
  | unscored => exact .inr ⟨_, rfl⟩
  | completed _ _ hs => exact .inl ⟨_, _, Nat.add_pos_right _ (p.simulate_asked hs), rfl⟩

theorem iterate_rootPermits_of_ready (hx : Ready p x.root) :
    x.iterate p .rootPermits = x.iterate p .exclusive := by
  refine iterate_of_free hx.rooted.1 hx.branched ?_
  rw [isGuardHeld, Option.any_eq_false]
  exact fun path _ => by simp [hx.free path]

theorem iterate_ready (hx : Ready p x.root) : Ready p (x.iterate p .exclusive).2.root := by
  obtain ⟨hrooted, hbranched⟩ := iterate_branched p .exclusive x ⟨hx.rooted, hx.branched⟩ trivial
  refine ⟨hrooted, hbranched, fun path => ?_⟩
  obtain ⟨target, hwork, _⟩ := iterate_of_ready hx
  rw [hwork, isBusy_workAt hx.rooted.1, hx.free]

/-! ## When a worker stops -/

def queriesIn (p : Setup σ μ α V) : Nat → Session σ μ V γ → Nat
  | 0, _ => 0
  | n + 1, x =>
    match x.iterate p .exclusive with
    | (.error _, _) => 0
    | (.ok done, y) => done.queries + queriesIn p n y

theorem queriesIn_succ (hi : x.iterate p .exclusive = (.ok done, y)) :
    queriesIn p (n + 1) x = done.queries + queriesIn p n y := by
  simp only [queriesIn, hi]

theorem repeatIterations_succ (hi : x.iterate p .exclusive = (.ok done, y)) :
    repeatIterations p (n + 1) x = repeatIterations p n y := by
  simp only [repeatIterations, hi]

/-- A lone worker, which has made `asked` queries before, is not told to stop before the last of `n`
more iterations. -/
def Quiet (p : Setup σ μ α V) (i : Interrupt) (asked n : Nat) (x : Session σ μ V γ) : Prop :=
  ∀ k < n, i.isRaised (asked + queriesIn p k x) = false

/-- It is told to stop when it has completed `m` more iterations and no earlier. -/
structure StopsAfter (p : Setup σ μ α V) (i : Interrupt) (asked m : Nat) (x : Session σ μ V γ) :
    Prop where
  completed : (repeatIterations p m x).1 = .ok ()
  raised : i.isRaised (asked + queriesIn p m x) = true
  quiet : Quiet p i asked m x

/-- It completes `m` more iterations and fails in the next one before it is told to stop. -/
structure FailsAfter (p : Setup σ μ α V) (i : Interrupt) (asked m : Nat) (e : SearchError)
    (x : Session σ μ V γ) : Prop where
  completed : (repeatIterations p m x).1 = .ok ()
  failed : ((repeatIterations p m x).2.iterate p .exclusive).1 = .error e
  quiet : Quiet p i asked (m + 1) x

theorem Quiet.zero : Quiet p i asked 0 x := nofun

theorem Quiet.here (h : Quiet p i asked (n + 1) x) : i.isRaised asked = false :=
  h 0 (Nat.succ_pos n)

theorem quiet_succ (hi : x.iterate p .exclusive = (.ok done, y)) :
    Quiet p i asked (n + 1) x ↔
      i.isRaised asked = false ∧ Quiet p i (asked + done.queries) n y := by
  constructor
  · refine fun h => ⟨h.here, fun k hk => ?_⟩
    rw [Nat.add_assoc, ← queriesIn_succ hi]
    exact h (k + 1) (Nat.succ_lt_succ hk)
  · rintro ⟨hquiet, h⟩ k hk
    cases k with
    | zero => exact hquiet
    | succ k =>
      rw [queriesIn_succ hi, ← Nat.add_assoc]
      exact h k (Nat.lt_of_succ_lt_succ hk)

theorem stopsAfter_succ (hi : x.iterate p .exclusive = (.ok done, y)) :
    StopsAfter p i asked (m + 1) x ↔
      i.isRaised asked = false ∧ StopsAfter p i (asked + done.queries) m y := by
  constructor
  · rintro ⟨hok, hraised, hquiet⟩
    rw [repeatIterations_succ hi] at hok
    rw [queriesIn_succ hi, ← Nat.add_assoc] at hraised
    obtain ⟨hhere, hquiet⟩ := (quiet_succ hi).1 hquiet
    exact ⟨hhere, hok, hraised, hquiet⟩
  · rintro ⟨hhere, hok, hraised, hquiet⟩
    refine ⟨?_, ?_, (quiet_succ hi).2 ⟨hhere, hquiet⟩⟩
    · rw [repeatIterations_succ hi, hok]
    · rw [queriesIn_succ hi, ← Nat.add_assoc, hraised]

theorem failsAfter_succ (hi : x.iterate p .exclusive = (.ok done, y)) :
    FailsAfter p i asked (m + 1) e x ↔
      i.isRaised asked = false ∧ FailsAfter p i (asked + done.queries) m e y := by
  constructor
  · rintro ⟨hok, hfailed, hquiet⟩
    rw [repeatIterations_succ hi] at hok hfailed
    obtain ⟨hhere, hquiet⟩ := (quiet_succ hi).1 hquiet
    exact ⟨hhere, hok, hfailed, hquiet⟩
  · rintro ⟨hhere, hok, hfailed, hquiet⟩
    refine ⟨?_, ?_, (quiet_succ hi).2 ⟨hhere, hquiet⟩⟩
    · rw [repeatIterations_succ hi, hok]
    · rw [repeatIterations_succ hi, hfailed]

theorem exists_of_completed (h : (repeatIterations p (m + 1) x).1 = .ok ()) :
    ∃ done y, x.iterate p .exclusive = (.ok done, y) := by
  simp only [repeatIterations] at h
  split at h
  · cases h
  · rename_i done y hi
    exact ⟨done, y, hi⟩

theorem stops_or_fails {k : Nat} (hi : i.during = some k) (hx : Ready p x.root)
    (hn : k ≤ asked + n) :
    ∃ m ≤ n, StopsAfter p i asked m x ∨ m < n ∧ ∃ e, FailsAfter p i asked m e x := by
  have hraised : ∀ a, i.isRaised a = decide (k ≤ a) := fun a => by rw [Interrupt.isRaised, hi]
  induction n generalizing asked x with
  | zero => exact ⟨0, Nat.le_refl 0, .inl ⟨rfl, by simpa [hraised, queriesIn] using hn, .zero⟩⟩
  | succ n ih =>
    cases hhere : i.isRaised asked with
    | true => exact ⟨0, Nat.zero_le _, .inl ⟨rfl, hhere, .zero⟩⟩
    | false =>
      have hnext := iterate_ready hx
      obtain ⟨path, hwork, ⟨score, queries, hpos, hok⟩ | ⟨e, he⟩⟩ := iterate_of_ready hx
      · rw [← hwork] at hok
        have hi : x.iterate p .exclusive =
          (.ok (.completed score queries), (x.iterate p .exclusive).2) := Prod.ext hok rfl
        have hleft : k ≤ asked + queries + n := by omega
        obtain ⟨m, hm, h⟩ := ih hnext hleft
        refine ⟨m + 1, Nat.succ_le_succ hm, h.imp (fun h => ?_) fun ⟨hm, e, h⟩ => ?_⟩
        · exact (stopsAfter_succ hi).2 ⟨hhere, h⟩
        · exact ⟨Nat.succ_lt_succ hm, e, (failsAfter_succ hi).2 ⟨hhere, h⟩⟩
      · rw [← hwork] at he
        refine ⟨0, Nat.zero_le _, .inr ⟨Nat.succ_pos n, e, rfl, he, fun k hk => ?_⟩⟩
        obtain rfl : k = 0 := Nat.lt_one_iff.1 hk
        exact hhere

/-! ## The loop -/

theorem iterateUntil_next {locking : Locking} (hquiet : i.isRaised asked = false)
    (hi : x.iterate p locking = (.ok done, y)) :
    iterateUntil p locking i (bound + 1) asked x =
      iterateUntil p locking i bound (asked + done.queries) y := by
  simp only [iterateUntil, hquiet, Bool.false_eq_true, ↓reduceIte, hi]
  cases done <;> rfl

theorem iterateUntil_of_stops (h : StopsAfter p i asked m x) (hm : m ≤ bound) :
    iterateUntil p .exclusive i bound asked x =
      (.ok (asked + queriesIn p m x), (repeatIterations p m x).2) := by
  induction m generalizing asked bound x with
  | zero =>
    have hraised : i.isRaised asked = true := h.raised
    unfold iterateUntil
    rw [if_pos hraised]
    rfl
  | succ m ih =>
    obtain ⟨bound, rfl⟩ : ∃ k, bound = k + 1 := ⟨bound - 1, by omega⟩
    obtain ⟨done, y, hi⟩ := exists_of_completed h.completed
    obtain ⟨hhere, h⟩ := (stopsAfter_succ hi).1 h
    rw [iterateUntil_next hhere hi, ih h (Nat.le_of_succ_le_succ hm), queriesIn_succ hi,
      repeatIterations_succ hi, Nat.add_assoc]

theorem iterateUntil_of_fails (h : FailsAfter p i asked m e x) (hm : m < bound) :
    iterateUntil p .exclusive i bound asked x =
      (.error e, ((repeatIterations p m x).2.iterate p .exclusive).2) := by
  obtain ⟨bound, rfl⟩ : ∃ k, bound = k + 1 := ⟨bound - 1, by omega⟩
  induction m generalizing asked bound x with
  | zero =>
    have hi : x.iterate p .exclusive = (.error e, (x.iterate p .exclusive).2) :=
      Prod.ext h.failed rfl
    unfold iterateUntil
    rw [if_neg (by rw [h.quiet.here]; exact Bool.false_ne_true), hi]
    rfl
  | succ m ih =>
    obtain ⟨bound, rfl⟩ : ∃ k, bound = k + 1 := ⟨bound - 1, by omega⟩
    obtain ⟨done, y, hi⟩ := exists_of_completed h.completed
    obtain ⟨hhere, h⟩ := (failsAfter_succ hi).1 h
    rw [iterateUntil_next hhere hi, ih h _ (Nat.lt_of_succ_lt_succ hm), repeatIterations_succ hi]

/-! ## Drivers -/

theorem runIterations_of_completed (h : (repeatIterations p m x).1 = .ok ()) :
    x.runIterations p m = (.ok (), (repeatIterations p m x).2) := by
  unfold runIterations
  split
  · rename_i hrun
    rw [hrun]
  · rename_i hrun
    rw [hrun] at h
    cases h

theorem repeatIterations_of_fails (h : FailsAfter p i asked m e x) (hm : m < n) :
    repeatIterations p n x = (.error e, ((repeatIterations p m x).2.iterate p .exclusive).2) := by
  obtain ⟨n, rfl⟩ : ∃ k, n = k + 1 := ⟨n - 1, by omega⟩
  induction m generalizing asked n x with
  | zero =>
    have hi : x.iterate p .exclusive = (.error e, (x.iterate p .exclusive).2) :=
      Prod.ext h.failed rfl
    unfold repeatIterations
    rw [hi]
  | succ m ih =>
    obtain ⟨n, rfl⟩ : ∃ k, n = k + 1 := ⟨n - 1, by omega⟩
    obtain ⟨done, y, hi⟩ := exists_of_completed h.completed
    obtain ⟨-, h⟩ := (failsAfter_succ hi).1 h
    rw [repeatIterations_succ hi, ih h _ (Nat.lt_of_succ_lt_succ hm), repeatIterations_succ hi]

theorem runIterations_of_fails (h : FailsAfter p i asked m e x) (hm : m < n) :
    x.runIterations p n =
      (.error e, { ((repeatIterations p m x).2.iterate p .exclusive).2 with rng := x.rng }) := by
  rw [runIterations, repeatIterations_of_fails h hm]

theorem searchUntil_of_stops (hroot : x.root.label.terminal = false) (h : StopsAfter p i 0 m x)
    (hm : m ≤ p.patience) :
    x.searchUntil p i = (.ok (queriesIn p m x), (repeatIterations p m x).2) := by
  simp only [searchUntil, hroot, iterateUntil_of_stops h hm, Nat.zero_add, Bool.false_eq_true,
    ↓reduceIte]

theorem searchUntil_of_fails (hroot : x.root.label.terminal = false)
    (h : FailsAfter p i 0 m e x) (hm : m < p.patience) :
    x.searchUntil p i =
      (.error e, { ((repeatIterations p m x).2.iterate p .exclusive).2 with rng := x.rng }) := by
  simp only [searchUntil, hroot, iterateUntil_of_fails h hm, Bool.false_eq_true, ↓reduceIte]

/-! ## A crew of one -/

theorem iterate_locking_of_ready (hx : Ready p x.root) (mode : Mode) :
    x.iterate p mode.locking = x.iterate p .exclusive := by
  cases mode with
  | sharedTree => exact iterate_rootPermits_of_ready hx
  | ownTrees => rfl

omit [Utility V] [RandomSource γ] in
theorem terminal_eq_of_ready (hx : Ready p x.root) :
    x.root.label.terminal = p.game.terminal x.root.state :=
  hx.rooted.1.conforms.terminal_max hx.rooted.2

theorem iterate_not_terminal (hx : Ready p x.root) (hroot : x.root.label.terminal = false) :
    (x.iterate p .exclusive).2.root.label.terminal = false := by
  have hrole := (iterate_shaped .exclusive hx.rooted.1).2
  have hstate : (x.iterate p .exclusive).2.root.state = x.root.state :=
    (Node.role_eq_iff.1 hrole).2
  rw [terminal_eq_of_ready (iterate_ready hx), hstate, ← terminal_eq_of_ready hx, hroot]

theorem iterate_completed_of_ready (hx : Ready p x.root)
    (hi : x.iterate p .exclusive = (.ok done, y)) :
    ∃ score queries, done = .completed score queries := by
  obtain ⟨path, hwork, ⟨score, queries, -, hok⟩ | ⟨e, he⟩⟩ := iterate_of_ready hx
  · rw [← hwork, hi] at hok
    exact ⟨score, queries, Except.ok.inj hok⟩
  · rw [← hwork, hi] at he
    cases he

section

variable {rota : Rota} {workers : Nat}

/-- Eight turns are an iteration, after which the tree is as ready as before. -/
theorem work_next (mode : Mode) (hx : Ready p x.root) (hroot : x.root.label.terminal = false)
    (hquiet : i.isRaised asked = false) (hi : x.iterate p .exclusive = (.ok done, y))
    (left n : Nat) (hturns : ∀ k < 8, rota.turn (n + k) = some 0) :
    Ready p y.root ∧ y.root.label.terminal = false ∧
      (Crew.solo .idle x asked false).work p mode i rota (left + 8) n =
        (Crew.solo .idle y (asked + done.queries) false).work p mode i rota left (n + 8) := by
  obtain ⟨score, queries, rfl⟩ := iterate_completed_of_ready hx hi
  have hready := iterate_ready hx
  have hrunning := iterate_not_terminal hx hroot
  rw [hi] at hready hrunning
  refine ⟨hready, hrunning, ?_⟩
  rw [Crew.work_alone left n hturns,
    Crew.solo_completed hroot hquiet ((iterate_locking_of_ready hx mode).trans hi)]
  rfl

theorem work_of_stops (mode : Mode) (hx : Ready p x.root) (hroot : x.root.label.terminal = false)
    (h : StopsAfter p i asked m x) (left n : Nat)
    (hturns : ∀ k < 8 * m + 1, rota.turn (n + k) = some 0) :
    (Crew.solo .idle x asked false).work p mode i rota (left + (8 * m + 1)) n =
      Crew.solo (.finished (.ok ())) (repeatIterations p m x).2 (asked + queriesIn p m x) false := by
  induction m generalizing asked x n with
  | zero =>
    have hidle : Task.idle.advance p mode.locking (false || i.isRaised asked) x =
        (.finished (.ok ()), 0, x) := by
      simp only [Task.advance, show i.isRaised asked = true from h.raised, Bool.or_true, ↓reduceIte]
    rw [Crew.work_alone left n hturns, Crew.acts_solo rfl hidle rfl]
    exact Crew.work_finished rfl _ _
  | succ m ih =>
    obtain ⟨done, y, hi⟩ := exists_of_completed h.completed
    obtain ⟨hquiet, h⟩ := (stopsAfter_succ hi).1 h
    obtain ⟨hy, hy', hnext⟩ := work_next mode hx hroot hquiet hi (left + (8 * m + 1)) n
      fun k hk => hturns k (by omega)
    have hrest := ih hy hy' h (n + 8) fun k hk => by
      rw [Nat.add_assoc]
      exact hturns (8 + k) (by omega)
    rw [show left + (8 * (m + 1) + 1) = left + (8 * m + 1) + 8 by omega, hnext, hrest,
      repeatIterations_succ hi, queriesIn_succ hi, Nat.add_assoc]

theorem work_of_fails (mode : Mode) (hx : Ready p x.root) (hroot : x.root.label.terminal = false)
    (h : FailsAfter p i asked m e x) (left n : Nat)
    (hturns : ∀ k < 8 * (m + 1), rota.turn (n + k) = some 0) :
    ∃ asked', (Crew.solo .idle x asked false).work p mode i rota (left + 8 * (m + 1)) n =
      Crew.solo (.finished (.error e)) ((repeatIterations p m x).2.iterate p .exclusive).2
        asked' true := by
  induction m generalizing asked x n with
  | zero =>
    have hi : x.iterate p mode.locking = (.error e, (x.iterate p .exclusive).2) :=
      (iterate_locking_of_ready hx mode).trans (Prod.ext h.failed rfl)
    obtain ⟨asked', hsteps⟩ := Crew.solo_failed hroot h.quiet.here hi
    refine ⟨asked', ?_⟩
    rw [Crew.work_alone left n hturns, hsteps]
    exact Crew.work_finished rfl _ _
  | succ m ih =>
    obtain ⟨done, y, hi⟩ := exists_of_completed h.completed
    obtain ⟨hquiet, h⟩ := (failsAfter_succ hi).1 h
    obtain ⟨hy, hy', hnext⟩ := work_next mode hx hroot hquiet hi (left + 8 * (m + 1)) n
      fun k hk => hturns k (by omega)
    obtain ⟨asked', hrest⟩ := ih hy hy' h (n + 8) fun k hk => by
      rw [Nat.add_assoc]
      exact hturns (8 + k) (by omega)
    refine ⟨asked', ?_⟩
    rw [show left + 8 * (m + 1 + 1) = left + 8 * (m + 1) + 8 by omega, hnext, hrest,
      repeatIterations_succ hi]

theorem work_all_of_stops (mode : Mode) (hx : Ready p x.root)
    (hroot : x.root.label.terminal = false) (h : StopsAfter p i 0 m x)
    (hrota : rota.Alone (8 * m + 1)) :
    (Crew.solo .idle x 0 false).work p mode i rota rota.length 0 =
      Crew.solo (.finished (.ok ())) (repeatIterations p m x).2 (0 + queriesIn p m x) false := by
  have hwork := work_of_stops mode hx hroot h (rota.length - (8 * m + 1)) 0 hrota.turn_eq
  rwa [Nat.sub_add_cancel hrota.1] at hwork

theorem work_all_of_fails (mode : Mode) (hx : Ready p x.root)
    (hroot : x.root.label.terminal = false) (h : FailsAfter p i 0 m e x)
    (hrota : rota.Alone (8 * (m + 1))) :
    ∃ asked, (Crew.solo .idle x 0 false).work p mode i rota rota.length 0 =
      Crew.solo (.finished (.error e)) ((repeatIterations p m x).2.iterate p .exclusive).2
        asked true := by
  have hwork := work_of_fails mode hx hroot h (rota.length - 8 * (m + 1)) 0 hrota.turn_eq
  rwa [Nat.sub_add_cancel hrota.1] at hwork

variable [DecidableEq μ] {r : Except SearchError Unit} {stopped : Bool}

theorem searchWith_sharedTree (hroot : x.root.label.terminal = false) (hworkers : workers ≤ 1)
    (h : (Crew.solo .idle { x with rng := RandomSource.seeded (RandomSource.word64 x.rng).1 } 0
      false).work p .sharedTree i rota rota.length 0 = Crew.solo (.finished r) y asked stopped) :
    x.searchWith p .sharedTree workers rota i =
      (r, stopped || i.isRaised asked, { y with rng := (RandomSource.word64 x.rng).2 }) := by
  have hone : max workers 1 = 1 := Nat.max_eq_right hworkers
  have hstart : Crew.start p .sharedTree 1 (RandomSource.word64 x.rng).1
      { x with rng := (RandomSource.word64 x.rng).2 } =
        Crew.solo .idle { x with rng := RandomSource.seeded (RandomSource.word64 x.rng).1 } 0
          false := by
    simp [Crew.start, Crew.solo]
  simp only [searchWith, hroot, Bool.false_eq_true, ↓reduceIte, hone, hstart, Crew.complete, h]
  cases r <;> rfl

theorem searchWith_ownTrees (hroot : x.root.label.terminal = false) (hworkers : workers ≤ 1)
    (h : (Crew.solo .idle { x with rng := (RandomSource.word64 x.rng).2 } 0 false).work p
      .ownTrees i rota rota.length 0 = Crew.solo (.finished r) y asked stopped) :
    x.searchWith p .ownTrees workers rota i = (r, stopped || i.isRaised asked,
      match r with
      | .ok () => y
      | .error _ => { y with rng := (RandomSource.word64 x.rng).2 }) := by
  have hone : max workers 1 = 1 := Nat.max_eq_right hworkers
  have hstart : Crew.start p .ownTrees 1 (RandomSource.word64 x.rng).1
      { x with rng := (RandomSource.word64 x.rng).2 } =
        Crew.solo .idle { x with rng := (RandomSource.word64 x.rng).2 } 0 false := by
    simp [Crew.start, Crew.solo]
  simp only [searchWith, hroot, Bool.false_eq_true, ↓reduceIte, hone, hstart, Crew.complete, h]
  cases r <;> rfl

end

/-- What a failed iteration leaves of a session. The iterations that were completed stay in the
tree and are counted. -/
structure LeftBehind (y z : Session σ μ V γ) : Prop where
  frame : ∃ target, Frame id target y.root z.root
  iterations_eq : z.counters.iterations = y.counters.iterations
  retries_eq : z.counters.retries = y.counters.retries

theorem FailsAfter.leftBehind (h : FailsAfter p i asked m e x) (hx : Ready p x.root) (g : γ) :
    LeftBehind (repeatIterations p m x).2
      { ((repeatIterations p m x).2.iterate p .exclusive).2 with rng := g } := by
  obtain ⟨hrooted, hbranched⟩ := repeatIterations_keeps (iterate_branched p .exclusive) m
    ⟨hx.rooted, hx.branched⟩ fun _ _ => trivial
  obtain ⟨target, _, _, _, hframe, hcounters, _⟩ := iterate_failed hrooted hbranched h.failed
  refine ⟨⟨target, hframe⟩, ?_, ?_⟩ <;> rw [hcounters]

end Session

namespace History

open Session

variable [RandomSource γ] [DecidableEq μ]

/-- All drivers of a lone worker do the same iterations. Where nothing fails before the interrupt,
a search does the iterations that come before it, as a run of so many iterations does. A search by
one worker does so as well after it has drawn a word, whatever else the rota has for later. It goes
on with the session's source if the worker has a tree of its own, and has a source with that seed if
it shares the session's. Where an iteration fails before the interrupt, its error is reported, what
was completed stays, and the source is as before the iterations; a search by one worker was told to
stop then. From any source it comes to one or the other, before there have been more iterations than
queries. There is nothing to do below a terminal root. -/
theorem drivers_agree (game : Game σ μ α) (agent : α) (h : History σ μ V γ) (g : γ) (i : Interrupt)
    {workers : Nat} (hworkers : workers ≤ 1) :
    let p := h.setup game agent
    let x : Session σ μ V γ := { h.session game agent with rng := g }
    let drawn : Session σ μ V γ := { x with rng := (RandomSource.word64 x.rng).2 }
    let seeded : Session σ μ V γ :=
      { x with rng := RandomSource.seeded (RandomSource.word64 x.rng).1 }
    (x.root.label.terminal = true →
      x.searchUntil p i = (.ok 0, x) ∧
        ∀ mode rota, x.searchWith p mode workers rota i = (.ok (), i.isRaised 0, x)) ∧
    (x.root.label.terminal = false → (∀ path, isBusy x.root path = false) →
      (∀ k, i.during = some k → ∀ g : γ, ∃ m ≤ k, StopsAfter p i 0 m { x with rng := g } ∨
        m < k ∧ ∃ e, FailsAfter p i 0 m e { x with rng := g }) ∧
      (∀ m, (StopsAfter p i 0 m x → (x.runIterations p m).1 = .ok () ∧
          (m ≤ p.patience →
            x.searchUntil p i = (.ok (queriesIn p m x), (x.runIterations p m).2))) ∧
        ∀ rota : Rota, rota.Alone (8 * m + 1) →
          (StopsAfter p i 0 m seeded → x.searchWith p .sharedTree workers rota i =
            (.ok (), true, { (repeatIterations p m seeded).2 with rng := drawn.rng })) ∧
          (StopsAfter p i 0 m drawn → x.searchWith p .ownTrees workers rota i =
            (.ok (), true, (repeatIterations p m drawn).2))) ∧
      (∀ m e, (FailsAfter p i 0 m e x → ∃ y,
          (m < p.patience → x.searchUntil p i = (.error e, y)) ∧
          (∀ n, m < n → x.runIterations p n = (.error e, y)) ∧
          LeftBehind (repeatIterations p m x).2 y ∧ y.rng = x.rng) ∧
        ∀ rota : Rota, rota.Alone (8 * (m + 1)) →
          (FailsAfter p i 0 m e seeded → ∃ y,
            x.searchWith p .sharedTree workers rota i = (.error e, true, y) ∧
            LeftBehind (repeatIterations p m seeded).2 y ∧ y.rng = drawn.rng) ∧
          (FailsAfter p i 0 m e drawn → ∃ y,
            x.searchWith p .ownTrees workers rota i = (.error e, true, y) ∧
            LeftBehind (repeatIterations p m drawn).2 y ∧ y.rng = drawn.rng))) := by
  intro p x drawn seeded
  constructor
  · intro hroot
    constructor
    · simp only [searchUntil, hroot, ↓reduceIte]
    · intro mode rota
      simp only [searchWith, hroot, ↓reduceIte]
  intro hroot hfree
  have hx : Ready p x.root := ⟨h.rooted, h.branched, hfree⟩
  have hseeded : Ready p seeded.root := hx
  have hdrawn : Ready p drawn.root := hx
  refine ⟨fun k hk g => stops_or_fails hk hx (Nat.le_add_left k 0), fun m => ⟨fun hstops => ?_,
    fun rota hrota => ⟨fun hstops => ?_, fun hstops => ?_⟩⟩, fun m e => ⟨fun hfails => ?_,
    fun rota hrota => ⟨fun hfails => ?_, fun hfails => ?_⟩⟩⟩
  · rw [runIterations_of_completed hstops.completed]
    exact ⟨rfl, searchUntil_of_stops hroot hstops⟩
  · rw [searchWith_sharedTree hroot hworkers (work_all_of_stops _ hseeded hroot hstops hrota),
      hstops.raised, Bool.or_true]
  · rw [searchWith_ownTrees hroot hworkers (work_all_of_stops _ hdrawn hroot hstops hrota),
      hstops.raised, Bool.or_true]
  · exact ⟨_, searchUntil_of_fails hroot hfails, fun n hn => runIterations_of_fails hfails hn,
      hfails.leftBehind hx _, rfl⟩
  · obtain ⟨asked, hwork⟩ := work_all_of_fails .sharedTree hseeded hroot hfails hrota
    rw [searchWith_sharedTree hroot hworkers hwork]
    exact ⟨_, rfl, hfails.leftBehind hseeded _, rfl⟩
  · obtain ⟨asked, hwork⟩ := work_all_of_fails .ownTrees hdrawn hroot hfails hrota
    rw [searchWith_ownTrees hroot hworkers hwork]
    exact ⟨_, rfl, hfails.leftBehind hdrawn _, rfl⟩

/-- Two of X's moves are played out before there turn out to be no replies to the third. A search
that is told to stop when it has made one query does one iteration, and so does a search by one
worker, which is what there is when none is asked for. -/
theorem drivers_agree_blocked :
    let o : Options Rat := ⟨⟨fun _ _ _ => 0, fun _ _ _ => List.length_pos_iff.2⟩, 1, 10⟩
    let s := TicTacToe.Position.ofBoard #v[1, 2, 1, 1, 2, 2, 0, 1, 0]
    let game := TicTacToe.game.withoutReplies [.place 8]
    let h : History TicTacToe.Position TicTacToe.Action Rat Keystream := .start o s 7
    let p := h.setup game .x
    let x := h.session game .x
    let drawn : Session TicTacToe.Position TicTacToe.Action Rat Keystream :=
      { x with rng := (RandomSource.word64 x.rng).2 }
    let seeded : Session TicTacToe.Position TicTacToe.Action Rat Keystream :=
      { x with rng := RandomSource.seeded (RandomSource.word64 x.rng).1 }
    let rota : Rota := .even 0 100
    let e : SearchError := .rule (game.noJointMoves (s.place 6) (.place 8))
    x.root.label.terminal = false ∧ (∀ path, isBusy x.root path = false) ∧
      (StopsAfter p ⟨some 1⟩ 0 1 x ∧ (x.searchUntil p ⟨some 1⟩).2 = (x.runIterations p 1).2) ∧
      (StopsAfter p ⟨some 1⟩ 0 1 seeded ∧ x.searchWith p .sharedTree 0 rota ⟨some 1⟩ =
        (.ok (), true, { (repeatIterations p 1 seeded).2 with rng := drawn.rng })) ∧
      (StopsAfter p ⟨some 1⟩ 0 1 drawn ∧ x.searchWith p .ownTrees 0 rota ⟨some 1⟩ =
        (.ok (), true, (repeatIterations p 1 drawn).2)) ∧
      (FailsAfter p .never 0 2 e x ∧ ∃ y, x.searchUntil p .never = (.error e, y) ∧
        LeftBehind (repeatIterations p 2 x).2 y ∧ y.rng = x.rng) ∧
      (FailsAfter p .never 0 2 e seeded ∧ ∃ y,
        x.searchWith p .sharedTree 0 rota .never = (.error e, true, y) ∧
        LeftBehind (repeatIterations p 2 seeded).2 y ∧ y.rng = drawn.rng) := by
  intro o s game h p x drawn seeded rota e
  have hroot : x.root.label.terminal = false := by decide +kernel
  have hfree : ∀ path, isBusy x.root path = false := fun path => by cases path <;> rfl
  have hstops : StopsAfter p ⟨some 1⟩ 0 1 x :=
    ⟨by decide +kernel, by decide +kernel, by unfold Quiet; decide +kernel⟩
  have hseeded : StopsAfter p ⟨some 1⟩ 0 1 seeded :=
    ⟨by decide +kernel, by decide +kernel, by unfold Quiet; decide +kernel⟩
  have hdrawn : StopsAfter p ⟨some 1⟩ 0 1 drawn :=
    ⟨by decide +kernel, by decide +kernel, by unfold Quiet; decide +kernel⟩
  have hfails : FailsAfter p .never 0 2 e x :=
    ⟨by decide +kernel, by decide +kernel, fun _ _ => rfl⟩
  have hfails' : FailsAfter p .never 0 2 e seeded :=
    ⟨by decide +kernel, by decide +kernel, fun _ _ => rfl⟩
  obtain ⟨-, hdrivers⟩ := drivers_agree game .x h x.rng ⟨some 1⟩ (Nat.zero_le 1)
  obtain ⟨-, hdone, -⟩ := hdrivers hroot hfree
  obtain ⟨-, hdrivers⟩ := drivers_agree game .x h x.rng .never (Nat.zero_le 1)
  obtain ⟨-, -, hfailed⟩ := hdrivers hroot hfree
  obtain ⟨hsearched, hworked⟩ := hdone 1
  obtain ⟨hshared, hown⟩ := hworked rota (Rota.even_alone (Nat.zero_le 1) (by decide))
  obtain ⟨hfailed, hworked⟩ := hfailed 2 e
  obtain ⟨hfailed', -⟩ := hworked rota (Rota.even_alone (Nat.zero_le 1) (by decide))
  obtain ⟨y, hy, -, hleft, hrng⟩ := hfailed hfails
  exact ⟨hroot, hfree, ⟨hstops, congrArg Prod.snd ((hsearched hstops).2 (by decide))⟩,
    ⟨hseeded, hshared hseeded⟩, ⟨hdrawn, hown hdrawn⟩, ⟨hfails, y, hy (by decide), hleft, hrng⟩,
    ⟨hfails', hfailed' hfails'⟩⟩

end History

end GameSearch.TreeSearch
