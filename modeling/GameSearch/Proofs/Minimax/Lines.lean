import GameSearch.Minimax.Problem
import Mathlib.Data.Set.Card

/-!
# GameSearch.Proofs.Minimax.Lines

The lines of play below a position and what they are worth. A line tells of each of its turns which
of the listed moves the agent made and which of the listed replies it met, so that a joint move
which is listed twice gives two lines. `HasValue` is the value of a position as the rules and the
evaluator have it: the best of the moves, each with the worst of its replies, down to the positions
where the play is over or at the horizon.

The lines below a position are those below the positions one turn further, each with that turn in
front of it, and so is their number (`encard_lines`).
-/

namespace GameSearch.Minimax

/-- For each turn the place of the agent's move in the list of its moves, and that of the joint
move in the list of replies. -/
abbrev Line := List (Nat × Nat)

namespace Problem

variable {σ μ α : Type}

/-- How many turns a search looks ahead. -/
def horizon (p : Problem σ μ α) : ℕ∞ :=
  match p.maxDepth with
  | none => ⊤
  | some limit => (max limit 1 : Nat)

def withDepth (p : Problem σ μ α) (limit : Option Nat) : Problem σ μ α :=
  { p with maxDepth := limit }

/-- The rules list a move of the agent and a reply to it that lead from `s` to `s'`. -/
def Turn (p : Problem σ μ α) (s : σ) (turn : Nat × Nat) (s' : σ) : Prop :=
  ∃ moves m joints joint, p.game.legalMoves s p.agent = .ok moves ∧ moves[turn.1]? = some m ∧
    p.game.replies s p.agent m = .ok joints ∧ joints[turn.2]? = some joint ∧
    p.game.next s joint = .ok s'

/-- The turns of a line lead from a state to another, and no state before that is terminal. -/
def Leads (p : Problem σ μ α) : σ → Line → σ → Prop
  | s, [], s' => s = s'
  | s, turn :: line, s' =>
    p.game.terminal s = false ∧ ∃ s₁, p.Turn s turn s₁ ∧ p.Leads s₁ line s'

mutual

/-- What a state that many turns below the root is worth to the agent. -/
inductive HasValue (p : Problem σ μ α) : Nat → σ → Int32 → Prop where
  | goal {depth : Nat} {s : σ} {v : Int32} : p.game.terminal s = true →
      p.game.goal s p.agent = .ok v → HasValue p depth s v
  | estimate {depth : Nat} {s : σ} {v : Int32} : p.game.terminal s = false →
      (depth : ℕ∞) = p.horizon → p.evaluator.value s p.agent = .ok v → HasValue p depth s v
  | best {depth : Nat} {s : σ} {moves : List μ} {worst : μ → Int32} {v : Int32} :
      p.game.terminal s = false → (depth : ℕ∞) < p.horizon →
      p.game.legalMoves s p.agent = .ok moves →
      (∀ m ∈ moves, HasWorst p depth s m (worst m)) → IsGreatest (worst '' {m | m ∈ moves}) v →
      HasValue p depth s v

/-- What a move is worth if it meets the worst reply. -/
inductive HasWorst (p : Problem σ μ α) : Nat → σ → μ → Int32 → Prop where
  | worst {depth : Nat} {s : σ} {m : μ} {joints : List (JointMove μ)} {after : JointMove μ → σ}
      {value : JointMove μ → Int32} {v : Int32} : p.game.replies s p.agent m = .ok joints →
      (∀ joint ∈ joints, p.game.next s joint = .ok (after joint)) →
      (∀ joint ∈ joints, HasValue p (depth + 1) (after joint) (value joint)) →
      IsLeast (value '' {joint | joint ∈ joints}) v → HasWorst p depth s m v

end

variable {p : Problem σ μ α} {depth : Nat} {s s' s₁ : σ} {m : μ} {v w : Int32} {line : Line}
  {turn : Nat × Nat}

@[simp] theorem withDepth_game (p : Problem σ μ α) (limit : Option Nat) :
    (p.withDepth limit).game = p.game := rfl

@[simp] theorem withDepth_agent (p : Problem σ μ α) (limit : Option Nat) :
    (p.withDepth limit).agent = p.agent := rfl

@[simp] theorem withDepth_evaluator (p : Problem σ μ α) (limit : Option Nat) :
    (p.withDepth limit).evaluator = p.evaluator := rfl

@[simp] theorem withDepth_leads {limit : Option Nat} {line : Line} :
    (p.withDepth limit).Leads s line s' ↔ p.Leads s line s' := by
  induction line generalizing s with
  | nil => rfl
  | cons turn line ih => simp [Leads, Turn, ih]

/-! ## The horizon -/

theorem one_le_horizon (p : Problem σ μ α) : 1 ≤ p.horizon := by
  unfold horizon
  split
  · exact le_top
  · rename_i limit _
    exact_mod_cast le_max_right limit 1

theorem atLimit_iff : p.atLimit depth = true ↔ 0 < depth ∧ p.horizon ≤ depth := by
  unfold atLimit horizon
  cases p.maxDepth with
  | none => simp
  | some limit =>
    simp only [Bool.and_eq_true, decide_eq_true_eq, Nat.cast_le]
    omega

theorem atLimit_iff_eq (h : (depth : ℕ∞) ≤ p.horizon) :
    p.atLimit depth = true ↔ (depth : ℕ∞) = p.horizon := by
  rw [atLimit_iff]
  constructor
  · rintro ⟨-, hle⟩
    exact h.antisymm hle
  · intro heq
    have hpos := heq ▸ p.one_le_horizon
    exact ⟨by exact_mod_cast hpos, heq.ge⟩

theorem lt_horizon (h : (depth : ℕ∞) ≤ p.horizon) (hlimit : p.atLimit depth = false) :
    (depth : ℕ∞) < p.horizon :=
  lt_of_le_of_ne h fun heq => by simp [(atLimit_iff_eq h).2 heq] at hlimit

theorem succ_le_horizon (h : (depth : ℕ∞) < p.horizon) : ((depth + 1 : Nat) : ℕ∞) ≤ p.horizon := by
  push_cast
  exact Order.add_one_le_of_lt h

/-! ## One value -/

mutual

theorem HasValue.unique : ∀ {depth : Nat} {s : σ} {v w : Int32}, p.HasValue depth s v →
    p.HasValue depth s w → v = w
  | _, _, _, _, .goal _ hv, .goal _ hw => by cases hv.symm.trans hw; rfl
  | _, _, _, _, .goal ht _, .estimate hf _ _ => by simp [ht] at hf
  | _, _, _, _, .goal ht _, .best hf _ _ _ _ => by simp [ht] at hf
  | _, _, _, _, .estimate hf _ _, .goal ht _ => by simp [ht] at hf
  | _, _, _, _, .estimate _ _ hv, .estimate _ _ hw => by cases hv.symm.trans hw; rfl
  | _, _, _, _, .estimate _ heq _, .best _ hlt _ _ _ => absurd heq hlt.ne
  | _, _, _, _, .best hf _ _ _ _, .goal ht _ => by simp [ht] at hf
  | _, _, _, _, .best _ hlt _ _ _, .estimate _ heq _ => absurd heq hlt.ne
  | _, _, _, _, @HasValue.best _ _ _ _ _ _ moves worst _ _ _ hmoves hv hbest,
      @HasValue.best _ _ _ _ _ _ _ worst' _ _ _ hmoves' hw hbest' => by
    cases hmoves.symm.trans hmoves'
    have hsame : worst '' {m | m ∈ moves} = worst' '' {m | m ∈ moves} :=
      Set.image_congr fun m hm => (hv m hm).unique (hw m hm)
    rw [hsame] at hbest
    exact Int32.le_antisymm (hbest'.2 hbest.1) (hbest.2 hbest'.1)

theorem HasWorst.unique : ∀ {depth : Nat} {s : σ} {m : μ} {v w : Int32}, p.HasWorst depth s m v →
    p.HasWorst depth s m w → v = w
  | _, _, _, _, _, @HasWorst.worst _ _ _ _ _ _ _ joints _ value _ hjoints hnext hv hworst,
      @HasWorst.worst _ _ _ _ _ _ _ _ _ value' _ hjoints' hnext' hw hworst' => by
    cases hjoints.symm.trans hjoints'
    have hsame : value '' {joint | joint ∈ joints} = value' '' {joint | joint ∈ joints} := by
      refine Set.image_congr fun joint hjoint => ?_
      have hafter := Except.ok.inj ((hnext joint hjoint).symm.trans (hnext' joint hjoint))
      exact (hv joint hjoint).unique (hafter ▸ hw joint hjoint)
    rw [hsame] at hworst
    exact Int32.le_antisymm (hworst.2 hworst'.1) (hworst'.2 hworst.1)

end

/-- A move whose replies are all worth `v` at least, and one of them no more. -/
theorem HasWorst.of_replies {joints : List (JointMove μ)}
    (hjoints : p.game.replies s p.agent m = .ok joints)
    (hall : ∀ joint ∈ joints, ∃ s' w, p.game.next s joint = .ok s' ∧ p.HasValue (depth + 1) s' w ∧
      v ≤ w)
    (hworst : ∃ joint ∈ joints, ∃ s', p.game.next s joint = .ok s' ∧
      p.HasValue (depth + 1) s' v) : p.HasWorst depth s m v := by
  have : Nonempty σ := ⟨s⟩
  choose! after value hnext hvalue hle using hall
  refine .worst hjoints hnext hvalue ⟨?_, ?_⟩
  · obtain ⟨joint, hjoint, s', hs', hv⟩ := hworst
    cases hs'.symm.trans (hnext joint hjoint)
    exact ⟨joint, hjoint, (hvalue joint hjoint).unique hv⟩
  · rintro _ ⟨joint, hjoint, rfl⟩
    exact hle joint hjoint

theorem HasValue.of_moves {moves : List μ} (hs : p.game.terminal s = false)
    (hdepth : (depth : ℕ∞) < p.horizon) (hmoves : p.game.legalMoves s p.agent = .ok moves)
    (hall : ∀ m ∈ moves, ∃ w, p.HasWorst depth s m w ∧ w ≤ v)
    (hbest : ∃ m ∈ moves, p.HasWorst depth s m v) : p.HasValue depth s v := by
  choose! worst hworst hle using hall
  refine .best hs hdepth hmoves hworst ⟨?_, ?_⟩
  · obtain ⟨m, hm, hv⟩ := hbest
    exact ⟨m, hm, (hworst m hm).unique hv⟩
  · rintro _ ⟨m, hm, rfl⟩
    exact hle m hm

/-! ## Along a line -/

theorem depth_cons (depth : Nat) (turn : Nat × Nat) (line : Line) :
    depth + (turn :: line).length = depth + 1 + line.length := by
  rw [List.length_cons, Nat.add_right_comm, Nat.add_assoc]

theorem Leads.open_of_cons (h : p.Leads s (turn :: line) s') : p.game.terminal s = false := h.1

theorem leads_append {line₁ line₂ : Line} :
    p.Leads s (line₁ ++ line₂) s' ↔ ∃ s₁, p.Leads s line₁ s₁ ∧ p.Leads s₁ line₂ s' := by
  induction line₁ generalizing s with
  | nil => simp [Leads]
  | cons turn line₁ ih =>
    simp only [List.cons_append, Leads, ih]
    constructor
    · rintro ⟨hs, t, hturn, s₁, h₁, h₂⟩
      exact ⟨s₁, ⟨hs, t, hturn, h₁⟩, h₂⟩
    · rintro ⟨s₁, ⟨hs, t, hturn, h₁⟩, h₂⟩
      exact ⟨hs, t, hturn, s₁, h₁, h₂⟩

theorem Leads.open_before {n : Nat} (h : p.Leads s line s') (hn : n < line.length) :
    ∃ s₁, p.Leads s (line.take n) s₁ ∧ p.game.terminal s₁ = false := by
  rw [← List.take_append_drop n line, leads_append] at h
  obtain ⟨s₁, hbefore, hafter⟩ := h
  cases hdrop : line.drop n with
  | nil => exact absurd (List.drop_eq_nil_iff.1 hdrop) (Nat.not_le.2 hn)
  | cons turn rest => exact ⟨s₁, hbefore, (hdrop ▸ hafter).open_of_cons⟩

theorem HasValue.after_turn (h : p.HasValue depth s v) (hs : p.game.terminal s = false)
    (hdepth : (depth : ℕ∞) ≠ p.horizon) (hturn : p.Turn s turn s') :
    ∃ w, p.HasValue (depth + 1) s' w := by
  obtain ⟨moves, m, joints, joint, hmoves, hm, hjoints, hjoint, hnext⟩ := hturn
  cases h with
  | goal ht _ => simp [ht] at hs
  | estimate _ heq _ => exact absurd heq hdepth
  | best _ _ hmoves' hworst _ =>
    cases hmoves.symm.trans hmoves'
    cases hworst m (List.mem_of_getElem? hm) with
    | worst hjoints' hafter hvalue _ =>
      cases hjoints.symm.trans hjoints'
      have hmem := List.mem_of_getElem? hjoint
      cases hnext.symm.trans (hafter joint hmem)
      exact ⟨_, hvalue joint hmem⟩

theorem HasValue.along (h : p.HasValue depth s v) (hline : p.Leads s line s')
    (hdepth : ((depth + line.length : Nat) : ℕ∞) ≤ p.horizon) :
    ∃ w, p.HasValue (depth + line.length) s' w := by
  induction line generalizing depth s v with
  | nil =>
    cases hline
    exact ⟨v, h⟩
  | cons turn line ih =>
    obtain ⟨hs, s₁, hturn, hline⟩ := hline
    have hlt : (depth : ℕ∞) < p.horizon :=
      lt_of_lt_of_le (by exact_mod_cast Nat.lt_add_of_pos_right (Nat.succ_pos _)) hdepth
    obtain ⟨w, hw⟩ := h.after_turn hs hlt.ne hturn
    rw [depth_cons] at hdepth ⊢
    exact ih hw hline hdepth

theorem HasValue.exists_turn (h : p.HasValue depth s v) (hs : p.game.terminal s = false)
    (hdepth : (depth : ℕ∞) ≠ p.horizon) : ∃ turn s', p.Turn s turn s' := by
  cases h with
  | goal ht _ => simp [ht] at hs
  | estimate _ heq _ => exact absurd heq hdepth
  | best _ _ hmoves hworst hbest =>
    obtain ⟨m, hm, -⟩ := hbest.1
    obtain ⟨i, hi⟩ := List.getElem?_of_mem hm
    cases hworst m hm with
    | worst hjoints hafter _ hleast =>
      obtain ⟨joint, hjoint, -⟩ := hleast.1
      obtain ⟨j, hj⟩ := List.getElem?_of_mem hjoint
      exact ⟨(i, j), _, _, m, _, joint, hmoves, hi, hjoints, hj, hafter joint hjoint⟩

/-! ## How many lines there are -/

/-- The places of a list together with what is found there. -/
def spread {β γ : Type} (xs : List β) (A : β → Set γ) : Set (Nat × γ) :=
  {y | ∃ x, xs[y.1]? = some x ∧ y.2 ∈ A x}

theorem encard_spread_nil {β γ : Type} (A : β → Set γ) : (spread [] A).encard = 0 := by
  simp [spread]

theorem encard_spread_cons {β γ : Type} (x : β) (xs : List β) (A : β → Set γ) :
    (spread (x :: xs) A).encard = (A x).encard + (spread xs A).encard := by
  have hfirst : Function.Injective fun y : γ => (0, y) := fun y y' h => (Prod.ext_iff.1 h).2
  have hlater : Function.Injective fun y : Nat × γ => (y.1 + 1, y.2) := by
    rintro ⟨i, y⟩ ⟨i', y'⟩ h
    simpa using h
  have hsplit : spread (x :: xs) A =
      (fun y => (0, y)) '' A x ∪ (fun y => (y.1 + 1, y.2)) '' spread xs A := by
    ext ⟨i, y⟩
    cases i <;> simp [spread]
  rw [hsplit, Set.encard_union_eq, hfirst.encard_image, hlater.encard_image]
  rw [Set.disjoint_left]
  rintro _ ⟨y, -, rfl⟩ ⟨y', -, h⟩
  simp at h

variable {stop : Nat → σ → Prop}

/-- The lines from a state to a stop, where stops are told by their depth. -/
def lines (p : Problem σ μ α) (stop : Nat → σ → Prop) (depth : Nat) (s : σ) : Set Line :=
  {line | ∃ s', p.Leads s line s' ∧ stop (depth + line.length) s'}

def linesAfter (p : Problem σ μ α) (stop : Nat → σ → Prop) (depth : Nat) (s : σ)
    (joint : JointMove μ) : Set Line :=
  {line | ∃ s', p.game.next s joint = .ok s' ∧ line ∈ p.lines stop (depth + 1) s'}

def repliesAfter (p : Problem σ μ α) (stop : Nat → σ → Prop) (depth : Nat) (s : σ) (m : μ) :
    Set (Nat × Line) :=
  {y | ∃ joints, p.game.replies s p.agent m = .ok joints ∧
    y ∈ spread joints (p.linesAfter stop depth s)}

theorem linesAfter_eq {joint : JointMove μ} (h : p.game.next s joint = .ok s') :
    p.linesAfter stop depth s joint = p.lines stop (depth + 1) s' := by
  simp [linesAfter, h]

theorem repliesAfter_eq {joints : List (JointMove μ)}
    (h : p.game.replies s p.agent m = .ok joints) :
    p.repliesAfter stop depth s m = spread joints (p.linesAfter stop depth s) := by
  simp [repliesAfter, h]

/-- Where no line that goes on comes to a stop, there is at most the empty one. -/
theorem encard_lines_here (hon : ∀ turn line s', p.Leads s (turn :: line) s' →
    ¬stop (depth + (turn :: line).length) s') :
    (stop depth s → (p.lines stop depth s).encard = 1) ∧
      (¬stop depth s → (p.lines stop depth s).encard = 0) := by
  have hmem : ∀ line, line ∈ p.lines stop depth s ↔ line = [] ∧ stop depth s := by
    intro line
    cases line with
    | nil => simp [lines, Leads]
    | cons turn line =>
      simp only [lines, Set.mem_ofPred_eq, reduceCtorEq, false_and, iff_false]
      rintro ⟨s', hline, hstop⟩
      exact hon turn line s' hline hstop
  constructor
  · intro hstop
    rw [show p.lines stop depth s = {[]} by ext line; simp [hmem, hstop], Set.encard_singleton]
  · intro hstop
    rw [show p.lines stop depth s = ∅ by ext line; simp [hmem, hstop], Set.encard_empty]

theorem encard_lines (hs : p.game.terminal s = false) (hstop : ¬stop depth s) {moves : List μ}
    (hmoves : p.game.legalMoves s p.agent = .ok moves) :
    (p.lines stop depth s).encard = (spread moves (p.repliesAfter stop depth s)).encard := by
  have hinj : Function.Injective fun y : Nat × Nat × Line => (y.1, y.2.1) :: y.2.2 := by
    rintro ⟨i, j, line⟩ ⟨i', j', line'⟩ h
    simpa [and_assoc] using h
  have himage : p.lines stop depth s =
      (fun y : Nat × Nat × Line => (y.1, y.2.1) :: y.2.2) ''
        spread moves (p.repliesAfter stop depth s) := by
    ext line
    simp only [lines, spread, repliesAfter, linesAfter, Set.mem_ofPred_eq, Set.mem_image]
    constructor
    · rintro ⟨s', hline, hend⟩
      cases line with
      | nil =>
        cases hline
        exact absurd hend hstop
      | cons turn line =>
        obtain ⟨-, s₁, ⟨moves', m, joints, joint, hmoves', hm, hjoints, hjoint, hnext⟩, hline⟩ :=
          hline
        cases hmoves.symm.trans hmoves'
        rw [depth_cons] at hend
        exact ⟨(turn.1, turn.2, line),
          ⟨m, hm, joints, hjoints, joint, hjoint, s₁, hnext, s', hline, hend⟩, rfl⟩
    · rintro ⟨⟨i, j, line⟩, ⟨m, hm, joints, hjoints, joint, hjoint, s₁, hnext, s', hline, hend⟩,
        rfl⟩
      have hturn : p.Turn s (i, j) s₁ :=
        ⟨moves, m, joints, joint, hmoves, hm, hjoints, hjoint, hnext⟩
      refine ⟨s', ⟨hs, s₁, hturn, hline⟩, ?_⟩
      rwa [depth_cons]
  rw [himage, hinj.encard_image]

/-! ## Where a search stops -/

def Finishes (p : Problem σ μ α) (depth : Nat) (s : σ) : Prop :=
  p.game.terminal s = true ∧ (depth : ℕ∞) ≤ p.horizon

def Pauses (p : Problem σ μ α) (depth : Nat) (s : σ) : Prop :=
  p.game.terminal s = false ∧ (depth : ℕ∞) = p.horizon

theorem encard_lines_terminal (hs : p.game.terminal s = true)
    (hdepth : (depth : ℕ∞) ≤ p.horizon) :
    (p.lines p.Finishes depth s).encard = 1 ∧ (p.lines p.Pauses depth s).encard = 0 := by
  have hon : ∀ turn line s', ¬p.Leads s (turn :: line) s' := fun turn line s' h => by
    simp [h.open_of_cons] at hs
  exact ⟨(encard_lines_here fun _ _ _ h => absurd h (hon _ _ _)).1 ⟨hs, hdepth⟩,
    (encard_lines_here fun _ _ _ h => absurd h (hon _ _ _)).2 fun h => by simp [h.1] at hs⟩

theorem encard_lines_horizon (hs : p.game.terminal s = false)
    (hdepth : (depth : ℕ∞) = p.horizon) :
    (p.lines p.Finishes depth s).encard = 0 ∧ (p.lines p.Pauses depth s).encard = 1 := by
  have hbeyond : ∀ (turn : Nat × Nat) (line : Line),
      p.horizon < ((depth + (turn :: line).length : Nat) : ℕ∞) := fun turn line => by
    rw [← hdepth]
    exact_mod_cast Nat.lt_add_of_pos_right (Nat.succ_pos _)
  exact ⟨(encard_lines_here fun turn line _ _ h => absurd h.2 (hbeyond turn line).not_ge).2
      fun h => by simp [h.1] at hs,
    (encard_lines_here fun turn line _ _ h => absurd h.2 (hbeyond turn line).ne').1 ⟨hs, hdepth⟩⟩

/-- Before the horizon a search does not stop at a state where the play goes on. -/
theorem goes_on (hs : p.game.terminal s = false) (hdepth : (depth : ℕ∞) < p.horizon) :
    ¬p.Finishes depth s ∧ ¬p.Pauses depth s :=
  ⟨fun h => by simp [h.1] at hs, fun h => hdepth.ne h.2⟩

end Problem

end GameSearch.Minimax
