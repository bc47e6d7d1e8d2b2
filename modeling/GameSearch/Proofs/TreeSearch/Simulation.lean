import GameSearch.Proofs.Playout
import GameSearch.TreeSearch.Simulation

/-!
# GameSearch.Proofs.TreeSearch.Simulation

What a simulation counts and how it fails. All plays of a simulation are counted together when the
last of them is over, and none for a terminal node (`simulate_ok`). A simulation that fails counts
no plays; it met a fault in the rules, or a play that was longer than it may be
(`simulate_error`).
-/

namespace GameSearch.TreeSearch.Setup

variable {σ μ α V γ : Type} {p : Setup σ μ α V} {n : Node σ μ V} {c c' : Counters} {g g' : γ}
  {e : SearchError}

theorem playAfter_error [RandomSource γ] {s : σ} {action : μ} {joints : List (JointMove μ)}
    (h : p.playAfter s action joints g = (.error e, g')) :
    (∃ r, e = .rule r) ∨ e = .unfinished ∧
      ∃ joint s', p.game.next s joint = .ok s' ∧ p.game.Outlasts p.patience s' := by
  unfold playAfter at h
  split at h
  · cases h
    exact .inl ⟨_, rfl⟩
  · rename_i joint g₁ _
    split at h
    · cases h
      exact .inl ⟨_, rfl⟩
    · rename_i s' hnext
      exact (Game.playoutFrom_error h).imp_right fun ⟨he, hlong⟩ => ⟨he, joint, s', hnext, hlong⟩

/-- At least one play is made. -/
theorem plays_toNat (p : Setup σ μ α V) : p.plays.toNat = max 1 p.playouts.toNat := by
  have hone : (1 : UInt32).toNat = 1 := rfl
  have hmax : p.plays = if p.playouts ≤ 1 then 1 else p.playouts := rfl
  rw [hmax]
  split <;> rename_i h <;> rw [UInt32.le_iff_toNat_le, hone] at h
  · rw [hone, Nat.max_eq_left h]
  · rw [Nat.max_eq_right (by omega)]

/-- A play from the state of a node, or from one that a reply there leads to, is longer than plays
may be. -/
def Overlong (p : Setup σ μ α V) (n : Node σ μ V) : Prop :=
  ∃ s, (s = n.state ∨ ∃ joint, p.game.next n.state joint = .ok s) ∧
    p.game.Outlasts p.patience s

variable [Utility V]

/-- Plays count nothing but their moves. -/
theorem sumPlays_counters (draw : γ → Except SearchError Playout × γ) (k : Nat) (total : V)
    (asked : Nat) (c : Counters) (g : γ) : (sumPlays draw k total asked c g).2.1 =
      { c with playoutMoves := (sumPlays draw k total asked c g).2.1.playoutMoves } := by
  induction k generalizing total asked c g with
  | zero => rfl
  | succ k ih =>
    simp only [sumPlays]
    split
    · rfl
    · rw [ih]
      rfl

theorem sumPlays_error {draw : γ → Except SearchError Playout × γ} {k asked : Nat} {total : V}
    (h : sumPlays draw k total asked c g = (.error e, c', g')) :
    ∃ g₁ g₂, draw g₁ = (.error e, g₂) := by
  induction k generalizing total asked c g with
  | zero => cases h
  | succ k ih =>
    simp only [sumPlays] at h
    split at h
    · rename_i hdraw
      cases h
      exact ⟨_, _, hdraw⟩
    · exact ih h

/-- Each play asks at least for its goal. -/
theorem sumPlays_asked {draw : γ → Except SearchError Playout × γ} {k asked asked' : Nat}
    {total v : V} (h : sumPlays draw k total asked c g = (.ok (v, asked'), c', g')) :
    asked + k ≤ asked' := by
  induction k generalizing total asked c g with
  | zero =>
    cases h
    exact Nat.le_refl _
  | succ k ih =>
    simp only [sumPlays] at h
    split at h
    · cases h
    · have := ih h
      omega

theorem meanOf_asked {draw : γ → Except SearchError Playout × γ} {asked : Nat} {v : V}
    (h : p.meanOf draw c g = (.ok (v, asked), c', g')) : 0 < asked := by
  unfold meanOf at h
  split at h
  · cases h
  · rename_i hsum
    cases h
    have hasked := sumPlays_asked hsum
    rw [plays_toNat] at hasked
    omega

theorem meanOf_ok {draw : γ → Except SearchError Playout × γ} {r : V × Nat}
    (h : p.meanOf draw c g = (.ok r, c', g')) :
    c' = { c with playouts := c.playouts + p.plays.toUInt64, playoutMoves := c'.playoutMoves } := by
  have hcounters := sumPlays_counters draw p.plays.toNat (Utility.zero : V) 0 c g
  unfold meanOf at h
  split at h
  · cases h
  · rename_i total asked c₁ g₁ hsum
    cases h
    simp only [hsum] at hcounters
    rw [hcounters]
    rfl

theorem meanOf_error {draw : γ → Except SearchError Playout × γ}
    (h : p.meanOf draw c g = (.error e, c', g')) :
    c' = { c with playoutMoves := c'.playoutMoves } ∧ ∃ g₁ g₂, draw g₁ = (.error e, g₂) := by
  have hcounters := sumPlays_counters draw p.plays.toNat (Utility.zero : V) 0 c g
  unfold meanOf at h
  split at h
  · rename_i hsum
    rw [hsum] at hcounters
    cases h
    exact ⟨hcounters, sumPlays_error hsum⟩
  · cases h

variable [RandomSource γ]

theorem simulate_ok {r : V × Nat} (h : p.simulate n c g = (.ok r, c', g')) :
    c' = { c with
      playouts := c.playouts + if n.terminal then 0 else p.plays.toUInt64
      playoutMoves := c'.playoutMoves } := by
  unfold simulate at h
  split at h
  · rename_i hn
    split at h
    · cases h
    · cases h
      simp [hn]
  · rename_i hn
    rw [if_neg hn]
    split at h
    · exact meanOf_ok h
    · split at h
      · cases h
      · exact meanOf_ok h

/-- No score is had without a query. -/
theorem simulate_asked {asked : Nat} {v : V} (h : p.simulate n c g = (.ok (v, asked), c', g')) :
    0 < asked := by
  unfold simulate at h
  split at h
  · split at h
    · cases h
    · cases h
      exact Nat.one_pos
  · split at h
    · exact meanOf_asked h
    · split at h
      · cases h
      · exact meanOf_asked h

theorem simulate_error (h : p.simulate n c g = (.error e, c', g')) :
    c' = { c with playoutMoves := c'.playoutMoves } ∧
      ((∃ r, e = .rule r) ∨ e = .unfinished ∧ p.Overlong n) := by
  unfold simulate at h
  split at h
  · split at h
    · cases h
      exact ⟨rfl, .inl ⟨_, rfl⟩⟩
    · cases h
  · split at h
    · obtain ⟨hcounters, g₁, g₂, hdraw⟩ := meanOf_error h
      refine ⟨hcounters, (Game.playoutFrom_error hdraw).imp_right fun ⟨he, hlong⟩ => ?_⟩
      exact ⟨he, n.state, .inl rfl, hlong⟩
    · split at h
      · cases h
        exact ⟨rfl, .inl ⟨_, rfl⟩⟩
      · obtain ⟨hcounters, g₁, g₂, hdraw⟩ := meanOf_error h
        refine ⟨hcounters, (playAfter_error hdraw).imp_right ?_⟩
        rintro ⟨he, joint, s, hnext, hlong⟩
        exact ⟨he, s, .inr ⟨joint, hnext⟩, hlong⟩

end GameSearch.TreeSearch.Setup
