import GameSearch.Proofs.Playout
import Mathlib.Data.Finite.Prod
import Mathlib.Data.Set.Finite.Lattice
import Mathlib.Logic.Relation

/-!
# GameSearch.Proofs.Rules

Plays of a game. `follow` makes joint moves one after the other, as long as the rules allow them.
One state comes after another when each agent makes a legal move (`Succeeds`), and
`EndsWithin n s` says that no play from `s` has more than `n` moves. A rank that falls from
state to state gives such a bound (`endsWithin_of_rank`), and so does the mere fact that every
play ends, since there are finitely many moves in a state (`exists_endsWithin`).
-/

namespace GameSearch

theorem RandomSource.exists_choose {γ β : Type} [RandomSource γ] {xs : List β} (h : xs ≠ [])
    (g : γ) : ∃ x g', choose xs g = (some x, g') := by
  obtain ⟨x, hx⟩ := Option.isSome_iff_exists.1 (choose_isSome g h)
  exact ⟨x, (choose xs g).2, Prod.ext hx rfl⟩

namespace Game

variable {σ μ α : Type} {game : Game σ μ α} {s s' : σ} {m n bound : Nat}

def follow (game : Game σ μ α) : σ → List (JointMove μ) → Except RuleError σ
  | s, [] => .ok s
  | s, joint :: rest =>
    match game.next s joint with
    | .error e => .error e
    | .ok s' => game.follow s' rest

theorem follow_cons {joint : JointMove μ} {rest : List (JointMove μ)} {s'' : σ} :
    game.follow s (joint :: rest) = .ok s'' ↔
      ∃ s', game.next s joint = .ok s' ∧ game.follow s' rest = .ok s'' := by
  rw [follow]
  cases game.next s joint with
  | error e => simp
  | ok s' => simp

theorem follow_append {joints rest : List (JointMove μ)} {s'' : σ} :
    game.follow s (joints ++ rest) = .ok s'' ↔
      ∃ s', game.follow s joints = .ok s' ∧ game.follow s' rest = .ok s'' := by
  induction joints generalizing s with
  | nil => simp [follow]
  | cons joint joints ih =>
    simp only [List.cons_append, follow_cons, ih]
    constructor
    · rintro ⟨s₁, hs₁, s', hs', hrest⟩
      exact ⟨s', ⟨s₁, hs₁, hs'⟩, hrest⟩
    · rintro ⟨s', ⟨s₁, hs₁, hs'⟩, hrest⟩
      exact ⟨s₁, hs₁, s', hs', hrest⟩

def Succeeds (game : Game σ μ α) (s s' : σ) : Prop :=
  game.terminal s = false ∧
    ∃ joint, game.LegalFor s game.agents joint ∧ game.next s joint = .ok s'

/-- `s'` comes up in a play from `s`. -/
def Reaches (game : Game σ μ α) (s s' : σ) : Prop := Relation.ReflTransGen game.Succeeds s s'

/-- No play from a state has more than `n` moves. -/
def EndsWithin (game : Game σ μ α) : Nat → σ → Prop
  | 0, s => ∀ s', ¬game.Succeeds s s'
  | n + 1, s => ∀ s', game.Succeeds s s' → game.EndsWithin n s'

theorem EndsWithin.mono (h : game.EndsWithin m s) (hmn : m ≤ n) : game.EndsWithin n s := by
  induction n generalizing m s with
  | zero =>
    obtain rfl : m = 0 := Nat.le_zero.1 hmn
    exact h
  | succ n ih =>
    intro s' hs'
    cases m with
    | zero => exact absurd hs' (h s')
    | succ m => exact ih (h s' hs') (Nat.le_of_succ_le_succ hmn)

theorem EndsWithin.after (h : game.EndsWithin n s) (hs : game.Succeeds s s') :
    ∃ k, n = k + 1 ∧ game.EndsWithin k s' := by
  cases n with
  | zero => exact absurd hs (h s')
  | succ k => exact ⟨k, rfl, h s' hs⟩

theorem endsWithin_of_rank (rank : σ → Nat)
    (hfalls : ∀ t t', game.Reaches s t → game.Succeeds t t' → rank t' < rank t)
    (hn : rank s ≤ n) : game.EndsWithin n s := by
  induction n generalizing s with
  | zero =>
    intro s' hs'
    have := hfalls s s' .refl hs'
    omega
  | succ n ih =>
    intro s' hs'
    have hlt := hfalls s s' .refl hs'
    exact ih (fun t t' ht => hfalls t t' (.head hs' ht)) (by omega)

theorem EndsWithin.acc (h : game.EndsWithin n s) : Acc (fun s' s => game.Succeeds s s') s := by
  induction n generalizing s with
  | zero => exact ⟨s, fun s' hs' => absurd hs' (h s')⟩
  | succ n ih => exact ⟨s, fun s' hs' => ih (h s' hs')⟩

/-! ## Finitely many moves -/

theorem finite_legalFor (game : Game σ μ α) (s : σ) (agents : List α) :
    {joint | game.LegalFor s agents joint}.Finite := by
  induction agents with
  | nil =>
    refine (Set.finite_singleton []).subset fun joint h => ?_
    cases h
    rfl
  | cons a agents ih =>
    have hmoves : {m | ∃ moves, game.legalMoves s a = .ok moves ∧ m ∈ moves}.Finite := by
      cases hm : game.legalMoves s a with
      | error e => exact Set.finite_empty.subset fun _ ⟨_, h, _⟩ => nomatch h
      | ok moves =>
        refine moves.finite_toSet.subset fun m ⟨moves', h, hmem⟩ => ?_
        cases h
        exact hmem
    refine (Set.Finite.image2 List.cons hmoves ih).subset fun joint h => ?_
    cases h with
    | cons hm hrest => exact ⟨_, hm, _, hrest, rfl⟩

theorem finite_succeeds (game : Game σ μ α) (s : σ) : {s' | game.Succeeds s s'}.Finite := by
  have hnext := (game.finite_legalFor s game.agents).image (game.next s)
  have hinj : Set.InjOn (Except.ok : σ → Except RuleError σ)
      (Set.preimage Except.ok (game.next s '' {joint | game.LegalFor s game.agents joint})) :=
    fun _ _ _ _ h => Except.ok.inj h
  refine (hnext.preimage hinj).subset fun s' hs' => ?_
  obtain ⟨-, joint, hjoint, hs'⟩ := hs'
  exact ⟨joint, hjoint, hs'⟩

theorem exists_endsWithin (h : Acc (fun s' s => game.Succeeds s s') s) :
    ∃ n, game.EndsWithin n s := by
  induction h with
  | intro s _ ih =>
    choose! length hlength using ih
    obtain ⟨n, hn⟩ := ((game.finite_succeeds s).image length).bddAbove
    exact ⟨n + 1, fun s' hs' => (hlength s' hs').mono (hn ⟨s', hs', rfl⟩)⟩

/-! ## Rules without gaps -/

/-- The rules answer every question about a state, for each of the agents. All joint moves that
they tell of consist of legal moves, and all those lead on. -/
structure CompleteAt (game : Game σ μ α) (s : σ) : Prop where
  goal : game.terminal s = true → ∀ a ∈ game.agents, ∃ v, game.goal s a = .ok v
  moves : game.terminal s = false → ∀ a ∈ game.agents, ∃ moves, moves ≠ [] ∧
    game.legalMoves s a = .ok moves ∧ ∀ m ∈ moves, ∃ joints, joints ≠ [] ∧
      game.replies s a m = .ok joints ∧ ∀ joint ∈ joints, game.LegalFor s game.agents joint
  offered : game.terminal s = false → ∀ offers ∈ game.offered, ∃ joints, joints ≠ [] ∧
    offers s = .ok joints ∧ ∀ joint ∈ joints, game.LegalFor s game.agents joint
  next : game.terminal s = false → ∀ joint, game.LegalFor s game.agents joint →
    ∃ s', game.next s joint = .ok s'

theorem CompleteAt.exists_succeeds (h : game.CompleteAt s) (hs : game.terminal s = false) {a : α}
    (ha : a ∈ game.agents) : ∃ s', game.Succeeds s s' := by
  obtain ⟨moves, hne, -, hmoves⟩ := h.moves hs a ha
  obtain ⟨m, hm⟩ := List.exists_mem_of_ne_nil moves hne
  obtain ⟨joints, hne, -, hjoints⟩ := hmoves m hm
  obtain ⟨joint, hjoint⟩ := List.exists_mem_of_ne_nil joints hne
  obtain ⟨s', hs'⟩ := h.next hs joint (hjoints joint hjoint)
  exact ⟨s', hs, joint, hjoints joint hjoint, hs'⟩

/-- The rules answer every question that can come up in a play. -/
def Complete (game : Game σ μ α) (s : σ) : Prop := ∀ s', game.Reaches s s' → game.CompleteAt s'

theorem Complete.here (h : game.Complete s) : game.CompleteAt s := h s .refl

theorem Complete.after (h : game.Complete s) (hs : game.Succeeds s s') : game.Complete s' :=
  fun t ht => h t (.head hs ht)

theorem Complete.moves_on (h : game.Complete s) (hn : game.EndsWithin n s)
    (hs : game.terminal s = false) {a : α} (ha : a ∈ game.agents) :
    ∃ k moves, n = k + 1 ∧ moves ≠ [] ∧ game.legalMoves s a = .ok moves ∧
      ∀ m ∈ moves, ∃ joints, joints ≠ [] ∧ game.replies s a m = .ok joints ∧
        ∀ joint ∈ joints, ∃ s', game.next s joint = .ok s' ∧ game.Complete s' ∧
          game.EndsWithin k s' := by
  obtain ⟨s', hs'⟩ := h.here.exists_succeeds hs ha
  obtain ⟨k, rfl, -⟩ := hn.after hs'
  obtain ⟨moves, hne, hmoves, hreplies⟩ := h.here.moves hs a ha
  refine ⟨k, moves, rfl, hne, hmoves, fun m hm => ?_⟩
  obtain ⟨joints, hne, hjoints, hlegal⟩ := hreplies m hm
  refine ⟨joints, hne, hjoints, fun joint hjoint => ?_⟩
  obtain ⟨s', hnext⟩ := h.here.next hs joint (hlegal joint hjoint)
  have hs' : game.Succeeds s s' := ⟨hs, joint, hlegal joint hjoint, hnext⟩
  exact ⟨s', hnext, h.after hs', hn s' hs'⟩

/-! ## Random plays -/

section

variable {γ : Type} [RandomSource γ]

theorem drawEach_answers {agents : List α}
    (h : ∀ a ∈ agents, ∃ moves, moves ≠ [] ∧ game.legalMoves s a = .ok moves) (g : γ) :
    ∃ joint g', game.drawEach s agents g = (.ok joint, g') := by
  induction agents generalizing g with
  | nil => exact ⟨[], g, rfl⟩
  | cons a rest ih =>
    obtain ⟨moves, hne, hmoves⟩ := h a List.mem_cons_self
    obtain ⟨m, g₁, hchoice⟩ := RandomSource.exists_choose hne g
    obtain ⟨joint, g', hrest⟩ := ih (fun a ha => h a (List.mem_cons_of_mem _ ha)) g₁
    exact ⟨m :: joint, g', by simp only [drawEach, hmoves, hchoice, hrest]⟩

theorem CompleteAt.drawJoint (h : game.CompleteAt s) (hs : game.terminal s = false) (g : γ) :
    ∃ joint g', game.drawJoint s g = (.ok joint, g') ∧ game.LegalFor s game.agents joint := by
  cases hoffered : game.offered with
  | none =>
    have hmoves : ∀ a ∈ game.agents, ∃ moves, moves ≠ [] ∧ game.legalMoves s a = .ok moves :=
      fun a ha => by
        obtain ⟨moves, hne, hmoves, -⟩ := h.moves hs a ha
        exact ⟨moves, hne, hmoves⟩
    obtain ⟨joint, g', hdraw⟩ := drawEach_answers hmoves g
    exact ⟨joint, g', by simp only [Game.drawJoint, hoffered, hdraw], drawEach_ok hdraw⟩
  | some offers =>
    obtain ⟨joints, hne, hjoints, hlegal⟩ := h.offered hs offers hoffered
    obtain ⟨joint, g', hchoice⟩ := RandomSource.exists_choose hne g
    exact ⟨joint, g', by simp only [Game.drawJoint, hoffered, hjoints, hchoice],
      hlegal joint (RandomSource.choose_mem hchoice)⟩

theorem playoutFrom_answers {a : α} (ha : a ∈ game.agents) (h : game.Complete s)
    (hn : game.EndsWithin n s) (hbound : n ≤ bound) (depth : UInt32) (moves : Nat) (g : γ) :
    ∃ play g', game.playoutFrom a bound s depth moves g = (.ok play, g') := by
  induction n using Nat.strongRecOn generalizing s bound depth moves g with
  | ind n ih =>
    cases hs : game.terminal s with
    | true =>
      obtain ⟨v, hv⟩ := h.here.goal hs a ha
      exact ⟨⟨v, depth, moves⟩, g, playoutFrom_terminal hs hv bound depth moves g⟩
    | false =>
      obtain ⟨joint, g₁, hdraw, hlegal⟩ := h.here.drawJoint hs g
      obtain ⟨s', hnext⟩ := h.here.next hs joint hlegal
      have hs' : game.Succeeds s s' := ⟨hs, joint, hlegal, hnext⟩
      obtain ⟨k, rfl, hk⟩ := hn.after hs'
      obtain ⟨bound, rfl⟩ : ∃ b, bound = b + 1 := ⟨bound - 1, by omega⟩
      obtain ⟨play, g', hplay⟩ := ih k (Nat.lt_succ_self k) (h.after hs') hk
        (Nat.le_of_succ_le_succ hbound) (depth + 1) (moves + 1) g₁
      exact ⟨play, g', (playoutFrom_step hs hdraw hnext a bound depth moves).trans hplay⟩

end

end Game

end GameSearch
