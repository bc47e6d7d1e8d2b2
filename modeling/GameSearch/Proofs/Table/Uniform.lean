import GameSearch.Proofs.Minimax.Duality
import GameSearch.Table.Uniform
import Mathlib.Logic.Function.Iterate

/-!
# GameSearch.Proofs.Table.Uniform

Uniform trees level by level. A name has one dot for each level above it (`dots_of_mem_level`), so
no state of an upper level is a leaf. Upper states have their edges (`edgesFrom_uniform`), the
states below the last level are the terminal ones (`isTerminal_uniform`) and have goals
(`goals_uniform`). For two agents each state is a duel for 100 (`duel_uniform`).
-/

namespace GameSearch.Table

variable {joints : List (JointMove String)} {level : List String} {s s' : String}
  {agents branching depth k n : Nat}

/-! ## Names -/

def dots (s : String) : Nat := s.toList.count '.'

theorem dots_childName (s : String) (i : Nat) : dots (childName s i) = dots s + 1 := by
  have hdigits : (Nat.toDigits 10 i).count '.' = 0 := by
    refine List.count_eq_zero.2 fun h => ?_
    have hdot := Nat.isDigit_of_mem_toDigits (by decide) (by decide) h
    revert hdot
    decide
  have hdot : (".").toList.count '.' = 1 := by decide
  simp only [dots, childName, String.toList_append, List.count_append, Nat.toString_eq_repr,
    Nat.toList_repr, hdigits, hdot, Nat.add_zero]

theorem dots_of_mem_level (hlevel : ∀ s ∈ level, dots s = n)
    (hs : s ∈ (nextLevel joints)^[k] level) : dots s = n + k := by
  induction k generalizing s with
  | zero => exact hlevel s hs
  | succ k ih =>
    rw [Function.iterate_succ_apply'] at hs
    simp only [nextLevel, uniformEdges, List.mem_flatMap, List.map_map, List.mem_map] at hs
    obtain ⟨above, habove, ⟨joint, i⟩, -, rfl⟩ := hs
    rw [Function.comp_apply, dots_childName, ih habove, Nat.add_assoc]

/-! ## Edges -/

theorem getElem?_addLevel (joints : List (JointMove String)) (level : List String)
    (m : Std.TreeMap String (List Edge)) (s : String) :
    (addLevel joints level m)[s]? = if s ∈ level then some (uniformEdges joints s) else m[s]? := by
  induction level generalizing m with
  | nil => simp [addLevel]
  | cons first rest ih =>
    have hrest : addLevel joints (first :: rest) m =
      addLevel joints rest (m.insert first (uniformEdges joints first)) := rfl
    rw [hrest, ih, Std.TreeMap.getElem?_insert]
    by_cases hs : first = s
    · subst hs
      simp
    · simp [hs, Ne.symm hs]

theorem growLevels_fst (joints : List (JointMove String)) (depth : Nat) (level : List String)
    (m : Std.TreeMap String (List Edge)) :
    (growLevels joints depth level m).1 = (nextLevel joints)^[depth] level := by
  induction depth generalizing level m with
  | zero => rfl
  | succ depth ih => rw [growLevels, ih, Function.iterate_succ_apply]

theorem getElem?_growLevels {m : Std.TreeMap String (List Edge)}
    (h : m[s]? = some (uniformEdges joints s) ∨ ∃ k < depth, s ∈ (nextLevel joints)^[k] level) :
    (growLevels joints depth level m).2[s]? = some (uniformEdges joints s) := by
  induction depth generalizing level m with
  | zero =>
    rcases h with h | ⟨k, hk, -⟩
    · exact h
    · exact absurd hk (Nat.not_lt_zero k)
  | succ depth ih =>
    refine ih ?_
    rw [getElem?_addLevel]
    rcases h with h | ⟨k, hk, hs⟩
    · exact .inl (by rw [h, ite_self])
    · cases k with
      | zero => exact .inl (if_pos hs)
      | succ k =>
        rw [Function.iterate_succ_apply] at hs
        exact .inr ⟨k, Nat.lt_of_succ_lt_succ hk, hs⟩

/-! ## Goals -/

section

variable {γ : Type} [RandomSource γ]

theorem getElem?_drawGoals {leaves : List String} {m : Std.TreeMap String (List Int32)} (g : γ)
    (h : s ∈ leaves ∨ ∃ v < 101, m[s]? = some (complementGoals agents (Int32.ofNat v))) :
    ∃ v < 101, (drawGoals agents leaves m g).1[s]? =
      some (complementGoals agents (Int32.ofNat v)) := by
  induction leaves generalizing m g with
  | nil => exact h.resolve_left List.not_mem_nil
  | cons first rest ih =>
    refine ih _ ?_
    by_cases hs : first = s
    · subst hs
      exact .inr ⟨_, RandomSource.below_lt 101 g (by decide), Std.TreeMap.getElem?_insert_self⟩
    · rw [Std.TreeMap.getElem?_insert, if_neg (by simpa using hs)]
      exact h.imp_left fun h => (List.mem_cons.1 h).resolve_left (Ne.symm hs)

/-! ## The tree -/

def uniformMoves (branching : Nat) : List String :=
  (List.range (max branching 1)).map fun i => "m" ++ toString i

/-- The joint moves in every state of a uniform tree. -/
def uniformJoints (agents branching : Nat) : List (JointMove String) :=
  combinations (uniformMoves branching) (max agents 1)

/-- The states at a depth of a uniform tree. -/
def uniformLevel (agents branching k : Nat) : List String :=
  (nextLevel (uniformJoints agents branching))^[k] ["r"]

variable (g : γ)

theorem edgesFrom_uniform (hs : s ∈ uniformLevel agents branching k) (hk : k < depth) :
    (uniform g agents branching depth).edgesFrom s =
      uniformEdges (uniformJoints agents branching) s := by
  have h := getElem?_growLevels (m := ∅) (.inr ⟨k, hk, hs⟩)
  rw [edgesFrom, Std.TreeMap.getD_eq_getD_getElem?]
  simp only [uniform, List.length_map, List.length_range]
  exact congrArg (Option.getD · []) h

theorem isTerminal_uniform :
    (uniform g agents branching depth).isTerminal s = true ↔
      s ∈ uniformLevel agents branching depth := by
  simp only [uniform, isTerminal, Std.TreeSet.contains_ofList, growLevels_fst, List.length_map,
    List.length_range, List.contains_iff_mem]
  rfl

theorem goals_uniform (hs : s ∈ uniformLevel agents branching depth) :
    ∃ v < 101, (uniform g agents branching depth).goals[s]? =
      some (complementGoals (max agents 1) (Int32.ofNat v)) := by
  simp only [uniform, growLevels_fst, List.length_map, List.length_range]
  exact getElem?_drawGoals g (.inl hs)

theorem not_terminal_uniform (hs : s ∈ uniformLevel agents branching k) (hk : k < depth) :
    (uniform g agents branching depth).isTerminal s = false := by
  refine Bool.eq_false_iff.2 fun h => ?_
  have hroot : ∀ s ∈ ["r"], dots s = 0 := by decide
  have hk' := dots_of_mem_level hroot hs
  have hdepth := dots_of_mem_level hroot ((isTerminal_uniform g).1 h)
  omega

theorem lt_of_not_terminal (hs : s ∈ uniformLevel agents branching k) (hk : k ≤ depth)
    (h : (uniform g agents branching depth).isTerminal s = false) : k < depth := by
  refine Nat.lt_of_le_of_ne hk fun heq => ?_
  subst heq
  exact Bool.false_ne_true (h.symm.trans ((isTerminal_uniform g).2 hs))

theorem target_mem_uniformLevel (hs : s ∈ uniformLevel agents branching k) {e : Edge}
    (he : e ∈ uniformEdges (uniformJoints agents branching) s) :
    e.target ∈ uniformLevel agents branching (k + 1) := by
  rw [uniformLevel, Function.iterate_succ_apply', nextLevel]
  exact List.mem_flatMap.2 ⟨s, hs, List.mem_map_of_mem he⟩

theorem jointMoves_uniform (hs : s ∈ uniformLevel agents branching k) (hk : k < depth) :
    (uniform g agents branching depth).jointMoves s = uniformJoints agents branching := by
  rw [jointMoves, edgesFrom_uniform g hs hk, uniformEdges, List.map_map]
  exact List.zipIdx_map_fst 0 _

theorem next_uniform (hs : s ∈ uniformLevel agents branching k) (hk : k < depth)
    {joint : JointMove String} :
    (joint ∈ uniformJoints agents branching →
      ∃ s', (uniform g agents branching depth).next s joint = .ok s') ∧
    ∀ s', (uniform g agents branching depth).next s joint = .ok s' →
      s' ∈ uniformLevel agents branching (k + 1) := by
  have hjoints := jointMoves_uniform g hs hk
  have hedges := edgesFrom_uniform g hs hk
  unfold next
  constructor
  · intro hjoint
    rw [← hjoints, jointMoves, List.mem_map] at hjoint
    obtain ⟨e, he, rfl⟩ := hjoint
    split
    · exact ⟨_, rfl⟩
    · rename_i hnone
      exact absurd (beq_self_eq_true e.joint) (List.find?_eq_none.1 hnone e he)
  · intro s' hs'
    split at hs'
    · rename_i e he
      cases hs'
      exact target_mem_uniformLevel hs (hedges ▸ List.mem_of_find?_eq_some he)
    · cases hs'

/-! ## Plays -/

theorem root_mem_uniformLevel : "r" ∈ uniformLevel agents branching 0 := List.mem_singleton.2 rfl

theorem succeeds_uniform (hs : s ∈ uniformLevel agents branching k) (hk : k ≤ depth)
    (h : (uniform g agents branching depth).game.Succeeds s s') :
    k < depth ∧ s' ∈ uniformLevel agents branching (k + 1) := by
  obtain ⟨hterminal, joint, -, hnext⟩ := h
  have hk := lt_of_not_terminal g hs hk hterminal
  exact ⟨hk, (next_uniform g hs hk).2 s' hnext⟩

theorem exists_level_of_reaches
    (h : (uniform g agents branching depth).game.Reaches "r" s) :
    ∃ k ≤ depth, s ∈ uniformLevel agents branching k := by
  induction h with
  | refl => exact ⟨0, Nat.zero_le _, root_mem_uniformLevel⟩
  | tail _ hlast ih =>
    obtain ⟨k, hk, hs⟩ := ih
    obtain ⟨hlt, hs'⟩ := succeeds_uniform g hs hk hlast
    exact ⟨k + 1, hlt, hs'⟩

theorem endsWithin_uniform (hs : s ∈ uniformLevel agents branching k) (hk : k ≤ depth)
    (hn : depth ≤ n + k) : (uniform g agents branching depth).game.EndsWithin n s := by
  induction n generalizing s k with
  | zero =>
    intro s' hs'
    have hlt := (succeeds_uniform g hs hk hs').1
    omega
  | succ n ih =>
    intro s' hs'
    obtain ⟨hlt, hs'⟩ := succeeds_uniform g hs hk hs'
    exact ih hs' hlt (by omega)

/-! ## Two agents -/

theorem uniformMoves_ne_nil (branching : Nat) : uniformMoves branching ≠ [] := by
  simp [uniformMoves]

theorem mem_uniformJoints_two {joint : JointMove String} :
    joint ∈ uniformJoints 2 branching ↔
      ∃ m ∈ uniformMoves branching, ∃ n ∈ uniformMoves branching, joint = [m, n] := by
  have hjoints : uniformJoints 2 branching = (uniformMoves branching).flatMap fun m =>
    ((uniformMoves branching).flatMap fun n => [[n]]).map (m :: ·) := rfl
  simp [hjoints, eq_comm]

theorem mem_legalMoves_two {i : Nat} (hi : i < 2) {m : String} :
    m ∈ ((uniformJoints 2 branching).filterMap (·[i]?)).eraseDups ↔ m ∈ uniformMoves branching := by
  obtain ⟨n, hn⟩ := List.exists_mem_of_ne_nil _ (uniformMoves_ne_nil branching)
  simp only [List.mem_eraseDups, List.mem_filterMap, mem_uniformJoints_two]
  constructor
  · rintro ⟨_, ⟨m₀, h₀, m₁, h₁, rfl⟩, hm⟩
    match i, hi with
    | 0, _ => cases hm; exact h₀
    | 1, _ => cases hm; exact h₁
  · intro hm
    match i, hi with
    | 0, _ => exact ⟨_, ⟨m, hm, n, hn, rfl⟩, rfl⟩
    | 1, _ => exact ⟨_, ⟨n, hn, m, hm, rfl⟩, rfl⟩

theorem mem_replies_zero {m : String} (hm : m ∈ uniformMoves branching) {joint : JointMove String} :
    joint ∈ (uniformJoints 2 branching).filter (fun joint => joint[0]? == some m) ↔
      ∃ n ∈ ((uniformJoints 2 branching).filterMap (·[1]?)).eraseDups, joint = [m, n] := by
  simp only [List.mem_filter, mem_uniformJoints_two, mem_legalMoves_two Nat.one_lt_two]
  constructor
  · rintro ⟨⟨m', -, n, hn, rfl⟩, h⟩
    obtain rfl : m' = m := by simpa using h
    exact ⟨n, hn, rfl⟩
  · rintro ⟨n, hn, rfl⟩
    exact ⟨⟨m, hm, n, hn, rfl⟩, by simp⟩

theorem mem_replies_one {n : String} (hn : n ∈ uniformMoves branching) {joint : JointMove String} :
    joint ∈ (uniformJoints 2 branching).filter (fun joint => joint[1]? == some n) ↔
      ∃ m ∈ ((uniformJoints 2 branching).filterMap (·[0]?)).eraseDups, joint = [m, n] := by
  simp only [List.mem_filter, mem_uniformJoints_two, mem_legalMoves_two Nat.two_pos]
  constructor
  · rintro ⟨⟨m, hm, n', -, rfl⟩, h⟩
    obtain rfl : n' = n := by simpa using h
    exact ⟨m, hm, rfl⟩
  · rintro ⟨m, hm, rfl⟩
    exact ⟨⟨m, hm, n, hn, rfl⟩, by simp⟩

theorem agents_uniform_two : (uniform g 2 branching depth).agents = ["agent0", "agent1"] := by
  simp only [uniform]
  decide

theorem agentIndex_uniform_zero : (uniform g 2 branching depth).agentIndex "agent0" = .ok 0 := by
  rw [agentIndex, agents_uniform_two]
  rfl

theorem agentIndex_uniform_one : (uniform g 2 branching depth).agentIndex "agent1" = .ok 1 := by
  rw [agentIndex, agents_uniform_two]
  rfl

theorem complementGoals_two {v : Nat} (hv : v < 101) :
    (Int32.ofNat v).toInt + (100 - Int32.ofNat v).toInt = 100 := by
  rw [Int32.toInt_sub, Int32.toInt_ofNat_of_lt (by omega)]
  have h : (100 : Int32).toInt = 100 := by decide
  rw [h, Int.bmod_eq_of_le (by omega) (by omega)]
  omega

open Minimax in
/-- Every state of the tree for two agents is a duel for 100. -/
theorem duel_uniform (hs : s ∈ uniformLevel 2 branching k) (hk : k ≤ depth) :
    Duel (uniform g 2 branching depth).game "agent0" "agent1" 100 s where
  goals hterminal := by
    obtain ⟨v, hv, hgoals⟩ := goals_uniform g ((isTerminal_uniform g).1 hterminal)
    refine ⟨Int32.ofNat v, 100 - Int32.ofNat v, ?_, ?_, complementGoals_two hv⟩
    · simp only [game, goal, agentIndex_uniform_zero, hgoals]
      rfl
    · simp only [game, goal, agentIndex_uniform_one, hgoals]
      rfl
  moves hterminal := by
    have hk := lt_of_not_terminal g hs hk hterminal
    have hjoints := jointMoves_uniform g hs hk
    obtain ⟨m, hm⟩ := List.exists_mem_of_ne_nil _ (uniformMoves_ne_nil branching)
    refine ⟨((uniformJoints 2 branching).filterMap (·[0]?)).eraseDups,
      ((uniformJoints 2 branching).filterMap (·[1]?)).eraseDups, ?_⟩
    exact {
      left_moves := by simp only [game, legalMoves, agentIndex_uniform_zero, hjoints]
      right_moves := by simp only [game, legalMoves, agentIndex_uniform_one, hjoints]
      left_nonempty := List.ne_nil_of_mem ((mem_legalMoves_two (by decide)).2 hm)
      right_nonempty := List.ne_nil_of_mem ((mem_legalMoves_two (by decide)).2 hm)
      left_replies := fun m hm => by
        refine ⟨(uniformJoints 2 branching).filter fun joint => joint[0]? == some m, ?_, ?_⟩
        · simp only [game, replies, agentIndex_uniform_zero, hjoints]
        · exact fun joint => mem_replies_zero ((mem_legalMoves_two (by decide)).1 hm)
      right_replies := fun n hn => by
        refine ⟨(uniformJoints 2 branching).filter fun joint => joint[1]? == some n, ?_, ?_⟩
        · simp only [game, replies, agentIndex_uniform_one, hjoints]
        · exact fun joint => mem_replies_one ((mem_legalMoves_two (by decide)).1 hn)
      next_ok := fun m hm n hn => (next_uniform g hs hk).1 <| mem_uniformJoints_two.2
        ⟨m, (mem_legalMoves_two (by decide)).1 hm, n, (mem_legalMoves_two (by decide)).1 hn, rfl⟩ }

end

end GameSearch.Table
