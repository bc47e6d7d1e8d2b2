import GameSearch.Proofs.Table.Consistency

/-!
# GameSearch.Proofs.Table.FullTree

Uniform trees are full trees. In each state that joint moves lead to, short of the last level, all
combinations of moves are listed in the order of the numbers they spell (`combinations_eq`). A name
tells the state above it and the joint move in between (`childName_inj`), so no two sequences of
joint moves lead to the same state (`follow_inj`), and the states of a level are as many as the
sequences of that length. The last level is terminal, and random plays end there.

* `fullTree_uniform`: all of this holds of every uniform tree.
-/

namespace GameSearch.Table

/-! ## Combinations -/

/-- The joint move of `n` entries that spells the number `i` with `b` digits, the highest one
first. -/
def spelled (b n i : Nat) : JointMove String :=
  (List.range n).map fun j => "m" ++ toString (i / b ^ (n - 1 - j) % b)

/-- All joint moves of `n` agents with `b` moves each, the first agent's move varying slowest. -/
structure AllCombinations (b n : Nat) (joints : List (JointMove String)) : Prop where
  length : joints.length = b ^ n
  nodup : joints.Nodup
  mem_iff : ∀ joint, joint ∈ joints ↔
    joint.length = n ∧ ∀ m ∈ joint, ∃ i < b, m = "m" ++ toString i
  order : ∀ i < b ^ n, joints[i]? = some (spelled b n i)

theorem range_mul (a b : Nat) :
    List.range (a * b) = (List.range a).flatMap fun q => (List.range b).map (q * b + ·) := by
  induction a with
  | zero => simp
  | succ a ih => simp [Nat.succ_mul, List.range_add, List.range_succ, ih]

theorem mod_pow_div_pow_mod (b i : Nat) {k n : Nat} (h : k < n) :
    i % b ^ n / b ^ k % b = i / b ^ k % b := by
  obtain ⟨c, rfl⟩ := Nat.exists_eq_add_of_lt h
  have hpow : b ^ (k + c + 1) = b ^ k * (b * b ^ c) := by
    rw [Nat.add_assoc, Nat.pow_add, Nat.pow_succ']
  rw [hpow, Nat.mod_mul_right_div_self, Nat.mod_mod_of_dvd _ (Nat.dvd_mul_right b _)]

theorem spelled_succ {b n q r : Nat} (hq : q < b) (hr : r < b ^ n) :
    spelled b (n + 1) (q * b ^ n + r) = ("m" ++ toString q) :: spelled b n r := by
  have hpos : 0 < b ^ n := Nat.zero_lt_of_lt hr
  have hhigh : (q * b ^ n + r) / b ^ n = q := by
    rw [Nat.mul_comm, Nat.mul_add_div hpos, Nat.div_eq_of_lt hr, Nat.add_zero]
  have hlow : (q * b ^ n + r) % b ^ n = r := by
    rw [Nat.mul_comm, Nat.mul_add_mod, Nat.mod_eq_of_lt hr]
  rw [spelled, List.range_succ_eq_map, List.map_cons, List.map_map]
  congr 1
  · rw [Nat.sub_zero, Nat.add_sub_cancel, hhigh, Nat.mod_eq_of_lt hq]
  · refine List.map_congr_left fun j hj => ?_
    have hj : j < n := List.mem_range.1 hj
    have hplace : n + 1 - 1 - (j + 1) = n - 1 - j := by omega
    rw [Function.comp_apply, hplace, ← mod_pow_div_pow_mod b _ (k := n - 1 - j) (n := n) (by omega),
      hlow]

theorem combinations_eq (b n : Nat) :
    combinations ((List.range b).map fun i => "m" ++ toString i) n =
      (List.range (b ^ n)).map (spelled b n) := by
  induction n with
  | zero => simp [combinations, spelled]
  | succ n ih =>
    rw [combinations, ih, Nat.pow_succ', range_mul, List.flatMap_map, List.map_flatMap]
    refine List.flatMap_congr fun q hq => ?_
    rw [List.map_map, List.map_map]
    refine List.map_congr_left fun r hr => ?_
    exact (spelled_succ (List.mem_range.1 hq) (List.mem_range.1 hr)).symm

theorem allCombinations (b n : Nat) :
    AllCombinations b n (combinations ((List.range b).map fun i => "m" ++ toString i) n) where
  length := by rw [combinations_eq, List.length_map, List.length_range]
  nodup := nodup_combinations (nodup_numbered "m" b) n
  mem_iff joint := by
    rw [mem_combinations]
    refine and_congr_right fun _ => forall₂_congr fun m _ => ?_
    simp only [List.mem_map, List.mem_range]
    exact exists_congr fun i => and_congr_right fun _ => eq_comm
  order i hi := by rw [combinations_eq, List.getElem?_map, List.getElem?_range hi, Option.map_some]

/-! ## Names -/

theorem dot_not_mem_toDigits (i : Nat) : '.' ∉ Nat.toDigits 10 i := by
  intro h
  have hdigit := Nat.isDigit_of_mem_toDigits (by decide) (by decide) h
  revert hdigit
  decide

theorem append_cons_inj {α : Type} {c : α} {xs ys xs' ys' : List α} (hy : c ∉ ys) (hy' : c ∉ ys')
    (h : xs ++ c :: ys = xs' ++ c :: ys') : xs = xs' ∧ ys = ys' := by
  rcases List.append_eq_append_iff.1 h with ⟨zs, rfl, hzs⟩ | ⟨zs, rfl, hzs⟩
  · cases zs with
    | nil =>
      cases hzs
      exact ⟨(List.append_nil _).symm, rfl⟩
    | cons z zs =>
      cases hzs
      exact absurd (List.mem_append_right _ List.mem_cons_self) hy
  · cases zs with
    | nil =>
      cases hzs
      exact ⟨List.append_nil _, rfl⟩
    | cons z zs =>
      cases hzs
      exact absurd (List.mem_append_right _ List.mem_cons_self) hy'

theorem childName_inj {s s' : String} {i i' : Nat} (h : childName s i = childName s' i') :
    s = s' ∧ i = i' := by
  have hlist := congrArg String.toList h
  have hdot : (".").toList = ['.'] := by decide
  simp only [childName, String.toList_append, Nat.toString_eq_repr, Nat.toList_repr, hdot,
    List.append_assoc, List.singleton_append] at hlist
  obtain ⟨hs, hi⟩ := append_cons_inj (dot_not_mem_toDigits i) (dot_not_mem_toDigits i') hlist
  refine ⟨String.toList_inj.1 hs, Nat.repr_inj.1 (String.toList_inj.1 ?_)⟩
  rw [Nat.toList_repr, Nat.toList_repr, hi]

section

variable {joints : List (JointMove String)} {level : List String}

theorem targets_uniformEdges (joints : List (JointMove String)) (s : String) :
    (uniformEdges joints s).map Edge.target = (List.range joints.length).map (childName s) := by
  rw [uniformEdges, List.map_map, List.range_eq_range', ← List.zipIdx_map_snd 0 joints,
    List.map_map]
  rfl

theorem length_nextLevel (joints : List (JointMove String)) (level : List String) :
    (nextLevel joints level).length = level.length * joints.length := by
  simp [nextLevel, targets_uniformEdges, List.length_flatMap, List.map_const']

theorem nodup_nextLevel (h : level.Nodup) : (nextLevel joints level).Nodup := by
  refine List.nodup_flatMap.2 ⟨fun s _ => ?_, h.imp fun hne => ?_⟩
  · rw [targets_uniformEdges]
    exact List.nodup_range.map fun i i' hname => (childName_inj hname).2
  · intro name hs hs'
    simp only [targets_uniformEdges] at hs hs'
    obtain ⟨i, -, rfl⟩ := List.mem_map.1 hs
    obtain ⟨i', -, hname⟩ := List.mem_map.1 hs'
    exact hne (childName_inj hname).1.symm

end

/-! ## The tree -/

/-- A tree for `agents` agents with `branching` moves each, cut off at `depth`. -/
structure FullTree (t : Table) (agents branching depth : Nat) : Prop where
  agents_length : t.agents.length = agents
  agents_nodup : t.agents.Nodup
  joints : ∀ path s, t.game.follow t.initial path = .ok s → t.isTerminal s = false →
    AllCombinations branching agents (t.jointMoves s)
  next : ∀ path s, t.game.follow t.initial path = .ok s → t.isTerminal s = false →
    ∀ joint, (∃ s', t.next s joint = .ok s') ↔ joint ∈ t.jointMoves s
  unique : ∀ path path' s, t.game.follow t.initial path = .ok s →
    t.game.follow t.initial path' = .ok s → path = path'
  terminal : ∀ path s, t.game.follow t.initial path = .ok s →
    path.length ≤ depth ∧ (t.isTerminal s = true ↔ path.length = depth)
  terminal_size : t.terminals.size = (branching ^ agents) ^ depth
  terminal_reached : ∀ s, t.isTerminal s = true → ∃ path, t.game.follow t.initial path = .ok s
  terminal_edges : ∀ s, t.isTerminal s = true → t.edgesFrom s = []
  goals : ∀ s, t.isTerminal s = true → ∃ v : Int, 0 ≤ v ∧ v ≤ 100 ∧
    ∀ i a, t.agents[i]? = some a →
      ∃ w, t.goal s a = .ok w ∧ w.toInt = if i = 0 then v else 100 - v
  playout : ∀ {γ : Type} [RandomSource γ] (g : γ) path s a bound,
    t.game.follow t.initial path = .ok s → a ∈ t.agents → depth ≤ path.length + bound →
      ∃ v g', t.game.playout bound s a g =
        (.ok ⟨v, .ofNat (depth - path.length), depth - path.length⟩, g')

section

variable {γ : Type} [RandomSource γ] (g : γ) {agents branching depth k n : Nat} {s s' u : String}
  {path path' : List (JointMove String)} {joint : JointMove String}

theorem nodup_agents_uniform : (uniform g agents branching depth).agents.Nodup :=
  nodup_numbered "agent" _

/-! ### Levels -/

theorem length_uniformLevel (agents branching k : Nat) :
    (uniformLevel agents branching k).length =
      (max branching 1 ^ max agents 1) ^ k := by
  induction k with
  | zero => rfl
  | succ k ih =>
    have hjoints : (uniformJoints agents branching).length = max branching 1 ^ max agents 1 :=
      (allCombinations _ _).length
    rw [uniformLevel, Function.iterate_succ_apply', length_nextLevel, hjoints, Nat.pow_succ]
    exact congrArg (· * _) ih

theorem nodup_uniformLevel (agents branching k : Nat) :
    (uniformLevel agents branching k).Nodup := by
  induction k with
  | zero => exact List.nodup_singleton _
  | succ k ih =>
    rw [uniformLevel, Function.iterate_succ_apply']
    exact nodup_nextLevel ih

theorem level_unique (h : s ∈ uniformLevel agents branching k)
    (h' : s ∈ uniformLevel agents branching n) : k = n := by
  have hroot : ∀ s ∈ ["r"], dots s = 0 := by decide
  have hk := dots_of_mem_level hroot h
  have hn := dots_of_mem_level hroot h'
  omega

theorem next_uniform_eq (hs : s ∈ uniformLevel agents branching k) (hk : k < depth)
    (h : (uniform g agents branching depth).next s joint = .ok s') :
    ∃ i, (uniformJoints agents branching)[i]? = some joint ∧ s' = childName s i := by
  unfold next at h
  rw [edgesFrom_uniform g hs hk] at h
  split at h
  · rename_i e he
    cases h
    obtain ⟨⟨joint', i⟩, hi, rfl⟩ := List.mem_map.1 (List.mem_of_find?_eq_some he)
    obtain rfl : joint' = joint := by simpa using List.find?_some he
    exact ⟨i, List.mk_mem_zipIdx_iff_getElem?.1 hi, rfl⟩
  · cases h

theorem lt_of_next_uniform (hs : s ∈ uniformLevel agents branching k) (hk : k ≤ depth)
    (h : (uniform g agents branching depth).next s joint = .ok s') :
    k < depth ∧ s' ∈ uniformLevel agents branching (k + 1) := by
  have hlt : k < depth := by
    refine Nat.lt_of_le_of_ne hk ?_
    rintro rfl
    unfold next at h
    rw [(sound_uniform g agents branching k).terminal_edges s ((isTerminal_uniform g).2 hs)] at h
    cases h
  exact ⟨hlt, (next_uniform g hs hlt).2 s' h⟩

/-! ### Sequences of joint moves -/

theorem follow_level (hs : s ∈ uniformLevel agents branching k) (hk : k ≤ depth)
    (h : (uniform g agents branching depth).game.follow s path = .ok s') :
    k + path.length ≤ depth ∧ s' ∈ uniformLevel agents branching (k + path.length) := by
  induction path generalizing s k with
  | nil =>
    cases h
    exact ⟨hk, hs⟩
  | cons joint rest ih =>
    obtain ⟨s₁, hnext, hrest⟩ := Game.follow_cons.1 h
    obtain ⟨hlt, hs₁⟩ := lt_of_next_uniform g hs hk hnext
    rw [List.length_cons, Nat.add_comm rest.length, ← Nat.add_assoc]
    exact ih hs₁ hlt hrest

theorem follow_root (h : (uniform g agents branching depth).game.follow "r" path = .ok s) :
    path.length ≤ depth ∧ s ∈ uniformLevel agents branching path.length := by
  have hlevel := follow_level g root_mem_uniformLevel (Nat.zero_le depth) h
  rwa [Nat.zero_add] at hlevel

/-- Two sequences that end in the same state are the same, and so are the states they start
from. -/
theorem follow_inj (hs : s ∈ uniformLevel agents branching k)
    (hs' : s' ∈ uniformLevel agents branching k) (hk : k ≤ depth)
    (hlength : path.length = path'.length)
    (h : (uniform g agents branching depth).game.follow s path = .ok u)
    (h' : (uniform g agents branching depth).game.follow s' path' = .ok u) :
    s = s' ∧ path = path' := by
  induction path generalizing s s' k path' with
  | nil =>
    obtain rfl : path' = [] := List.length_eq_zero_iff.1 hlength.symm
    cases h
    cases h'
    exact ⟨rfl, rfl⟩
  | cons joint rest ih =>
    cases path' with
    | nil => cases hlength
    | cons joint' rest' =>
      obtain ⟨s₁, hnext, hrest⟩ := Game.follow_cons.1 h
      obtain ⟨s₁', hnext', hrest'⟩ := Game.follow_cons.1 h'
      obtain ⟨hlt, hs₁⟩ := lt_of_next_uniform g hs hk hnext
      obtain ⟨-, hs₁'⟩ := lt_of_next_uniform g hs' hk hnext'
      obtain ⟨rfl, rfl⟩ := ih hs₁ hs₁' hlt (Nat.succ.inj hlength) hrest hrest'
      obtain ⟨i, hi, hname⟩ := next_uniform_eq g hs hlt hnext
      obtain ⟨i', hi', hname'⟩ := next_uniform_eq g hs' hlt hnext'
      obtain ⟨rfl, rfl⟩ := childName_inj (hname.symm.trans hname')
      exact ⟨rfl, congrArg (· :: rest) (Option.some.inj (hi.symm.trans hi'))⟩

theorem exists_follow (hk : k ≤ depth) (hs : s ∈ uniformLevel agents branching k) :
    ∃ path, (uniform g agents branching depth).game.follow "r" path = .ok s := by
  induction k generalizing s with
  | zero =>
    obtain rfl := List.mem_singleton.1 hs
    exact ⟨[], rfl⟩
  | succ k ih =>
    rw [uniformLevel, Function.iterate_succ_apply', nextLevel, List.mem_flatMap] at hs
    obtain ⟨above, habove, hs⟩ := hs
    obtain ⟨e, he, rfl⟩ := List.mem_map.1 hs
    obtain ⟨path, hpath⟩ := ih (by omega) habove
    rw [← edgesFrom_uniform g habove hk] at he
    have hnext := (sound_uniform g agents branching depth).next_of_mem he
    refine ⟨path ++ [e.joint], Game.follow_append.2 ⟨above, hpath, ?_⟩⟩
    exact Game.follow_cons.2 ⟨_, hnext, rfl⟩

/-! ### Goals -/

theorem toInt_complement {v : Nat} (hv : v < 101) :
    (Int32.ofNat v).toInt = v ∧ (100 - Int32.ofNat v).toInt = 100 - v := by
  have hv' : (Int32.ofNat v).toInt = v := Int32.toInt_ofNat_of_lt (by omega)
  have hsum := complementGoals_two hv
  omega

theorem agentIndex_of_getElem? {t : Table} (h : t.agents.Nodup) {i : Nat} {a : String}
    (ha : t.agents[i]? = some a) : t.agentIndex a = .ok i := by
  obtain ⟨hlt, hget⟩ := List.getElem?_eq_some_iff.1 ha
  have hfirst : t.agents.idxOf? a = some i := by
    refine List.idxOf?_eq_some_iff.2 ⟨hlt, by simpa using hget, fun j hj hja => ?_⟩
    exact Nat.ne_of_lt hj (h.getElem_inj_iff.1 (hja.trans hget.symm))
  simp only [agentIndex, hfirst]

theorem goal_uniform (hs : s ∈ uniformLevel agents branching depth) :
    ∃ v : Int, 0 ≤ v ∧ v ≤ 100 ∧ ∀ i a, (uniform g agents branching depth).agents[i]? = some a →
      ∃ w, (uniform g agents branching depth).goal s a = .ok w ∧
        w.toInt = if i = 0 then v else 100 - v := by
  obtain ⟨v, hv, hgoals⟩ := goals_uniform g hs
  obtain ⟨hfirst, hothers⟩ := toInt_complement hv
  refine ⟨v, by omega, by omega, fun i a ha => ?_⟩
  have hlt := (List.getElem?_eq_some_iff.1 ha).1
  rw [length_agents_uniform] at hlt
  simp only [goal, agentIndex_of_getElem? (nodup_agents_uniform g) ha, hgoals, Option.bind_some,
    complementGoals]
  cases i with
  | zero => exact ⟨_, rfl, hfirst⟩
  | succ i =>
    have hi : i < max agents 1 - 1 := by omega
    simp only [List.getElem?_cons_succ, List.getElem?_replicate, if_pos hi]
    exact ⟨_, rfl, hothers⟩

/-! ### Random plays -/

theorem exists_drawJoint {t : Table} (h : t.jointMoves s ≠ []) :
    ∃ joint g', t.game.drawJoint s g = (.ok joint, g') ∧ joint ∈ t.jointMoves s := by
  cases hdraw : t.game.drawJoint s g with
  | mk drawn g' =>
    cases drawn with
    | error e => exact absurd ((drawJoint_error_iff g).1 ⟨e, g', hdraw⟩) h
    | ok joint => exact ⟨joint, g', rfl, drawJoint_mem hdraw⟩

theorem playoutFrom_uniform {a : String} {bound : Nat}
    (ha : a ∈ (uniform g agents branching depth).agents)
    (hs : s ∈ uniformLevel agents branching k) (hk : k + n = depth) (hbound : n ≤ bound)
    (count : UInt32) (moves : Nat) {γ' : Type} [RandomSource γ'] (g' : γ') :
    ∃ v g'', (uniform g agents branching depth).game.playoutFrom a bound s count moves g' =
      (.ok ⟨v, count + .ofNat n, moves + n⟩, g'') := by
  induction n generalizing s k bound count moves g' with
  | zero =>
    obtain rfl : k = depth := hk
    obtain ⟨v, -, -, hgoals⟩ := goal_uniform g hs
    obtain ⟨i, hi⟩ := List.mem_iff_getElem?.1 ha
    obtain ⟨w, hw, -⟩ := hgoals i a hi
    refine ⟨w, g', ?_⟩
    rw [Game.playoutFrom_terminal ((isTerminal_uniform g).2 hs) hw bound count moves g']
    simp
  | succ n ih =>
    have hlt : k < depth := by omega
    obtain ⟨bound, rfl⟩ : ∃ b, bound = b + 1 := ⟨bound - 1, by omega⟩
    have hjoints := jointMoves_uniform g hs hlt
    have hne : (uniform g agents branching depth).jointMoves s ≠ [] := by
      rw [hjoints, ← List.length_pos_iff_ne_nil]
      exact (allCombinations _ _).length ▸ Nat.pow_pos (by omega)
    obtain ⟨joint, g₁, hdraw, hjoint⟩ := exists_drawJoint g' hne
    obtain ⟨s₁, hnext⟩ := (next_uniform g hs hlt).1 (hjoints ▸ hjoint)
    obtain ⟨v, g'', hplay⟩ := ih ((next_uniform g hs hlt).2 s₁ hnext) (by omega)
      (Nat.le_of_succ_le_succ hbound) (count + 1) (moves + 1) g₁
    refine ⟨v, g'', ?_⟩
    have hcount : count + 1 + .ofNat n = count + .ofNat (n + 1) := by
      rw [Nat.add_comm n, UInt32.ofNat_add, UInt32.add_assoc]
      rfl
    rw [Game.playoutFrom_step (not_terminal_uniform g hs hlt) hdraw hnext, hplay, hcount,
      Nat.add_assoc, Nat.add_comm 1]

/-- Uniform trees are full. At least one agent and one move each are taken. -/
theorem fullTree_uniform (agents branching depth : Nat) :
    (uniform g agents branching depth).FullTree (max agents 1) (max branching 1) depth where
  agents_length := length_agents_uniform g agents branching depth
  agents_nodup := nodup_agents_uniform g
  joints path s h hs := by
    obtain ⟨hle, hlevel⟩ := follow_root g h
    rw [jointMoves_uniform g hlevel (lt_of_not_terminal g hlevel hle hs)]
    exact allCombinations _ _
  next path s h hs joint := by
    obtain ⟨hle, hlevel⟩ := follow_root g h
    have hlt := lt_of_not_terminal g hlevel hle hs
    constructor
    · rintro ⟨s', hs'⟩
      by_contra hjoint
      obtain ⟨reason, herror⟩ := next_of_not_mem hjoint
      cases herror.symm.trans hs'
    · intro hjoint
      rw [jointMoves_uniform g hlevel hlt] at hjoint
      exact (next_uniform g hlevel hlt).1 hjoint
  unique path path' s h h' := by
    have hlength := level_unique (follow_root g h).2 (follow_root g h').2
    exact (follow_inj g root_mem_uniformLevel root_mem_uniformLevel (Nat.zero_le depth) hlength
      h h').2
  terminal path s h := by
    obtain ⟨hle, hlevel⟩ := follow_root g h
    refine ⟨hle, (isTerminal_uniform g).trans ⟨fun hs => level_unique hlevel hs, ?_⟩⟩
    rintro rfl
    exact hlevel
  terminal_size := by
    have hleaves : (uniform g agents branching depth).terminals =
        .ofList (uniformLevel agents branching depth) := by
      simp only [uniform, growLevels_fst, List.length_map, List.length_range]
      rfl
    rw [hleaves, Std.TreeSet.size_ofList, length_uniformLevel]
    exact (nodup_uniformLevel agents branching depth).imp fun hne heq =>
      hne (Std.LawfulEqCmp.compare_eq_iff_eq.1 heq)
  terminal_reached s hs := exists_follow g le_rfl ((isTerminal_uniform g).1 hs)
  terminal_edges := (sound_uniform g agents branching depth).terminal_edges
  goals s hs := goal_uniform g ((isTerminal_uniform g).1 hs)
  playout g' path s a bound h ha hbound := by
    obtain ⟨hle, hlevel⟩ := follow_root g h
    have hplay := playoutFrom_uniform g ha hlevel (Nat.add_sub_cancel' hle)
      (Nat.sub_le_iff_le_add'.2 hbound) 0 0 g'
    rwa [Nat.zero_add, UInt32.zero_add] at hplay

end

end GameSearch.Table
