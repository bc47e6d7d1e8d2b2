import GameSearch.Proofs.Table.Uniform
import GameSearch.Table.Entry
import Std.Data.String.ToNat

/-!
# GameSearch.Proofs.Table.Sound

What the rules of a table rest on (`Sound`): every joint move and every row of goals has an entry
for each agent, no joint move leaves a state twice, and a terminal state has goals and no joint
moves. Tables from a list of entries are sound because each entry is checked when it is added
(`sound_ofEntries`), and uniform trees because of the way they are made (`sound_uniform`).
-/

namespace GameSearch.Table

/-- Edges that leave the same state, in a game of `arity` agents. -/
structure Fit (arity : Nat) (es : List Edge) : Prop where
  length : ∀ e ∈ es, e.joint.length = arity
  nodup : (es.map Edge.joint).Nodup

structure Sound (t : Table) : Prop where
  edges : ∀ s, Fit t.agents.length (t.edgesFrom s)
  row : ∀ (s : String) (row : List Int32), t.goals[s]? = some row → row.length = t.agents.length
  terminal_edges : ∀ s, t.isTerminal s = true → t.edgesFrom s = []
  terminal_row : ∀ s, t.isTerminal s = true → ∃ row, t.goals[s]? = some row

theorem fit_nil (arity : Nat) : Fit arity [] := ⟨nofun, List.nodup_nil⟩

/-! ## Tables from entries -/

section

variable {arity : Nat} {s : String}

theorem addEdges_cons {source : String} {e : Edge} {rest : List (String × Edge)}
    {m m' : Std.TreeMap String (List Edge)}
    (h : addEdges arity ((source, e) :: rest) m = .ok m') :
    e.joint.length = arity ∧ (∀ k ∈ m.getD source [], k.joint ≠ e.joint) ∧
      addEdges arity rest (m.insert source (m.getD source [] ++ [e])) = .ok m' := by
  simp only [addEdges] at h
  split at h
  · cases h
  · rename_i hlength
    split at h
    · cases h
    · rename_i hknown
      exact ⟨Decidable.not_not.1 hlength, by simpa using hknown, h⟩

theorem addEdges_fit {es : List (String × Edge)} {m m' : Std.TreeMap String (List Edge)}
    (hm : ∀ s, Fit arity (m.getD s [])) (h : addEdges arity es m = .ok m') (s : String) :
    Fit arity (m'.getD s []) := by
  induction es generalizing m with
  | nil =>
    cases h
    exact hm s
  | cons entry rest ih =>
    obtain ⟨source, e⟩ := entry
    obtain ⟨hlength, hnew, hrest⟩ := addEdges_cons h
    refine ih (fun s' => ?_) hrest
    rw [Std.TreeMap.getD_insert]
    split
    · have hfit := hm source
      refine ⟨?_, ?_⟩
      · intro k hk
        rcases List.mem_append.1 hk with hk | hk
        · exact hfit.length k hk
        · rw [List.mem_singleton.1 hk]
          exact hlength
      · rw [List.map_append, List.nodup_append]
        refine ⟨hfit.nodup, List.nodup_singleton _, ?_⟩
        rintro _ hk _ hj rfl
        obtain ⟨k, hk, hkj⟩ := List.mem_map.1 hk
        exact hnew k hk (hkj.trans (List.mem_singleton.1 hj))
    · exact hm s'

theorem addGoals_cons {row : List Int32} {rest : List (String × List Int32)}
    {m m' : Std.TreeMap String (List Int32)} (h : addGoals arity ((s, row) :: rest) m = .ok m') :
    row.length = arity ∧ addGoals arity rest (m.insert s row) = .ok m' := by
  simp only [addGoals] at h
  split at h
  · cases h
  · rename_i hlength
    exact ⟨Decidable.not_not.1 hlength, h⟩

theorem addGoals_length {rows : List (String × List Int32)}
    {m m' : Std.TreeMap String (List Int32)}
    (hm : ∀ (s : String) (row : List Int32), m[s]? = some row → row.length = arity)
    (h : addGoals arity rows m = .ok m') :
    ∀ (s : String) (row : List Int32), m'[s]? = some row → row.length = arity := by
  induction rows generalizing m with
  | nil =>
    cases h
    exact hm
  | cons entry rest ih =>
    obtain ⟨s, goals⟩ := entry
    obtain ⟨hlength, hrest⟩ := addGoals_cons h
    refine ih (fun s' row hrow => ?_) hrest
    rw [Std.TreeMap.getElem?_insert] at hrow
    split at hrow
    · cases hrow
      exact hlength
    · exact hm s' row hrow

/-- The last row of a state is the one that stays. -/
theorem addGoals_getElem? {rows : List (String × List Int32)}
    {m m' : Std.TreeMap String (List Int32)} (h : addGoals arity rows m = .ok m') (s : String) :
    m'[s]? = ((rows.filter (·.1 = s)).map Prod.snd).getLast?.or m[s]? := by
  induction rows generalizing m with
  | nil =>
    cases h
    rfl
  | cons entry rest ih =>
    obtain ⟨first, row⟩ := entry
    rw [ih (addGoals_cons h).2, Std.TreeMap.getElem?_insert]
    by_cases hs : first = s
    · subst hs
      simp [List.getLast?_cons, Option.or_some]
    · simp [hs]

theorem addGoals_isSome {rows : List (String × List Int32)}
    {m m' : Std.TreeMap String (List Int32)} (h : addGoals arity rows m = .ok m')
    (hs : s ∈ rows.map Prod.fst) : m'[s]?.isSome = true := by
  obtain ⟨entry, hentry, hs⟩ := List.mem_map.1 hs
  have hmem : entry.2 ∈ (rows.filter (·.1 = s)).map Prod.snd :=
    List.mem_map_of_mem (List.mem_filter.2 ⟨hentry, decide_eq_true hs⟩)
  rw [addGoals_getElem? h, Option.isSome_or, List.getLast?_isSome.2 (List.ne_nil_of_mem hmem),
    Bool.true_or]

theorem Entry.mem_rows_of_mem_terminals {es : List Entry} (hs : s ∈ terminals es) :
    s ∈ (rows es).map Prod.fst := by
  obtain ⟨entry, hentry, h⟩ := List.mem_filterMap.1 hs
  cases entry with
  | terminal s' values =>
    cases h
    exact List.mem_map.2 ⟨(s, values), List.mem_filterMap.2 ⟨_, hentry, rfl⟩, rfl⟩
  | initial | edge | goals => cases h

theorem ofEntries_ok {agents : List String} {es : List Entry} {t : Table}
    (h : ofEntries agents es = .ok t) :
    ∃ initial edges goals, agents ≠ [] ∧ Entry.initial? es = some initial ∧
      addEdges agents.length (Entry.edges es) ∅ = .ok edges ∧
      addGoals agents.length (Entry.rows es) ∅ = .ok goals ∧
      (∀ s ∈ Entry.terminals es, edges.contains s = false) ∧
      t = ⟨agents, initial, edges, goals, .ofList (Entry.terminals es)⟩ := by
  unfold ofEntries at h
  split at h
  · cases h
  · rename_i hagents
    split at h
    · cases h
    · rename_i initial hinitial
      split at h
      · cases h
      · rename_i edges hedges
        split at h
        · cases h
        · rename_i goals hgoals
          split at h
          · cases h
          · rename_i hterminals
            cases h
            refine ⟨initial, edges, goals, ?_, hinitial, hedges, hgoals, ?_, rfl⟩
            · rintro rfl
              exact hagents rfl
            · exact fun s hs => Bool.eq_false_iff.2 (List.find?_eq_none.1 hterminals s hs)

theorem sound_ofEntries {agents : List String} {es : List Entry} {t : Table}
    (h : ofEntries agents es = .ok t) : t.Sound := by
  obtain ⟨initial, edges, goals, -, -, hedges, hgoals, hterminals, rfl⟩ := ofEntries_ok h
  have hmem : ∀ s,
      isTerminal ⟨agents, initial, edges, goals, .ofList (Entry.terminals es)⟩ s = true →
        s ∈ Entry.terminals es := by
    intro s hs
    simpa [isTerminal, Std.TreeSet.contains_ofList] using hs
  exact
    { edges := addEdges_fit (fun s => by rw [Std.TreeMap.getD_emptyc]; exact fit_nil _) hedges
      row := addGoals_length (fun s row hrow => by simp at hrow) hgoals
      terminal_edges := fun s hs =>
        Std.TreeMap.getD_eq_fallback_of_contains_eq_false (hterminals s (hmem s hs))
      terminal_row := fun s hs => Option.isSome_iff_exists.1
        (addGoals_isSome hgoals (Entry.mem_rows_of_mem_terminals (hmem s hs))) }

end

/-! ## Uniform trees -/

theorem mem_combinations {moves : List String} {n : Nat} {joint : JointMove String} :
    joint ∈ combinations moves n ↔ joint.length = n ∧ ∀ m ∈ joint, m ∈ moves := by
  induction n generalizing joint with
  | zero => cases joint <;> simp [combinations]
  | succ n ih =>
    simp only [combinations, List.mem_flatMap, List.mem_map, ih]
    constructor
    · rintro ⟨m, hm, rest, ⟨rfl, hrest⟩, rfl⟩
      exact ⟨rfl, List.forall_mem_cons.2 ⟨hm, hrest⟩⟩
    · rintro ⟨hlength, hmoves⟩
      cases joint with
      | nil => cases hlength
      | cons m rest =>
        obtain ⟨hm, hrest⟩ := List.forall_mem_cons.1 hmoves
        exact ⟨m, hm, rest, ⟨Nat.succ.inj hlength, hrest⟩, rfl⟩

theorem nodup_combinations {moves : List String} (h : moves.Nodup) (n : Nat) :
    (combinations moves n).Nodup := by
  induction n with
  | zero => exact List.nodup_singleton _
  | succ n ih =>
    refine List.nodup_flatMap.2 ⟨fun m _ => ih.map fun _ _ h => (List.cons.inj h).2, ?_⟩
    -- joint moves with different first entries
    refine h.imp fun hne joint hjoint hjoint' => ?_
    obtain ⟨_, -, rfl⟩ := List.mem_map.1 hjoint
    obtain ⟨_, -, heq⟩ := List.mem_map.1 hjoint'
    exact hne (List.cons.inj heq).1.symm

theorem nodup_numbered (name : String) (n : Nat) :
    ((List.range n).map fun i => name ++ toString i).Nodup := by
  refine List.nodup_range.map fun i j h => ?_
  rw [String.append_right_inj] at h
  exact Nat.repr_inj.1 h

theorem nodup_uniformMoves (branching : Nat) : (uniformMoves branching).Nodup :=
  nodup_numbered "m" _

section

variable {γ : Type} [RandomSource γ] {agents branching depth : Nat} {s : String}

theorem fit_uniformEdges (agents branching : Nat) (s : String) :
    Fit (max agents 1) (uniformEdges (uniformJoints agents branching) s) := by
  have hjoints : (uniformEdges (uniformJoints agents branching) s).map Edge.joint =
      uniformJoints agents branching := by
    rw [uniformEdges, List.map_map]
    exact List.zipIdx_map_fst 0 _
  refine ⟨fun e he => ?_, ?_⟩
  · have hjoint : e.joint ∈ uniformJoints agents branching := by
      rw [← hjoints]
      exact List.mem_map_of_mem he
    exact (mem_combinations.1 hjoint).1
  · rw [hjoints]
    exact nodup_combinations (nodup_uniformMoves branching) _

theorem length_complementGoals (h : 0 < agents) (v : Int32) :
    (complementGoals agents v).length = agents := by
  rw [complementGoals, List.length_cons, List.length_replicate]
  omega

theorem drawGoals_length (hagents : 0 < agents) {leaves : List String}
    {m : Std.TreeMap String (List Int32)} (g : γ)
    (hm : ∀ (s : String) (row : List Int32), m[s]? = some row → row.length = agents) :
    ∀ (s : String) (row : List Int32), (drawGoals agents leaves m g).1[s]? = some row →
      row.length = agents := by
  induction leaves generalizing m g with
  | nil => exact hm
  | cons first rest ih =>
    refine ih _ fun s row hrow => ?_
    rw [Std.TreeMap.getElem?_insert] at hrow
    split at hrow
    · cases hrow
      exact length_complementGoals hagents _
    · exact hm s row hrow

theorem getElem?_growLevels_of_not_mem {joints : List (JointMove String)} {level : List String}
    {m : Std.TreeMap String (List Edge)} (h : ∀ k < depth, s ∉ (nextLevel joints)^[k] level) :
    (growLevels joints depth level m).2[s]? = m[s]? := by
  induction depth generalizing level m with
  | zero => rfl
  | succ depth ih =>
    have hhere : s ∉ level := h 0 (Nat.succ_pos depth)
    have hbelow : ∀ k < depth, s ∉ (nextLevel joints)^[k] (nextLevel joints level) := by
      intro k hk
      rw [← Function.iterate_succ_apply]
      exact h (k + 1) (Nat.succ_lt_succ hk)
    rw [growLevels, ih hbelow, getElem?_addLevel, if_neg hhere]

theorem edgesFrom_uniform_of_not_mem (g : γ)
    (h : ∀ k < depth, s ∉ uniformLevel agents branching k) :
    (uniform g agents branching depth).edgesFrom s = [] := by
  rw [edgesFrom, Std.TreeMap.getD_eq_getD_getElem?]
  simp only [uniform, List.length_map, List.length_range]
  have hnone := getElem?_growLevels_of_not_mem (m := ∅) h
  rw [Std.TreeMap.getElem?_emptyc] at hnone
  exact congrArg (Option.getD · []) hnone

theorem length_agents_uniform (g : γ) (agents branching depth : Nat) :
    (uniform g agents branching depth).agents.length = max agents 1 := by
  simp [uniform]

theorem sound_uniform (g : γ) (agents branching depth : Nat) :
    (uniform g agents branching depth).Sound where
  edges s := by
    rw [length_agents_uniform]
    by_cases h : ∃ k < depth, s ∈ uniformLevel agents branching k
    · obtain ⟨k, hk, hs⟩ := h
      rw [edgesFrom_uniform g hs hk]
      exact fit_uniformEdges agents branching s
    · rw [edgesFrom_uniform_of_not_mem g fun k hk hs => h ⟨k, hk, hs⟩]
      exact fit_nil _
  row := by
    rw [length_agents_uniform]
    simp only [uniform, List.length_map, List.length_range]
    exact drawGoals_length (Nat.lt_of_lt_of_le Nat.one_pos (Nat.le_max_right _ _)) g
      fun s row hrow => by simp at hrow
  terminal_edges s hs := by
    refine edgesFrom_uniform_of_not_mem g fun k hk hmem => ?_
    rw [not_terminal_uniform g hmem hk] at hs
    cases hs
  terminal_row s hs := by
    obtain ⟨v, -, hgoals⟩ := goals_uniform g ((isTerminal_uniform g).1 hs)
    exact ⟨_, hgoals⟩

end

end GameSearch.Table
