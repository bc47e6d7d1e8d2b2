import GameSearch.Proofs.Table.Sound

/-!
# GameSearch.Proofs.Table.Acceptance

Which lists of entries make a table, and what is in it. A list is well formed when there is an agent
and a state to start from, the edges and the rows of goals fit the number of agents, no joint move
leaves a state twice, and no edge leaves a terminal state (`WellFormed`). Such a list makes a table
that holds its entries and nothing else (`Holds`). Of any other list the first of these conditions
that fails is reported (`FirstFault`), for the first edge or row that does not meet it.

An edge that is refused stands behind edges that were accepted (`addEdges_error`), so what is known
of accepted lists tells what the refused edge was compared with.
-/

namespace GameSearch.Table

theorem exists_of_filterMap_eq_append {α β : Type} {f : α → Option β} {xs : List α}
    {before after : List β} {y : β} (h : xs.filterMap f = before ++ y :: after) :
    ∃ xs₁ x xs₂, xs = xs₁ ++ x :: xs₂ ∧ xs₁.filterMap f = before ∧ f x = some y := by
  obtain ⟨xs₁, rest, rfl, hbefore, hrest⟩ := List.filterMap_eq_append_iff.1 h
  obtain ⟨skipped, x, xs₂, rfl, hskipped, hx, -⟩ := List.filterMap_eq_cons_iff.1 hrest
  refine ⟨xs₁ ++ skipped, x, xs₂, (List.append_assoc ..).symm, ?_, hx⟩
  rw [List.filterMap_append, hbefore, List.filterMap_eq_nil_iff.2 hskipped, List.append_nil]

/-! ## What a list of entries asks for -/

namespace Entry

def Gives (e : Entry) (s : String) (row : List Int32) : Prop :=
  e = .terminal s row ∨ e = .goals s row

def edgesOf (s : String) (es : List Entry) : List Edge :=
  es.filterMap fun
    | .edge source joint target => if source = s then some ⟨joint, target⟩ else none
    | _ => none

def rowsOf (s : String) (es : List Entry) : List (List Int32) :=
  es.filterMap fun
    | .terminal s' row => if s' = s then some row else none
    | .goals s' row => if s' = s then some row else none
    | _ => none

end Entry

def HasStart (es : List Entry) : Prop :=
  (∃ s, .initial s ∈ es) ∨ ∃ source joint target, .edge source joint target ∈ es

/-- Every joint move has an entry for each agent, and none leaves a state twice. -/
structure EdgesFit (arity : Nat) (es : List Entry) : Prop where
  length : ∀ source joint target, .edge source joint target ∈ es → joint.length = arity
  once : es.Pairwise fun e e' => ∀ source joint target target',
    e = .edge source joint target → e' ≠ .edge source joint target'

def RowsFit (arity : Nat) (es : List Entry) : Prop :=
  ∀ e ∈ es, ∀ s row, e.Gives s row → row.length = arity

structure WellFormed (agents : List String) (es : List Entry) : Prop where
  agent : agents ≠ []
  start : HasStart es
  edges : EdgesFit agents.length es
  rows : RowsFit agents.length es
  terminals : ∀ s row, .terminal s row ∈ es → ∀ joint target, .edge s joint target ∉ es

/-- The state to start from: the last one named as initial, or else the source of the first
edge. -/
inductive StartsAt (es : List Entry) : String → Prop where
  | named {before after : List Entry} {s : String} : es = before ++ .initial s :: after →
      (∀ s', .initial s' ∉ after) → StartsAt es s
  | first {before after : List Entry} {s : String} {joint : JointMove String} {target : String} :
      (∀ s', .initial s' ∉ es) → es = before ++ .edge s joint target :: after →
      (∀ s' joint' target', .edge s' joint' target' ∉ before) → StartsAt es s

/-- The table holds the entries and nothing else. A later row of goals replaces an earlier one. -/
structure Holds (t : Table) (agents : List String) (es : List Entry) : Prop where
  agents : t.agents = agents
  initial : StartsAt es t.initial
  edges : ∀ s, t.edgesFrom s = Entry.edgesOf s es
  goals : ∀ s : String, t.goals[s]? = (Entry.rowsOf s es).getLast?
  terminals : ∀ s, t.isTerminal s = true ↔ ∃ row, .terminal s row ∈ es

/-- The first condition that a list of entries does not meet. All earlier ones are met, and so they
are by the edges and the rows of goals before the one that is reported. -/
inductive FirstFault (agents : List String) (es : List Entry) : Fault → Prop where
  | noAgents : agents = [] → FirstFault agents es .noAgents
  | noInitialState : agents ≠ [] → ¬HasStart es → FirstFault agents es .noInitialState
  | jointArity {before after : List Entry} {source : String} {joint : JointMove String}
      {target : String} : agents ≠ [] → HasStart es →
      es = before ++ .edge source joint target :: after → EdgesFit agents.length before →
      joint.length ≠ agents.length → FirstFault agents es (.jointArity source joint agents.length)
  | duplicateEdge {before after : List Entry} {source : String} {joint : JointMove String}
      {target target' : String} : agents ≠ [] → HasStart es →
      es = before ++ .edge source joint target :: after → EdgesFit agents.length before →
      joint.length = agents.length → .edge source joint target' ∈ before →
      FirstFault agents es (.duplicateEdge source joint)
  | goalArity {before after : List Entry} {e : Entry} {s : String} {row : List Int32} :
      agents ≠ [] → HasStart es → EdgesFit agents.length es → es = before ++ e :: after →
      RowsFit agents.length before → e.Gives s row → row.length ≠ agents.length →
      FirstFault agents es (.goalArity s agents.length row.length)
  | terminalWithMoves {s : String} {row : List Int32} {joint : JointMove String}
      {target : String} : agents ≠ [] → HasStart es → EdgesFit agents.length es →
      RowsFit agents.length es → .terminal s row ∈ es → .edge s joint target ∈ es →
      FirstFault agents es (.terminalWithMoves s)

/-! ## Views of a list of entries -/

section

variable {arity : Nat} {agents : List String} {es : List Entry} {s source : String}
  {joint : JointMove String} {target : String} {row : List Int32}

theorem Entry.mem_initials : s ∈ initials es ↔ .initial s ∈ es := by
  simp only [initials, List.mem_filterMap]
  constructor
  · rintro ⟨e, he, hs⟩
    split at hs <;> cases hs
    exact he
  · exact fun h => ⟨_, h, rfl⟩

theorem Entry.mem_edges {e : Edge} :
    (source, e) ∈ edges es ↔ .edge source e.joint e.target ∈ es := by
  simp only [edges, List.mem_filterMap]
  constructor
  · rintro ⟨entry, hentry, h⟩
    split at h <;> cases h
    exact hentry
  · exact fun h => ⟨_, h, rfl⟩

theorem Entry.mem_rows : (s, row) ∈ rows es ↔ ∃ e ∈ es, e.Gives s row := by
  simp only [rows, List.mem_filterMap]
  refine exists_congr fun e => and_congr_right fun _ => ?_
  cases e <;> simp [Gives]

theorem Entry.mem_terminals : s ∈ terminals es ↔ ∃ row, .terminal s row ∈ es := by
  simp only [terminals, List.mem_filterMap]
  constructor
  · rintro ⟨e, he, hs⟩
    split at hs <;> cases hs
    exact ⟨_, he⟩
  · exact fun ⟨row, h⟩ => ⟨_, h, rfl⟩

theorem Entry.mem_edgesOf {e : Edge} :
    e ∈ edgesOf s es ↔ .edge s e.joint e.target ∈ es := by
  simp only [edgesOf, List.mem_filterMap]
  constructor
  · rintro ⟨entry, hentry, h⟩
    split at h
    · split at h <;> cases h
      rename_i hs
      exact hs ▸ hentry
    · cases h
  · exact fun h => ⟨_, h, if_pos rfl⟩

theorem Entry.edgesOf_sublist (s : String) {es' : List Entry} (h : es'.Sublist es) :
    (edgesOf s es').Sublist (edgesOf s es) := h.filterMap _

theorem Entry.filter_edges (s : String) (es : List Entry) :
    ((edges es).filter (·.1 = s)).map Prod.snd = edgesOf s es := by
  rw [edges, edgesOf, List.filter_filterMap, List.map_filterMap]
  congr 1
  funext e
  cases e with
  | edge source joint target => by_cases h : source = s <;> simp [Option.filter, h]
  | initial | terminal | goals => rfl

theorem Entry.filter_rows (s : String) (es : List Entry) :
    ((rows es).filter (·.1 = s)).map Prod.snd = rowsOf s es := by
  rw [rows, rowsOf, List.filter_filterMap, List.map_filterMap]
  congr 1
  funext e
  cases e with
  | terminal s' row => by_cases h : s' = s <;> simp [Option.filter, h]
  | goals s' row => by_cases h : s' = s <;> simp [Option.filter, h]
  | initial | edge => rfl

theorem exists_of_edges_eq_append {before after : List (String × Edge)} {e : Edge}
    (h : Entry.edges es = before ++ (source, e) :: after) :
    ∃ es₁ es₂, es = es₁ ++ .edge source e.joint e.target :: es₂ ∧ Entry.edges es₁ = before := by
  obtain ⟨es₁, entry, es₂, rfl, hbefore, hentry⟩ := exists_of_filterMap_eq_append h
  cases entry with
  | edge source' joint target =>
    cases hentry
    exact ⟨es₁, es₂, rfl, hbefore⟩
  | initial | terminal | goals => cases hentry

theorem exists_of_rows_eq_append {before after : List (String × List Int32)}
    (h : Entry.rows es = before ++ (s, row) :: after) :
    ∃ es₁ e es₂, es = es₁ ++ e :: es₂ ∧ e.Gives s row ∧ Entry.rows es₁ = before := by
  obtain ⟨es₁, entry, es₂, rfl, hbefore, hentry⟩ := exists_of_filterMap_eq_append h
  refine ⟨es₁, entry, es₂, rfl, ?_, hbefore⟩
  cases entry with
  | terminal s' row' => cases hentry; exact .inl rfl
  | goals s' row' => cases hentry; exact .inr rfl
  | initial | edge => cases hentry

/-! ## The state to start from -/

theorem startsAt_of_initial? (h : Entry.initial? es = some s) : StartsAt es s := by
  unfold Entry.initial? at h
  split at h
  · rename_i last hlast
    cases h
    obtain ⟨ys, hys⟩ := List.getLast?_eq_some_iff.1 hlast
    obtain ⟨es₁, rest, rfl, -, hrest⟩ := List.filterMap_eq_append_iff.1 hys
    obtain ⟨skipped, e, es₂, rfl, -, he, hnil⟩ := List.filterMap_eq_cons_iff.1 hrest
    cases e with
    | initial s' =>
      cases he
      refine .named (List.append_assoc es₁ skipped _).symm fun s' hs' => ?_
      have hlast : Entry.initials es₂ = [] := hnil
      exact List.not_mem_nil (hlast ▸ Entry.mem_initials.2 hs')
    | edge | terminal | goals => cases he
  · rename_i hnone
    have hnoInitial : ∀ s', .initial s' ∉ es := by
      intro s' hs'
      rw [List.getLast?_eq_none_iff] at hnone
      exact List.not_mem_nil (hnone ▸ Entry.mem_initials.2 hs')
    obtain ⟨⟨source, e⟩, hhead, rfl⟩ := Option.map_eq_some_iff.1 h
    obtain ⟨rest, hedges⟩ := List.head?_eq_some_iff.1 hhead
    have hsplit : Entry.edges es = [] ++ (source, e) :: rest := hedges
    obtain ⟨es₁, es₂, rfl, hbefore⟩ := exists_of_edges_eq_append hsplit
    refine .first hnoInitial rfl fun s' joint' target' hs' => ?_
    have hmem : (s', ⟨joint', target'⟩) ∈ Entry.edges es₁ := Entry.mem_edges.2 hs'
    exact List.not_mem_nil (hbefore ▸ hmem)

theorem hasStart_iff : HasStart es ↔ ∃ s, Entry.initial? es = some s := by
  constructor
  · intro h
    unfold Entry.initial?
    split
    · exact ⟨_, rfl⟩
    · rename_i hnone
      rw [List.getLast?_eq_none_iff] at hnone
      rcases h with ⟨s, hs⟩ | ⟨source, joint, target, hedge⟩
      · exact absurd (hnone ▸ Entry.mem_initials.2 hs) List.not_mem_nil
      · have hmem : (source, ⟨joint, target⟩) ∈ Entry.edges es := Entry.mem_edges.2 hedge
        obtain ⟨first, hfirst⟩ := Option.isSome_iff_exists.1
          (List.isSome_head?.2 (List.ne_nil_of_mem hmem))
        exact ⟨first.1, by rw [hfirst, Option.map_some]⟩
  · rintro ⟨s, hs⟩
    cases startsAt_of_initial? hs with
    | named hes _ => exact .inl ⟨_, hes ▸ List.mem_append_right _ List.mem_cons_self⟩
    | first _ hes _ => exact .inr ⟨_, _, _, hes ▸ List.mem_append_right _ List.mem_cons_self⟩

/-! ## Edges -/

theorem addEdges_getD {l : List (String × Edge)} {m m' : Std.TreeMap String (List Edge)}
    (h : addEdges arity l m = .ok m') (s : String) :
    m'.getD s [] = m.getD s [] ++ (l.filter (·.1 = s)).map Prod.snd := by
  induction l generalizing m with
  | nil =>
    cases h
    exact (List.append_nil _).symm
  | cons entry rest ih =>
    obtain ⟨source, e⟩ := entry
    rw [ih (addEdges_cons h).2.2, Std.TreeMap.getD_insert]
    by_cases hs : source = s
    · subst hs
      simp
    · simp [hs]

theorem addEdges_error {l : List (String × Edge)} {m : Std.TreeMap String (List Edge)} {f : Fault}
    (h : addEdges arity l m = .error f) :
    ∃ before source e after m', l = before ++ (source, e) :: after ∧
      addEdges arity before m = .ok m' ∧
      (e.joint.length ≠ arity ∧ f = .jointArity source e.joint arity ∨
        e.joint.length = arity ∧ (∃ k ∈ m'.getD source [], k.joint = e.joint) ∧
          f = .duplicateEdge source e.joint) := by
  induction l generalizing m with
  | nil => cases h
  | cons entry rest ih =>
    obtain ⟨source, e⟩ := entry
    simp only [addEdges] at h
    split at h
    · rename_i hlength
      cases h
      exact ⟨[], source, e, rest, m, rfl, rfl, .inl ⟨hlength, rfl⟩⟩
    · rename_i hlength
      split at h
      · rename_i hknown
        cases h
        refine ⟨[], source, e, rest, m, rfl, rfl, .inr ⟨Decidable.not_not.1 hlength, ?_, rfl⟩⟩
        simpa using hknown
      · rename_i hknown
        obtain ⟨before, source', e', after, m', rfl, hbefore, hrefused⟩ := ih h
        refine ⟨(source, e) :: before, source', e', after, m', rfl, ?_, hrefused⟩
        simp only [addEdges, if_neg hlength, if_neg hknown, hbefore]

theorem getD_of_addEdges {m : Std.TreeMap String (List Edge)}
    (h : addEdges arity (Entry.edges es) ∅ = .ok m) (s : String) :
    m.getD s [] = Entry.edgesOf s es := by
  rw [addEdges_getD h, Std.TreeMap.getD_emptyc, List.nil_append, Entry.filter_edges]

theorem edgesFit_of_addEdges {m : Std.TreeMap String (List Edge)}
    (h : addEdges arity (Entry.edges es) ∅ = .ok m) : EdgesFit arity es := by
  have hfit : ∀ s, Fit arity (Entry.edgesOf s es) := by
    intro s
    rw [← getD_of_addEdges h]
    exact addEdges_fit (fun s => by rw [Std.TreeMap.getD_emptyc]; exact fit_nil _) h s
  constructor
  · intro source joint target hmem
    exact (hfit source).length ⟨joint, target⟩ (Entry.mem_edgesOf.2 hmem)
  · refine List.pairwise_iff_forall_sublist.2 ?_
    rintro e e' hsub source joint target target' rfl rfl
    have htwice : [joint, joint].Sublist ((Entry.edgesOf source es).map Edge.joint) := by
      have hkept := (Entry.edgesOf_sublist source hsub).map Edge.joint
      simpa [Entry.edgesOf] using hkept
    simpa using (hfit source).nodup.sublist htwice

theorem addEdges_contains {l : List (String × Edge)} {m m' : Std.TreeMap String (List Edge)}
    (h : addEdges arity l m = .ok m') :
    m'.contains s = true ↔ m.contains s = true ∨ ∃ e, (s, e) ∈ l := by
  induction l generalizing m with
  | nil =>
    cases h
    simp
  | cons entry rest ih =>
    obtain ⟨source, e⟩ := entry
    rw [ih (addEdges_cons h).2.2, Std.TreeMap.contains_insert]
    by_cases hs : source = s
    · subst hs
      simp
    · simp [hs, Ne.symm hs]

theorem contains_of_addEdges {m : Std.TreeMap String (List Edge)}
    (h : addEdges arity (Entry.edges es) ∅ = .ok m) :
    m.contains s = true ↔ ∃ joint target, .edge s joint target ∈ es := by
  rw [addEdges_contains h]
  constructor
  · rintro (hs | ⟨e, he⟩)
    · simp at hs
    · exact ⟨_, _, Entry.mem_edges.1 he⟩
  · rintro ⟨joint, target, hmem⟩
    exact .inr ⟨⟨joint, target⟩, Entry.mem_edges.2 hmem⟩

/-! ## Goals -/

theorem length_of_addGoals {l : List (String × List Int32)}
    {m m' : Std.TreeMap String (List Int32)} (h : addGoals arity l m = .ok m')
    (hrow : (s, row) ∈ l) : row.length = arity := by
  induction l generalizing m with
  | nil => cases hrow
  | cons entry rest ih =>
    obtain ⟨first, row'⟩ := entry
    obtain ⟨hlength, hrest⟩ := addGoals_cons h
    rcases List.mem_cons.1 hrow with hrow | hrow
    · cases hrow
      exact hlength
    · exact ih hrest hrow

theorem rowsFit_of_addGoals {m m' : Std.TreeMap String (List Int32)}
    (h : addGoals arity (Entry.rows es) m = .ok m') : RowsFit arity es :=
  fun e he _ _ hgives => length_of_addGoals h (Entry.mem_rows.2 ⟨e, he, hgives⟩)

theorem addGoals_error {l : List (String × List Int32)} {m : Std.TreeMap String (List Int32)}
    {f : Fault} (h : addGoals arity l m = .error f) :
    ∃ before s row after m', l = before ++ (s, row) :: after ∧
      addGoals arity before m = .ok m' ∧ row.length ≠ arity ∧
      f = .goalArity s arity row.length := by
  induction l generalizing m with
  | nil => cases h
  | cons entry rest ih =>
    obtain ⟨s, row⟩ := entry
    simp only [addGoals] at h
    split at h
    · rename_i hlength
      cases h
      exact ⟨[], s, row, rest, m, rfl, rfl, hlength, rfl⟩
    · rename_i hlength
      obtain ⟨before, s', row', after, m', rfl, hbefore, hrefused⟩ := ih h
      refine ⟨(s, row) :: before, s', row', after, m', rfl, ?_, hrefused⟩
      simp only [addGoals, if_neg hlength, hbefore]

/-! ## Tables -/

theorem wellFormed_of_ofEntries {t : Table} (h : ofEntries agents es = .ok t) :
    WellFormed agents es := by
  obtain ⟨initial, edges, goals, hagents, hinitial, hedges, hgoals, hterminals, -⟩ :=
    ofEntries_ok h
  exact
    { agent := hagents
      start := hasStart_iff.2 ⟨initial, hinitial⟩
      edges := edgesFit_of_addEdges hedges
      rows := rowsFit_of_addGoals hgoals
      terminals := fun s row hs joint target hedge => by
        have hleft := hterminals s (Entry.mem_terminals.2 ⟨row, hs⟩)
        rw [(contains_of_addEdges hedges).2 ⟨joint, target, hedge⟩] at hleft
        cases hleft }

theorem holds_of_ofEntries {t : Table} (h : ofEntries agents es = .ok t) : t.Holds agents es := by
  obtain ⟨initial, edges, goals, -, hinitial, hedges, hgoals, -, rfl⟩ := ofEntries_ok h
  exact
    { agents := rfl
      initial := startsAt_of_initial? hinitial
      edges := getD_of_addEdges hedges
      goals := fun s => by
        rw [addGoals_getElem? hgoals, Std.TreeMap.getElem?_emptyc, Option.or_none,
          Entry.filter_rows]
      terminals := fun s => by
        rw [← Entry.mem_terminals]
        simp [isTerminal, Std.TreeSet.contains_ofList] }

theorem firstFault_of_addEdges {f : Fault} (hagents : agents ≠ []) (hstart : HasStart es)
    (h : addEdges agents.length (Entry.edges es) ∅ = .error f) : FirstFault agents es f := by
  obtain ⟨before, source, e, after, m, hsplit, hbefore, hrefused⟩ := addEdges_error h
  obtain ⟨es₁, es₂, hes, rfl⟩ := exists_of_edges_eq_append hsplit
  have hfit := edgesFit_of_addEdges hbefore
  rcases hrefused with ⟨hlength, rfl⟩ | ⟨hlength, ⟨k, hk, hjoint⟩, rfl⟩
  · exact .jointArity hagents hstart hes hfit hlength
  · rw [getD_of_addEdges hbefore, Entry.mem_edgesOf, hjoint] at hk
    exact .duplicateEdge hagents hstart hes hfit hlength hk

theorem firstFault_of_addGoals {f : Fault} (hagents : agents ≠ []) (hstart : HasStart es)
    (hedges : EdgesFit agents.length es)
    (h : addGoals agents.length (Entry.rows es) ∅ = .error f) : FirstFault agents es f := by
  obtain ⟨before, s, row, after, m, hsplit, hbefore, hlength, rfl⟩ := addGoals_error h
  obtain ⟨es₁, e, es₂, hes, hgives, rfl⟩ := exists_of_rows_eq_append hsplit
  exact .goalArity hagents hstart hedges hes (rowsFit_of_addGoals hbefore) hgives hlength

theorem firstFault_of_ofEntries {f : Fault} (h : ofEntries agents es = .error f) :
    FirstFault agents es f := by
  unfold ofEntries at h
  split at h
  · rename_i hnone
    cases h
    exact .noAgents (List.isEmpty_iff.1 hnone)
  · rename_i hsome
    have hagents : agents ≠ [] := fun hnone => hsome (List.isEmpty_iff.2 hnone)
    split at h
    · rename_i hnone
      cases h
      refine .noInitialState hagents fun hstart => ?_
      obtain ⟨s, hs⟩ := hasStart_iff.1 hstart
      cases hnone.symm.trans hs
    · rename_i initial hinitial
      have hstart : HasStart es := hasStart_iff.2 ⟨initial, hinitial⟩
      split at h
      · rename_i f' hrefused
        cases h
        exact firstFault_of_addEdges hagents hstart hrefused
      · rename_i edges hedges
        have hfit := edgesFit_of_addEdges hedges
        split at h
        · rename_i f' hrefused
          cases h
          exact firstFault_of_addGoals hagents hstart hfit hrefused
        · rename_i goals hgoals
          split at h
          · rename_i s hs
            cases h
            obtain ⟨row, hterminal⟩ := Entry.mem_terminals.1 (List.mem_of_find?_eq_some hs)
            obtain ⟨joint, target, hedge⟩ := (contains_of_addEdges hedges).1 (List.find?_some hs)
            exact .terminalWithMoves hagents hstart hfit (rowsFit_of_addGoals hgoals) hterminal
              hedge
          · cases h

theorem FirstFault.not_wellFormed {f : Fault} (h : FirstFault agents es f) :
    ¬WellFormed agents es := by
  intro hes
  cases h with
  | noAgents h => exact hes.agent h
  | noInitialState _ h => exact h hes.start
  | jointArity _ _ heq _ hlength =>
    subst heq
    exact hlength (hes.edges.length _ _ _ (List.mem_append_right _ List.mem_cons_self))
  | duplicateEdge _ _ heq _ _ hmem =>
    subst heq
    exact (List.pairwise_append.1 hes.edges.once).2.2 _ hmem _ List.mem_cons_self _ _ _ _ rfl rfl
  | goalArity _ _ _ heq _ hgives hlength =>
    subst heq
    exact hlength (hes.rows _ (List.mem_append_right _ List.mem_cons_self) _ _ hgives)
  | terminalWithMoves _ _ _ _ hterminal hedge => exact hes.terminals _ _ hterminal _ _ hedge

/-- A list of entries makes a table exactly when it is well formed. The table holds the entries and
nothing else, and of any other list the first fault is reported. -/
theorem ofEntries_accepts (agents : List String) (es : List Entry) :
    ((∃ t, ofEntries agents es = .ok t) ↔ WellFormed agents es) ∧
      (∀ t, ofEntries agents es = .ok t → t.Holds agents es) ∧
      ∀ f, ofEntries agents es = .error f → FirstFault agents es f := by
  refine ⟨⟨fun ⟨t, ht⟩ => wellFormed_of_ofEntries ht, fun hes => ?_⟩,
    fun t => holds_of_ofEntries, fun f => firstFault_of_ofEntries⟩
  cases h : ofEntries agents es with
  | ok t => exact ⟨t, rfl⟩
  | error f => exact absurd hes (firstFault_of_ofEntries h).not_wellFormed

end

end GameSearch.Table
