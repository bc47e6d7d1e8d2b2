import GameSearch.Proofs.TreeSearch.History
import GameSearch.Proofs.TreeSearch.Walk

/-!
# GameSearch.Proofs.TreeSearch.Progress

A search never gets stuck. A walk only ends in a dead end at a visited node that is not terminal
and has no children, and there is no such node: a node is visited after it was expanded, or on
the way to one of its children.

* `descend_isSome`: the walk reaches a node, whatever child the policy picks.
* `History.branched`: so it is in the tree of every history. Counts of visits may go round: what
  is left of a count is only zero more often.
-/

namespace GameSearch.TreeSearch

variable {σ μ α V γ : Type} {t u : Tree σ μ V} {path : Path}

/-- There is something below a visited node, unless it is terminal. -/
def Branched (t : Tree σ μ V) : Prop :=
  t.visits ≠ 0 → t.label.terminal = false → t.children ≠ []

theorem branched_reads : Tree.Reads (fun _ => ()) (Branched : Tree σ μ V → Prop) := by
  intro n cs cs' hcs h hvisited hn hnil
  obtain rfl : cs' = [] := hnil
  have hcs : cs = [] := by simpa using hcs
  exact h hvisited hn hcs

/-! ## The walk -/

theorem step_descend_lt {policy : Policy V} {n : Node σ μ V} {cs : List (Tree σ μ V)} {i : Nat}
    (h : step policy n cs = .descend i) : i < cs.length := by
  unfold step at h
  split at h
  · cases h
  · rename_i hne
    split at h
    · cases h
    · split at h
      · cases h
      · cases h
        have hmap : cs.map Tree.stats ≠ [] := by simpa using hne
        simpa using policy.pick_lt n.kind.isMax n.stats.visits _ hmap

theorem step_ne_stuck {policy : Policy V} {n : Node σ μ V} {cs : List (Tree σ μ V)}
    (hcs : cs ≠ []) : step policy n cs ≠ .stuck := by
  intro h
  unfold step at h
  split at h
  · exact hcs rfl
  · split at h
    · cases h
    · split at h <;> cases h

/-- The walk reaches a node, by induction on the tree. -/
theorem descend_isSome [Utility V] (policy : Policy V) (h : t.Every Branched) :
    ∃ path, descend policy t = some path := by
  induction h with
  | @node n cs hn _ ih =>
    unfold descend
    split
    · exact ⟨[], rfl⟩
    · rename_i hgo
      obtain ⟨hunvisited, hterminal⟩ : n.isUnvisited = false ∧ n.terminal = false := by
        simpa using hgo
      have hvisited : (Tree.node n cs).visits ≠ 0 := by
        rw [ne_eq, ← isUnvisited_iff]
        exact Bool.eq_false_iff.1 hunvisited
      split
      · rename_i hstuck
        exact absurd hstuck (step_ne_stuck (hn hvisited hterminal))
      · rename_i path _
        exact ⟨path, rfl⟩
      · rename_i i hi
        have hlt := step_descend_lt hi
        obtain ⟨path, hpath⟩ := ih cs[i] (List.getElem_mem hlt)
        exact ⟨i :: path, by simp only [descendInto_eq, List.getElem?_eq_getElem hlt,
          Option.bind_some, hpath]⟩

/-! ## Growth and recorded scores -/

theorem fresh_branched [Utility V] (h : t.Fresh) : t.Every Branched := by
  refine h.imp fun u hu hvisited => absurd ?_ hvisited
  rw [Tree.visits, hu.1]
  rfl

theorem record_branched [Utility V] {score : V} (h : t.Every Branched)
    (hu : t.get? path = some u) (hready : u.label.terminal = true ∨ u.children ≠ []) :
    (t.record score path).Every Branched := by
  induction path generalizing t with
  | nil =>
    cases hu
    obtain ⟨n, cs⟩ := u
    refine .node (fun _ hn => ?_) fun c hc => h.child hc
    exact hready.resolve_left fun hterminal => by cases hterminal.symm.trans hn
  | cons i path ih =>
    obtain ⟨n, cs⟩ := t
    obtain ⟨c, hc, hu⟩ := Tree.get?_cons_eq_some.1 hu
    have hmem : c ∈ cs := List.mem_of_getElem? hc
    refine .node (fun _ _ hnil => ?_) (Tree.forall_mem_modify (fun d hd => h.child hd) ?_)
    · obtain rfl : cs = [] := List.modify_eq_nil_iff.1 hnil
      cases hmem
    · intro d hd
      cases hc.symm.trans hd
      exact ih (h.child hmem) hu

theorem Session.setBusy_branched {x : Session σ μ V γ} (busy : Bool) (guard : Option Path)
    (h : x.root.Every Branched) : (x.setBusy busy guard).root.Every Branched :=
  setBusy_keeps busy guard h fun _ =>
    h.relabel (@branched_reads σ μ V) (fun _ _ hn => hn) fun _ => rfl

variable [DecidableEq σ]

theorem grow_branched [Utility V] {p : Setup σ μ α V} {grown : Tree σ μ V} {asked : Nat}
    (ht : t.Shaped p.game p.agent) (h : t.Every Branched) (hu : t.get? path = some u)
    (he : p.expand u = .ok (asked, grown)) :
    (t.modify (fun _ => grown) path).Every Branched := by
  obtain ⟨_, hready, hchildren⟩ := p.expand_ready (ht.get? hu) he
  refine h.modify (@branched_reads σ μ V) fun u' hu' => ⟨?_, rfl⟩
  cases hu.symm.trans hu'
  have hall : ∀ c ∈ grown.children, c.Every Branched := by
    rcases hchildren with hsame | ⟨_, hfresh⟩
    · exact fun c hc => (h.get? hu).child (hsame ▸ hc)
    · exact fun c hc => fresh_branched (hfresh c hc)
  obtain ⟨m, ds⟩ := grown
  refine .node (fun _ hn => ?_) hall
  exact hready.resolve_left fun hterminal => by cases hterminal.symm.trans hn

namespace Session

variable [Utility V] [RandomSource γ] {p : Setup σ μ α V} {x : Session σ μ V γ}

theorem workAt_branched (hshaped : x.root.Shaped p.game p.agent) (h : x.root.Every Branched)
    (path : Path) : (x.workAt p path).2.root.Every Branched := by
  generalize hy : x.workAt p path = y
  cases hy ▸ workAt_cases p path x with
  | missing => exact h
  | unexpanded => exact h
  | unscored hu he _ => exact grow_branched hshaped h hu he
  | completed hu he _ =>
    exact record_branched (grow_branched hshaped h hu he) (by rw [Tree.get?_modify, hu]; rfl)
      (p.expand_ready (hshaped.get? hu) he).2.1

theorem iterate_branched (p : Setup σ μ α V) (locking : Locking) :
    Keeps p locking γ (fun t => t.Rooted p.game p.agent ∧ t.Every Branched) fun _ _ => True := by
  rintro x ⟨hrooted, h⟩ _
  refine ⟨iterate_rooted p x hrooted trivial, ?_⟩
  cases hs : select p.policy locking x.root with
  | none =>
    rw [iterate_of_select_none hs]
    exact h
  | some chosen =>
    rw [iterate_of_select_some hs]
    have hshaped := setBusy_shaped true chosen.guard hrooted.1
    have hbusy := setBusy_branched true chosen.guard h
    exact setBusy_branched false chosen.guard (workAt_branched hshaped hbusy chosen.target)

end Session

/-! ## Merged trees -/

section

variable {game : Game σ μ α} {agent : α} {ours theirs : List (Tree σ μ V)} {home : Home}

theorem graft_branched (h : t.Every Branched) (ht : t.Shaped game agent) :
    (graft home t).Every Branched := by
  induction h generalizing home with
  | @node n cs h _ ih =>
    rw [graft_of_formed ht.here]
    refine .node (fun hvisited hn hnil => ?_) fun c hc => ?_
    · exact h hvisited hn (graftAll_eq_nil.1 hnil)
    · obtain ⟨k, d, hd, rfl⟩ := mem_graftAll hc
      exact ih d hd (ht.child hd)

variable [DecidableEq μ] [Utility V]

theorem merge_children_eq_nil (h : (merge t u).children = []) :
    t.children = [] ∧ u.children = [] := by
  obtain ⟨n, ours⟩ := t
  obtain ⟨m, theirs⟩ := u
  rw [merge_node] at h
  obtain ⟨hkept, hgrafted⟩ := List.append_eq_nil_iff.1 h
  obtain rfl : ours = [] := by
    have hroles : (mergeChildren n.home ours.length ours theirs).1.map (·.label.role) =
        ours.map (·.label.role) := kept_roles
    rw [hkept] at hroles
    simpa using hroles.symm
  rw [mergeChildren_nil_left] at hgrafted
  exact ⟨rfl, graftAll_eq_nil.1 hgrafted⟩

/-- A sum that is visited is the sum of nodes one of which is visited. -/
theorem visits_of_merge (h : (merge t u).visits ≠ 0) : t.visits ≠ 0 ∨ u.visits ≠ 0 := by
  obtain ⟨n, ours⟩ := t
  obtain ⟨m, theirs⟩ := u
  by_cases ht : n.stats.visits.toNat = 0
  · refine .inr fun hu => h ?_
    rw [merge_node]
    change (n.stats.visits + m.stats.visits).toNat = 0
    rw [UInt32.toNat_add, ht, show m.stats.visits.toNat = 0 from hu]
  · exact .inl ht

theorem merge_branched (ht : t.Shaped game agent) (hu : u.Shaped game agent)
    (hrole : t.label.role = u.label.role) (hb : t.Every Branched) (hb' : u.Every Branched) :
    (merge t u).Every Branched := by
  induction u generalizing t with
  | node m theirs ih =>
    obtain ⟨n, ours⟩ := t
    obtain ⟨_, hstate⟩ := Node.role_eq_iff.1 hrole
    have hkept : ∀ v ∈ (mergeChildren n.home ours.length ours theirs).1, v.Every Branched := by
      intro v hv
      refine (forall_kept (R := fun v => v.Shaped game agent ∧ v.Every Branched ∧
        (v.label.kind = .max ∨ v.label.state = n.state)) ?_ ?_ v hv).2.1
      · exact fun v hv => ⟨ht.child hv, hb.child hv, ht.here.child_state hv⟩
      · rintro w hw v ⟨hv, hvb, hvstate⟩ hkey
        have hrole := Node.role_eq_of_key_eq hkey hvstate (hstate ▸ hu.here.child_state hw :)
        obtain ⟨hk, hs⟩ := Node.role_eq_iff.1 (merge_role v w)
        exact ⟨merge_shaped hv (hu.child hw) hrole,
          ih w hw hv (hu.child hw) hrole hvb (hb'.child hw), by rwa [hk, hs]⟩
    rw [merge_node]
    refine .node (fun hvisited hn hnil => ?_) fun c hc => ?_
    · rw [← merge_node] at hvisited hnil
      obtain ⟨hours, htheirs⟩ := merge_children_eq_nil (t := .node n ours) (u := .node m theirs) hnil
      have hterminal := ht.here.terminal_eq_of_role_eq hu.here hrole
      rcases visits_of_merge (t := .node n ours) (u := .node m theirs) hvisited with h | h
      · exact hb.here h hn hours
      · exact hb'.here h (hterminal ▸ hn) htheirs
    · rcases List.mem_append.1 hc with hc | hc
      · exact hkept c hc
      · obtain ⟨k, v, hv, rfl⟩ := mem_grafted hc
        exact graft_branched (hb'.child hv) (hu.child hv)

end

/-! ## Histories -/

namespace History

variable [Utility V] [RandomSource γ] [DecidableEq μ] {game : Game σ μ α} {agent : α}

theorem branched (h : History σ μ V γ) : (h.session game agent).root.Every Branched :=
  root_induction (J := Tree.Every Branched)
    (fun p s => fresh_branched (p.unvisited_fresh s {}))
    (fun p _ _ locking _ => Session.iterate_branched p locking)
    (fun _ _ _ ht => ht.relabel (@branched_reads σ μ V) (fun _ _ hn => hn) fun _ => rfl)
    (fun _ _ _ hc hu ht => (ht.child hc).child hu)
    (fun _ _ ht hu hrole hb hb' => merge_branched ht.1 hu.1 hrole hb hb') h

end History

end GameSearch.TreeSearch
