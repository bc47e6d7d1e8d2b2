import GameSearch.Proofs.TreeSearch.Registry

/-!
# GameSearch.Proofs.TreeSearch.LifeCycle

The lives of nodes, from the moment at which they are made. Who holds a permit is told by the
answers to the requests and by what was given back since (`Holds`), not by the nodes.

* `Guarded.step`: a node is busy as long as just one request keeps its permit.
* `keeps_iff`: the registry remembers who holds a permit.
* `life_cycle`: a permit has one holder at most and is refused exactly as long as it has one; a
  node is expanded once and for good; its visits are those it was credited with; and what is done
  to other nodes is no matter to it.
-/

namespace GameSearch.TreeSearch.Registry

/-! ## Permits -/

section

variable {σ μ V : Type} {r : Registry σ μ V} {i k l : Nat}

def Keeps (r : Registry σ μ V) (k i : Nat) : Prop := r.permits[k]? = some (some i)

/-- A node is busy as long as just one request keeps its permit. -/
structure Guarded (r : Registry σ μ V) : Prop where
  known : ∀ {k i}, r.Keeps k i → i < r.nodes.length
  single : ∀ {k l i}, r.Keeps k i → r.Keeps l i → k = l
  busy_iff : ∀ {i n cs}, r.nodes[i]? = some (n, cs) → (n.busy = true ↔ ∃ k, r.Keeps k i)

theorem permit_fst_iff :
    (r.permit i).1 = true ↔ ∃ n cs, r.nodes[i]? = some (n, cs) ∧ n.busy = false := by
  rcases permit_cases r i with ⟨hrefused, hbusy⟩ | ⟨n, cs, hi, hn, hgranted⟩
  · simp only [hrefused, Bool.false_eq_true, false_iff]
    rintro ⟨n, cs, hi, hn⟩
    cases hn.symm.trans (hbusy n cs hi)
  · simp only [hgranted, true_iff]
    exact ⟨n, cs, hi, hn⟩

theorem Guarded.free (h : r.Guarded) (hi : (r.permit i).1 = true) :
    i < r.nodes.length ∧ ∀ k, ¬r.Keeps k i := by
  obtain ⟨n, cs, hn, hfree⟩ := permit_fst_iff.1 hi
  refine ⟨(List.getElem?_eq_some_iff.1 hn).1, fun k hk => ?_⟩
  cases hfree.symm.trans ((h.busy_iff hn).2 ⟨k, hk⟩)

end

section

variable {σ μ V ε : Type} [Utility V] {r : Registry σ μ V} {i k l : Nat} {n : Node σ μ V}
  {cs : List Nat} {x : Node σ μ V × List Nat} {op : Operation σ μ V ε}
  {ops : List (Operation σ μ V ε)}

theorem step_permits (r : Registry σ μ V) (op : Operation σ μ V ε) :
    (r.step op).permits = match op with
      | .permit i => r.permits ++ [if (r.permit i).1 then some i else none]
      | .drop k => r.permits.set k none
      | _ => r.permits := by
  cases op with
  | expand i build =>
    rcases expand_cases r i build with ⟨hidle, -⟩ | ⟨n, cs, -, -, hneeded⟩
    · simp only [step, hidle]
    · cases build <;> simp only [step, hneeded, Except.map]
  | permit i =>
    rcases permit_cases r i with ⟨hrefused, -⟩ | ⟨n, cs, -, -, hgranted⟩
    · simp only [step, hrefused, Bool.false_eq_true, ↓reduceIte]
    · simp only [step, hgranted, ↓reduceIte]
  | drop k =>
    simp only [step, drop]
    rcases hk : r.permits[k]? with _ | _ | i
    · exact (List.set_eq_of_length_le (List.getElem?_eq_none_iff.1 hk)).symm
    · obtain ⟨hlt, hnone⟩ := List.getElem?_eq_some_iff.1 hk
      simp only [← hnone, List.set_getElem_self]
    · rfl
  | _ => rfl

theorem permits_length (ops : List (Operation σ μ V ε)) :
    (run ops).permits.length = requests ops := by
  induction ops using List.reverseRecOn with
  | nil => rfl
  | append_singleton ops op ih =>
    rw [run_concat, step_permits, requests, List.countP_append]
    cases op <;> simpa [Operation.isPermit, requests] using ih

theorem keeps_step : (r.step op).Keeps k i ↔ (r.Keeps k i ∧ op ≠ .drop k) ∨
    k = r.permits.length ∧ op = .permit i ∧ (r.permit i).1 = true := by
  rw [Keeps, step_permits]
  cases op with
  | permit j =>
    simp only [Keeps, List.getElem?_append, List.getElem?_singleton]
    grind
  | drop l =>
    simp only [Keeps, List.getElem?_set]
    grind
  | _ => simp [Keeps]

theorem change_busy (op : Operation σ μ V ε) (x : Node σ μ V × List Nat) :
    (op.change x).1.busy = match op with
      | .permit _ => true
      | .drop _ => false
      | _ => x.1.busy := by
  cases op with
  | expand i build =>
    cases build with
    | error e => rfl
    | ok built => cases hx : x.1.expanded <;> simp [hx]
  | _ => rfl

theorem busy_step : (if r.target op = some i then op.change x else x).1.busy = true ↔
    (x.1.busy = true ∧ ∀ k, op = .drop k → ¬r.Keeps k i) ∨ op = .permit i := by
  have hbusy := change_busy op x
  by_cases htarget : r.target op = some i
  · rw [if_pos htarget, hbusy]
    cases op <;> simp_all [Keeps, Option.join_eq_some_iff]
  · rw [if_neg htarget]
    cases op <;> simp_all [Keeps, Option.join_eq_some_iff]

theorem Guarded.step (h : r.Guarded) (op : Operation σ μ V ε) : (r.step op).Guarded where
  known := by
    intro k i hk
    rw [step_nodes_length]
    rcases keeps_step.1 hk with ⟨hk, -⟩ | ⟨-, -, hi⟩
    · exact Nat.lt_add_right _ (h.known hk)
    · exact Nat.lt_add_right _ (h.free hi).1
  single := by
    intro k l i hk hl
    rcases keeps_step.1 hk with ⟨hk, -⟩ | ⟨rfl, -, hi⟩ <;>
      rcases keeps_step.1 hl with ⟨hl, -⟩ | ⟨rfl, -, hi'⟩
    · exact h.single hk hl
    · exact absurd hk ((h.free hi').2 k)
    · exact absurd hl ((h.free hi).2 l)
    · rfl
  busy_iff := by
    intro i m ds hm
    simp only [keeps_step]
    rcases getElem?_step_cases hm with ⟨⟨n, cs⟩, hn, hy⟩ | ⟨rfl, kind, state, terminal, rfl, hy⟩
    · have hbusy := h.busy_iff hn
      obtain rfl : (if r.target op = some i then op.change (n, cs) else (n, cs)).1 = m := by
        rw [← hy]
      rw [busy_step]
      constructor
      · rintro (⟨hn', hkept⟩ | rfl)
        · obtain ⟨k, hk⟩ := hbusy.1 hn'
          exact ⟨k, .inl ⟨hk, fun hop => hkept k hop hk⟩⟩
        · by_cases hn' : n.busy = true
          · obtain ⟨k, hk⟩ := hbusy.1 hn'
            exact ⟨k, .inl ⟨hk, by simp⟩⟩
          · exact ⟨_, .inr ⟨rfl, rfl, permit_fst_iff.2 ⟨n, cs, hn, by simpa using hn'⟩⟩⟩
      · rintro ⟨k, ⟨hk, hkept⟩ | ⟨-, hop, -⟩⟩
        · refine .inl ⟨hbusy.2 ⟨k, hk⟩, fun l hop hl => ?_⟩
          exact hkept (h.single hk hl ▸ hop)
        · exact .inr hop
    · -- nobody has asked for the permit of a new node
      cases hy
      refine iff_of_false Bool.false_ne_true ?_
      rintro ⟨k, ⟨hk, -⟩ | ⟨-, hop, -⟩⟩
      · exact Nat.lt_irrefl _ (h.known hk)
      · cases hop

theorem guarded_run (ops : List (Operation σ μ V ε)) : (run ops).Guarded := by
  induction ops using List.reverseRecOn with
  | nil => exact ⟨by simp [run, Keeps], by simp [run, Keeps], by simp [run]⟩
  | append_singleton ops op ih =>
    rw [run_concat]
    exact ih.step op

/-! ## Holders -/

/-- Request `k` brought the permit of node `i`, and it was not given back. -/
def Holds (ops : List (Operation σ μ V ε)) (k i : Nat) : Prop :=
  ∃ before after, ops = before ++ .permit i :: after ∧ k = requests before ∧
    ((run before).permit i).1 = true ∧ .drop k ∉ after

theorem holds_append : Holds (ops ++ [op]) k i ↔ (Holds ops k i ∧ op ≠ .drop k) ∨
    k = requests ops ∧ op = .permit i ∧ ((run ops).permit i).1 = true := by
  constructor
  · rintro ⟨before, after, h, hk, hgranted, hkept⟩
    rcases List.eq_nil_or_concat after with rfl | ⟨after, last, rfl⟩
    · obtain ⟨rfl, hop⟩ := List.append_inj' h rfl
      cases hop
      exact .inr ⟨hk, rfl, hgranted⟩
    · rw [List.concat_eq_append, ← List.cons_append, ← List.append_assoc] at h
      obtain ⟨rfl, hop⟩ := List.append_inj' h rfl
      cases hop
      simp only [List.concat_eq_append, List.mem_append, List.mem_singleton, not_or] at hkept
      exact .inl ⟨⟨before, after, rfl, hk, hgranted, hkept.1⟩, Ne.symm hkept.2⟩
  · rintro (⟨⟨before, after, rfl, hk, hgranted, hkept⟩, hop⟩ | ⟨hk, rfl, hgranted⟩)
    · refine ⟨before, after ++ [op], by simp, hk, hgranted, ?_⟩
      simpa using ⟨hkept, Ne.symm hop⟩
    · exact ⟨ops, [], rfl, hk, hgranted, List.not_mem_nil⟩

theorem keeps_iff (ops : List (Operation σ μ V ε)) (k i : Nat) :
    (run ops).Keeps k i ↔ Holds ops k i := by
  induction ops using List.reverseRecOn with
  | nil => simp [run, Keeps, Holds]
  | append_singleton ops op ih => rw [run_concat, keeps_step, holds_append, ih, permits_length]

theorem Holds.single (h : Holds ops k i) (h' : Holds ops l i) : k = l :=
  (guarded_run ops).single ((keeps_iff ops k i).2 h) ((keeps_iff ops l i).2 h')

theorem permit_run_iff (h : (run ops).nodes[i]? = some (n, cs)) :
    ((run ops).permit i).1 = true ↔ ∀ k, ¬Holds ops k i := by
  have hbusy := (guarded_run ops).busy_iff h
  simp only [keeps_iff] at hbusy
  rw [← not_exists, ← hbusy, Bool.not_eq_true, permit_fst_iff]
  simp [h]

def ActsOn (ops : List (Operation σ μ V ε)) (i : Nat) : Operation σ μ V ε → Prop
  | .make .. => False
  | .record j _ | .absorb j _ | .expand j _ | .adopt j _ | .permit j => j = i
  | .drop k => Holds ops k i

theorem target_eq_iff : (run ops).target op = some i ↔ ActsOn ops i op := by
  cases op with
  | drop k =>
    rw [target, Option.join_eq_some_iff]
    exact keeps_iff ops k i
  | _ => simp [ActsOn]

theorem run_frame (h : (run ops).nodes[i]? = some (n, cs)) (hop : ¬ActsOn ops i op) :
    (run (ops ++ [op])).nodes[i]? = some (n, cs) := by
  rw [run_concat, getElem?_step h, if_neg fun htarget => hop (target_eq_iff.1 htarget)]

/-! ## Lives -/

/-- A node as it is after `ops`, and what other operations can do to it from there. The ones in
`since` came after the one that made it. -/
structure Lives (ops since : List (Operation σ μ V ε)) (i : Nat) (n : Node σ μ V)
    (children : List Nat) : Prop where
  here : (run ops).nodes[i]? = some (n, children)
  one_holder : ∀ k l, Holds ops k i → Holds ops l i → k = l
  permit_iff : ((run ops).permit i).1 = true ↔ ∀ k, ¬Holds ops k i
  expanded_iff : n.expanded = true ↔ ∃ op ∈ since, op.Expands i
  childless : n.expanded = false → children = []
  /-- Once expanded it stays so, and its list of children changes by adoption only. -/
  lasting : n.expanded = true → ∀ more, ∃ m, m.expanded = true ∧
    (run (ops ++ more)).nodes[i]? = some (m, children ++ more.flatMap (Operation.adopted i))
  /-- Once expanded it has no use for a build, whatever that would give. -/
  idle : n.expanded = true → ∀ build : Except ε (List Nat),
    (run ops).expand i build = .ok (false, run ops)
  fails : n.expanded = false → ∀ e : ε, (run ops).expand i (.error e) = .error e ∧
    run (ops ++ [.expand i (.error e)]) = run ops
  builds : n.expanded = false → ∀ built,
    let after := run (ops ++ [.expand i (.ok built)])
    (run ops).expand (ε := ε) i (.ok built) = .ok (true, after) ∧
      after.nodes[i]? = some ({ n with expanded := true }, built)
  /-- Visits go round at `2 ^ 32`. -/
  visits : n.stats.visits.toNat = credited i since % 2 ^ 32
  frame : ∀ op, ¬ActsOn ops i op → (run (ops ++ [op])).nodes[i]? = some (n, children)

/-- Every node of a run was made at some moment and lives from then on. -/
theorem life_cycle (before since : List (Operation σ μ V ε)) (kind : Kind μ) (state : σ)
    (terminal : Bool) : ∃ n children, n.kind = kind ∧ n.state = state ∧ n.terminal = terminal ∧
      Lives (before ++ .make kind state terminal :: since) since (made before) n children := by
  have hmade : (run (before ++ [.make kind state terminal])).nodes[made before]? =
      some (Node.fresh kind state terminal {}, []) := by
    rw [run_concat, step_nodes, ← nodes_length]
    exact List.getElem?_concat_length
  obtain ⟨⟨n, children⟩, hn, hlife⟩ := evolves_run (fun _ => rfl) hmade since
  rw [← run_append, List.append_assoc, List.singleton_append] at hn
  refine ⟨n, children, hlife.kind, hlife.state, hlife.terminal, ?_⟩
  exact {
    here := hn
    one_holder := fun k l => Holds.single
    permit_iff := permit_run_iff hn
    expanded_iff := by simpa [Node.fresh] using hlife.expanded
    childless := hlife.budding
    lasting := fun hexpanded more => by
      obtain ⟨⟨m, ds⟩, hm, hmore⟩ := evolves_run hlife.budding hn more
      rw [run_append, hm, ← hmore.children hexpanded]
      exact ⟨m, hmore.expanded.2 (.inl hexpanded), rfl⟩
    idle := fun hexpanded build => by
      refine expand_idle (fun m ds hm => ?_) build
      cases hn.symm.trans hm
      exact hexpanded
    fails := fun hexpanded e => by
      have hneeded := expand_needed hn hexpanded (.error e)
      refine ⟨hneeded, ?_⟩
      simp only [run_concat, step, hneeded, Except.map]
    builds := fun hexpanded built => by
      have hneeded := expand_needed (ε := ε) hn hexpanded (.ok built)
      refine ⟨?_, ?_⟩
      · simp only [run_concat, step, hneeded, Except.map]
      · rw [run_concat, getElem?_step hn]
        simp [hexpanded]
    visits := by
      rw [hlife.visits]
      simp [Node.fresh, Stats.none]
    frame := fun op => run_frame hn }

/-- A node whose first build fails. Its permit is asked for twice and given back, and the third
request holds it. -/
theorem life_cycle_failed_build :
    let since : List (Operation Nat Nat Rat String) := [.permit 1, .permit 1, .record 1 40,
      .expand 1 (.error "late"), .expand 1 (.ok [0]), .absorb 1 ⟨5, 100⟩, .drop 0, .permit 1]
    let ops := [.make .max 3 false] ++ .make (.min 7) 3 false :: since
    ∃ n, Lives ops since 1 n [0] ∧ n.expanded = true ∧ n.stats.visits.toNat = 6 ∧
      Holds ops 2 1 ∧ ((run ops).permit 1).1 = false ∧
      (run ops).expand 1 (.error "again") = .ok (false, run ops) := by
  intro since ops
  obtain ⟨n, children, -, -, -, h⟩ := life_cycle [.make .max 3 false] since (.min 7) 3 false
  have hchildren : children = [0] :=
    (Option.some.inj (congrArg (Option.map Prod.snd) h.here)).symm
  subst hchildren
  have hexpanded : n.expanded = true :=
    h.expanded_iff.2 ⟨.expand 1 (.ok [0]), by simp [since], rfl⟩
  have hholds : Holds ops 2 1 := ⟨ops.take 9, [], rfl, rfl, rfl, List.not_mem_nil⟩
  have hrefused : ((run ops).permit 1).1 = false := by
    rw [← Bool.not_eq_true]
    exact fun hgranted => h.permit_iff.1 hgranted 2 hholds
  exact ⟨n, h, hexpanded, h.visits, hholds, hrefused, h.idle hexpanded _⟩

end

end GameSearch.TreeSearch.Registry
