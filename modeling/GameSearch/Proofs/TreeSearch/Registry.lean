import GameSearch.TreeSearch.Registry
import Mathlib.Algebra.BigOperators.Group.List.Basic
import Mathlib.Algebra.GroupWithZero.Nat
import Mathlib.Data.List.Induction

/-!
# GameSearch.Proofs.TreeSearch.Registry

Runs of operations on nodes. Nodes are made, visited, expanded, given more children and guarded by
permits, in any order.

* `expand_cases`, `permit_cases`: a node is expanded once, and its permit is given to one at a time.
* `step_nodes`: all that an operation does to nodes.
* `evolves_run`: what operations make of one node, its permit apart. `Evolves` counts the
  operations and does not follow them.
-/

namespace GameSearch.TreeSearch.Registry

/-! ## Operations -/

/-- What is done to nodes. A build is told by its outcome; what it does to other nodes on its way
stands before it. -/
inductive Operation (σ μ V ε : Type) where
  | make (kind : Kind μ) (state : σ) (terminal : Bool)
  | record (node : Nat) (score : V)
  | absorb (node : Nat) (stats : Stats V)
  | expand (node : Nat) (build : Except ε (List Nat))
  | adopt (node : Nat) (grafted : List Nat)
  | permit (node : Nat)
  | drop (request : Nat)

namespace Operation

variable {σ μ V ε : Type}

def isMake : Operation σ μ V ε → Bool
  | .make .. => true
  | _ => false

def isPermit : Operation σ μ V ε → Bool
  | .permit _ => true
  | _ => false

@[simp] def isRecord (i : Nat) : Operation σ μ V ε → Bool
  | .record j _ => j == i
  | _ => false

/-- The visits of another node that are counted at node `i` too. -/
@[simp] def absorbed (i : Nat) : Operation σ μ V ε → Nat
  | .absorb j s => if j = i then s.visits.toNat else 0
  | _ => 0

@[simp] def Expands (i : Nat) : Operation σ μ V ε → Prop
  | .expand j (.ok _) => j = i
  | .adopt j grafted => j = i ∧ grafted ≠ []
  | _ => False

@[simp] def adopted (i : Nat) : Operation σ μ V ε → List Nat
  | .adopt j grafted => if j = i then grafted else []
  | _ => []

end Operation

section

variable {σ μ V ε : Type}

def made (ops : List (Operation σ μ V ε)) : Nat := ops.countP Operation.isMake

def requests (ops : List (Operation σ μ V ε)) : Nat := ops.countP Operation.isPermit

/-- The visits that operations bring to node `i`. -/
def credited (i : Nat) (ops : List (Operation σ μ V ε)) : Nat :=
  ops.countP (Operation.isRecord i) + (ops.map (Operation.absorbed i)).sum

theorem credited_append (i : Nat) (ops more : List (Operation σ μ V ε)) :
    credited i (ops ++ more) = credited i ops + credited i more := by
  simp only [credited, List.countP_append, List.map_append, List.sum_append]
  omega

theorem credited_singleton (i : Nat) (op : Operation σ μ V ε) :
    credited i [op] = (if op.isRecord i then 1 else 0) + op.absorbed i := by
  rw [credited, List.countP_singleton, List.map_singleton, List.sum_singleton]

/-! ## One request -/

variable {r : Registry σ μ V} {i : Nat} {n : Node σ μ V} {cs : List Nat}

theorem modify_eq_set {β : Type} {xs : List β} {x : β} (h : xs[i]? = some x) (f : β → β) :
    xs.modify i f = xs.set i (f x) := by
  rw [List.modify_eq_set_getElem?, h]
  rfl

theorem modify_same {β : Type} {xs : List β} {f : β → β} (h : ∀ x, xs[i]? = some x → f x = x) :
    xs.modify i f = xs := by
  cases hx : xs[i]? with
  | none => rw [List.modify_eq_set_getElem?, hx]; rfl
  | some x =>
    obtain ⟨hi, rfl⟩ := List.getElem?_eq_some_iff.1 hx
    rw [modify_eq_set hx, h _ hx, List.set_getElem_self]

theorem expand_idle (h : ∀ n cs, r.nodes[i]? = some (n, cs) → n.expanded = true)
    (build : Except ε (List Nat)) : r.expand i build = .ok (false, r) := by
  cases hi : r.nodes[i]? with
  | none => simp only [expand, hi]
  | some x =>
    obtain ⟨n, cs⟩ := x
    have hset : r.nodes.set i (n, cs) = r.nodes := by
      obtain ⟨hlt, hx⟩ := List.getElem?_eq_some_iff.1 hi
      rw [← hx, List.set_getElem_self]
    simp only [expand, hi, Node.expandWith, h n cs hi, ↓reduceIte, Option.isSome_none, hset]

theorem expand_needed (h : r.nodes[i]? = some (n, cs)) (hn : n.expanded = false)
    (build : Except ε (List Nat)) : r.expand i build = build.map fun built =>
      (true, { r with nodes := r.nodes.set i ({ n with expanded := true }, built) }) := by
  cases build <;>
    simp only [expand, h, Node.expandWith, hn, Bool.false_eq_true, ↓reduceIte, Except.map,
      Option.isSome_some]

theorem expand_cases (r : Registry σ μ V) (i : Nat) (build : Except ε (List Nat)) :
    (r.expand i build = .ok (false, r) ∧
      ∀ n cs, r.nodes[i]? = some (n, cs) → n.expanded = true) ∨
    ∃ n cs, r.nodes[i]? = some (n, cs) ∧ n.expanded = false ∧
      r.expand i build = build.map fun built =>
        (true, { r with nodes := r.nodes.set i ({ n with expanded := true }, built) }) := by
  by_cases h : ∃ n cs, r.nodes[i]? = some (n, cs) ∧ n.expanded = false
  · obtain ⟨n, cs, hi, hn⟩ := h
    exact .inr ⟨n, cs, hi, hn, expand_needed hi hn build⟩
  · have hidle : ∀ n cs, r.nodes[i]? = some (n, cs) → n.expanded = true := by simpa using h
    exact .inl ⟨expand_idle hidle build, hidle⟩

theorem permit_refused (h : ∀ n cs, r.nodes[i]? = some (n, cs) → n.busy = true) :
    r.permit i = (false, { r with permits := r.permits ++ [none] }) := by
  cases hi : r.nodes[i]? with
  | none => simp only [permit, node?, hi, Option.map_none, Option.bind_none]
  | some x =>
    simp only [permit, node?, hi, Option.map_some, Option.bind_some, Node.tryPermit, h x.1 x.2 hi,
      ↓reduceIte]

theorem permit_granted (h : r.nodes[i]? = some (n, cs)) (hn : n.busy = false) :
    r.permit i = (true, ⟨r.nodes.set i ({ n with busy := true }, cs), r.permits ++ [some i]⟩) := by
  simp only [permit, node?, h, Option.map_some, Option.bind_some, Node.tryPermit, hn,
    Bool.false_eq_true, ↓reduceIte, update, modify_eq_set h]

theorem permit_cases (r : Registry σ μ V) (i : Nat) :
    (r.permit i = (false, { r with permits := r.permits ++ [none] }) ∧
      ∀ n cs, r.nodes[i]? = some (n, cs) → n.busy = true) ∨
    ∃ n cs, r.nodes[i]? = some (n, cs) ∧ n.busy = false ∧ r.permit i =
      (true, ⟨r.nodes.set i ({ n with busy := true }, cs), r.permits ++ [some i]⟩) := by
  by_cases h : ∃ n cs, r.nodes[i]? = some (n, cs) ∧ n.busy = false
  · obtain ⟨n, cs, hi, hn⟩ := h
    exact .inr ⟨n, cs, hi, hn, permit_granted hi hn⟩
  · have hrefused : ∀ n cs, r.nodes[i]? = some (n, cs) → n.busy = true := by simpa using h
    exact .inl ⟨permit_refused hrefused, hrefused⟩

/-! ## What operations make of one node -/

@[simp] def target (r : Registry σ μ V) : Operation σ μ V ε → Option Nat
  | .make .. => none
  | .record i _ | .absorb i _ | .expand i _ | .adopt i _ | .permit i => some i
  | .drop k => (r.permits[k]?).join

def Budding (x : Node σ μ V × List Nat) : Prop := x.1.expanded = false → x.2 = []

/-- What operations make of node `i`, its permit apart. -/
structure Evolves (i : Nat) (ops : List (Operation σ μ V ε)) (x y : Node σ μ V × List Nat) :
    Prop where
  kind : y.1.kind = x.1.kind
  state : y.1.state = x.1.state
  terminal : y.1.terminal = x.1.terminal
  visits : y.1.stats.visits = x.1.stats.visits + .ofNat (credited i ops)
  expanded : y.1.expanded = true ↔ x.1.expanded = true ∨ ∃ op ∈ ops, op.Expands i
  children : x.1.expanded = true → y.2 = x.2 ++ ops.flatMap (Operation.adopted i)
  budding : Budding y

variable {x y z : Node σ μ V × List Nat} {op : Operation σ μ V ε}
  {ops more : List (Operation σ μ V ε)}

namespace Evolves

theorem refl (i : Nat) (hx : Budding x) : Evolves i ([] : List (Operation σ μ V ε)) x x where
  kind := rfl
  state := rfl
  terminal := rfl
  visits := by simp [credited]
  expanded := by simp
  children := by simp
  budding := hx

theorem trans (h : Evolves i ops x y) (h' : Evolves i more y z) : Evolves i (ops ++ more) x z where
  kind := h'.kind.trans h.kind
  state := h'.state.trans h.state
  terminal := h'.terminal.trans h.terminal
  visits := by rw [h'.visits, h.visits, credited_append, UInt32.ofNat_add, UInt32.add_assoc]
  expanded := by
    rw [h'.expanded, h.expanded]
    simp only [List.mem_append, or_and_right, exists_or, or_assoc]
  children := fun hx => by
    have hy : y.1.expanded = true := h.expanded.2 (.inl hx)
    rw [h'.children hy, h.children hx, List.flatMap_append, List.append_assoc]
  budding := h'.budding

theorem single (hkind : y.1.kind = x.1.kind) (hstate : y.1.state = x.1.state)
    (hterminal : y.1.terminal = x.1.terminal)
    (hvisits : y.1.stats.visits =
      x.1.stats.visits + .ofNat ((if op.isRecord i then 1 else 0) + op.absorbed i))
    (hexpanded : y.1.expanded = true ↔ x.1.expanded = true ∨ op.Expands i)
    (hchildren : x.1.expanded = true → y.2 = x.2 ++ op.adopted i) (hy : Budding y) :
    Evolves i [op] x y where
  kind := hkind
  state := hstate
  terminal := hterminal
  visits := by rw [credited_singleton, hvisits]
  expanded := by
    rw [hexpanded]
    simp only [List.mem_singleton, exists_eq_left]
  children := by
    rw [List.flatMap_singleton]
    exact hchildren
  budding := hy

theorem of_other (hx : Budding x) (h : r.target op ≠ some i) : Evolves i [op] x x := by
  cases op with
  | expand j build => cases build <;> exact .single rfl rfl rfl (by simp) (by simp_all) (by simp) hx
  | _ => exact .single rfl rfl rfl (by simp_all) (by simp_all) (by simp_all) hx

end Evolves

end

/-! ## Runs -/

section

variable {σ μ V ε : Type} [Utility V]

def step (r : Registry σ μ V) : Operation σ μ V ε → Registry σ μ V
  | .make kind state terminal => r.add (.fresh kind state terminal {})
  | .record i score => r.record i score
  | .absorb i s => r.absorb i s
  | .expand i build =>
    match r.expand i build with
    | .error _ => r
    | .ok (_, r) => r
  | .adopt i grafted => r.adopt i grafted
  | .permit i => (r.permit i).2
  | .drop k => (r.drop k).2

def run (ops : List (Operation σ μ V ε)) : Registry σ μ V := ops.foldl step {}

theorem run_append (ops more : List (Operation σ μ V ε)) :
    run (ops ++ more) = more.foldl step (run ops) := List.foldl_append

theorem run_concat (ops : List (Operation σ μ V ε)) (op : Operation σ μ V ε) :
    run (ops ++ [op]) = (run ops).step op := run_append ops [op]

namespace Operation

@[simp] def change : Operation σ μ V ε → Node σ μ V × List Nat → Node σ μ V × List Nat
  | .make .., x => x
  | .record _ score, (n, cs) => (n.record score, cs)
  | .absorb _ s, (n, cs) => (n.absorb s, cs)
  | .expand _ (.error _), x => x
  | .expand _ (.ok built), (n, cs) =>
    if n.expanded then (n, cs) else ({ n with expanded := true }, built)
  | .adopt _ grafted, (n, cs) => n.adopt cs grafted
  | .permit _, (n, cs) => ({ n with busy := true }, cs)
  | .drop _, (n, cs) => (n.release, cs)

def newborn : Operation σ μ V ε → List (Node σ μ V × List Nat)
  | .make kind state terminal => [(.fresh kind state terminal {}, [])]
  | _ => []

end Operation

variable {r : Registry σ μ V} {i j : Nat} {x y : Node σ μ V × List Nat} {op : Operation σ μ V ε}

theorem step_expand_nodes (r : Registry σ μ V) (i : Nat) (build : Except ε (List Nat)) :
    (r.step (.expand i build)).nodes = r.nodes.modify i (Operation.expand i build).change := by
  rcases expand_cases r i build with ⟨hidle, hexpanded⟩ | ⟨n, cs, hi, hn, hneeded⟩
  · have hsame : ∀ x, r.nodes[i]? = some x → (Operation.expand i build).change x = x := by
      rintro ⟨n, cs⟩ hi
      cases build <;> simp only [Operation.change, hexpanded n cs hi, ↓reduceIte]
    rw [modify_same hsame]
    simp only [step, hidle]
  · cases build with
    | error e =>
      have hsame : ∀ x, r.nodes[i]? = some x →
          (Operation.expand i (.error e) : Operation σ μ V ε).change x = x := fun _ _ => rfl
      rw [modify_same hsame]
      simp only [step, hneeded, Except.map]
    | ok built =>
      rw [modify_eq_set hi]
      simp only [step, hneeded, Except.map, Operation.change, hn, Bool.false_eq_true, ↓reduceIte]

theorem step_permit_nodes (r : Registry σ μ V) (i : Nat) :
    (r.step (.permit i : Operation σ μ V ε)).nodes =
      r.nodes.modify i (Operation.permit i : Operation σ μ V ε).change := by
  rcases permit_cases r i with ⟨hrefused, hbusy⟩ | ⟨n, cs, hi, -, hgranted⟩
  · have hsame : ∀ x, r.nodes[i]? = some x →
        (Operation.permit i : Operation σ μ V ε).change x = x := by
      rintro ⟨n, cs⟩ hi
      have hn := hbusy n cs hi
      cases n
      cases hn
      rfl
    rw [modify_same hsame]
    simp only [step, hrefused]
  · rw [modify_eq_set hi]
    simp only [step, hgranted, Operation.change]

/-- All that an operation does to nodes. -/
theorem step_nodes (r : Registry σ μ V) (op : Operation σ μ V ε) :
    (r.step op).nodes = (match r.target op with
      | none => r.nodes
      | some i => r.nodes.modify i op.change) ++ op.newborn := by
  cases op with
  | make kind state terminal => rfl
  | record i score => exact (List.append_nil _).symm
  | absorb i s => exact (List.append_nil _).symm
  | expand i build => exact (step_expand_nodes r i build).trans (List.append_nil _).symm
  | adopt i grafted => exact (List.append_nil _).symm
  | permit i => exact (step_permit_nodes r i).trans (List.append_nil _).symm
  | drop k =>
    simp only [step, drop, target, Operation.newborn, List.append_nil]
    rcases r.permits[k]? with _ | _ | i <;> rfl

theorem step_nodes_length (r : Registry σ μ V) (op : Operation σ μ V ε) :
    (r.step op).nodes.length = r.nodes.length + op.newborn.length := by
  rw [step_nodes, List.length_append]
  cases r.target op with
  | none => rfl
  | some i => rw [List.length_modify]

theorem nodes_length (ops : List (Operation σ μ V ε)) : (run ops).nodes.length = made ops := by
  induction ops using List.reverseRecOn with
  | nil => rfl
  | append_singleton ops op ih =>
    rw [run_concat, step_nodes_length, ih, made, made, List.countP_append]
    cases op <;> rfl

theorem getElem?_step (h : r.nodes[i]? = some x) :
    (r.step op).nodes[i]? = some (if r.target op = some i then op.change x else x) := by
  have hi : i < r.nodes.length := (List.getElem?_eq_some_iff.1 h).1
  rw [step_nodes]
  cases r.target op with
  | none => simp [List.getElem?_append_left hi, h]
  | some j =>
    rw [List.getElem?_append_left (by simpa using hi), List.getElem?_modify, h]
    by_cases hj : j = i <;> simp [hj]

theorem newborn_of_getElem? (h : op.newborn[j]? = some y) :
    j = 0 ∧ ∃ kind state terminal, op = .make kind state terminal ∧
      y = (.fresh kind state terminal {}, []) := by
  cases op with
  | make kind state terminal =>
    cases j with
    | zero => exact ⟨rfl, kind, state, terminal, rfl, (Option.some.inj h).symm⟩
    | succ j => cases h
  | _ => cases h

/-- A node that is there after an operation was there before, or the operation made it. -/
theorem getElem?_step_cases (h : (r.step op).nodes[i]? = some y) :
    (∃ x, r.nodes[i]? = some x ∧ y = if r.target op = some i then op.change x else x) ∨
      i = r.nodes.length ∧ ∃ kind state terminal, op = .make kind state terminal ∧
        y = (.fresh kind state terminal {}, []) := by
  rcases Nat.lt_or_ge i r.nodes.length with hi | hi
  · have hx : r.nodes[i]? = some r.nodes[i] := List.getElem?_eq_getElem hi
    exact .inl ⟨_, hx, Option.some.inj (h.symm.trans (getElem?_step hx))⟩
  · rw [step_nodes, List.getElem?_append_right (by cases r.target op <;> simpa using hi)] at h
    obtain ⟨hlast, kind, state, terminal, rfl, hy⟩ := newborn_of_getElem? h
    refine .inr ⟨?_, kind, state, terminal, rfl, hy⟩
    simp only [target] at hlast
    omega

theorem Evolves.of_target (hx : Budding x) (h : r.target op = some i) :
    Evolves i [op] x (op.change x) := by
  obtain ⟨n, cs⟩ := x
  cases op with
  | make kind state terminal => cases h
  | record j score =>
    cases h
    exact .single rfl rfl rfl (by simp [Node.record, Stats.record]) (by simp [Node.record])
      (by simp) hx
  | absorb j s =>
    cases h
    exact .single rfl rfl rfl (by simp [Node.absorb, Stats.absorb]) (by simp [Node.absorb])
      (by simp) hx
  | expand j build =>
    cases h
    cases build with
    | error e => exact .single rfl rfl rfl (by simp) (by simp) (by simp) hx
    | ok built =>
      cases hn : n.expanded with
      | true =>
        simp only [Operation.change, hn, ↓reduceIte]
        exact .single rfl rfl rfl (by simp) (by simp [hn]) (by simp) hx
      | false =>
        simp only [Operation.change, hn, Bool.false_eq_true, ↓reduceIte]
        exact .single rfl rfl rfl (by simp) (by simp) (by simp [hn]) (by simp [Budding])
  | adopt j grafted =>
    cases h
    refine .single rfl rfl rfl (by simp [Node.adopt]) ?_ (by simp [Node.adopt]) ?_
    · cases hn : n.expanded with
      | true => simp [Node.adopt, hn]
      | false =>
        obtain rfl : cs = [] := hx hn
        simp [Node.adopt, hn]
    · simp [Node.adopt, Budding]
  | permit j =>
    cases h
    exact .single rfl rfl rfl (by simp) (by simp) (by simp) hx
  | drop k =>
    exact .single rfl rfl rfl (by simp [Node.release]) (by simp [Node.release]) (by simp) hx

theorem evolves_run (hx : Budding x) (h : r.nodes[i]? = some x) (ops : List (Operation σ μ V ε)) :
    ∃ y, (ops.foldl step r).nodes[i]? = some y ∧ Evolves i ops x y := by
  induction ops generalizing r x with
  | nil => exact ⟨x, h, .refl i hx⟩
  | cons op ops ih =>
    obtain ⟨y, hy, hstep⟩ : ∃ y, (r.step op).nodes[i]? = some y ∧ Evolves i [op] x y := by
      refine ⟨_, getElem?_step h, ?_⟩
      split
      · exact .of_target hx ‹_›
      · exact .of_other hx ‹_›
    obtain ⟨z, hz, hrest⟩ := ih hstep.budding hy
    exact ⟨z, hz, hstep.trans hrest⟩

end

end GameSearch.TreeSearch.Registry
