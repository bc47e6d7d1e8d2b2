import GameSearch.Proofs.TreeSearch.History
import GameSearch.Proofs.TreeSearch.Subtree

/-!
# GameSearch.Proofs.TreeSearch.Parents

The links of the nodes of a search tree to their parents. A tree is linked if every child is at
home below its parent. The place of a node is then that of the root with the path to the node
behind it, so no two nodes share a place (`Linked.place`), and the link of a node gives the place
of the node one step up its path (`Linked.parent`).

* `expand_linked`, `graft_linked`, `merge_linked`: children are made, copied and adopted with the
  links that they need.
* `History.linked`: so the trees that any steps lead to are linked.
-/

namespace GameSearch.TreeSearch

variable {σ μ α V γ : Type} {t u : Tree σ μ V} {path : Path}

/-- Every child is at home below the node, in the order of the children. -/
def AtHome (t : Tree σ μ V) : Prop :=
  ∀ i c, t.children[i]? = some c → c.label.home = t.label.home.child i

abbrev Tree.Linked (t : Tree σ μ V) : Prop := t.Every AtHome

theorem atHome_reads : Tree.Reads Node.home (AtHome : Tree σ μ V → Prop) := by
  intro n cs cs' hsame h i c hc
  have hhome := congrArg (·[i]?) hsame
  simp only [List.getElem?_map, show cs'[i]? = some c from hc, Option.map_some] at hhome
  obtain ⟨d, hd, hhome⟩ := Option.map_eq_some_iff.1 hhome.symm
  exact hhome.symm.trans (h i d hd)

namespace Tree.Linked

theorem place (h : t.Linked) (hu : t.get? path = some u) :
    u.label.home.place = t.label.home.place ++ path := by
  induction path generalizing t with
  | nil =>
    cases hu
    exact (List.append_nil _).symm
  | cons i path ih =>
    obtain ⟨c, hc, hu⟩ := Tree.get?_cons_eq_some.1 hu
    rw [ih (h.child (List.mem_of_getElem? hc)) hu, h.here i c hc, Home.child, List.append_assoc]
    rfl

theorem parent {i : Nat} (h : t.Linked) (hu : t.get? (path ++ [i]) = some u) :
    ∃ v, t.get? path = some v ∧ u.label.home.parent = some v.label.home.place := by
  rw [Tree.get?_append] at hu
  obtain ⟨v, hv, hu⟩ := Option.bind_eq_some_iff.1 hu
  obtain ⟨c, hc, hu⟩ := Tree.get?_cons_eq_some.1 hu
  cases hu
  exact ⟨v, hv, by rw [(h.get? hv).here i u hc, Home.child]⟩

end Tree.Linked

/-! ## Expansion -/

namespace Setup

variable [Utility V] {p : Setup σ μ α V} {s : σ} {home : Home}

theorem unvisited_linked (p : Setup σ μ α V) (s : σ) (home : Home) : (p.unvisited s home).Linked :=
  .node nofun (by simp)

variable [DecidableEq σ]

theorem Committed.linked (h : p.Committed s home t) : t.Linked ∧ t.label.home = home := by
  obtain ⟨houtcomes, hne⟩ := h
  refine ⟨.node (fun i c hc => ?_) fun c hc => ?_, rfl⟩
  · rw [Tree.children, List.getElem?_mapIdx] at hc
    obtain ⟨s', _, rfl⟩ := Option.map_eq_some_iff.1 hc
    rfl
  · obtain ⟨i, _, rfl⟩ := List.mem_mapIdx.1 hc
    exact unvisited_linked p _ _

theorem expand_linked {grown : Tree σ μ V} {asked : Nat} (hshaped : t.Shaped p.game p.agent)
    (ht : t.Linked) (h : p.expand t = .ok (asked, grown)) :
    grown.Linked ∧ grown.label.home = t.label.home := by
  rcases expand_cases hshaped h with ⟨rfl, _⟩ | ⟨_, _, _, _, ts, hchoices, rfl⟩
  · exact ⟨ht, rfl⟩
  · obtain ⟨_, _, _, _, hall⟩ := choices_ok hchoices
    refine ⟨.node (fun i c hc => (hall i c hc).linked.2) fun c hc => ?_, rfl⟩
    obtain ⟨i, hi⟩ := List.getElem?_of_mem hc
    exact (hall i c hi).linked.1

end Setup

/-! ## Copies and sums -/

@[simp] theorem graft_home (home : Home) (t : Tree σ μ V) : (graft home t).label.home = home := by
  cases t
  rw [graft_node]
  rfl

theorem graft_linked (home : Home) (t : Tree σ μ V) : (graft home t).Linked := by
  induction t using Tree.induction generalizing home with
  | node n cs ih =>
    rw [graft_node]
    refine .node (fun i c hc => ?_) fun c hc => ?_
    · rw [Tree.children, getElem?_graftAll, Nat.zero_add] at hc
      obtain ⟨d, _, rfl⟩ := Option.map_eq_some_iff.1 hc
      exact graft_home _ d
    · obtain ⟨k, d, hd, rfl⟩ := mem_graftAll hc
      exact ih d hd _

section

variable [DecidableEq σ] [DecidableEq μ] [Utility V]

@[simp] theorem merge_home (t u : Tree σ μ V) : (merge t u).label.home = t.label.home := by
  cases t
  cases u
  rw [merge_node]
  rfl

theorem kept_homes {ours theirs : List (Tree σ μ V)} {parent : Home} {i : Nat} :
    (mergeChildren parent i ours theirs).1.map (·.label.home) = ours.map (·.label.home) := by
  induction theirs generalizing ours i with
  | nil => rfl
  | cons t rest ih =>
    simp only [mergeChildren]
    split
    · rw [ih, Tree.map_modify_of_eq fun u _ => merge_home u t]
    · exact ih

/-- What is added to a linked tree is linked to it, whatever it was linked to before. -/
theorem merge_linked (h : t.Linked) (u : Tree σ μ V) : (merge t u).Linked := by
  induction u using Tree.induction generalizing t with
  | node m theirs ih =>
    obtain ⟨n, ours⟩ := t
    rw [merge_node]
    refine .node (fun i c hc => ?_) fun c hc => ?_
    · change c.label.home = n.home.child i
      have hhomes : (mergeChildren n.home ours.length ours theirs).1.map (·.label.home) =
          ours.map (·.label.home) := kept_homes
      have hlength : (mergeChildren n.home ours.length ours theirs).1.length = ours.length := by
        simpa using congrArg List.length hhomes
      rw [Tree.children, List.getElem?_append, hlength] at hc
      split at hc
      · exact atHome_reads hhomes h.here i c hc
      · rename_i hi
        obtain ⟨v, _, rfl⟩ := getElem?_grafted hc
        rw [graft_home, Nat.add_sub_cancel' (Nat.le_of_not_lt hi)]
    · rcases List.mem_append.1 hc with hc | hc
      · exact forall_kept (R := Tree.Linked) (fun v hv => h.child hv)
          (fun w hw v hv _ => ih w hw hv) c hc
      · obtain ⟨home, v, _, rfl⟩ := mem_grafted hc
        exact graft_linked home v

end

/-! ## Iterations -/

namespace Session

theorem relabel_busy_linked {busy : Bool} (h : t.Linked) :
    (t.relabel (fun n => { n with busy := busy }) path).Linked :=
  h.relabel atHome_reads (fun _ _ hn => hn) fun _ => rfl

variable [DecidableEq σ] [Utility V] [RandomSource γ] {p : Setup σ μ α V} {x : Session σ μ V γ}

theorem workAt_linked (hshaped : x.root.Shaped p.game p.agent) (h : x.root.Linked) (path : Path) :
    (x.workAt p path).2.root.Linked := by
  have hgrow : ∀ {u grown : Tree σ μ V} {asked : Nat}, x.root.get? path = some u →
      p.expand u = .ok (asked, grown) → (x.root.modify (fun _ => grown) path).Linked := by
    intro u grown asked hu he
    refine h.modify atHome_reads fun u' hu' => ?_
    cases hu.symm.trans hu'
    exact p.expand_linked (hshaped.get? hu) (h.get? hu) he
  generalize hy : x.workAt p path = y
  cases hy ▸ workAt_cases p path x with
  | missing => exact h
  | unexpanded => exact h
  | unscored hu he _ => exact hgrow hu he
  | completed hu he _ => exact (hgrow hu he).record atHome_reads (fun _ _ hn => hn) fun _ => rfl

theorem iterate_linked (p : Setup σ μ α V) (locking : Locking) :
    Keeps p locking γ (fun t => t.Rooted p.game p.agent ∧ t.Linked) fun _ _ => True := by
  rintro x ⟨hrooted, h⟩ _
  refine ⟨iterate_rooted p x hrooted trivial, ?_⟩
  cases hs : select p.policy locking x.root with
  | none =>
    rw [iterate_of_select_none hs]
    exact h
  | some chosen =>
    rw [iterate_of_select_some hs]
    have hshaped := setBusy_shaped true chosen.guard hrooted.1
    have hbusy : (x.setBusy true chosen.guard).root.Linked :=
      setBusy_keeps true chosen.guard h fun _ => relabel_busy_linked h
    have hwork := workAt_linked hshaped hbusy chosen.target
    exact setBusy_keeps false chosen.guard hwork fun _ => relabel_busy_linked hwork

end Session

theorem History.linked [DecidableEq σ] [DecidableEq μ] [Utility V] [RandomSource γ]
    (game : Game σ μ α) (agent : α) (h : History σ μ V γ) :
    (h.session game agent).root.Linked :=
  root_induction (J := Tree.Linked) (fun p s => p.unvisited_linked s {})
    (fun p _ _ locking _ => Session.iterate_linked p locking)
    (fun _ _ _ => Session.relabel_busy_linked) (fun _ _ _ hc hu h => (h.child hc).child hu)
    (fun _ u _ _ _ h _ => merge_linked h u) h

end GameSearch.TreeSearch
