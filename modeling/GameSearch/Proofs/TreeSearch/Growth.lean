import GameSearch.Proofs.TreeSearch.Answers
import GameSearch.Proofs.TreeSearch.Worker

/-!
# GameSearch.Proofs.TreeSearch.Growth

One step of a worker, whatever the others have done before it. A tree only grows (`Grew`), so what
a worker has found out about it between two of its steps still holds (`Task.Sound.mono`). From a
state that the rules have no gaps below, each step is one that can be taken, and it keeps what a
search needs of the tree (`Standing`). It changes the permits as the worker's task says, and takes
only a permit that nobody holds (`Task.advance_sound`).
-/

namespace GameSearch.TreeSearch

variable {σ μ α V γ : Type} {t u v : Tree σ μ V} {path : Path}

/-! ## Trees that grow -/

/-- A score may be recorded at the node. -/
def Scorable (t : Tree σ μ V) : Prop :=
  t.label.terminal = true ∨ t.children ≠ []

/-- All nodes are still there, and scores may be recorded where they could be. -/
def Grew (t u : Tree σ μ V) : Prop :=
  ∀ path a, t.get? path = some a → ∃ b, u.get? path = some b ∧ (Scorable a → Scorable b)

theorem Grew.refl (t : Tree σ μ V) : Grew t t := fun _ a ha => ⟨a, ha, id⟩

theorem Grew.trans (h : Grew t u) (h' : Grew u v) : Grew t v := by
  intro path a ha
  obtain ⟨b, hb, hab⟩ := h path a ha
  obtain ⟨c, hc, hbc⟩ := h' path b hb
  exact ⟨c, hc, hbc ∘ hab⟩

theorem Grew.scorable (h : Grew t u) : Scorable t → Scorable u := by
  obtain ⟨b, hb, hscorable⟩ := h [] t rfl
  cases hb
  exact hscorable

theorem Scorable.root (h : Scorable u) (hu : t.get? path = some u) : Scorable t := by
  cases path with
  | nil =>
    cases hu
    exact h
  | cons i path =>
    obtain ⟨c, hc, -⟩ := Tree.get?_cons_eq_some.1 hu
    exact .inr (List.ne_nil_of_mem (List.mem_of_getElem? hc))

theorem Grew.of_children (hterminal : u.label.terminal = t.label.terminal)
    (hchildren : u.children = t.children ∨ t.children = []) : Grew t u := by
  intro path a ha
  cases path with
  | nil =>
    cases ha
    refine ⟨u, rfl, fun h => h.imp hterminal.trans fun hne => ?_⟩
    rcases hchildren with hsame | hnil
    · rwa [hsame]
    · exact absurd hnil hne
  | cons i path =>
    obtain ⟨c, hc, ha⟩ := Tree.get?_cons_eq_some.1 ha
    rcases hchildren with hsame | hnil
    · exact ⟨a, Tree.get?_cons_eq_some.2 ⟨c, hsame ▸ hc, ha⟩, id⟩
    · rw [hnil] at hc
      cases hc

theorem Grew.modify {f : Tree σ μ V → Tree σ μ V}
    (hf : ∀ u, t.get? path = some u → Grew u (f u)) : Grew t (t.modify f path) := by
  induction path generalizing t with
  | nil => exact hf t rfl
  | cons i path ih =>
    obtain ⟨n, cs⟩ := t
    intro below a ha
    cases below with
    | nil =>
      cases ha
      refine ⟨_, rfl, fun h => h.imp_right fun hne hnil => hne (List.modify_eq_nil_iff.1 hnil)⟩
    | cons j below =>
      obtain ⟨c, hc, hbelow⟩ := Tree.get?_cons_eq_some.1 ha
      by_cases hij : i = j
      · subst hij
        have hchild := ih fun u hu => hf u (Tree.get?_cons_eq_some.2 ⟨c, hc, hu⟩)
        obtain ⟨b, hb, hab⟩ := hchild below a hbelow
        refine ⟨b, Tree.get?_cons_eq_some.2 ⟨_, ?_, hb⟩, hab⟩
        have hc : cs[i]? = some c := hc
        simp [Tree.modify, Tree.children, hc]
      · refine ⟨a, Tree.get?_cons_eq_some.2 ⟨c, ?_, hbelow⟩, id⟩
        have hc : cs[j]? = some c := hc
        simpa [Tree.modify, Tree.children, List.getElem?_modify, hij] using hc

theorem Grew.relabel {f : Node σ μ V → Node σ μ V} (hf : ∀ n, (f n).terminal = n.terminal) :
    Grew t (t.relabel f path) :=
  .modify fun u _ => by
    obtain ⟨n, cs⟩ := u
    exact .of_children (hf n) (.inl rfl)

theorem Grew.setBusy (busy : Bool) (guard : Option Path) (x : Session σ μ V γ) :
    Grew x.root (x.setBusy busy guard).root :=
  Session.setBusy_keeps busy guard (.refl x.root) fun _ => .relabel fun _ => rfl

/-! ## Permits -/

theorem isBusy_relabel_busy (busy : Bool) (guard : Path) (t : Tree σ μ V) (path : Path) :
    isBusy (t.relabel (fun n => { n with busy := busy }) guard) path =
      if path = guard then (t.get? guard).isSome && busy else isBusy t path := by
  induction guard generalizing t path with
  | nil =>
    obtain ⟨n, cs⟩ := t
    cases path <;> rfl
  | cons i guard ih =>
    obtain ⟨n, cs⟩ := t
    cases path with
    | nil => rfl
    | cons j path =>
      rw [isBusy_cons, isBusy_cons]
      by_cases hij : i = j
      · subst hij
        cases hc : cs[i]? with
        | none => simp [Tree.relabel, Tree.modify, Tree.children, Tree.get?, hc]
        | some c =>
          have hchild := ih c path
          rw [Tree.relabel] at hchild
          simp [Tree.relabel, Tree.modify, Tree.children, Tree.get?, hc, hchild]
      · have hne : ¬(j :: path = i :: guard) := fun h => hij (List.cons.inj h).1.symm
        rw [if_neg hne]
        simp [Tree.relabel, Tree.modify, Tree.children, hij]

theorem isBusy_setBusy (busy : Bool) (guard : Option Path) (x : Session σ μ V γ) (path : Path) :
    isBusy (x.setBusy busy guard).root path =
      if guard = some path then (x.root.get? path).isSome && busy else isBusy x.root path := by
  cases guard with
  | none => rfl
  | some guard =>
    simp only [Session.setBusy, isBusy_relabel_busy, Option.some.injEq, eq_comm (a := path)]
    split
    · rename_i heq
      rw [heq]
    · rfl

/-! ## Steps -/

namespace Step

variable {s : Step} {c : Selection} {policy : Policy V} {locking : Locking}

def Placed (t : Tree σ μ V) (s : Step) : Prop :=
  ∀ path, s = .target path → ∃ u, t.get? path = some u

theorem Placed.mono (h : s.Placed t) (hgrew : Grew t u) : s.Placed u := by
  intro path hpath
  obtain ⟨a, ha⟩ := h path hpath
  obtain ⟨b, hb, -⟩ := hgrew path a ha
  exact ⟨b, hb⟩

theorem look_placed (policy : Policy V) (t : Tree σ μ V) : (look policy t).Placed t := by
  intro path hpath
  unfold look at hpath
  split at hpath
  · cases hpath
    exact ⟨t, rfl⟩
  · obtain ⟨n, cs⟩ := t
    obtain ⟨-, -, u, -, hu, -⟩ := unvisited_of_step hpath
    exact ⟨u, hu⟩

theorem reserve_eq_some (h : s.reserve policy locking t = some c) :
    s.path? policy t = some c.target ∧
      (c.guard = none ∨ c.guard = some s.guard ∧ isBusy t s.guard = false) := by
  unfold reserve at h
  split at h
  · cases h
  · rename_i path hpath
    split at h
    · cases h
      exact ⟨hpath, .inl rfl⟩
    · split at h
      · cases h
      · rename_i hfree
        cases h
        exact ⟨hpath, .inr ⟨rfl, (Bool.or_eq_false_iff.1 (Bool.eq_false_iff.2 hfree)).1⟩⟩

end Step

/-! ## Scores -/

section

variable [Utility V]

theorem Tree.record_nil (score : V) (t : Tree σ μ V) :
    t.record score [] = t.relabel (·.record score) [] := by
  cases t
  rfl

theorem Grew.record (score : V) (path : Path) (t : Tree σ μ V) : Grew t (t.record score path) := by
  induction path generalizing t with
  | nil =>
    obtain ⟨n, cs⟩ := t
    exact .of_children rfl (.inl rfl)
  | cons i path ih =>
    rw [← Tree.record_eq]
    have hbelow : Grew t (t.recordBelow score (i :: path)) := .modify fun u _ => ih u
    exact hbelow.trans (.relabel fun _ => rfl)

theorem Grew.recordBelow (score : V) (path : Path) (t : Tree σ μ V) :
    Grew t (t.recordBelow score path) := by
  cases path with
  | nil => exact .refl t
  | cons i path => exact .modify fun u _ => .record score path u

theorem isBusy_recordBelow (score : V) (path : Path) (t : Tree σ μ V) :
    ∀ below, isBusy (t.recordBelow score path) below = isBusy t below := by
  cases path with
  | nil => exact fun _ => rfl
  | cons i path => exact isBusy_modify fun u _ => isBusy_record score path u

end

/-! ## The tree that workers are at -/

variable [DecidableEq σ] {p : Setup σ μ α V} {s : σ} {x : Session σ μ V γ}

theorem Grew.expand [Utility V] {grown : Tree σ μ V} {asked : Nat} (ht : t.Shaped p.game p.agent)
    (hu : t.get? path = some u) (he : p.expand u = .ok (asked, grown)) :
    Grew t (t.modify (fun _ => grown) path) := by
  obtain ⟨⟨e, hlabel⟩, -, hchildren⟩ := p.expand_ready (ht.get? hu) he
  refine .modify fun u' hu' => ?_
  cases hu.symm.trans hu'
  exact .of_children (by rw [hlabel]) (hchildren.imp_right And.left)

/-- What a search from `s` needs of its tree, also while others hold permits. -/
structure Standing (p : Setup σ μ α V) (s : σ) (t : Tree σ μ V) : Prop where
  rooted : t.Rooted p.game p.agent
  branched : t.Every Branched
  state_eq : t.state = s

namespace Standing

theorem of_fit (h : Fit p s t) : Standing p s t := ⟨h.ready.rooted, h.ready.branched, h.state_eq⟩

theorem fit (h : Standing p s t) (hfree : ∀ path, isBusy t path = false) : Fit p s t :=
  ⟨⟨h.rooted, h.branched, hfree⟩, h.state_eq⟩

theorem sensible (hagent : p.agent ∈ p.game.agents) (h : Standing p s t) (hs : Playable p s) :
    t.Every (Sensible p) :=
  Sensible.every hagent h.rooted.1 (.of_max (h.state_eq ▸ hs) h.rooted.2)

theorem of_shaped (h : Standing p s t) (hu : u.Shaped p.game p.agent)
    (hrole : u.label.role = t.label.role) (hbranched : u.Every Branched) : Standing p s u := by
  obtain ⟨hkind, hstate⟩ := Node.role_eq_iff.1 hrole
  exact ⟨⟨hu, hkind.trans h.rooted.2⟩, hbranched, hstate.trans h.state_eq⟩

theorem setBusy (h : Standing p s x.root) (busy : Bool) (guard : Option Path) :
    Standing p s (x.setBusy busy guard).root :=
  h.of_shaped (Session.setBusy_shaped busy guard h.rooted.1) (Session.setBusy_role busy guard x)
    (Session.setBusy_branched busy guard h.branched)

variable [Utility V]

theorem expand {grown : Tree σ μ V} {asked : Nat} (h : Standing p s t)
    (hu : t.get? path = some u) (he : p.expand u = .ok (asked, grown)) :
    Standing p s (t.modify (fun _ => grown) path) := by
  obtain ⟨hshaped, hrole⟩ := p.grow_shaped h.rooted.1 hu he
  exact h.of_shaped hshaped hrole (grow_branched h.rooted.1 h.branched hu he)

theorem recordRoot (score : V) (h : Standing p s t) (hscorable : Scorable t) :
    Standing p s (t.relabel (·.record score) []) := by
  rw [← Tree.record_nil]
  exact h.of_shaped (h.rooted.1.record formed_reads (fun _ _ hn => hn.congr rfl rfl rfl)
    fun _ => rfl) (Tree.view_record (fun _ => rfl) t) (record_branched h.branched rfl hscorable)

theorem recordBelow (score : V) (h : Standing p s t) (hu : t.get? path = some u)
    (hscorable : Scorable u) : Standing p s (t.recordBelow score path) := by
  cases path with
  | nil => exact h
  | cons i path =>
    obtain ⟨c, hc, hu⟩ := Tree.get?_cons_eq_some.1 hu
    have hchild : t.get? [i] = some c := Tree.get?_cons_eq_some.2 ⟨c, hc, rfl⟩
    refine h.of_shaped (h.rooted.1.modify formed_reads fun c' hc' => ⟨?_, ?_⟩) ?_
      (h.branched.modify (@branched_reads σ μ V) fun c' hc' => ⟨?_, rfl⟩)
    · exact (h.rooted.1.get? hc').record formed_reads (fun _ _ hn => hn.congr rfl rfl rfl)
        fun _ => rfl
    · exact Tree.view_record (fun _ => rfl) c'
    · exact Tree.view_modify fun c' _ => Tree.view_record (fun _ => rfl) c'
    · cases hchild.symm.trans hc'
      exact record_branched (h.branched.get? hchild) hu hscorable

end Standing

/-- The node that the search comes to is in the tree, and so is the one above it whose permit is
needed. -/
theorem Step.path?_placed [Utility V] {s : Step} {policy : Policy V} (ht : t.Shaped p.game p.agent)
    (hs : s.Placed t) (h : s.path? policy t = some path) :
    (∃ u, t.get? path = some u) ∧ ∃ v, t.get? s.guard = some v := by
  cases s with
  | stuck => cases h
  | target path' =>
    cases h
    obtain ⟨u, hu⟩ := hs path rfl
    cases path with
    | nil => exact ⟨⟨u, hu⟩, t, rfl⟩
    | cons i rest =>
      obtain ⟨c, hc, -⟩ := Tree.get?_cons_eq_some.1 hu
      exact ⟨⟨u, hu⟩, c, Tree.get?_cons_eq_some.2 ⟨c, hc, rfl⟩⟩
  | descend i =>
    obtain ⟨rest, hrest, rfl⟩ := Option.map_eq_some_iff.1 h
    rw [descendInto_eq] at hrest
    obtain ⟨c, hc, hrest⟩ := Option.bind_eq_some_iff.1 hrest
    obtain ⟨u, hu⟩ := (descend_walk (ht.child (List.mem_of_getElem? hc)) hrest).exists_target
    exact ⟨⟨u, Tree.get?_cons_eq_some.2 ⟨c, hc, hu⟩⟩, c, Tree.get?_cons_eq_some.2 ⟨c, hc, rfl⟩⟩

/-! ## Tasks -/

namespace Task

def guard? : Task σ μ V → Option Path
  | .expand c | .simulate c _ | .record c _ | .recordRoot c _ | .leave c => c.guard
  | _ => none

/-- What a worker may rely on before it does the task. -/
def Sound (p : Setup σ μ α V) (t : Tree σ μ V) : Task σ μ V → Prop
  | .reserve s => s.Placed t
  | .expand c => ∃ u, t.get? c.target = some u
  | .simulate c n => (∃ u, t.get? c.target = some u ∧ Scorable u) ∧
      ∃ u, Formed p.game p.agent u ∧ Sensible p u ∧ u.label = n
  | .record c _ => ∃ u, t.get? c.target = some u ∧ Scorable u
  | .recordRoot _ _ => Scorable t
  | .finished result => result = .ok ()
  | _ => True

variable {task next : Task σ μ V} {y : Session σ μ V γ}

theorem Sound.mono (h : task.Sound p t) (hgrew : Grew t u) : task.Sound p u := by
  have hnode : ∀ {path}, (∃ a, t.get? path = some a ∧ Scorable a) →
      ∃ b, u.get? path = some b ∧ Scorable b := by
    rintro path ⟨a, ha, hscorable⟩
    obtain ⟨b, hb, hab⟩ := hgrew path a ha
    exact ⟨b, hb, hab hscorable⟩
  cases task with
  | idle => trivial
  | look => trivial
  | reserve s => exact Step.Placed.mono h hgrew
  | expand c =>
    obtain ⟨a, ha⟩ := h
    obtain ⟨b, hb, -⟩ := hgrew _ a ha
    exact ⟨b, hb⟩
  | simulate c n => exact ⟨hnode h.1, h.2⟩
  | record c score => exact hnode h
  | recordRoot c score => exact hgrew.scorable h
  | leave c => trivial
  | finished result => exact h

/-- What a step of a worker at a tree leads to. -/
structure Advanced (p : Setup σ μ α V) (s : σ) (task : Task σ μ V) (t : Tree σ μ V)
    (next : Task σ μ V) (u : Tree σ μ V) : Prop where
  standing : Standing p s u
  grew : Grew t u
  sound : next.Sound p u
  /-- The permits of the others are as before. -/
  permits : ∀ path, isBusy u path = true ↔
    next.guard? = some path ∨ isBusy t path = true ∧ task.guard? ≠ some path
  /-- A permit that is taken was free. -/
  taken : ∀ path, next.guard? = some path → task.guard? = some path ∨ isBusy t path = false

theorem Advanced.quiet (hu : Standing p s u) (hgrew : Grew t u) (hnext : next.Sound p u)
    (hguard : next.guard? = task.guard?) (hbusy : ∀ path, isBusy u path = isBusy t path)
    (hheld : ∀ path, task.guard? = some path → isBusy t path = true) :
    Advanced p s task t next u where
  standing := hu
  grew := hgrew
  sound := hnext
  permits path := by
    rw [hbusy, hguard]
    by_cases hpath : task.guard? = some path
    · simp [hpath, hheld path hpath]
    · simp [hpath]
  taken path hpath := .inl (hguard ▸ hpath)

theorem Advanced.takes {guard : Option Path} (hx : Standing p s x.root) (htask : task.guard? = none)
    (hnext : next.guard? = guard) (hsound : next.Sound p (x.setBusy true guard).root)
    (hfree : ∀ path, guard = some path → isBusy x.root path = false ∧ ∃ v, x.root.get? path = some v) :
    Advanced p s task x.root next (x.setBusy true guard).root where
  standing := hx.setBusy true guard
  grew := .setBusy true guard x
  sound := hsound
  permits path := by
    rw [isBusy_setBusy, htask, hnext]
    by_cases hpath : guard = some path
    · obtain ⟨-, v, hv⟩ := hfree path hpath
      simp [hpath, hv]
    · simp [hpath]
  taken path hpath := .inr (hfree path (hnext.symm.trans hpath)).1

theorem Advanced.returns {guard : Option Path} (hx : Standing p s x.root)
    (htask : task.guard? = guard) (hnext : next.guard? = none)
    (hsound : next.Sound p (x.setBusy false guard).root) :
    Advanced p s task x.root next (x.setBusy false guard).root where
  standing := hx.setBusy false guard
  grew := .setBusy false guard x
  sound := hsound
  permits path := by
    rw [isBusy_setBusy, htask, hnext]
    by_cases hpath : guard = some path <;> simp [hpath]
  taken path hpath := nomatch hnext.symm.trans hpath

variable [Utility V] [RandomSource γ] {locking : Locking} {told : Bool} {asked : Nat}

theorem advance_sound (hagent : p.agent ∈ p.game.agents) (hs : Playable p s)
    (hx : Standing p s x.root) (htask : task.Sound p x.root)
    (hheld : ∀ path, task.guard? = some path → isBusy x.root path = true)
    (h : task.advance p locking told x = (next, asked, y)) :
    Advanced p s task x.root next y.root := by
  cases task with
  | idle =>
    cases h
    cases told with
    | true => exact .quiet hx (.refl _) rfl rfl (fun _ => rfl) hheld
    | false => exact .quiet hx (.refl _) trivial rfl (fun _ => rfl) hheld
  | look =>
    cases h
    exact .quiet hx (.refl _) (Step.look_placed p.policy x.root) rfl (fun _ => rfl) hheld
  | reserve r =>
    simp only [advance] at h
    split at h
    · cases h
      exact .quiet hx (.refl _) trivial rfl (fun _ => rfl) hheld
    · rename_i c hc
      cases h
      obtain ⟨hpath, hguard⟩ := Step.reserve_eq_some hc
      obtain ⟨⟨u, hu⟩, hplace⟩ := Step.path?_placed hx.rooted.1 htask hpath
      obtain ⟨v, hv, -⟩ := Grew.setBusy true c.guard x _ u hu
      refine .takes hx rfl rfl ⟨v, hv⟩ fun path hsome => ?_
      rcases hguard with hnone | ⟨hg, hfree⟩
      · cases hnone.symm.trans hsome
      · cases hg.symm.trans hsome
        exact ⟨hfree, hplace⟩
  | expand c =>
    obtain ⟨u, hu⟩ := htask
    obtain ⟨⟨queries, grown⟩, he⟩ := Setup.expand_answers hagent (hx.rooted.1.get? hu).here
      ((hx.sensible hagent hs).get? hu).here
    simp only [advance, hu, he] at h
    cases h
    refine .quiet (hx.expand hu he) (.expand hx.rooted.1 hu he) ⟨⟨grown, ?_, ?_⟩, u, ?_, ?_, rfl⟩
      rfl (Session.isBusy_grow hx.rooted.1 hu he) hheld
    · rw [Tree.get?_modify, hu]
      rfl
    · exact (p.expand_ready (hx.rooted.1.get? hu) he).2.1
    · exact (hx.rooted.1.get? hu).here
    · exact ((hx.sensible hagent hs).get? hu).here
  | simulate c n =>
    obtain ⟨hscorable, u, hformed, hsensible, rfl⟩ := htask
    obtain ⟨⟨score, queries⟩, counters, g, hsimulate⟩ :=
      Setup.simulate_answers hagent hformed hsensible x.counters x.rng
    simp only [advance, hsimulate] at h
    cases h
    exact .quiet hx (.refl _) hscorable rfl (fun _ => rfl) hheld
  | record c score =>
    cases h
    obtain ⟨u, hu, hscorable⟩ := htask
    have hgrew := Grew.recordBelow score c.target x.root
    exact .quiet (hx.recordBelow score hu hscorable) hgrew (hgrew.scorable (hscorable.root hu)) rfl
      (isBusy_recordBelow score c.target x.root) hheld
  | recordRoot c score =>
    cases h
    refine .quiet (hx.recordRoot score htask) (.relabel fun _ => rfl) trivial rfl ?_ hheld
    exact fun path => (Tree.record_nil score x.root).symm ▸ isBusy_record score [] x.root path
  | leave c =>
    cases h
    exact .returns (x := { x with counters := x.counters.completed }) hx rfl rfl trivial
  | finished result =>
    cases h
    exact .quiet hx (.refl _) htask rfl (fun _ => rfl) hheld

end Task

end GameSearch.TreeSearch
