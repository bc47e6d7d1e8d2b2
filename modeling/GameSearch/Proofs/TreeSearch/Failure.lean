import GameSearch.Proofs.TreeSearch.LoneWorker

/-!
# GameSearch.Proofs.TreeSearch.Failure

What a failed iteration leaves behind. It changes no statistics and makes either no node or all
children of its target at once (`workAt_failed`). The walk of the next iteration does not see what
was made below a target without visits (`descend_grow`), so it ends at the same target. If the
target could not be expanded, nothing has changed at all and the next iteration fails in the same
way (`Blocked`); taking permits and giving them back does not help (`Searched.blocked`).

* `History.failure_harmless`: so it is whatever has happened to the session.
-/

namespace GameSearch.TreeSearch

variable {σ μ α V γ : Type} {t u grown : Tree σ μ V} {path target : Path}

/-! ## What a walk sees -/

theorem findIdx?_isUnvisited (cs : List (Tree σ μ V)) :
    cs.findIdx? isUnvisited = (cs.map Tree.stats).findIdx? Stats.isUnvisited := by
  rw [List.findIdx?_map]
  rfl

theorem findBelow_congr {cs ds : List (Tree σ μ V)}
    (h : ds.map (·.children.map Tree.stats) = cs.map (·.children.map Tree.stats)) :
    Tree.findBelow isUnvisited ds = Tree.findBelow isUnvisited cs := by
  induction cs generalizing ds with
  | nil =>
    obtain rfl : ds = [] := by simpa using h
    rfl
  | cons c rest ih =>
    cases ds with
    | nil => cases h
    | cons d ds =>
      obtain ⟨hd, hds⟩ := List.cons.inj h
      simp only [Tree.findBelow, findIdx?_isUnvisited, hd, ih hds]

theorem step_congr {policy : Policy V} {n m : Node σ μ V} {cs ds : List (Tree σ μ V)}
    (hkind : m.kind = n.kind) (hstats : m.stats = n.stats)
    (hcs : ds.map Tree.stats = cs.map Tree.stats)
    (hbelow : ds.map (·.children.map Tree.stats) = cs.map (·.children.map Tree.stats)) :
    step policy m ds = step policy n cs := by
  cases cs with
  | nil =>
    obtain rfl : ds = [] := by simpa using hcs
    rfl
  | cons c rest =>
    cases ds with
    | nil => cases hcs
    | cons d ds =>
      simp only [step, findIdx?_isUnvisited, hcs, findBelow_congr hbelow, hkind, hstats]

theorem step_congr_of_unvisited {policy : Policy V} {n : Node σ μ V} {cs ds : List (Tree σ μ V)}
    (hcs : ds.map Tree.stats = cs.map Tree.stats) (hc : ∃ c ∈ cs, c.visits = 0) :
    ∃ i, step policy n ds = .target [i] ∧ step policy n cs = .target [i] := by
  obtain ⟨c, hc, hunvisited⟩ := hc
  have hsome : ((cs.map Tree.stats).findIdx? Stats.isUnvisited).isSome = true := by
    rw [List.findIdx?_isSome, List.any_eq_true]
    exact ⟨c.stats, List.mem_map_of_mem hc, isUnvisited_iff.2 hunvisited⟩
  obtain ⟨i, hi⟩ := Option.isSome_iff_exists.1 hsome
  cases cs with
  | nil => cases hc
  | cons c rest =>
    cases ds with
    | nil => cases hcs
    | cons d ds => exact ⟨i, by simp only [step, findIdx?_isUnvisited, hcs, hi],
        by simp only [step, findIdx?_isUnvisited, hi]⟩

section

variable {policy : Policy V}

/-- Two subtrees that a walk from above cannot tell apart. -/
structure Alike (policy : Policy V) (t u : Tree σ μ V) : Prop where
  stats_eq : u.stats = t.stats
  below_eq : u.children.map Tree.stats = t.children.map Tree.stats
  walk_eq : descend policy u = descend policy t

theorem Alike.modify [Utility V] {f : Tree σ μ V → Tree σ μ V}
    (h : ∀ a, t.get? path = some a → Alike policy a (f a)) :
    Alike policy t (t.modify f path) := by
  induction path generalizing t with
  | nil => exact h t rfl
  | cons i path ih =>
    obtain ⟨n, cs⟩ := t
    have hchild : ∀ c, cs[i]? = some c → Alike policy c (c.modify f path) := fun c hc =>
      ih fun a ha => h a (Tree.get?_cons_eq_some.2 ⟨c, hc, ha⟩)
    have hcs := Tree.map_modify_of_eq (g := Tree.stats) fun c hc => (hchild c hc).stats_eq
    have hbelow := Tree.map_modify_of_eq (g := fun c : Tree σ μ V => c.children.map Tree.stats)
      fun c hc => (hchild c hc).below_eq
    have hinto : ∀ j, descendInto policy (cs.modify i (Tree.modify f path)) j =
        descendInto policy cs j := by
      intro j
      rw [descendInto_eq, descendInto_eq, List.getElem?_modify]
      by_cases hij : i = j
      · subst hij
        cases hc : cs[i]? with
        | none => rfl
        | some c => simpa using (hchild c hc).walk_eq
      · simp [hij]
    refine ⟨rfl, hcs, ?_⟩
    simp only [Tree.modify, descend, step_congr (m := n) rfl rfl hcs hbelow, hinto]

theorem Alike.grow {i : Nat} (hu : t.children[i]? = some u) (hunvisited : u.visits = 0)
    (hstats : grown.stats = u.stats) : Alike policy t (t.modify (fun _ => grown) [i]) := by
  obtain ⟨n, cs⟩ := t
  have hcs : (cs.modify i (fun _ => grown)).map Tree.stats = cs.map Tree.stats :=
    Tree.map_modify_of_eq fun c hc => by
      cases hu.symm.trans hc
      exact hstats
  have hwaiting : ∃ c ∈ cs, c.visits = 0 := ⟨u, List.mem_of_getElem? hu, hunvisited⟩
  obtain ⟨k, hk, hk'⟩ : ∃ k, step policy n (cs.modify i fun _ => grown) = .target [k] ∧
      step policy n cs = .target [k] := step_congr_of_unvisited hcs hwaiting
  refine ⟨rfl, hcs, ?_⟩
  have hmodify : Tree.modify (fun _ => grown) [i] (.node n cs) =
    .node n (cs.modify i fun _ => grown) := rfl
  simp only [hmodify, descend, hk, hk']

theorem descend_grow [Utility V] (h : descend policy t = some path) (hu : t.get? path = some u)
    (hunvisited : u.visits = 0) (hstats : grown.stats = u.stats) :
    descend policy (t.modify (fun _ => grown) path) = some path := by
  rcases path.eq_nil_or_concat with rfl | ⟨q, i, rfl⟩
  · cases hu
    have hgrown : isUnvisited grown = true := by
      rw [isUnvisited_iff, ← hunvisited]
      exact congrArg (fun s : Stats V => s.visits.toNat) hstats
    obtain ⟨n, cs⟩ := grown
    have hn : n.isUnvisited = true := hgrown
    simp only [Tree.modify, descend, hn, Bool.true_or, ↓reduceIte]
  · rw [List.concat_eq_append] at hu h ⊢
    obtain ⟨a, ha, hau⟩ := Tree.exists_above hu
    obtain ⟨c, hc, hcu⟩ := Tree.get?_cons_eq_some.1 hau
    cases hcu
    rw [Tree.modify_append, ← h]
    refine (Alike.modify fun a' ha' => ?_).walk_eq
    cases ha.symm.trans ha'
    exact .grow hc hunvisited hstats

theorem descend_relabel_busy [Utility V] (busy : Bool) (top : Path) (t : Tree σ μ V) :
    descend policy (t.relabel (fun n => { n with busy := busy }) top) = descend policy t := by
  refine (Alike.modify fun a _ => ?_).walk_eq
  obtain ⟨n, cs⟩ := a
  refine ⟨rfl, rfl, ?_⟩
  simp only [descend, step_congr (n := n) (m := { n with busy := busy }) rfl rfl rfl rfl]
  rfl

end

/-! ## What is left of a failed iteration -/

variable [Utility V] [DecidableEq σ]

/-- A node that had no children has all of them, with all that the replies lead to, and nobody has
visited any of it. -/
structure FullyExpanded (game : Game σ μ α) (agent : α) (t grown : Tree σ μ V) : Prop where
  bare : t.children = []
  kind_eq : t.label.kind = .max
  not_terminal : t.label.terminal = false
  not_expanded : t.label.expanded = false
  label_eq : grown.label = { t.label with expanded := true }
  conforms : ∀ path u, grown.get? path = some u → Conforms game agent u
  fresh : ∀ path u, path ≠ [] → grown.get? path = some u →
    u.label.stats = .none ∧ u.label.busy = false

theorem FullyExpanded.stats_eq {game : Game σ μ α} {agent : α}
    (h : FullyExpanded game agent t grown) : grown.stats = t.stats := by
  rw [Tree.stats, h.label_eq]
  rfl

theorem Setup.expand_fully {p : Setup σ μ α V} {asked : Nat} (ht : t.Shaped p.game p.agent)
    (h : p.expand t = .ok (asked, grown)) : grown = t ∨ FullyExpanded p.game p.agent t grown := by
  have hshaped := (p.expand_shaped ht h).1
  rcases p.expand_cases ht h with ⟨hsame, _⟩ | ⟨hbare, hk, hn, he, ts, hchoices, rfl⟩
  · exact .inl hsame
  · obtain ⟨_, _, _, _, hall⟩ := Setup.choices_ok hchoices
    refine .inr ⟨hbare, hk, hn, he, rfl,
      fun path u hu => Tree.Shaped.conforms (hshaped.get? hu), ?_⟩
    intro path u hne hu
    cases path with
    | nil => exact absurd rfl hne
    | cons i path =>
      obtain ⟨c, hc, hu⟩ := Tree.get?_cons_eq_some.1 hu
      exact ((hall i c hc).fresh.get? hu).here

theorem Setup.expand_error_congr {p : Setup σ μ α V} {e : RuleError}
    (hrole : u.label.role = t.label.role) (hterminal : u.label.terminal = t.label.terminal)
    (hexpanded : u.label.expanded = t.label.expanded) (hhome : u.label.home = t.label.home)
    (h : p.expand t = .error e) :
    p.expand u = .error e := by
  obtain ⟨hkind, hstate⟩ := Node.role_eq_iff.1 hrole
  obtain ⟨n, cs⟩ := t
  obtain ⟨m, ds⟩ := u
  simp only [Tree.label] at hkind hstate hterminal hexpanded hhome
  simp only [expand, expandMax, expandMin, Node.expandWith, hkind, hstate, hterminal,
    hexpanded, hhome] at h ⊢
  cases hn : n.terminal with
  | true => simp [hn] at h
  | false =>
    cases he : n.expanded with
    | true => cases hk : n.kind <;> simp [hn, he, hk] at h
    | false =>
      simp only [hn, he, Bool.false_eq_true, ↓reduceIte] at h ⊢
      cases hk : n.kind with
      | max =>
        simp only [hk] at h ⊢
        cases hb : p.choices n.home n.state <;> simp_all
      | min action =>
        simp only [hk] at h ⊢
        cases hb : p.outcomes n.home n.state action <;> simp_all

namespace Session

variable [RandomSource γ] {p : Setup σ μ α V} {x : Session σ μ V γ} {e : SearchError}

theorem workAt_failed (hx : x.root.Shaped p.game p.agent) (ht : x.root.get? path = some t)
    (h : (x.workAt p path).1 = .error e) :
    (∃ r, p.expand t = .error r ∧ e = .rule r ∧ (x.workAt p path).2 = x) ∨
    (∃ asked grown, p.expand t = .ok (asked, grown) ∧
      (grown = t ∨ FullyExpanded p.game p.agent t grown) ∧
      (x.workAt p path).2.root = x.root.modify (fun _ => grown) path) := by
  generalize hy : x.workAt p path = y at h
  cases hy ▸ workAt_cases p path x with
  | missing => cases h
  | unexpanded ht' he =>
    cases ht.symm.trans ht'
    cases h
    exact .inl ⟨_, he, rfl, rfl⟩
  | unscored ht' he _ =>
    cases ht.symm.trans ht'
    exact .inr ⟨_, _, he, Setup.expand_fully (hx.get? ht) he, rfl⟩
  | completed => cases h

/-- What a failed iteration leaves: all statistics, and all nodes but those of a target that has
got its children. The next walk goes there again. -/
theorem iterate_failed (hx : x.root.Rooted p.game p.agent) (hb : x.root.Every Branched)
    (h : (x.iterate p .exclusive).1 = .error e) :
    ∃ target t, descend p.policy x.root = some target ∧ x.root.get? target = some t ∧
      Frame id target x.root (x.iterate p .exclusive).2.root ∧
      (x.iterate p .exclusive).2.counters =
        { x.counters with playoutMoves := (x.iterate p .exclusive).2.counters.playoutMoves } ∧
      ((x.iterate p .exclusive).2.root = x.root ∨
        ∃ grown, FullyExpanded p.game p.agent t grown ∧
          (x.iterate p .exclusive).2.root = x.root.modify (fun _ => grown) target) ∧
      descend p.policy (x.iterate p .exclusive).2.root = some target ∧
      ∀ r, p.expand t = .error r → e = .rule r ∧ (x.iterate p .exclusive).2 = x := by
  obtain ⟨target, htarget⟩ := descend_isSome p.policy hb
  have hwalk := descend_walk hx.1 htarget
  obtain ⟨t, ht⟩ := hwalk.exists_target
  rw [iterate_exclusive htarget] at h ⊢
  rcases workAt_outcome (p := p) hx.1 hwalk ht with ⟨_, _, hok, _⟩ | ⟨_, _, hframe, hcounters, _⟩
  · cases hok.symm.trans h
  refine ⟨target, t, htarget, ht, hframe, hcounters, ?_⟩
  rcases workAt_failed hx.1 ht h with ⟨r, hr, he, hsame⟩ | ⟨asked, grown, hok, hgrown, hroot⟩
  · refine ⟨.inl (by rw [hsame]), by rw [hsame, htarget], fun r' hr' => ?_⟩
    cases hr.symm.trans hr'
    exact ⟨he, hsame⟩
  · have hfault : ∀ r, p.expand t = .error r → e = .rule r ∧ (x.workAt p target).2 = x :=
      fun r hr => by cases hr.symm.trans hok
    rcases hgrown with rfl | hfully
    · rw [Tree.modify_eq_self fun u hu => Option.some.inj (ht.symm.trans hu)] at hroot
      exact ⟨.inl hroot, by rw [hroot, htarget], hfault⟩
    · refine ⟨.inr ⟨grown, hfully, hroot⟩, ?_, hfault⟩
      have hunvisited : t.visits = 0 := (hwalk.target ht).resolve_right fun hterminal => by
        cases hfully.not_terminal.symm.trans hterminal
      rw [hroot, descend_grow htarget ht hunvisited hfully.stats_eq]

end Session

/-! ## A target that cannot be expanded -/

/-- The next iteration will fail, because its target cannot be expanded. -/
def Blocked (p : Setup σ μ α V) (target : Path) (r : RuleError) (t : Tree σ μ V) : Prop :=
  descend p.policy t = some target ∧ ∃ u, t.get? target = some u ∧ p.expand u = .error r

section

variable {p : Setup σ μ α V} {r : RuleError}

theorem Blocked.workAt [RandomSource γ] {x : Session σ μ V γ} (h : Blocked p target r x.root) :
    x.workAt p target = (.error (.rule r), x) := by
  obtain ⟨_, u, hu, hr⟩ := h
  simp only [Session.workAt, hu, hr]

theorem Blocked.iterate [RandomSource γ] {x : Session σ μ V γ} (h : Blocked p target r x.root) :
    x.iterate p .exclusive = (.error (.rule r), x) := by
  rw [Session.iterate_exclusive h.1, h.workAt]

theorem Blocked.relabel_busy (h : Blocked p target r t) (busy : Bool) (top : Path) :
    Blocked p target r (t.relabel (fun n => { n with busy := busy }) top) := by
  obtain ⟨htarget, u, hu, hr⟩ := h
  have hlabel := Tree.label_get?_relabel (fun n => { n with busy := busy }) top target t
  obtain ⟨v, hv, hlabel⟩ := Tree.exists_of_label hlabel hu
  refine ⟨(descend_relabel_busy busy top t).trans htarget, v, hv, ?_⟩
  refine p.expand_error_congr ?_ ?_ ?_ ?_ hr <;> (rw [hlabel]; split <;> rfl)

theorem Searched.blocked {n : Nat} (h : Searched p t n u) (ht : t.Rooted p.game p.agent)
    (hb : t.Every Branched) (hblocked : Blocked p target r t) : Blocked p target r u := by
  induction h with
  | none => exact hblocked
  | permit busy path _ ih => exact ih.relabel_busy busy path
  | iterate x locking hx ih =>
    obtain ⟨⟨hrooted, hbranched⟩, _⟩ := hx.lasting ht hb
    rcases x.iterate_cases hrooted.1 hbranched locking with ⟨_, hheld⟩ | ⟨path, hpath, hwork⟩
    · rw [hheld]
      exact ih
    · obtain rfl : target = path := Option.some.inj (ih.1.symm.trans hpath)
      rw [hwork, ih.workAt]
      exact ih

end

namespace History

variable [RandomSource γ] [DecidableEq μ] {δ : Type} [RandomSource δ]

/-- A failed iteration by a lone worker has a target. It leaves all statistics and the counts of
iterations and of retries as they were, and all nodes as they were, unless the target has got all
its children. The next iteration has the same target. If the target could not be expanded, all
further iterations fail with the same error, whatever iterations there are in between and whoever
takes permits and gives them back. -/
theorem failure_harmless (game : Game σ μ α) (agent : α) (h : History σ μ V γ) (g : δ)
    (e : SearchError) :
    let p := h.setup game agent
    let x : Session σ μ V δ := { h.session game agent with rng := g }
    let y := (x.iterate p .exclusive).2
    (x.iterate p .exclusive).1 = .error e →
    ∃ target t, select p.policy .exclusive x.root = some ⟨target, none⟩ ∧
      x.root.get? target = some t ∧ Frame id target x.root y.root ∧
      y.counters.iterations = x.counters.iterations ∧ y.counters.retries = x.counters.retries ∧
      (y.root = x.root ∨ ∃ grown, FullyExpanded game agent t grown ∧
        y.root = x.root.modify (fun _ => grown) target) ∧
      select p.policy .exclusive y.root = some ⟨target, none⟩ ∧
      ∀ r, p.expand t = .error r → e = .rule r ∧ y = x ∧
        ∀ n u, Searched p y.root n u → ∀ (ε : Type) [RandomSource ε] (c : Counters) (g : ε),
          (Session.iterate p .exclusive ⟨u, c, g⟩).1 = .error e := by
  intro p x y he
  have hrooted : x.root.Rooted p.game p.agent := h.rooted
  have hbranched : x.root.Every Branched := h.branched
  obtain ⟨target, t, htarget, ht, hframe, hcounters, hroot, hagain, hfault⟩ :=
    Session.iterate_failed (p := p) hrooted hbranched he
  have hselect : ∀ v : Tree σ μ V, descend p.policy v = some target →
      select p.policy .exclusive v = some ⟨target, none⟩ := fun v hv => by simp only [select, hv]
  have hcounts : y.counters.iterations = x.counters.iterations ∧
      y.counters.retries = x.counters.retries := by
    rw [hcounters]
    exact ⟨rfl, rfl⟩
  refine ⟨target, t, hselect x.root htarget, ht, hframe, hcounts.1, hcounts.2, hroot,
    hselect y.root hagain, fun r hr => ?_⟩
  obtain ⟨rfl, hsame⟩ := hfault r hr
  refine ⟨rfl, hsame, fun n u hu ε _ c g => ?_⟩
  have hblocked : Blocked p target r x.root := ⟨htarget, t, ht, hr⟩
  have hy : y.root = x.root := congrArg Session.root hsame
  rw [hy] at hu
  rw [(hu.blocked hrooted hbranched hblocked).iterate (x := ⟨u, c, g⟩)]

/-- After two iterations the target is a position in which X has one move left, and there are no
replies to that move. The third iteration fails, and so do those after somebody has taken the permit
of the root's child. -/
theorem failure_harmless_blocked :
    let o : Options Rat := ⟨⟨fun _ _ _ => 0, fun _ _ _ => List.length_pos_iff.2⟩, 1, 10⟩
    let s := TicTacToe.Position.ofBoard #v[1, 2, 1, 1, 2, 2, 0, 1, 0]
    let game := TicTacToe.game.withoutReplies [.place 8]
    let h : History TicTacToe.Position TicTacToe.Action Rat Keystream := .run (.start o s 7) 2
    let p := h.setup game .x
    let x := h.session game .x
    let e : SearchError := .rule (game.noJointMoves (s.place 6) (.place 8))
    x.root.visits = 2 ∧ select p.policy .exclusive x.root = some ⟨[0, 0], none⟩ ∧
      (x.iterate p .exclusive).1 = .error e ∧ ∀ (c : Counters) (g : Keystream),
        (Session.iterate p .exclusive
          ⟨(x.iterate p .exclusive).2.root.relabel (fun n => { n with busy := true }) [0], c, g⟩).1 =
            .error e := by
  intro o s game h p x e
  obtain ⟨hvisits, hselect, he⟩ : x.root.visits = 2 ∧
      select p.policy .exclusive x.root = some ⟨[0, 0], none⟩ ∧
      (x.iterate p .exclusive).1 = .error e := by decide +kernel
  have hblocked : (x.root.get? [0, 0]).map (fun t => (p.expand t).map Prod.fst) =
      some (.error (game.noJointMoves (s.place 6) (.place 8))) := by decide +kernel
  obtain ⟨target, t, htarget, ht, -, -, -, -, -, hfault⟩ := failure_harmless game .x h x.rng e he
  obtain rfl : [0, 0] = target :=
    congrArg Selection.target (Option.some.inj (hselect.symm.trans htarget))
  have hx : x.root.get? [0, 0] = some t := ht
  rw [hx, Option.map_some, Option.some.injEq] at hblocked
  cases hr : p.expand t with
  | ok r =>
    rw [hr] at hblocked
    cases hblocked
  | error r =>
    obtain ⟨-, -, hsticky⟩ := hfault r hr
    exact ⟨hvisits, hselect, he, hsticky 0 _ (.permit true [0] .none) Keystream⟩

end History

end GameSearch.TreeSearch
