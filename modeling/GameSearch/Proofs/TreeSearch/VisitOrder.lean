import GameSearch.Proofs.TreeSearch.Frame
import GameSearch.Proofs.TreeSearch.Reroot
import GameSearch.Proofs.TreeSearch.VisitFlow

/-!
# GameSearch.Proofs.TreeSearch.VisitOrder

The order in which nodes are visited for the first time. A search turns to a child again only when
all its siblings have been visited, and goes on below a grandchild only when all grandchildren
have (`Thorough`, `descend_thorough`). So the visited nodes of a tree come in order (`Orderly`):
those among the children of a node stand before the others, and there are visits three steps below
a node only when all nodes one and two steps below it have been visited.

* `Orderly.next`: the order is kept when the target of such a walk is visited.
* `merge_orderly`: the sum of two orderly trees is orderly.
* `History.unvisited_first`: so it is after all that can happen to a session.
-/

namespace GameSearch.TreeSearch

variable {σ μ α V γ : Type} {t u : Tree σ μ V} {path target : Path} {w v : Nat}

/-! ## The way down -/

/-- What a search has made sure of before it goes to the `i`-th of some siblings, on the way to
what is `below` it. -/
structure Preferred (cs : List (Tree σ μ V)) (i : Nat) (below : Path) : Prop where
  earlier : ∀ k d, k < i → cs[k]? = some d → d.visits ≠ 0
  siblings : ∀ c, cs[i]? = some c → c.visits ≠ 0 → ∀ d ∈ cs, d.visits ≠ 0
  grandchildren : 2 ≤ below.length → ∀ d ∈ cs, ∀ e ∈ d.children, e.visits ≠ 0

def Thorough : Tree σ μ V → Path → Prop
  | _, [] => True
  | .node _ cs, i :: path => Preferred cs i path ∧ ∃ c, cs[i]? = some c ∧ Thorough c path

theorem Thorough.preferred {i : Nat} {q below : Path} (h : Thorough t (q ++ i :: below))
    (hu : t.get? q = some u) : Preferred u.children i below := by
  induction q generalizing t with
  | nil =>
    cases hu
    obtain ⟨n, cs⟩ := u
    exact h.1
  | cons j q ih =>
    obtain ⟨n, cs⟩ := t
    obtain ⟨_, c, hc, hthorough⟩ := h
    obtain ⟨c', hc', hu⟩ := Tree.get?_cons_eq_some.1 hu
    cases hc.symm.trans hc'
    exact ih hthorough hu

theorem Walk.above_visited {i : Nat} {q below : Path} (h : Walk t (q ++ i :: below))
    (hu : t.get? q = some u) : u.visits ≠ 0 := by
  induction q generalizing t with
  | nil =>
    cases hu
    obtain ⟨n, cs⟩ := u
    exact h.1
  | cons j q ih =>
    obtain ⟨n, cs⟩ := t
    obtain ⟨_, _, c, hc, hwalk⟩ := h
    obtain ⟨c', hc', hu⟩ := Tree.get?_cons_eq_some.1 hu
    cases hc.symm.trans hc'
    exact ih hwalk hu

theorem step_thorough {policy : Policy V} {n : Node σ μ V} {cs : List (Tree σ μ V)}
    [Utility V] (h : step policy n cs = .target path) : Thorough (.node n cs) path := by
  unfold step at h
  split at h
  · cases h
  · split at h
    · rename_i i hi
      cases h
      obtain ⟨hlt, hp, hearlier⟩ := List.findIdx?_eq_some_iff_getElem.1 hi
      have hunvisited := isUnvisited_iff.1 hp
      have hc : cs[i]? = some cs[i] := List.getElem?_eq_getElem hlt
      refine ⟨⟨fun k d hk hd => ?_, fun c hc' hvisited => ?_, by simp⟩, _, hc, trivial⟩
      · obtain ⟨hlen, rfl⟩ := List.getElem?_eq_some_iff.1 hd
        exact mt isUnvisited_iff.2 (hearlier k hk)
      · cases hc.symm.trans hc'
        exact absurd hunvisited hvisited
    · rename_i hvisited
      have hall : ∀ d ∈ cs, d.visits ≠ 0 := fun d hd =>
        mt isUnvisited_iff.2 (by simp [List.findIdx?_eq_none_iff.1 hvisited d hd])
      split at h
      · rename_i i j hij
        cases h
        obtain ⟨c, d, hc, hd, hp⟩ := findBelow_some hij
        have hchild : Preferred c.children j [] := by
          refine ⟨fun k e hk he => mt isUnvisited_iff.2 fun hunvisited => ?_,
            fun e he hvisited => ?_, by simp⟩
          · rcases Tree.findBelow_first hij hc he hunvisited with hlt | ⟨_, hle⟩
            · omega
            · omega
          · cases hd.symm.trans he
            exact absurd (isUnvisited_iff.1 hp) hvisited
        obtain ⟨m, ds⟩ := c
        exact ⟨⟨fun k e _ he => hall e (List.mem_of_getElem? he), fun _ _ _ => hall, by simp⟩,
          _, hc, hchild, d, hd, trivial⟩
      · cases h

theorem step_descend_visited {policy : Policy V} {n : Node σ μ V} {cs : List (Tree σ μ V)}
    {i : Nat} [Utility V] (h : step policy n cs = .descend i) :
    ∀ d ∈ cs, d.visits ≠ 0 ∧ ∀ e ∈ d.children, e.visits ≠ 0 := by
  unfold step at h
  split at h
  · cases h
  · split at h
    · cases h
    · rename_i hchildren
      split at h
      · cases h
      · rename_i hbelow
        have hbelow := Tree.findBelow_eq_none_iff.1 hbelow
        intro d hd
        refine ⟨mt isUnvisited_iff.2 ?_, fun e he => mt isUnvisited_iff.2 ?_⟩
        · simp [List.findIdx?_eq_none_iff.1 hchildren d hd]
        · simp [hbelow d hd e he]

theorem descend_thorough [Utility V] {policy : Policy V} (h : descend policy t = some path) :
    Thorough t path := by
  induction t generalizing path with
  | node n cs ih =>
    unfold descend at h
    split at h
    · cases h
      trivial
    · split at h
      · cases h
      · rename_i hstep
        cases h
        exact step_thorough hstep
      · rename_i i hstep
        have hvisited := step_descend_visited hstep
        rw [descendInto_eq] at h
        cases hc : cs[i]? with
        | none => simp [hc] at h
        | some c =>
          cases hpath : descend policy c with
          | none => simp [hc, hpath] at h
          | some path' =>
            simp only [hc, Option.bind_some, hpath, Option.some.injEq] at h
            subst h
            exact ⟨⟨fun k d _ hd => (hvisited d (List.mem_of_getElem? hd)).1,
              fun _ _ _ d hd => (hvisited d hd).1, fun _ d hd => (hvisited d hd).2⟩,
              c, hc, ih c (List.mem_of_getElem? hc) hpath⟩

/-! ## Visited places -/

theorem Tree.visits_ne_zero_iff : t.visits ≠ 0 ↔ t.stats.visits ≠ 0 := by
  rw [ne_eq, ne_eq, ← UInt32.toNat_inj]
  rfl

def VisitedAt (t : Tree σ μ V) (path : Path) : Prop := ∃ a, t.get? path = some a ∧ a.visits ≠ 0

theorem VisitedAt.visits_ne_zero (h : VisitedAt t path) (hu : t.get? path = some u) :
    u.visits ≠ 0 := by
  obtain ⟨a, ha, hvisited⟩ := h
  cases ha.symm.trans hu
  exact hvisited

def visitsIn (t : Tree σ μ V) (q : Path) : Option UInt32 := (t.get? q).map (·.label.visits)

theorem visitedAt_iff : VisitedAt t path ↔ (visitsIn t path).getD 0 ≠ 0 := by
  unfold VisitedAt visitsIn
  cases t.get? path with
  | none => simp
  | some a => simp [Tree.visits_ne_zero_iff, Tree.stats, Node.visits]

/-- The visited nodes of a tree come in order. -/
structure Orderly (t : Tree σ μ V) : Prop where
  leading : ∀ q i k, VisitedAt t (q ++ [i]) → k < i → VisitedAt t (q ++ [k])
  levels : ∀ q i j k below a, VisitedAt t (q ++ [i, j, k]) → t.get? (q ++ below) = some a →
    1 ≤ below.length → below.length ≤ 2 → a.visits ≠ 0

theorem Orderly.get? {top : Path} (h : Orderly t) (hu : t.get? top = some u) : Orderly u := by
  have hplace : ∀ q, t.get? (top ++ q) = u.get? q := fun q => by
    rw [Tree.get?_append, hu, Option.bind_some]
  have hvisited : ∀ q, VisitedAt u q ↔ VisitedAt t (top ++ q) := fun q => by
    rw [VisitedAt, VisitedAt, hplace]
  refine ⟨fun q i k hq hk => ?_, fun q i j k below a hq ha => ?_⟩
  · rw [hvisited, ← List.append_assoc] at hq ⊢
    exact h.leading _ i k hq hk
  · rw [hvisited, ← List.append_assoc] at hq
    rw [← hplace, ← List.append_assoc] at ha
    exact h.levels _ i j k below a hq ha

/-- When a walk goes three steps down from a node, all that is one or two steps below it has been
visited. -/
theorem Thorough.levels {q below : Path} {i j k : Nat} (h : Thorough t (q ++ [i, j, k]))
    (hwalk : Walk t (q ++ [i, j, k])) (hu : t.get? (q ++ below) = some u)
    (hpos : 1 ≤ below.length) (hle : below.length ≤ 2) : u.visits ≠ 0 := by
  obtain ⟨a, ha, hu⟩ := Tree.exists_above hu
  have hpreferred := h.preferred ha
  obtain ⟨goal, hgoal⟩ := hwalk.exists_target
  obtain ⟨c, hc, _⟩ : ∃ c, a.children[i]? = some c ∧ _ := by
    rw [Tree.get?_append, ha] at hgoal
    exact Tree.get?_cons_eq_some.1 hgoal
  have hpassed : c.visits ≠ 0 := by
    have hstep : q ++ [i, j, k] = (q ++ [i]) ++ j :: [k] := by simp
    exact (hstep ▸ hwalk).above_visited ((Tree.get?_snoc ha).trans hc)
  rcases below with _ | ⟨i', _ | ⟨j', _ | ⟨_, rest⟩⟩⟩
  · simp at hpos
  · obtain ⟨c', hc', hu⟩ := Tree.get?_cons_eq_some.1 hu
    cases hu
    exact hpreferred.siblings c hc hpassed u (List.mem_of_getElem? hc')
  · obtain ⟨c', hc', hu⟩ := Tree.get?_cons_eq_some.1 hu
    obtain ⟨d', hd', hu⟩ := Tree.get?_cons_eq_some.1 hu
    cases hu
    exact hpreferred.grandchildren (by simp) c' (List.mem_of_getElem? hc') u
      (List.mem_of_getElem? hd')
  · simp at hle

/-- The order is kept when nothing is visited for the first time but the target of a thorough
walk, and new nodes hang below the target. -/
theorem Orderly.next [Utility V] {change : Stats V → Stats V} (h : Orderly t)
    (hb : t.Every (Balanced w)) (hwalk : Walk t target) (hthorough : Thorough t target)
    (hframe : Frame change target t u) (hkeep : ∀ q, VisitedAt t q → VisitedAt u q)
    (hnew : ∀ q, VisitedAt u q → VisitedAt t q ∨ q = target) : Orderly u := by
  obtain ⟨goal, hgoal, hdue⟩ := hframe.target_due
  refine ⟨fun q i k hq hk => ?_, fun q i j k below b hq hb' hpos hle => ?_⟩
  · rcases hnew _ hq with hold | rfl
    · exact hkeep _ (h.leading q i k hold hk)
    · obtain ⟨a, ha, hchild⟩ := Tree.exists_above hgoal
      obtain ⟨c, hc, _⟩ := Tree.get?_cons_eq_some.1 hchild
      have hlt : k < a.children.length := Nat.lt_trans hk (List.getElem?_eq_some_iff.1 hc).1
      have hd := List.getElem?_eq_getElem hlt
      refine hkeep _ ⟨_, (Tree.get?_snoc ha).trans hd, ?_⟩
      exact (hthorough.preferred ha).earlier k _ hk hd
  · cases ha : t.get? (q ++ below) with
    | some a =>
      have hvisited : a.visits ≠ 0 := by
        rcases hnew _ hq with hold | rfl
        · exact h.levels q i j k below a hold ha hpos hle
        · exact hthorough.levels hwalk ha hpos hle
      exact (hkeep _ ⟨a, ha, hvisited⟩).visits_ne_zero hb'
    | none =>
      -- a new node, so near to a visited one, would hang below a target that was visited before
      exfalso
      obtain ⟨_, goal', grown, hgoal', _, hn, _, hpath, hpos', hle'⟩ := hframe.new _ b hb' ha
      cases hgoal.symm.trans hgoal'
      have hunvisited : goal.visits = 0 := hdue.resolve_right (by simp [hn])
      have hnone : ∀ rest, ¬VisitedAt t (target ++ rest) := by
        rintro rest ⟨a, ha, hvisited⟩
        rw [Tree.get?_append, hgoal] at ha
        exact hvisited (unvisited_below (hb.get? hgoal) hunvisited ha)
      have hold : VisitedAt t (q ++ [i, j, k]) := by
        refine (hnew _ hq).resolve_right fun htarget => ?_
        have := congrArg List.length hpath
        simp only [← htarget, List.length_append, List.length_cons, List.length_nil] at this
        omega
      rcases List.append_eq_append_iff.1 hpath with ⟨above, rfl, rfl⟩ | ⟨rest, rfl, _⟩
      · rw [List.length_append] at hle
        cases above with
        | nil => exact hnone [i, j, k] (by simpa using hold)
        | cons i' above =>
          refine h.levels q i j k (i' :: above) goal hold hgoal (Nat.succ_pos _) ?_ hunvisited
          omega
      · rw [List.append_assoc] at hold
        exact hnone _ hold

theorem Orderly.congr (h : Orderly t) (hsame : ∀ q, visitsIn u q = visitsIn t q) : Orderly u := by
  have hvisited : ∀ q, VisitedAt u q ↔ VisitedAt t q := fun q => by
    rw [visitedAt_iff, visitedAt_iff, hsame]
  refine ⟨fun q i k hq hk => ?_, fun q i j k below b hq hb hpos hle => ?_⟩
  · exact (hvisited _).2 (h.leading q i k ((hvisited _).1 hq) hk)
  · have hplace : visitsIn t (q ++ below) = some b.label.visits := by
      rw [← hsame, visitsIn, hb, Option.map_some]
    obtain ⟨a, ha, _⟩ := Option.map_eq_some_iff.1 hplace
    have hold := h.levels q i j k below a ((hvisited _).1 hq) ha hpos hle
    exact ((hvisited _).2 ⟨a, ha, hold⟩).visits_ne_zero hb

theorem relabel_busy_orderly {busy : Bool} {top : Path} (h : Orderly t) :
    Orderly (t.relabel (fun n => { n with busy := busy }) top) := by
  refine h.congr fun q => ?_
  have hlabel := Tree.label_get?_relabel (fun n => { n with busy := busy }) top q t
  have hmap := congrArg (Option.map Node.visits) hlabel
  rw [Option.map_map, Option.map_map] at hmap
  rw [visitsIn, visitsIn]
  refine hmap.trans (Option.map_congr fun a _ => ?_)
  rw [Function.comp_apply]
  split <;> rfl

/-! ## Iterations -/

section

variable [Utility V] {change : Stats V → Stats V}

theorem Frame.visitedAt_iff (h : Frame change target t u) (path : Path) :
    VisitedAt u path ↔ ∃ a, t.get? path = some a ∧
      (if path <+: target then change a.stats else a.stats).visits ≠ 0 := by
  constructor
  · rintro ⟨b, hb, hvisited⟩
    rw [Tree.visits_ne_zero_iff] at hvisited
    cases ha : t.get? path with
    | none =>
      rw [(h.new path b hb ha).1] at hvisited
      exact absurd rfl hvisited
    | some a =>
      obtain ⟨b', hb', _, hstats⟩ := h.kept path a ha
      cases hb.symm.trans hb'
      exact ⟨a, rfl, hstats ▸ hvisited⟩
  · rintro ⟨a, ha, hvisited⟩
    obtain ⟨b, hb, _, hstats⟩ := h.kept path a ha
    exact ⟨b, hb, Tree.visits_ne_zero_iff.2 (hstats ▸ hvisited)⟩

theorem Frame.visitedAt_same (h : Frame id target t u) (path : Path) :
    VisitedAt u path ↔ VisitedAt t path := by
  rw [h.visitedAt_iff, VisitedAt]
  simp [Tree.visits_ne_zero_iff]

theorem Frame.visitedAt_record {score : V} (h : Frame (·.record score) target t u)
    (hwalk : Walk t target) (hroom : ∀ path a, t.get? path = some a → a.visits + 1 < 2 ^ 32)
    (path : Path) : VisitedAt u path ↔ VisitedAt t path ∨ path = target := by
  rw [h.visitedAt_iff]
  have hmore : ∀ a, t.get? path = some a → (a.stats.record score).visits ≠ 0 := by
    intro a ha hzero
    have hsum : (a.stats.visits + 1).toNat = a.visits + 1 := toNat_succ_of_lt (hroom path a ha)
    rw [show a.stats.visits + 1 = 0 from hzero] at hsum
    cases hsum
  constructor
  · rintro ⟨a, ha, hvisited⟩
    by_cases hprefix : path <+: target
    · obtain ⟨below, rfl⟩ := hprefix
      cases below with
      | nil => exact .inr (by simp)
      | cons i below => exact .inl ⟨a, ha, hwalk.above_visited ha⟩
    · rw [if_neg hprefix] at hvisited
      exact .inl ⟨a, ha, Tree.visits_ne_zero_iff.2 hvisited⟩
  · rintro (⟨a, ha, hvisited⟩ | rfl)
    · refine ⟨a, ha, ?_⟩
      split
      · exact hmore a ha
      · exact Tree.visits_ne_zero_iff.1 hvisited
    · obtain ⟨a, ha, _⟩ := h.target_due
      refine ⟨a, ha, ?_⟩
      rw [if_pos List.prefix_rfl]
      exact hmore a ha

namespace Session

variable [DecidableEq σ] [RandomSource γ] {p : Setup σ μ α V} {x : Session σ μ V γ}

theorem workAt_orderly (hx : x.root.Shaped p.game p.agent) (hb : x.root.Every (Balanced w))
    (h : Orderly x.root) (hwalk : Walk x.root target) (hthorough : Thorough x.root target)
    (hgrows : Grows x.root (x.workAt p target).2.root) :
    Orderly (x.workAt p target).2.root := by
  rcases workAt_frame (p := p) hx hwalk with ⟨score, _, _, hframe⟩ | ⟨_, _, hframe⟩
  · have hroot := room_of_grows (congrArg Stats.visits hframe.root_stats) hgrows
    have hroom : ∀ path a, x.root.get? path = some a → a.visits + 1 < 2 ^ 32 := by
      intro path a ha
      have := visits_below_le hb ha
      omega
    have hvisited := hframe.visitedAt_record hwalk hroom
    exact h.next hb hwalk hthorough hframe (fun q hq => (hvisited q).2 (.inl hq))
      fun q => (hvisited q).1
  · have hvisited := hframe.visitedAt_same
    exact h.next hb hwalk hthorough hframe (fun q => (hvisited q).2)
      fun q hq => .inl ((hvisited q).1 hq)

end Session

end

/-! ## Merged trees -/

section

variable [DecidableEq σ] {game : Game σ μ α} {agent : α} {q below : Path}

theorem role_get?_eq {a b : Tree σ μ V} (ht : t.Shaped game agent) (hu : u.Shaped game agent)
    (hrole : t.label.role = u.label.role) (ha : t.get? q = some a) (hb : u.get? q = some b) :
    a.label.role = b.label.role := by
  induction q generalizing t u with
  | nil =>
    cases ha
    cases hb
    exact hrole
  | cons i q ih =>
    obtain ⟨n, ours⟩ := t
    obtain ⟨m, theirs⟩ := u
    obtain ⟨c, hc, ha⟩ := Tree.get?_cons_eq_some.1 ha
    obtain ⟨d, hd, hb⟩ := Tree.get?_cons_eq_some.1 hb
    have hmem := List.mem_of_getElem? hc
    have hmem' := List.mem_of_getElem? hd
    refine ih (ht.child hmem) (hu.child hmem') ?_ ha hb
    rcases ht.here.compare hu.here hrole with rfl | rfl | hroles
    · cases hc
    · cases hd
    · have hat := congrArg (·[i]?) hroles
      simp only [Tree.children] at hc hd
      simpa [hc, hd] using hat.symm

theorem exists_child_of_counterpart {a b : Tree σ μ V} {i : Nat} (ht : t.Shaped game agent)
    (hu : u.Shaped game agent) (hrole : t.label.role = u.label.role) (ha : t.get? q = some a)
    (hne : a.children ≠ []) (hb : u.get? (q ++ [i]) = some b) :
    ∃ c, t.get? (q ++ [i]) = some c := by
  obtain ⟨b', hb', _⟩ := Tree.exists_above hb
  rw [Tree.get?_snoc hb'] at hb
  rw [Tree.get?_snoc ha]
  have hsame := role_get?_eq ht hu hrole ha hb'
  have hformed := (ht.get? ha).here
  have hformed' := (hu.get? hb').here
  obtain ⟨n, ours⟩ := a
  obtain ⟨m, theirs⟩ := b'
  rcases hformed.compare hformed' hsame with rfl | rfl | hroles
  · exact absurd rfl hne
  · cases hb
  · have hlength : theirs.length = ours.length := by simpa using congrArg List.length hroles
    have hlt : i < ours.length := hlength ▸ (List.getElem?_eq_some_iff.1 hb).1
    exact ⟨_, List.getElem?_eq_getElem hlt⟩

/-- Where an orderly tree has visits three steps below a node, it has all that another tree has one
or two steps below it. -/
theorem Orderly.exists_counterpart {b : Tree σ μ V} {i j k : Nat} (h : Orderly t)
    (ht : t.Shaped game agent) (hu : u.Shaped game agent)
    (hrole : t.label.role = u.label.role) (hbranched : t.Every Branched)
    (hq : VisitedAt t (q ++ [i, j, k])) (hb : u.get? (q ++ below) = some b)
    (hpos : 1 ≤ below.length) (hle : below.length ≤ 2) : ∃ a, t.get? (q ++ below) = some a := by
  obtain ⟨a, ha, he⟩ := Tree.exists_above hq.choose_spec.1
  have hne : a.children ≠ [] := by
    obtain ⟨c, hc, _⟩ := Tree.get?_cons_eq_some.1 he
    exact List.ne_nil_of_mem (List.mem_of_getElem? hc)
  rcases below with _ | ⟨i', _ | ⟨j', _ | ⟨_, rest⟩⟩⟩
  · simp at hpos
  · exact exists_child_of_counterpart ht hu hrole ha hne hb
  · have hsnoc : q ++ [i', j'] = q ++ [i'] ++ [j'] := by simp
    rw [hsnoc] at hb ⊢
    obtain ⟨b', hb', hchild⟩ := Tree.exists_above hb
    obtain ⟨c, hc⟩ := exists_child_of_counterpart ht hu hrole ha hne hb'
    have hvisited := h.levels q i j k [i'] c hq hc (Nat.le_refl 1) (Nat.le_succ 1)
    have hterminal : c.label.terminal = false := by
      obtain ⟨d, hd, _⟩ := Tree.get?_cons_eq_some.1 hchild
      rw [(ht.get? hc).here.terminal_eq_of_role_eq (hu.get? hb').here
        (role_get?_eq ht hu hrole hc hb')]
      exact (hu.get? hb').here.not_terminal (List.mem_of_getElem? hd)
    exact exists_child_of_counterpart ht hu hrole hc ((hbranched.get? hc).here hvisited hterminal) hb
  · simp at hle

/-- What the first of two trees has visited puts the nodes of both in order. -/
theorem Orderly.levels_merge {sum b : Tree σ μ V} {i j k : Nat} (h : Orderly t)
    (ht : t.Shaped game agent) (hu : u.Shaped game agent)
    (hrole : t.label.role = u.label.role) (hbranched : t.Every Branched)
    (hkeep : ∀ q, VisitedAt t q → VisitedAt sum q)
    (hplace : ∀ q, (∃ a, sum.get? q = some a) → (∃ a, t.get? q = some a) ∨ ∃ a, u.get? q = some a)
    (hq : VisitedAt t (q ++ [i, j, k])) (hbelow : sum.get? (q ++ below) = some b)
    (hpos : 1 ≤ below.length) (hle : below.length ≤ 2) : b.visits ≠ 0 := by
  have hours : ∃ a, t.get? (q ++ below) = some a := by
    rcases hplace _ ⟨b, hbelow⟩ with hours | ⟨c, hc⟩
    · exact hours
    · exact h.exists_counterpart ht hu hrole hbranched hq hc hpos hle
  obtain ⟨a, ha⟩ := hours
  have hvisited := h.levels q i j k below a hq ha hpos hle
  exact (hkeep _ ⟨a, ha, hvisited⟩).visits_ne_zero hbelow

end

theorem visitsIn_graft (home : Home) (t : Tree σ μ V) (q : Path) :
    visitsIn (graft home t) q = visitsIn t q := by
  induction q generalizing t home with
  | nil =>
    cases t
    rfl
  | cons i q ih =>
    obtain ⟨n, cs⟩ := t
    rw [graft_node]
    simp only [visitsIn, Tree.get?, getElem?_graftAll] at ih ⊢
    cases cs[i]? with
    | none => rfl
    | some c => exact ih _ c

section

variable [DecidableEq σ] [DecidableEq μ] [Utility V] {game : Game σ μ α} {agent : α} {q : Path}

theorem visitsIn_merge (hgame : Unrepeated game agent) (ht : t.Shaped game agent)
    (hu : u.Shaped game agent) (hrole : t.label.role = u.label.role) :
    ∀ q, visitsIn (merge t u) q = Option.merge (· + ·) (visitsIn t q) (visitsIn u q) := by
  refine merge_induction (R := fun t u sum => ∀ q,
    visitsIn sum q = Option.merge (· + ·) (visitsIn t q) (visitsIn u q))
    hgame ?copied ?kept ?paired ht hu hrole
  case copied =>
    intro n m theirs _ _ _ q
    cases q with
    | nil => rfl
    | cons i q =>
      simp only [visitsIn, Tree.get?, getElem?_graftAll, List.getElem?_nil, Option.map_none,
        Option.merge_none_left]
      cases theirs[i]? with
      | none => rfl
      | some d => exact visitsIn_graft _ d q
  case kept =>
    intro n m ours _ _ _ q
    cases q with
    | nil => rfl
    | cons i q =>
      exact Option.merge_none_right.symm
  case paired =>
    intro n m ours theirs _ _ _ hroles ih q
    have hlength : theirs.length = ours.length := by simpa using congrArg List.length hroles
    cases q with
    | nil => rfl
    | cons i q =>
      simp only [visitsIn, Tree.get?, List.getElem?_zipWith]
      cases hc : ours[i]? with
      | none =>
        have hd : theirs[i]? = none := by
          rw [List.getElem?_eq_none_iff] at hc ⊢
          omega
        rw [hd]
        rfl
      | some a =>
        obtain ⟨hlt, _⟩ := List.getElem?_eq_some_iff.1 hc
        have hd : theirs[i]? = some theirs[i] := List.getElem?_eq_getElem (by omega)
        rw [hd]
        refine ih a theirs[i] ?_ q
        exact List.mem_of_getElem? (i := i) (List.getElem?_zip_eq_some.2 ⟨hc, hd⟩)

theorem visitedAt_merge (hgame : Unrepeated game agent) (ht : t.Shaped game agent)
    (hu : u.Shaped game agent) (hrole : t.label.role = u.label.role)
    (hb : t.Every (Balanced w)) (hb' : u.Every (Balanced v))
    (hroom : t.visits + u.visits < 2 ^ 32) (q : Path) :
    VisitedAt (merge t u) q ↔ VisitedAt t q ∨ VisitedAt u q := by
  rw [visitedAt_iff, visitedAt_iff, visitedAt_iff, visitsIn_merge hgame ht hu hrole]
  unfold visitsIn
  cases ha : t.get? q with
  | none => simp
  | some a =>
    cases hc : u.get? q with
    | none => simp
    | some c =>
      have hle := visits_below_le hb ha
      have hle' := visits_below_le hb' hc
      have hadd : (a.label.visits + c.label.visits).toNat =
          a.label.visits.toNat + c.label.visits.toNat :=
        toNat_add_of_lt (by simp only [Tree.visits_eq] at hle hle' hroom; omega)
      simp only [Option.map_some, Option.merge_some_some, Option.getD_some, ne_eq,
        ← UInt32.toNat_inj, hadd, UInt32.toNat_zero]
      omega

theorem merge_orderly (hgame : Unrepeated game agent) (ht : t.Shaped game agent)
    (hu : u.Shaped game agent) (hrole : t.label.role = u.label.role)
    (hb : t.Every (Balanced w)) (hb' : u.Every (Balanced v))
    (hroom : t.visits + u.visits < 2 ^ 32) (h : Orderly t) (h' : Orderly u) :
    Orderly (merge t u) := by
  have hvisited := visitedAt_merge hgame ht hu hrole hb hb' hroom
  have hkeep : ∀ q, VisitedAt t q → VisitedAt (merge t u) q := fun q hq => (hvisited q).2 (.inl hq)
  have hkeep' : ∀ q, VisitedAt u q → VisitedAt (merge t u) q := fun q hq => (hvisited q).2 (.inr hq)
  have hplace : ∀ q, (∃ a, (merge t u).get? q = some a) →
      (∃ a, t.get? q = some a) ∨ ∃ a, u.get? q = some a := by
    rintro q ⟨a, ha⟩
    have hsum := visitsIn_merge hgame ht hu hrole q
    unfold visitsIn at hsum
    cases hours : t.get? q with
    | some c => exact .inl ⟨c, rfl⟩
    | none =>
      cases htheirs : u.get? q with
      | some d => exact .inr ⟨d, rfl⟩
      | none => simp [ha, hours, htheirs] at hsum
  refine ⟨fun q i k hq hk => ?_, fun q i j k below a hq ha hpos hle => ?_⟩
  · rcases (hvisited _).1 hq with hq | hq
    · exact hkeep _ (h.leading q i k hq hk)
    · exact hkeep' _ (h'.leading q i k hq hk)
  · rcases (hvisited _).1 hq with hq | hq
    · exact h.levels_merge ht hu hrole (hb.imp fun _ => Balanced.branched) hkeep hplace hq ha hpos
        hle
    · exact h'.levels_merge hu ht hrole.symm (hb'.imp fun _ => Balanced.branched) hkeep'
        (fun q ha => (hplace q ha).symm) hq ha hpos hle

end

/-! ## Histories -/

theorem unvisited_orderly [Utility V] (p : Setup σ μ α V) (s : σ) : Orderly (p.unvisited s {}) := by
  have hnone : ∀ q, ¬VisitedAt (p.unvisited s {}) q := by
    rintro q ⟨a, ha, hvisited⟩
    have hbalanced := (balanced_steady 1).every_fresh (p.unvisited_fresh s {})
    exact hvisited (unvisited_below hbalanced rfl ha)
  exact ⟨fun q i k hq _ => absurd hq (hnone _), fun q i j k _ _ hq => absurd hq (hnone _)⟩

section

variable [Utility V] [DecidableEq σ] [RandomSource γ]

theorem Session.iterate_orderly {p : Setup σ μ α V} (hw : 1 ≤ w) {locking : Locking} :
    Keeps p locking γ (fun t => t.Rooted p.game p.agent ∧ t.Every (Balanced w) ∧ Orderly t)
      Grows := by
  rintro x ⟨hrooted, hb, h⟩ hgrows
  obtain ⟨hrooted', hb'⟩ := iterate_balanced hw x ⟨hrooted, hb⟩ hgrows
  refine ⟨hrooted', hb', ?_⟩
  rcases x.iterate_cases hrooted.1 (hb.imp fun _ => Balanced.branched) locking with
    ⟨_, hheld⟩ | ⟨path, hpath, hwork⟩
  · rw [hheld]
    exact h
  · rw [hwork] at hgrows ⊢
    exact workAt_orderly hrooted.1 hb h (descend_walk hrooted.1 hpath) (descend_thorough hpath) hgrows

end

theorem not_isUnvisited_iff : (!isUnvisited t) = true ↔ t.visits ≠ 0 := by
  rw [Bool.not_eq_true', ne_eq, ← isUnvisited_iff, Bool.not_eq_true]

theorem filter_prefix {β : Type} {f : β → Bool} {xs : List β}
    (h : xs.Pairwise fun x y => f y = true → f x = true) : xs.filter f <+: xs := by
  induction xs with
  | nil => exact List.nil_prefix
  | cons x rest ih =>
    obtain ⟨hx, hrest⟩ := List.pairwise_cons.1 h
    cases hf : f x with
    | true =>
      rw [List.filter_cons_of_pos hf]
      exact List.cons_prefix_cons.2 ⟨rfl, ih hrest⟩
    | false =>
      have hnone : (x :: rest).filter f = [] := by
        refine List.filter_eq_nil_iff.2 (List.forall_mem_cons.2 ⟨by simp [hf], fun y hy hfy => ?_⟩)
        cases hf.symm.trans (hx y hy hfy)
      rw [hnone]
      exact List.nil_prefix

namespace History

variable [Utility V] [RandomSource γ] [DecidableEq σ] [DecidableEq μ] {game : Game σ μ α}
  {agent : α}

theorem orderly (hgame : Unrepeated game agent) (h : History σ μ V γ)
    (hfits : h.Fits game agent) : Orderly (h.session game agent).root := by
  refine (fits_induction (J := fun w t => t.Every (Balanced w) ∧ Orderly t) ?start ?iterate ?permit
    ?move ?merge h hfits).2
  case start =>
    intro p _ _ s
    exact ⟨(balanced_steady 1).every_fresh (p.unvisited_fresh s {}), unvisited_orderly p s⟩
  case iterate => exact fun p _ _ locking δ _ w hw => Session.iterate_orderly hw
  case permit =>
    exact fun w t busy path ⟨hb, h⟩ => ⟨(balanced_steady w).relabel_busy hb, relabel_busy_orderly h⟩
  case move =>
    rintro w t c u hc hu ⟨hb, h⟩
    obtain ⟨i, hi⟩ := List.getElem?_of_mem hc
    obtain ⟨j, hj⟩ := List.getElem?_of_mem hu
    have hplace : t.get? [i, j] = some u :=
      Tree.get?_cons_eq_some.2 ⟨c, hi, Tree.get?_cons_eq_some.2 ⟨u, hj, rfl⟩⟩
    exact ⟨hb.get? hplace, h.get? hplace⟩
  case merge =>
    rintro w v t u ht hu hrole hgrows ⟨hb, h⟩ ⟨hb', h'⟩
    have hroom := room_of_absorb hgrows
    exact ⟨(merge_balanced hgame ht.1 hu.1 hrole hb hb' hroom).1,
      merge_orderly hgame ht.1 hu.1 hrole hb hb' hroom h h'⟩

/-- Unvisited nodes come first. A completed iteration goes to a visited child only when all its
siblings have been visited. While no count goes round, at every node the visited children are the
first ones, and nothing is visited three steps below a node before all nodes one and two steps below
it. -/
theorem unvisited_first (hgame : Unrepeated game agent) (h : History σ μ V γ) :
    let root := (h.session game agent).root
    (∀ (locking : Locking) (δ : Type) [RandomSource δ] (g : δ) (score : V) (queries : Nat),
      let y := Session.iterate (h.setup game agent) locking { h.session game agent with rng := g }
      y.1 = .ok (.completed score queries) → ∃ target, Frame (·.record score) target root y.2.root ∧
        ∀ q i u c, q ++ [i] <+: target → root.get? q = some u → u.children[i]? = some c →
          c.visits ≠ 0 → ∀ d ∈ u.children, d.visits ≠ 0) ∧
    (h.Fits game agent → ∀ q u, root.get? q = some u →
      (u.children.filter fun c => !isUnvisited c) <+: u.children ∧
      ∀ c ∈ u.children, ∀ d ∈ c.children, ∀ e ∈ d.children, e.visits ≠ 0 →
        ∀ c' ∈ u.children, c'.visits ≠ 0 ∧ ∀ d' ∈ c'.children, d'.visits ≠ 0) := by
  intro root
  have hrooted : root.Rooted game agent := h.rooted
  have horderly : h.Fits game agent → Orderly root := h.orderly hgame
  refine ⟨fun locking δ _ g score queries => ?_, fun hfits q u hu => ⟨?_, ?_⟩⟩
  · intro y hy
    obtain ⟨target, htarget, hframe⟩ :=
      Session.iterate_completed (x := { h.session game agent with rng := g }) hrooted.1 h.branched hy
    refine ⟨target, hframe, fun q i u c hprefix hu hc hvisited => ?_⟩
    have hthorough : Thorough root target := descend_thorough htarget
    obtain ⟨below, rfl⟩ := hprefix
    rw [List.append_assoc] at hthorough
    exact (hthorough.preferred hu).siblings c hc hvisited
  · refine filter_prefix (List.pairwise_iff_getElem.2 fun k i hk hi hlt hvisited => ?_)
    have hk' := (Tree.get?_snoc hu).trans (List.getElem?_eq_getElem hk)
    have hi' := (Tree.get?_snoc hu).trans (List.getElem?_eq_getElem hi)
    have hlast : VisitedAt root (q ++ [i]) := ⟨_, hi', not_isUnvisited_iff.1 hvisited⟩
    exact not_isUnvisited_iff.2 (((horderly hfits).leading q i k hlast hlt).visits_ne_zero hk')
  · intro c hc d hd e he hvisited c' hc'
    obtain ⟨i, hi⟩ := List.getElem?_of_mem hc
    obtain ⟨j, hj⟩ := List.getElem?_of_mem hd
    obtain ⟨k, hk⟩ := List.getElem?_of_mem he
    obtain ⟨i', hi'⟩ := List.getElem?_of_mem hc'
    have hbelow : ∀ below, root.get? (q ++ below) = u.get? below := fun below => by
      rw [Tree.get?_append, hu, Option.bind_some]
    have hplace : VisitedAt root (q ++ [i, j, k]) := by
      refine ⟨e, ?_, hvisited⟩
      rw [hbelow]
      exact Tree.get?_cons_eq_some.2 ⟨c, hi, Tree.get?_cons_eq_some.2 ⟨d, hj,
        Tree.get?_cons_eq_some.2 ⟨e, hk, rfl⟩⟩⟩
    refine ⟨?_, fun d' hd' => ?_⟩
    · refine (horderly hfits).levels q i j k [i'] c' hplace ?_ (Nat.le_refl 1) (Nat.le_succ 1)
      rw [hbelow]
      exact Tree.get?_cons_eq_some.2 ⟨c', hi', rfl⟩
    · obtain ⟨j', hj'⟩ := List.getElem?_of_mem hd'
      refine (horderly hfits).levels q i j k [i', j'] d' hplace ?_ (Nat.le_succ 1) (Nat.le_refl 2)
      rw [hbelow]
      exact Tree.get?_cons_eq_some.2 ⟨c', hi', Tree.get?_cons_eq_some.2 ⟨d', hj', rfl⟩⟩

/-- Two short searches of a position with two open cells, added up and searched on, until there is
a visit three steps below the root. -/
theorem unvisited_first_deep :
    let o : Options Float := ⟨⟨fun _ _ _ => 0, fun _ _ _ => List.length_pos_iff.2⟩, 1, 10⟩
    let s := TicTacToe.Position.ofBoard #v[1, 2, 1, 1, 2, 2, 0, 1, 0]
    let h : History TicTacToe.Position TicTacToe.Action Float Keystream :=
      .run (.merge (.run (.start o s 7) 3) (.run (.start o s 11) 2)) 4
    let root := (h.session TicTacToe.game .o).root
    Unrepeated TicTacToe.game .o ∧ h.Fits TicTacToe.game .o ∧
      (root.get? [0, 0, 0]).map Tree.visits = some 2 ∧
      (root.children.filter fun c => !isUnvisited c) <+: root.children ∧
      ∀ c ∈ root.children, c.visits ≠ 0 ∧ ∀ d ∈ c.children, d.visits ≠ 0 := by
  intro o s h root
  have hgame := unrepeated_ticTacToe .o
  have hfits : h.Fits TicTacToe.game .o := by
    refine ⟨⟨⟨trivial, ?_⟩, ⟨trivial, ?_⟩, ?_⟩, ?_⟩ <;> decide +kernel
  have hdeep : (root.get? [0, 0, 0]).map Tree.visits = some 2 := by decide +kernel
  obtain ⟨hleading, hlevels⟩ := (unvisited_first hgame h).2 hfits [] root rfl
  refine ⟨hgame, hfits, hdeep, hleading, ?_⟩
  obtain ⟨e, he, hvisits⟩ := Option.map_eq_some_iff.1 hdeep
  obtain ⟨c, hc, he⟩ := Tree.get?_cons_eq_some.1 he
  obtain ⟨d, hd, he⟩ := Tree.get?_cons_eq_some.1 he
  obtain ⟨e', he', heq⟩ := Tree.get?_cons_eq_some.1 he
  cases heq
  exact hlevels c (List.mem_of_getElem? hc) d (List.mem_of_getElem? hd) e
    (List.mem_of_getElem? he') (by omega)

/-- Counts that go round put nodes out of order: a tree in which the first child has twice as many
visits as the second is added to itself until the first has none left. -/
theorem visited_after_unvisited :
    let o : Options Float := ⟨.ucb 2, 2, 10⟩
    let s := TicTacToe.Position.ofBoard #v[1, 2, 1, 1, 2, 2, 0, 1, 0]
    let h : History TicTacToe.Position TicTacToe.Action Float Keystream :=
      .run (.merge (.run (.start o s 42) 2) (.run (.start o s 42) 2)) 1
    let root := ((Nat.repeat (fun h => .merge h h) 31 h).session TicTacToe.game .o).root
    Unrepeated TicTacToe.game .o ∧ root.children.map Tree.visits = [0, 2147483648] ∧
      ¬(root.children.filter fun c => !isUnvisited c) <+: root.children := by
  intro o s h root
  have hvisits : root.children.map Tree.visits = [0, 2147483648] := by decide +kernel
  have hfiltered : (root.children.filter fun c => !isUnvisited c).map Tree.visits =
      [2147483648] := by decide +kernel
  refine ⟨unrepeated_ticTacToe .o, hvisits, fun hprefix => ?_⟩
  have hcounts := hprefix.map Tree.visits
  rw [hfiltered, hvisits] at hcounts
  exact absurd hcounts (by decide)

end History

end GameSearch.TreeSearch
