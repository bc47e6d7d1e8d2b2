import GameSearch.Proofs.TreeSearch.Permits
import GameSearch.Random.Keystream
import GameSearch.TicTacToe.Rules
import Mathlib.Control.Monad.Basic
import Mathlib.Logic.ExistsUnique

/-!
# GameSearch.Proofs.TreeSearch.Frame

What an iteration changes in a tree, node by node. `Frame change target t u` says that `u` has
every node of `t` in its place, that `change` was applied to the statistics of the nodes from the
root to the target and to no others, and that new nodes hang below the target, at most two steps
away, and have not been visited.

* `Session.workAt_frame`: work at the end of a walk is framed, whether it fails or is completed.
* `Session.iterate_cases`, `Session.iterate_completed`: an iteration is given up for a permit, or it
  is such work.
* `History.iterate_frame`: what a completed iteration changes, and what is left of each node after
  any number of iterations.
-/

namespace GameSearch.TreeSearch

variable {σ μ α V γ : Type} {t u v : Tree σ μ V} {path target : Path}

/-- What stays the same about a node as long as it is in a tree. -/
def Node.identity (n : Node σ μ V) : Kind μ × σ × Bool := (n.kind, n.state, n.terminal)

/-! ## Recorded scores, node by node -/

section

variable [Utility V]

theorem Tree.label_get?_record (score : V) (target path : Path) (t : Tree σ μ V) :
    ((t.record score target).get? path).map label =
      (t.get? path).map fun a => if path <+: target then a.label.record score else a.label := by
  induction target generalizing t path with
  | nil =>
    obtain ⟨n, cs⟩ := t
    cases path with
    | nil => simp [record, label]
    | cons j path => simp [record, Tree.get?]
  | cons i target ih =>
    obtain ⟨n, cs⟩ := t
    cases path with
    | nil => simp [record, label]
    | cons j path =>
      simp only [record, Tree.get?, List.getElem?_modify]
      by_cases hij : i = j
      · subst hij
        cases hc : cs[i]? with
        | none => rfl
        | some c => simpa [List.cons_prefix_cons] using ih path c
      · have hji : ¬j = i := fun h => hij h.symm
        simp [hij, hji, List.cons_prefix_cons]

end

theorem Tree.exists_of_label {a : Tree σ μ V} {f : Tree σ μ V → Node σ μ V}
    (h : (u.get? path).map label = (t.get? path).map f) (ha : t.get? path = some a) :
    ∃ b, u.get? path = some b ∧ b.label = f a := by
  rw [ha] at h
  cases hb : u.get? path with
  | none => simp [hb] at h
  | some b => exact ⟨b, rfl, by simpa [hb] using h⟩

/-! ## Frames -/

section

variable [Utility V] {change : Stats V → Stats V}

structure Frame (change : Stats V → Stats V) (target : Path) (t u : Tree σ μ V) : Prop where
  target_due : ∃ a, t.get? target = some a ∧ (a.visits = 0 ∨ a.label.terminal = true)
  /-- No node leaves its place, and only those on the way to the target change. -/
  kept : ∀ path a, t.get? path = some a → ∃ b, u.get? path = some b ∧
    b.label.identity = a.label.identity ∧
    b.stats = if path <+: target then change a.stats else a.stats
  /-- New nodes are children and grandchildren of a target that had none. -/
  new : ∀ path b, u.get? path = some b → t.get? path = none → b.stats = .none ∧
    ∃ a below, t.get? target = some a ∧ a.label.kind = .max ∧ a.label.terminal = false ∧
      a.label.expanded = false ∧ path = target ++ below ∧ 1 ≤ below.length ∧ below.length ≤ 2

theorem Frame.refl (ha : t.get? target = some u) (hdue : u.visits = 0 ∨ u.label.terminal = true) :
    Frame id target t t where
  target_due := ⟨u, ha, hdue⟩
  kept _ a h := ⟨a, h, rfl, by simp⟩
  new _ b h hnone := by cases hnone.symm.trans h

theorem Frame.root_stats (h : Frame change target t u) : u.stats = change t.stats := by
  obtain ⟨b, hb, _, hstats⟩ := h.kept [] t rfl
  cases hb
  rw [hstats, if_pos List.nil_prefix]

theorem Frame.inside (hu : t.get? target = some u) (h : Frame id [] u v) :
    Frame id target t (t.modify (fun _ => v) target) := by
  have hhere : ∀ below, t.get? (target ++ below) = u.get? below := fun below => by
    rw [Tree.get?_append, hu, Option.bind_some]
  have hthere : ∀ below, (t.modify (fun _ => v) target).get? (target ++ below) = v.get? below :=
    fun below => by
      rw [Tree.get?_append, Tree.get?_modify, hu]
      rfl
  refine ⟨?_, fun path a ha => ?_, fun path b hb hnone => ?_⟩
  · obtain ⟨a, ha, hdue⟩ := h.target_due
    cases ha
    exact ⟨u, hu, hdue⟩
  · by_cases hbelow : target <+: path
    · obtain ⟨below, rfl⟩ := hbelow
      obtain ⟨b, hb, hidentity, hstats⟩ := h.kept below a (hhere below ▸ ha)
      exact ⟨b, (hthere below).trans hb, hidentity, by simpa using hstats⟩
    · have hlabel := Tree.label_get?_modify (t := t) (fun _ => v) hbelow
      obtain ⟨b, hb, hlabel⟩ := Tree.exists_of_label hlabel ha
      exact ⟨b, hb, by rw [hlabel], by simp [Tree.stats, hlabel]⟩
  · by_cases hbelow : target <+: path
    · obtain ⟨below, rfl⟩ := hbelow
      obtain ⟨hstats, a, rest, ha, hk, hn, he, hrest, hlength⟩ :=
        h.new below b ((hthere below).symm.trans hb) ((hhere below).symm.trans hnone)
      cases ha
      exact ⟨hstats, u, below, hu, hk, hn, he, rfl, by simpa [hrest] using hlength⟩
    · have hlabel := Tree.label_get?_modify (t := t) (fun _ => v) hbelow
      rw [hb, hnone] at hlabel
      cases hlabel

theorem Frame.record (score : V) (h : Frame id target t u) :
    Frame (·.record score) target t (u.record score target) := by
  have hrecord := fun path => Tree.label_get?_record score target path u
  refine ⟨h.target_due, fun path a ha => ?_, fun path b hb hnone => ?_⟩
  · obtain ⟨m, hm, hidentity, hstats⟩ := h.kept path a ha
    obtain ⟨b, hb, hlabel⟩ := Tree.exists_of_label (hrecord path) hm
    have hsame : m.stats = a.stats := by simpa using hstats
    refine ⟨b, hb, ?_, ?_⟩
    · rw [hlabel, ← hidentity]
      split <;> rfl
    · rw [Tree.stats, hlabel, ← hsame]
      split <;> rfl
  · have hlabel := hrecord path
    rw [hb] at hlabel
    cases hm : u.get? path with
    | none =>
      rw [hm] at hlabel
      cases hlabel
    | some m =>
      obtain ⟨hstats, a, below, ha, hk, hn, he, rfl, hpos, hle⟩ := h.new path m hm hnone
      have hoff : ¬target ++ below <+: target := fun hprefix => by
        have := hprefix.length_le
        rw [List.length_append] at this
        omega
      rw [hm, Option.map_some, Option.map_some, if_neg hoff, Option.some.injEq] at hlabel
      exact ⟨by rw [Tree.stats, hlabel]; exact hstats, a, below, ha, hk, hn, he, rfl, hpos, hle⟩

theorem Stats.record_ne (s : Stats V) (score : V) : s.record score ≠ s := by
  intro h
  have hvisits : s.visits + 1 = s.visits := congrArg Stats.visits h
  simp at hvisits

/-- The nodes that changed tell which one was the target. -/
theorem Frame.target_prefix {score : V} {target' : Path} (h : Frame (·.record score) target t u)
    (h' : Frame (·.record score) target' t u) : target <+: target' := by
  obtain ⟨a, ha, _⟩ := h.target_due
  obtain ⟨b, hb, _, hstats⟩ := h.kept target a ha
  obtain ⟨b', hb', _, hstats'⟩ := h'.kept target a ha
  cases hb.symm.trans hb'
  rw [if_pos List.prefix_rfl] at hstats
  by_cases hprefix : target <+: target'
  · exact hprefix
  · rw [if_neg hprefix, hstats] at hstats'
    exact absurd hstats' (Stats.record_ne a.stats score)

theorem Frame.target_unique {score : V} {target' : Path} (h : Frame (·.record score) target t u)
    (h' : Frame (·.record score) target' t u) : target' = target :=
  (h'.target_prefix h).eq_of_length_le (h.target_prefix h').length_le

end

/-! ## Growth, node by node -/

namespace Setup

variable [Utility V] [DecidableEq σ] {p : Setup σ μ α V} {s : σ}

theorem Committed.shallow {home : Home} (h : p.Committed s home t) :
    ∀ d ∈ t.children, d.children = [] := by
  obtain ⟨houtcomes, hne⟩ := h
  intro d hd
  obtain ⟨i, _, rfl⟩ := List.mem_mapIdx.1 hd
  rfl

theorem expand_frame {asked : Nat} (ht : t.Shaped p.game p.agent)
    (hdue : t.visits = 0 ∨ t.label.terminal = true) (h : p.expand t = .ok (asked, u)) :
    Frame id [] t u := by
  rcases expand_cases ht h with ⟨rfl, _⟩ | ⟨hnil, hk, hn, he, ts, hchoices, rfl⟩
  · exact .refl rfl hdue
  · obtain ⟨n, cs⟩ := t
    obtain rfl : cs = [] := hnil
    refine ⟨⟨_, rfl, hdue⟩, fun path a ha => ?_, fun path b hb hnone => ?_⟩
    · cases path with
      | nil =>
        cases ha
        exact ⟨_, rfl, rfl, by simp [Tree.stats, Tree.label]⟩
      | cons i path => cases ha
    · cases path with
      | nil => cases hnone
      | cons i path =>
        obtain ⟨c, hc, hb⟩ := Tree.get?_cons_eq_some.1 hb
        obtain ⟨_, _, _, _, hall⟩ := choices_ok hchoices
        have hcommitted := hall i c hc
        refine ⟨(hcommitted.fresh.get? hb).here.1, _, i :: path, rfl, hk, hn, he, rfl, ?_, ?_⟩
        · simp
        · cases path with
          | nil => simp
          | cons j path =>
            obtain ⟨d, hd, hb⟩ := Tree.get?_cons_eq_some.1 hb
            have hbare := hcommitted.shallow d (List.mem_of_getElem? hd)
            cases path with
            | nil => simp
            | cons k path =>
              obtain ⟨e, he, _⟩ := Tree.get?_cons_eq_some.1 hb
              rw [hbare] at he
              cases he

end Setup

/-! ## Iterations -/

namespace Session

variable [Utility V] [DecidableEq σ] [RandomSource γ] {p : Setup σ μ α V} {x : Session σ μ V γ}

theorem workAt_frame (hx : x.root.Shaped p.game p.agent) (hwalk : Walk x.root path) :
    (∃ score queries, (x.workAt p path).1 = .ok (.completed score queries) ∧
      Frame (·.record score) path x.root (x.workAt p path).2.root) ∨
    (∃ e, (x.workAt p path).1 = .error e ∧ Frame id path x.root (x.workAt p path).2.root) := by
  obtain ⟨u, hu⟩ := hwalk.exists_target
  have hdue := hwalk.target hu
  have hgrow : ∀ {t grown : Tree σ μ V} {asked : Nat}, x.root.get? path = some t →
      p.expand t = .ok (asked, grown) →
      Frame id path x.root (x.root.modify (fun _ => grown) path) := by
    intro t grown asked ht he
    cases hu.symm.trans ht
    exact .inside hu (p.expand_frame (hx.get? hu) hdue he)
  generalize hy : x.workAt p path = y
  cases hy ▸ workAt_cases p path x with
  | missing hnone => cases hnone.symm.trans hu
  | unexpanded => exact .inr ⟨_, rfl, .refl hu hdue⟩
  | unscored ht he _ => exact .inr ⟨_, rfl, hgrow ht he⟩
  | completed ht he _ => exact .inl ⟨_, _, rfl, (hgrow ht he).record _⟩

theorem iterate_cases (hx : x.root.Shaped p.game p.agent) (hb : x.root.Every Branched)
    (locking : Locking) :
    (locking = .rootPermits ∧
      x.iterate p locking = (.ok .retry, { x with counters := x.counters.retried })) ∨
    ∃ path, descend p.policy x.root = some path ∧ x.iterate p locking = x.workAt p path := by
  obtain ⟨path, hpath⟩ := descend_isSome p.policy hb
  cases locking with
  | exclusive => exact .inr ⟨path, hpath, iterate_exclusive hpath⟩
  | rootPermits =>
    cases hheld : isGuardHeld p.policy x.root with
    | true => exact .inl ⟨rfl, iterate_of_held hb hheld⟩
    | false =>
      exact .inr ⟨path, hpath, (iterate_of_free hx hb hheld).trans (iterate_exclusive hpath)⟩

theorem iterate_completed {locking : Locking} {score : V} {queries : Nat}
    (hx : x.root.Shaped p.game p.agent) (hb : x.root.Every Branched)
    (h : (x.iterate p locking).1 = .ok (.completed score queries)) :
    ∃ path, descend p.policy x.root = some path ∧
      Frame (·.record score) path x.root (x.iterate p locking).2.root := by
  rcases x.iterate_cases hx hb locking with ⟨_, hheld⟩ | ⟨path, hpath, hwork⟩
  · rw [hheld] at h
    cases h
  · rw [hwork] at h ⊢
    rcases workAt_frame hx (descend_walk hx hpath) with ⟨_, _, hok, hframe⟩ | ⟨_, herror, _⟩
    · cases hok.symm.trans h
      exact ⟨path, hpath, hframe⟩
    · cases herror.symm.trans h

end Session

/-! ## Any number of iterations -/

/-- `n` iterations lead from one tree to another. Each has a source of randomness of its own, and
others may take permits and give them back in between. -/
inductive Searched [Utility V] [DecidableEq σ] (p : Setup σ μ α V) (t : Tree σ μ V) :
    Nat → Tree σ μ V → Prop where
  | none : Searched p t 0 t
  | iterate {n : Nat} {δ : Type} [RandomSource δ] (x : Session σ μ V δ) (locking : Locking) :
      Searched p t n x.root → Searched p t (n + 1) (x.iterate p locking).2.root
  | permit {n : Nat} {u : Tree σ μ V} (busy : Bool) (path : Path) :
      Searched p t n u → Searched p t n (u.relabel (fun m => { m with busy := busy }) path)

/-- Every node of a tree is left in another one, with at most `n` more visits. -/
def Lasting (n : Nat) (t u : Tree σ μ V) : Prop :=
  ∀ path a, t.get? path = some a → ∃ b, u.get? path = some b ∧
    b.label.identity = a.label.identity ∧
    (a.visits + n < 2 ^ 32 → a.visits ≤ b.visits ∧ b.visits ≤ a.visits + n)

theorem Lasting.refl (t : Tree σ μ V) : Lasting 0 t t :=
  fun _ a ha => ⟨a, ha, rfl, fun _ => ⟨Nat.le_refl _, Nat.le_refl _⟩⟩

theorem Lasting.trans {m n : Nat} (h : Lasting m t u) (h' : Lasting n u v) :
    Lasting (m + n) t v := by
  intro path a ha
  obtain ⟨b, hb, hidentity, hvisits⟩ := h path a ha
  obtain ⟨c, hc, hidentity', hvisits'⟩ := h' path b hb
  refine ⟨c, hc, hidentity'.trans hidentity, fun hroom => ?_⟩
  have := hvisits (by omega)
  have := hvisits' (by omega)
  omega

theorem Frame.lasting [Utility V] {change : Stats V → Stats V}
    (hchange : ∀ s, (change s).visits = s.visits ∨ (change s).visits = s.visits + 1)
    (h : Frame change target t u) : Lasting 1 t u := by
  intro path a ha
  obtain ⟨b, hb, hidentity, hstats⟩ := h.kept path a ha
  refine ⟨b, hb, hidentity, fun hroom => ?_⟩
  have hgain : b.stats.visits = a.stats.visits ∨ b.stats.visits = a.stats.visits + 1 := by
    rw [hstats]
    split
    · exact hchange a.stats
    · exact .inl rfl
  have ha' : a.visits = a.stats.visits.toNat := rfl
  have hb' : b.visits = b.stats.visits.toNat := rfl
  rcases hgain with hsame | hmore
  · rw [hb', hsame]
    omega
  · have hsum : (a.stats.visits + 1).toNat = a.visits + 1 := toNat_succ_of_lt hroom
    rw [hb', hmore, hsum]
    omega

theorem Tree.label_get?_relabel (f : Node σ μ V → Node σ μ V) (top path : Path)
    (t : Tree σ μ V) : ((t.relabel f top).get? path).map label =
      (t.get? path).map fun a => if path = top then f a.label else a.label := by
  by_cases hbelow : top <+: path
  · obtain ⟨below, rfl⟩ := hbelow
    rw [relabel, get?_append, get?_append, get?_modify]
    cases t.get? top with
    | none => rfl
    | some u =>
      obtain ⟨n, cs⟩ := u
      cases below with
      | nil => simp [label]
      | cons i below => simp [Tree.get?]
  · have hne : ¬path = top := by
      rintro rfl
      exact hbelow List.prefix_rfl
    simp only [relabel, label_get?_modify _ hbelow, if_neg hne]

theorem lasting_relabel_busy (busy : Bool) (top : Path) (t : Tree σ μ V) :
    Lasting 0 t (t.relabel (fun m => { m with busy := busy }) top) := by
  intro path a ha
  have hrelabel := Tree.label_get?_relabel (fun m => { m with busy := busy }) top path t
  obtain ⟨b, hb, hlabel⟩ := Tree.exists_of_label hrelabel ha
  have hsame : b.label.identity = a.label.identity ∧ b.visits = a.visits := by
    rw [Tree.visits, hlabel]
    split <;> exact ⟨rfl, rfl⟩
  exact ⟨b, hb, hsame.1, by omega⟩

section

variable [Utility V] [DecidableEq σ] {p : Setup σ μ α V}

theorem Searched.trans {m n : Nat} (h : Searched p t m u) (h' : Searched p u n v) :
    Searched p t (m + n) v := by
  induction h' with
  | none => exact h
  | iterate x locking _ ih => exact .iterate x locking ih
  | permit busy path _ ih => exact .permit busy path ih

theorem Searched.lasting {n : Nat} (h : Searched p t n u) (ht : t.Rooted p.game p.agent)
    (hb : t.Every Branched) :
    (u.Rooted p.game p.agent ∧ u.Every Branched) ∧ Lasting n t u := by
  induction h with
  | none => exact ⟨⟨ht, hb⟩, .refl t⟩
  | iterate x locking _ ih =>
    obtain ⟨⟨hrooted, hbranched⟩, hlasting⟩ := ih
    refine ⟨Session.iterate_branched p locking x ⟨hrooted, hbranched⟩ trivial, ?_⟩
    rcases x.iterate_cases hrooted.1 hbranched locking with ⟨_, hheld⟩ | ⟨path, hpath, hwork⟩
    · rw [hheld]
      intro path a ha
      obtain ⟨b, hb, hidentity, hvisits⟩ := hlasting path a ha
      exact ⟨b, hb, hidentity, by omega⟩
    · rw [hwork]
      refine hlasting.trans ?_
      rcases Session.workAt_frame hrooted.1 (descend_walk hrooted.1 hpath) with
        ⟨score, _, _, hframe⟩ | ⟨_, _, hframe⟩
      · exact hframe.lasting fun s => .inr rfl
      · exact hframe.lasting fun s => .inl rfl
  | @permit n u busy path _ ih =>
    obtain ⟨⟨hrooted, hbranched⟩, hlasting⟩ := ih
    refine ⟨⟨⟨Session.relabel_busy_shaped hrooted.1, ?_⟩, ?_⟩, ?_⟩
    · have hkind : (u.relabel (fun m => { m with busy := busy }) path).label.kind = u.label.kind :=
        Tree.view_modify fun w _ => by cases w; rfl
      exact hkind.trans hrooted.2
    · exact hbranched.relabel (@branched_reads σ μ V) (fun _ _ hn => hn) fun _ => rfl
    · exact hlasting.trans (lasting_relabel_busy busy path u)

variable [RandomSource γ] {x : Session σ μ V γ}

theorem repeatIterations_searched (n : Nat) (x : Session σ μ V γ) :
    ∃ m ≤ n, Searched p x.root m (Session.repeatIterations p n x).2.root := by
  induction n generalizing x with
  | zero => exact ⟨0, Nat.le_refl 0, .none⟩
  | succ n ih =>
    have hfirst : Searched p x.root (0 + 1) (x.iterate p .exclusive).2.root := .iterate x _ .none
    unfold Session.repeatIterations
    split
    · rename_i hi
      rw [hi] at hfirst
      exact ⟨0 + 1, by omega, hfirst⟩
    · rename_i y hi
      rw [hi] at hfirst
      obtain ⟨m, hm, hrest⟩ := ih y
      exact ⟨0 + 1 + m, by omega, hfirst.trans hrest⟩

theorem iterateUntil_searched (i : Interrupt) (bound asked : Nat) (x : Session σ μ V γ) :
    ∃ m ≤ bound,
      Searched p x.root m (Session.iterateUntil p .exclusive i bound asked x).2.root := by
  induction bound generalizing x asked with
  | zero =>
    refine ⟨0, Nat.le_refl 0, ?_⟩
    rw [Session.iterateUntil_zero_root]
    exact .none
  | succ bound ih =>
    have hfirst : Searched p x.root (0 + 1) (x.iterate p .exclusive).2.root := .iterate x _ .none
    rcases Session.iterateUntil_round p .exclusive i asked x with hstop | hfail | ⟨asked', hgo⟩
    · refine ⟨0, by omega, ?_⟩
      rw [hstop]
      exact .none
    · refine ⟨0 + 1, by omega, ?_⟩
      rw [hfail]
      exact hfirst
    · obtain ⟨m, hm, hrest⟩ := ih asked' (x.iterate p .exclusive).2
      refine ⟨0 + 1 + m, by omega, ?_⟩
      rw [hgo]
      exact hfirst.trans hrest

end

namespace History

variable [Utility V] [RandomSource γ] [DecidableEq σ] [DecidableEq μ]

/-- A completed iteration has one target, and the nodes from the root to the target have one more
visit and the score. It changes no other node and only adds unvisited ones below the target. No
searches take a node away or put another one in its place, nor do they take visits from it as long
as its count does not go round. -/
theorem iterate_frame (game : Game σ μ α) (agent : α) (h : History σ μ V γ) :
    let p := h.setup game agent
    let root := (h.session game agent).root
    (∀ (δ : Type) [RandomSource δ] (g : δ) (score : V) (queries : Nat),
      let y := Session.iterate p .exclusive { h.session game agent with rng := g }
      y.1 = .ok (.completed score queries) →
        ∃! target, Frame (·.record score) target root y.2.root) ∧
    (∀ n u, Searched p root n u → ∀ path a, root.get? path = some a →
      ∃ b, u.get? path = some b ∧ b.label.identity = a.label.identity ∧
        (a.visits + n < 2 ^ 32 → a.visits ≤ b.visits)) ∧
    (∀ m, ∃ n ≤ m, Searched p root n ((h.run m).session game agent).root) ∧
    ∀ i, ∃ n ≤ p.patience, Searched p root n ((h.search i).session game agent).root := by
  intro p root
  have hrooted : root.Rooted game agent := h.rooted
  have hbranched : root.Every Branched := h.branched
  refine ⟨fun δ _ g score queries => ?_, fun n u hu path a ha => ?_, fun m => ?_, fun i => ?_⟩
  · intro y hy
    obtain ⟨path, _, hframe⟩ := Session.iterate_completed (p := p)
      (x := { h.session game agent with rng := g }) hrooted.1 hbranched hy
    exact ⟨path, hframe, fun path' hframe' => hframe.target_unique hframe'⟩
  · obtain ⟨b, hb, hidentity, hvisits⟩ := (hu.lasting hrooted hbranched).2 path a ha
    exact ⟨b, hb, hidentity, fun hroom => (hvisits hroom).1⟩
  · rw [session, Session.runIterations_root]
    exact repeatIterations_searched m _
  · rw [session, Session.searchUntil_root]
    split
    · exact ⟨0, Nat.zero_le _, .none⟩
    · exact iterateUntil_searched i _ 0 _

/-- The second iteration of a search is completed and has one target. The first child of the root
is still there after three more. -/
theorem iterate_frame_second :
    let o : Options Rat := ⟨⟨fun _ _ _ => 0, fun _ _ _ => List.length_pos_iff.2⟩, 1, 10⟩
    let s := TicTacToe.Position.ofBoard #v[1, 2, 1, 1, 2, 2, 0, 1, 0]
    let h : History TicTacToe.Position TicTacToe.Action Rat Keystream := .run (.start o s 7) 1
    let x := h.session TicTacToe.game .o
    let y := Session.iterate (h.setup TicTacToe.game .o) .exclusive x
    y.1 = .ok (.completed 50 3) ∧ (∃! target, Frame (·.record 50) target x.root y.2.root) ∧
      ∃ b, ((h.run 3).session TicTacToe.game .o).root.get? [0] = some b ∧
        b.label.kind = .min (.place 6) := by
  intro o s h x y
  have hcompleted : y.1 = .ok (.completed 50 3) := by decide +kernel
  have hchild : (x.root.get? [0]).map (·.label.kind) = some (.min (.place 6)) := by decide +kernel
  obtain ⟨hframe, hsearched, hrun, _⟩ := iterate_frame TicTacToe.game .o h
  obtain ⟨a, ha, hkind⟩ := Option.map_eq_some_iff.1 hchild
  obtain ⟨n, _, hn⟩ := hrun 3
  obtain ⟨b, hb, hidentity, _⟩ := hsearched n _ hn [0] a ha
  refine ⟨hcompleted, hframe Keystream x.rng 50 3 hcompleted, b, hb, ?_⟩
  exact (congrArg Prod.fst hidentity).trans hkind

/-- A count that goes round: a tree that was added to itself again and again, with an iteration in
between, has as many visits as can be counted, and none after the next iteration. -/
theorem visits_go_round :
    let o : Options Float := ⟨.ucb 2, 2, 10⟩
    let s := TicTacToe.Position.ofBoard #v[1, 1, 1, 2, 2, 0, 0, 0, 0]
    let h : History TicTacToe.Position TicTacToe.Action Float Keystream :=
      Nat.repeat (fun h => .run (.merge h h) 1) 31 (.run (.start o s 42) 1)
    (h.session TicTacToe.game .o).root.visits = 4294967295 ∧
      ((h.run 1).session TicTacToe.game .o).root.visits = 0 ∧
      ¬∀ path a b, (h.session TicTacToe.game .o).root.get? path = some a →
        ((h.run 1).session TicTacToe.game .o).root.get? path = some b → a.visits ≤ b.visits := by
  intro o s h
  have hbefore : (h.session TicTacToe.game .o).root.visits = 4294967295 := by decide +kernel
  have hafter : ((h.run 1).session TicTacToe.game .o).root.visits = 0 := by decide +kernel
  refine ⟨hbefore, hafter, fun hmore => ?_⟩
  have hroot := hmore [] _ _ rfl rfl
  rw [hbefore, hafter] at hroot
  exact absurd hroot (by decide)

end History

end GameSearch.TreeSearch
