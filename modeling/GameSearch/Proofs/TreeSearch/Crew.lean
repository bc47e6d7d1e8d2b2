import GameSearch.Proofs.TreeSearch.Growth

/-!
# GameSearch.Proofs.TreeSearch.Crew

Several workers at once. Between any two of their steps a crew is `Orderly`: each worker can do what
it is about to do, the permits that are held are those of the workers, and no two workers at one
tree hold the same. A step of any of them keeps this (`act_orderly`), so every rota does
(`work_orderly`). Once the workers have been told to stop, eight steps bring each of them to its end
(`acts_left`), and then all permits have been given back.

* `Session.searchWith_answers`: a search by several workers ends for every rota, and what it leaves
  is ready for the next search.
-/

namespace GameSearch.TreeSearch

variable {σ μ α V γ : Type}

/-- The most steps that a worker that has been told to stop can still take. -/
def Task.rank : Task σ μ V → Nat
  | .look => 8
  | .reserve _ => 7
  | .expand _ => 6
  | .simulate _ _ => 5
  | .record _ _ => 4
  | .recordRoot _ _ => 3
  | .leave _ => 2
  | .idle => 1
  | .finished _ => 0

theorem Task.rank_le (task : Task σ μ V) : task.rank ≤ 8 := by
  cases task <;> simp [rank]

theorem Task.isFinished_iff {task : Task σ μ V} : task.isFinished = true ↔ task.rank = 0 := by
  cases task <;> simp [isFinished, rank]

def Crew.left (k : Nat) (c : Crew σ μ V γ) : Nat := (c.workers[k]?.map (·.1.rank)).getD 0

theorem Crew.left_of_some {c : Crew σ μ V γ} {w : Task σ μ V × γ} {k : Nat}
    (hw : c.workers[k]? = some w) : c.left k = w.1.rank := by
  simp only [left, hw, Option.map_some, Option.getD_some]

theorem Crew.left_le (k : Nat) (c : Crew σ μ V γ) : c.left k ≤ 8 := by
  cases hw : c.workers[k]? with
  | none => simp [left, hw]
  | some w => exact left_of_some hw ▸ w.1.rank_le

theorem Crew.isFinished_of_left {c : Crew σ μ V γ}
    (h : ∀ k < c.workers.length, c.left k = 0) : c.isFinished = true := by
  refine List.all_eq_true.2 fun w hw => Task.isFinished_iff.2 ?_
  obtain ⟨k, hk⟩ := List.getElem?_of_mem hw
  rw [← left_of_some hk]
  exact h k (List.getElem?_eq_some_iff.1 hk).1

theorem of_getElem?_set {β : Type} {xs : List β} {x y : β} {i j : Nat}
    (h : (xs.set i x)[j]? = some y) : (j = i ∧ y = x) ∨ (j ≠ i ∧ xs[j]? = some y) := by
  rw [List.getElem?_set] at h
  split at h
  · rename_i hij
    split at h
    · cases h
      exact .inl ⟨hij.symm, rfl⟩
    · cases h
  · rename_i hij
    exact .inr ⟨Ne.symm hij, h⟩

variable [DecidableEq σ] {p : Setup σ μ α V} {s : σ} {mode : Mode} {i : Interrupt} {k : Nat}

namespace Crew

variable {c : Crew σ μ V γ}

/-! ## What holds between any two steps -/

/-- The workers keep to their permits. -/
structure Orderly (p : Setup σ μ α V) (s : σ) (mode : Mode) (c : Crew σ μ V γ) : Prop where
  hired : 0 < c.workers.length
  placed : ∀ k < c.workers.length, mode.treeOf k < c.trees.length
  standing {j : Nat} {t : Tree σ μ V × Counters} : c.trees[j]? = some t → Standing p s t.1
  sound {k : Nat} {w : Task σ μ V × γ} {t : Tree σ μ V × Counters} : c.workers[k]? = some w →
    c.trees[mode.treeOf k]? = some t → w.1.Sound p t.1
  /-- The permits that are held at a tree are those of the workers at it. -/
  permits {j : Nat} {t : Tree σ μ V × Counters} : c.trees[j]? = some t → ∀ path,
    isBusy t.1 path = true ↔
      ∃ k w, mode.treeOf k = j ∧ c.workers[k]? = some w ∧ w.1.guard? = some path
  alone {k k' : Nat} {w w' : Task σ μ V × γ} {path : Path} : mode.treeOf k = mode.treeOf k' →
    c.workers[k]? = some w → c.workers[k']? = some w' → w.1.guard? = some path →
    w'.1.guard? = some path → k = k'

theorem Orderly.stop (h : c.Orderly p s mode) : ({ c with stopped := true }).Orderly p s mode :=
  ⟨h.hired, h.placed, h.standing, h.sound, h.permits, h.alone⟩

theorem Orderly.result_eq (h : c.Orderly p s mode) (hfinished : c.isFinished = true) :
    c.result = .ok () := by
  have hnone : c.workers.findSome? (fun w => w.1.error?) = none := by
    refine List.findSome?_eq_none_iff.2 fun w hw => ?_
    obtain ⟨k, hk⟩ := List.getElem?_of_mem hw
    have hplaced := h.placed k (List.getElem?_eq_some_iff.1 hk).1
    have hsound := h.sound hk (List.getElem?_eq_getElem hplaced)
    have hdone := List.all_eq_true.1 hfinished w hw
    obtain ⟨task, g⟩ := w
    cases task <;> cases hdone
    cases hsound
    rfl
  simp only [result, hnone]

theorem Orderly.fit (h : c.Orderly p s mode) (hfinished : c.isFinished = true) {j : Nat}
    {t : Tree σ μ V × Counters} (ht : c.trees[j]? = some t) : Fit p s t.1 := by
  refine (h.standing ht).fit fun path => Bool.eq_false_iff.2 fun hbusy => ?_
  obtain ⟨k, w, -, hw, hpath⟩ := (h.permits ht path).1 hbusy
  have hdone := List.all_eq_true.1 hfinished w (List.mem_of_getElem? hw)
  obtain ⟨task, g⟩ := w
  cases task <;> cases hdone
  cases hpath

theorem Orderly.of_idle (hhired : 0 < c.workers.length)
    (hplaced : ∀ k < c.workers.length, mode.treeOf k < c.trees.length)
    (htrees : ∀ t ∈ c.trees, Fit p s t.1) (hidle : ∀ w ∈ c.workers, w.1 = .idle) :
    c.Orderly p s mode := by
  have hguard {k : Nat} {w : Task σ μ V × γ} (hw : c.workers[k]? = some w) : w.1 = .idle :=
    hidle w (List.mem_of_getElem? hw)
  refine ⟨hhired, hplaced, fun ht => .of_fit (htrees _ (List.mem_of_getElem? ht)), fun hw _ => ?_,
    fun {j t} ht path => ?_, fun _ hw _ hpath => ?_⟩
  · rw [hguard hw]
    trivial
  · rw [(htrees _ (List.mem_of_getElem? ht)).ready.free path]
    refine ⟨nofun, fun ⟨k, w, _, hw, hpath⟩ => ?_⟩
    rw [hguard hw] at hpath
    cases hpath
  · rw [hguard hw] at hpath
    cases hpath

/-! ## One step -/

namespace Orderly

variable {t : Tree σ μ V × Counters} {w : Task σ μ V × γ} {next : Task σ μ V} {u : Tree σ μ V}
  {g : γ}

/-- What worker `k` has in its hands after its step, nobody else at the tree had before. -/
theorem untaken (h : c.Orderly p s mode) (ht : c.trees[mode.treeOf k]? = some t)
    (hw : c.workers[k]? = some w) (hadvanced : Task.Advanced p s w.1 t.1 next u) {k' : Nat}
    {w' : Task σ μ V × γ} {path : Path} (hne : k' ≠ k) (hsame : mode.treeOf k' = mode.treeOf k)
    (hw' : c.workers[k']? = some w') (hpath : w'.1.guard? = some path) :
    next.guard? ≠ some path := by
  intro htaken
  rcases hadvanced.taken path htaken with hmine | hfree
  · exact hne (h.alone hsame hw' hw hpath hmine)
  · rw [(h.permits ht path).2 ⟨k', w', hsame, hw', hpath⟩] at hfree
    cases hfree

theorem permits_set (h : c.Orderly p s mode) (ht : c.trees[mode.treeOf k]? = some t)
    (hw : c.workers[k]? = some w) (hadvanced : Task.Advanced p s w.1 t.1 next u) (path : Path) :
    isBusy u path = true ↔ ∃ k' w', mode.treeOf k' = mode.treeOf k ∧
      (c.workers.set k (next, g))[k']? = some w' ∧ w'.1.guard? = some path := by
  rw [hadvanced.permits path]
  constructor
  · rintro (htaken | ⟨hbusy, hnot⟩)
    · exact ⟨k, _, rfl, List.getElem?_set_self (List.getElem?_eq_some_iff.1 hw).1, htaken⟩
    · obtain ⟨k', w', hsame, hw', hpath⟩ := (h.permits ht path).1 hbusy
      have hne : k ≠ k' := by
        rintro rfl
        cases hw.symm.trans hw'
        exact hnot hpath
      exact ⟨k', w', hsame, (List.getElem?_set_ne hne).trans hw', hpath⟩
  · rintro ⟨k', w', hsame, hw', hpath⟩
    rcases of_getElem?_set hw' with ⟨rfl, rfl⟩ | ⟨hne, hw'⟩
    · exact .inl hpath
    · exact .inr ⟨(h.permits ht path).2 ⟨k', w', hsame, hw', hpath⟩,
        fun hmine => hne (h.alone hsame hw' hw hpath hmine)⟩

theorem alone_set (h : c.Orderly p s mode) (ht : c.trees[mode.treeOf k]? = some t)
    (hw : c.workers[k]? = some w) (hadvanced : Task.Advanced p s w.1 t.1 next u) {k₁ k₂ : Nat}
    {w₁ w₂ : Task σ μ V × γ} {path : Path} (hsame : mode.treeOf k₁ = mode.treeOf k₂)
    (h₁ : (c.workers.set k (next, g))[k₁]? = some w₁)
    (h₂ : (c.workers.set k (next, g))[k₂]? = some w₂) (hpath₁ : w₁.1.guard? = some path)
    (hpath₂ : w₂.1.guard? = some path) : k₁ = k₂ := by
  rcases of_getElem?_set h₁ with ⟨rfl, rfl⟩ | ⟨hne₁, hw₁⟩ <;>
    rcases of_getElem?_set h₂ with ⟨rfl, rfl⟩ | ⟨hne₂, hw₂⟩
  · rfl
  · exact absurd hpath₁ (h.untaken ht hw hadvanced hne₂ hsame.symm hw₂ hpath₂)
  · exact absurd hpath₂ (h.untaken ht hw hadvanced hne₁ hsame hw₁ hpath₁)
  · exact h.alone hsame hw₁ hw₂ hpath₁ hpath₂

end Orderly

section

variable [Utility V] [RandomSource γ]

/-- What a step of worker `k` can be. -/
inductive Acted (p : Setup σ μ α V) (mode : Mode) (i : Interrupt) (k : Nat) (c : Crew σ μ V γ) :
    Crew σ μ V γ → Prop where
  | absent : c.trees[mode.treeOf k]? = none ∨ c.workers[k]? = none → Acted p mode i k c c
  | finished {w : Task σ μ V × γ} : c.workers[k]? = some w → w.1.isFinished = true →
      Acted p mode i k c c
  | advanced {t : Tree σ μ V × Counters} {w : Task σ μ V × γ} {next : Task σ μ V} {asked : Nat}
      {y : Session σ μ V γ} : c.trees[mode.treeOf k]? = some t → c.workers[k]? = some w →
      w.1.advance p mode.locking (c.isTold i) ⟨t.1, t.2, w.2⟩ = (next, asked, y) →
      Acted p mode i k c ⟨c.trees.set (mode.treeOf k) (y.root, y.counters),
        c.workers.set k (next, y.rng), c.asked + asked, c.stopped || next.error?.isSome⟩

theorem act_cases (p : Setup σ μ α V) (mode : Mode) (i : Interrupt) (k : Nat)
    (c : Crew σ μ V γ) : Acted p mode i k c (c.act p mode i k) := by
  unfold act
  split
  · rename_i ht hw
    split
    · rename_i hfinished
      exact .finished hw hfinished
    · exact .advanced ht hw rfl
  · rename_i h
    refine .absent ?_
    cases ht : c.trees[mode.treeOf k]? with
    | none => exact .inl rfl
    | some t =>
      cases hw : c.workers[k]? with
      | none => exact .inr rfl
      | some w => exact (h t.1 t.2 w.1 w.2 ht hw).elim

theorem act_orderly (hagent : p.agent ∈ p.game.agents) (hs : Playable p s)
    (h : c.Orderly p s mode) : (c.act p mode i k).Orderly p s mode := by
  generalize hd : c.act p mode i k = d
  cases hd ▸ act_cases p mode i k c with
  | absent => exact h
  | finished => exact h
  | @advanced t w next asked y ht hw hnext =>
    have hheld : ∀ path, w.1.guard? = some path → isBusy t.1 path = true :=
      fun path hpath => (h.permits ht path).2 ⟨k, w, rfl, hw, hpath⟩
    have hadvanced := Task.advance_sound hagent hs (h.standing ht) (h.sound hw ht) hheld hnext
    refine ⟨by simpa using h.hired, by simpa using h.placed, fun {j u} hu => ?_,
      fun {k' w' u} hw' hu => ?_, fun {j u} hu path => ?_, h.alone_set ht hw hadvanced⟩
    · rcases of_getElem?_set hu with ⟨-, rfl⟩ | ⟨-, hu⟩
      · exact hadvanced.standing
      · exact h.standing hu
    · rcases of_getElem?_set hw' with ⟨rfl, rfl⟩ | ⟨-, hw'⟩ <;>
        rcases of_getElem?_set hu with ⟨hj, rfl⟩ | ⟨hj, hu⟩
      · exact hadvanced.sound
      · exact absurd rfl hj
      · exact (h.sound hw' (hj ▸ ht)).mono hadvanced.grew
      · exact h.sound hw' hu
    · rcases of_getElem?_set hu with ⟨rfl, rfl⟩ | ⟨hj, hu⟩
      · exact h.permits_set ht hw hadvanced path
      · -- the workers at another tree are others
        rw [h.permits hu path]
        refine exists_congr fun k' => exists_congr fun w' => and_congr_right ?_
        rintro rfl
        have hne : k ≠ k' := fun hk => hj (hk ▸ rfl)
        rw [List.getElem?_set_ne hne]

/-! ## A whole rota -/

theorem work_orderly (hagent : p.agent ∈ p.game.agents) (hs : Playable p s) (i : Interrupt)
    (rota : Rota) (left n : Nat) (h : c.Orderly p s mode) :
    (c.work p mode i rota left n).Orderly p s mode := by
  induction left generalizing c n with
  | zero => exact h
  | succ left ih =>
    unfold work
    split
    · exact h
    · split
      · exact ih (n + 1) h.stop
      · exact ih (n + 1) (act_orderly hagent hs h)

end

/-! ## The end of a search -/

/-- The workers have been told to stop. -/
structure Leaving (p : Setup σ μ α V) (s : σ) (mode : Mode) (c : Crew σ μ V γ) : Prop where
  orderly : c.Orderly p s mode
  stopped : c.stopped = true

variable [Utility V]

section

variable [RandomSource γ]

theorem advance_rank {task next : Task σ μ V} {locking : Locking} {x y : Session σ μ V γ}
    {asked : Nat} (h : task.advance p locking true x = (next, asked, y)) :
    next.rank ≤ task.rank - 1 := by
  cases task with
  | idle => cases h; simp [Task.rank]
  | look => cases h; simp [Task.rank]
  | reserve r =>
    simp only [Task.advance] at h
    split at h <;> cases h <;> simp [Task.rank]
  | expand c =>
    simp only [Task.advance] at h
    split at h
    · cases h; simp [Task.rank]
    · split at h <;> cases h <;> simp [Task.rank]
  | simulate c n =>
    simp only [Task.advance] at h
    split at h <;> cases h <;> simp [Task.rank]
  | record c score => cases h; simp [Task.rank]
  | recordRoot c score => cases h; simp [Task.rank]
  | leave c => cases h; simp [Task.rank]
  | finished result => cases h; simp [Task.rank]

theorem act_leaving (hagent : p.agent ∈ p.game.agents) (hs : Playable p s)
    (h : c.Leaving p s mode) : (c.act p mode i k).Leaving p s mode := by
  refine ⟨act_orderly hagent hs h.orderly, ?_⟩
  generalize hd : c.act p mode i k = d
  cases hd ▸ act_cases p mode i k c with
  | absent => exact h.stopped
  | finished => exact h.stopped
  | advanced => simp only [h.stopped, Bool.true_or]

theorem act_left (h : c.Leaving p s mode) (k' : Nat) :
    (c.act p mode i k).left k' ≤ c.left k' - (if k = k' then 1 else 0) := by
  have hnone : c.workers[k]? = none → c.left k = 0 := fun hw => by simp [left, hw]
  generalize hd : c.act p mode i k = d
  cases hd ▸ act_cases p mode i k c with
  | absent habsent =>
    split
    · rename_i hk
      subst hk
      have hw : c.workers[k]? = none := by
        refine habsent.elim (fun ht => ?_) id
        refine List.getElem?_eq_none_iff.2 (Nat.le_of_not_lt fun hk => ?_)
        exact absurd (List.getElem?_eq_none_iff.1 ht) (Nat.not_le_of_lt (h.orderly.placed k hk))
      rw [hnone hw]
    · exact Nat.le_refl _
  | finished hw hfinished =>
    split
    · rename_i hk
      subst hk
      rw [left_of_some hw, Task.isFinished_iff.1 hfinished]
    · exact Nat.le_refl _
  | @advanced t w next asked y ht hw hnext =>
    have htold : c.isTold i = true := by simp only [isTold, h.stopped, Bool.true_or]
    rw [htold] at hnext
    split
    · rename_i hk
      subst hk
      have hk : (c.workers.set k (next, y.rng))[k]? = some (next, y.rng) :=
        List.getElem?_set_self (List.getElem?_eq_some_iff.1 hw).1
      rw [left_of_some hw, left_of_some hk]
      exact advance_rank hnext
    · rename_i hk
      simp only [left, List.getElem?_set_ne hk]
      exact Nat.le_refl _

theorem act_length (p : Setup σ μ α V) (mode : Mode) (i : Interrupt) (k : Nat)
    (c : Crew σ μ V γ) : (c.act p mode i k).workers.length = c.workers.length := by
  generalize hd : c.act p mode i k = d
  cases hd ▸ act_cases p mode i k c with
  | absent => rfl
  | finished => rfl
  | advanced => exact List.length_set

theorem acts_left (hagent : p.agent ∈ p.game.agents) (hs : Playable p s) (n : Nat)
    (h : c.Leaving p s mode) :
    (c.acts p mode i k n).Leaving p s mode ∧
      (c.acts p mode i k n).workers.length = c.workers.length ∧
      ∀ k', (c.acts p mode i k n).left k' ≤ c.left k' - (if k = k' then n else 0) := by
  induction n generalizing c with
  | zero => exact ⟨h, rfl, fun k' => by simp [acts]⟩
  | succ n ih =>
    obtain ⟨hleaving, hlength, hleft⟩ := ih (act_leaving (i := i) (k := k) hagent hs h)
    refine ⟨hleaving, hlength.trans (act_length p mode i k c), fun k' => ?_⟩
    have hfirst := act_left (i := i) (k := k) h k'
    have hrest := hleft k'
    rw [acts]
    by_cases hk : k = k'
    · rw [if_pos hk] at hfirst hrest ⊢
      omega
    · rw [if_neg hk] at hfirst hrest ⊢
      omega

theorem leave_all (hagent : p.agent ∈ p.game.agents) (hs : Playable p s) (ks : List Nat)
    (h : c.Leaving p s mode) :
    let d := ks.foldl (fun c k => c.acts p mode i k 8) c
    d.Leaving p s mode ∧ d.workers.length = c.workers.length ∧
      ∀ k, d.left k ≤ c.left k ∧ (k ∈ ks → d.left k = 0) := by
  induction ks generalizing c with
  | nil => exact ⟨h, rfl, fun k => ⟨Nat.le_refl _, nofun⟩⟩
  | cons k₀ ks ih =>
    obtain ⟨hleaving, hlength, hleft⟩ := acts_left (i := i) (k := k₀) hagent hs 8 h
    obtain ⟨hleaving', hlength', hleft'⟩ := ih hleaving
    refine ⟨hleaving', hlength'.trans hlength, fun k => ?_⟩
    obtain ⟨hle, hzero⟩ := hleft' k
    have hfirst := hleft k
    have hmost := left_le k c
    rw [List.foldl_cons]
    refine ⟨by omega, fun hk => ?_⟩
    rcases List.mem_cons.1 hk with rfl | hk
    · rw [if_pos rfl] at hfirst
      omega
    · exact hzero hk

theorem complete_orderly (hagent : p.agent ∈ p.game.agents) (hs : Playable p s) (i : Interrupt)
    (rota : Rota) (h : c.Orderly p s mode) :
    (c.complete p mode i rota).Orderly p s mode ∧ (c.complete p mode i rota).isFinished = true := by
  have hwork := work_orderly hagent hs i rota rota.length 0 h
  unfold complete
  dsimp only
  split
  · rename_i hfinished
    exact ⟨hwork, hfinished⟩
  · obtain ⟨hleaving, hlength, hleft⟩ := leave_all (i := i) hagent hs
      (List.range (c.work p mode i rota rota.length 0).workers.length) ⟨hwork.stop, rfl⟩
    refine ⟨hleaving.orderly, isFinished_of_left fun k hk => (hleft k).2 ?_⟩
    rw [hlength] at hk
    exact List.mem_range.2 hk

theorem start_orderly (mode : Mode) {workers : Nat} {x : Session σ μ V γ} (hworkers : 0 < workers)
    (hx : Fit p s x.root) (base : UInt64) :
    (start p mode workers base x).Orderly p s mode := by
  cases mode with
  | sharedTree =>
    refine .of_idle ?_ ?_ ?_ ?_
    · simpa [start] using hworkers
    · simp [start, Mode.treeOf]
    · simpa [start] using hx
    · simp [start]
  | ownTrees =>
    have hunvisited : Fit p s (p.unvisited x.root.state {}) := hx.state_eq ▸ fit_unvisited p _
    refine .of_idle ?_ ?_ ?_ ?_
    · simp [start]
    · simp [start, Mode.treeOf]
    · simpa [start] using ⟨hx, fun _ => hunvisited⟩
    · simp only [start, List.mem_cons, List.mem_map]
      rintro w (rfl | ⟨k, -, rfl⟩) <;> rfl

end

variable [DecidableEq μ]

theorem foldl_merge_fit {others : List (Tree σ μ V × Counters)} {x : Session σ μ V γ}
    (hx : Fit p s x.root) (hothers : ∀ t ∈ others, Fit p s t.1) :
    Fit p s (others.foldl (fun z (root, counters) => (z.merge ⟨root, counters, z.rng⟩).2) x).root := by
  induction others generalizing x with
  | nil => exact hx
  | cons t others ih =>
    refine ih ?_ fun u hu => hothers u (List.mem_cons_of_mem t hu)
    exact Session.merge_fit (y := ⟨t.1, t.2, x.rng⟩) hx (hothers t List.mem_cons_self)

theorem session_fit (h : c.Orderly p s mode) (hfinished : c.isFinished = true)
    (x : Session σ μ V γ) : Fit p s (c.session mode x).root := by
  have hfit : ∀ t ∈ c.trees, Fit p s t.1 := by
    intro t ht
    obtain ⟨j, hj⟩ := List.getElem?_of_mem ht
    exact h.fit hfinished hj
  have hresult := h.result_eq hfinished
  obtain ⟨w, workers, hworkers⟩ := List.exists_cons_of_length_pos h.hired
  obtain ⟨t, others, htrees⟩ := List.exists_cons_of_length_pos
    (Nat.zero_lt_of_lt (h.placed 0 h.hired))
  rw [htrees] at hfit
  cases mode with
  | sharedTree =>
    simp only [session, htrees]
    exact hfit t List.mem_cons_self
  | ownTrees =>
    simp only [session, htrees, hworkers, hresult]
    exact foldl_merge_fit (hfit t List.mem_cons_self) fun u hu => hfit u (List.mem_cons_of_mem t hu)

end Crew

/-- A search ends whatever the rota, also when it has several workers. -/
theorem Session.searchWith_answers [Utility V] [RandomSource γ] [DecidableEq μ]
    {x : Session σ μ V γ}
    (hagent : p.agent ∈ p.game.agents) (hx : Fit p s x.root) (hs : Playable p s) (mode : Mode)
    (workers : Nat) (rota : Rota) (i : Interrupt) :
    ∃ told y, x.searchWith p mode workers rota i = (.ok (), told, y) ∧ Fit p s y.root := by
  unfold searchWith
  split
  · exact ⟨_, x, rfl, hx⟩
  · obtain ⟨base, g⟩ := RandomSource.word64 x.rng
    have hstart := Crew.start_orderly mode (Nat.le_max_right workers 1) (x := { x with rng := g }) hx base
    obtain ⟨hdone, hfinished⟩ := Crew.complete_orderly hagent hs i rota hstart
    dsimp only
    rw [hdone.result_eq hfinished]
    exact ⟨_, _, rfl, Crew.session_fit hdone hfinished _⟩

/-- Two workers take turns at one tree. Twice one of them is turned away, since the other holds the
permit that it needs. -/
example :
    let o : Options Rat := ⟨⟨fun _ _ _ => 0, fun _ _ _ => List.length_pos_iff.2⟩, 1, 10⟩
    let s := TicTacToe.Position.ofBoard #v[1, 2, 1, 1, 2, 2, 0, 1, 0]
    let h : History TicTacToe.Position TicTacToe.Action Rat Keystream := .start o s 7
    let x := h.session TicTacToe.game .x
    let y := (x.searchWith (h.setup TicTacToe.game .x) .sharedTree 2 (.even 2 16) .never).2.2
    y.root.visits = 2 ∧ y.counters.iterations = 2 ∧ y.counters.retries = 2 := by
  decide +kernel

end GameSearch.TreeSearch
