import GameSearch.Proofs.Minimax.Lines
import GameSearch.Proofs.Minimax.Pruning

/-!
# GameSearch.Proofs.Minimax.Reference

What a full search finds and what it counts. `Searched` says that it found the value of a position
and counted the lines below it, those that end the play and those that pause at the horizon. It
goes up from the positions below through a list of replies (`worstReply_searched`), a move
(`minNode_searched`), a list of moves (`bestMove_searched`) and by induction on the bound to every
position (`maxNode_searched`). A depth limit that no line comes to has no influence
(`maxNode_congr`).

* `search_lines`: what a full search reports, and when its depth limit makes no difference.
-/

namespace GameSearch.Minimax

variable {σ μ α κ : Type}

/-! ## The first of the best -/

/-- The score that was kept of those that were seen: it ranks above the ones before it, and none of
the later ones ranks above it. -/
inductive Kept (rank : Int32 → Int) (seen : List (κ × Score μ)) : Option (Score μ) → Prop where
  | none : seen = [] → Kept rank seen none
  | some {before after : List (κ × Score μ)} {x : κ} {score : Score μ} :
      seen = before ++ (x, score) :: after →
      (∀ y ∈ before, rank y.2.value < rank score.value) →
      (∀ y ∈ after, rank y.2.value ≤ rank score.value) → Kept rank seen (some score)

namespace Kept

variable {rank : Int32 → Int} {seen : List (κ × Score μ)} {old : Option (Score μ)}
  {kept score next : Score μ}

theorem keep (h : Kept rank seen old) (x : κ) (hnone : old = Option.none → next = score)
    (hsome : ∀ kept, old = Option.some kept →
      next = if rank kept.value < rank score.value then score else kept) :
    Kept rank (seen ++ [(x, score)]) (Option.some next) := by
  cases h with
  | none hseen =>
    obtain rfl := hnone rfl
    subst hseen
    exact .some (show [(x, next)] = [] ++ (x, next) :: [] from rfl) nofun nofun
  | @some before after y kept hseen hbefore hafter =>
    rw [hsome kept rfl]
    split
    · rename_i hlt
      refine .some (show seen ++ [(x, score)] = seen ++ (x, score) :: [] from rfl) ?_ nofun
      intro z hz
      rw [hseen, List.mem_append, List.mem_cons] at hz
      rcases hz with hz | rfl | hz
      · exact (hbefore z hz).trans hlt
      · exact hlt
      · exact lt_of_le_of_lt (hafter z hz) hlt
    · rename_i hle
      have hsplit : seen ++ [(x, score)] = before ++ (y, kept) :: (after ++ [(x, score)]) := by
        simp [hseen]
      refine .some hsplit hbefore ?_
      intro z hz
      rw [List.mem_append, List.mem_singleton] at hz
      rcases hz with hz | rfl
      · exact hafter z hz
      · exact Int.not_lt.1 hle

theorem keepBetter (h : Kept Int32.toInt seen old) (x : κ) :
    Kept Int32.toInt (seen ++ [(x, score)]) (Option.some (keepBetter old score)) := by
  refine h.keep x (fun hold => by subst hold; rfl) fun kept hold => ?_
  subst hold
  simp only [Minimax.keepBetter, Score.betterOf, Int32.lt_iff_toInt_lt]

theorem keepWorse (h : Kept (fun v => -v.toInt) seen old) (x : κ) :
    Kept (fun v => -v.toInt) (seen ++ [(x, score)]) (Option.some (keepWorse old score)) := by
  refine h.keep x (fun hold => by subst hold; rfl) fun kept hold => ?_
  subst hold
  simp only [Minimax.keepWorse, Score.worseOf, Int32.lt_iff_toInt_lt, Int.neg_lt_neg_iff]

theorem mem (h : Kept rank seen (Option.some kept)) : ∃ x, (x, kept) ∈ seen := by
  cases h with
  | @some _ _ x _ hseen _ _ => exact ⟨x, by simp [hseen]⟩

theorem rank_le (h : Kept rank seen (Option.some kept)) {y : κ × Score μ} (hy : y ∈ seen) :
    rank y.2.value ≤ rank kept.value := by
  cases h with
  | some hseen hbefore hafter =>
    rw [hseen, List.mem_append, List.mem_cons] at hy
    rcases hy with hy | rfl | hy
    · exact (hbefore y hy).le
    · exact le_rfl
    · exact hafter y hy

end Kept

/-! ## Counts -/

/-- From `t` to `t'` that many plays came to their ends and that many paused. -/
structure Tally.Counts (t t' : Tally) (ended paused : ℕ∞) : Prop where
  terminals : (t'.terminals : ℕ∞) = t.terminals + ended
  estimates : (t'.estimates : ℕ∞) = t.estimates + paused

namespace Tally.Counts

variable {t t₁ t' : Tally} {ended ended' paused paused' : ℕ∞}

theorem nothing (t : Tally) : t.Counts t 0 0 := ⟨(add_zero _).symm, (add_zero _).symm⟩

theorem add (h : t.Counts t₁ ended paused) (h' : t₁.Counts t' ended' paused') :
    t.Counts t' (ended + ended') (paused + paused') :=
  ⟨by rw [h'.terminals, h.terminals, add_assoc], by rw [h'.estimates, h.estimates, add_assoc]⟩

end Tally.Counts

namespace FullWidth

variable {p : Problem σ μ α} {depth : Nat} {s : σ} {t t' : Tally}

/-- The search of a state found its value and counted the lines below it. -/
structure Searched (p : Problem σ μ α) (depth : Nat) (s : σ) (t : Tally) (score : Score μ)
    (t' : Tally) : Prop where
  value : p.HasValue depth s score.value
  counts : t.Counts t' (p.lines p.Finishes depth s).encard (p.lines p.Pauses depth s).encard

structure SearchedMove (p : Problem σ μ α) (depth : Nat) (s : σ) (m : μ) (t : Tally)
    (score : Score μ) (t' : Tally) : Prop where
  value : p.HasWorst depth s m score.value
  action : score.action = some m
  counts : t.Counts t' (p.repliesAfter p.Finishes depth s m).encard
    (p.repliesAfter p.Pauses depth s m).encard

theorem worstReply_searched {below : σ → Tally → Except SearchError (Score μ × Tally)}
    (hbelow : ∀ s' t score t', below s' t = .ok (score, t') →
      Searched p (depth + 1) s' t score t')
    {joints : List (JointMove μ)} {seen : List (JointMove μ × Score μ)}
    {worst r : Option (Score μ)} (hworst : Kept (fun v => -v.toInt) seen worst)
    (h : worstReply p below s joints worst t = .ok (r, t')) :
    ∃ scored : List (JointMove μ × Score μ), scored.map Prod.fst = joints ∧
      (∀ x ∈ scored, ∃ s', p.game.next s x.1 = .ok s' ∧ p.HasValue (depth + 1) s' x.2.value) ∧
      Kept (fun v => -v.toInt) (seen ++ scored) r ∧
      t.Counts t' (Problem.spread joints (p.linesAfter p.Finishes depth s)).encard
        (Problem.spread joints (p.linesAfter p.Pauses depth s)).encard := by
  induction joints generalizing seen worst t with
  | nil =>
    cases h
    refine ⟨[], rfl, nofun, by rwa [List.append_nil], ?_⟩
    rw [Problem.encard_spread_nil, Problem.encard_spread_nil]
    exact .nothing _
  | cons joint rest ih =>
    simp only [worstReply] at h
    split at h
    · cases h
    · rename_i s' hnext
      split at h
      · cases h
      · rename_i score t₁ hscore
        have hfirst := hbelow s' t score t₁ hscore
        obtain ⟨scored, hfst, hall, hkept, hcounts⟩ := ih (hworst.keepWorse joint) h
        refine ⟨(joint, score) :: scored, by rw [List.map_cons, hfst], ?_, ?_, ?_⟩
        · rintro x (_ | ⟨_, hx⟩)
          · exact ⟨s', hnext, hfirst.value⟩
          · exact hall x hx
        · rwa [List.append_assoc] at hkept
        · rw [Problem.encard_spread_cons, Problem.encard_spread_cons,
            Problem.linesAfter_eq hnext, Problem.linesAfter_eq hnext]
          exact hfirst.counts.add hcounts

theorem minNode_searched {below : σ → Tally → Except SearchError (Score μ × Tally)}
    (hbelow : ∀ s' t score t', below s' t = .ok (score, t') →
      Searched p (depth + 1) s' t score t')
    {m : μ} {score : Score μ} (h : minNode p below s m t = .ok (score, t')) :
    SearchedMove p depth s m t score t' := by
  unfold minNode at h
  split at h
  · cases h
  · rename_i joints hjoints
    split at h
    · cases h
    · cases h
    · rename_i worst t₁ hworst
      cases h
      obtain ⟨scored, rfl, hall, hkept, hcounts⟩ :=
        worstReply_searched hbelow (.none rfl) hworst
      rw [List.nil_append] at hkept
      refine ⟨Problem.HasWorst.of_replies hjoints ?_ ?_, rfl, ?_⟩
      · intro joint hjoint
        obtain ⟨x, hx, rfl⟩ := List.mem_map.1 hjoint
        obtain ⟨s', hs', hv⟩ := hall x hx
        have hle := Int.neg_le_neg_iff.1 (hkept.rank_le hx)
        exact ⟨s', x.2.value, hs', hv, Int32.le_iff_toInt_le.2 hle⟩
      · obtain ⟨joint, hmem⟩ := hkept.mem
        obtain ⟨s', hs', hv⟩ := hall _ hmem
        exact ⟨joint, List.mem_map.2 ⟨_, hmem, rfl⟩, s', hs', hv⟩
      · rw [Problem.repliesAfter_eq hjoints, Problem.repliesAfter_eq hjoints]
        exact ⟨hcounts.terminals, hcounts.estimates⟩

theorem bestMove_searched {visit : μ → Tally → Except SearchError (Score μ × Tally)}
    (hvisit : ∀ m t score t', visit m t = .ok (score, t') → SearchedMove p depth s m t score t')
    {moves : List μ} {seen : List (μ × Score μ)} {best r : Option (Score μ)}
    (hbest : Kept Int32.toInt seen best) (h : bestMove visit moves best t = .ok (r, t')) :
    ∃ scored : List (μ × Score μ), scored.map Prod.fst = moves ∧
      (∀ x ∈ scored, p.HasWorst depth s x.1 x.2.value ∧ x.2.action = some x.1) ∧
      Kept Int32.toInt (seen ++ scored) r ∧
      t.Counts t' (Problem.spread moves (p.repliesAfter p.Finishes depth s)).encard
        (Problem.spread moves (p.repliesAfter p.Pauses depth s)).encard := by
  induction moves generalizing seen best t with
  | nil =>
    cases h
    refine ⟨[], rfl, nofun, by rwa [List.append_nil], ?_⟩
    rw [Problem.encard_spread_nil, Problem.encard_spread_nil]
    exact .nothing _
  | cons m rest ih =>
    simp only [bestMove] at h
    split at h
    · cases h
    · rename_i score t₁ hscore
      have hfirst := hvisit m t score t₁ hscore
      obtain ⟨scored, hfst, hall, hkept, hcounts⟩ := ih (hbest.keepBetter m) h
      refine ⟨(m, score) :: scored, by rw [List.map_cons, hfst], ?_, ?_, ?_⟩
      · rintro x (_ | ⟨_, hx⟩)
        · exact ⟨hfirst.value, hfirst.action⟩
        · exact hall x hx
      · rwa [List.append_assoc] at hkept
      · rw [Problem.encard_spread_cons, Problem.encard_spread_cons]
        exact hfirst.counts.add hcounts

def FirstBest (p : Problem σ μ α) (depth : Nat) (s : σ) (score : Score μ) : Prop :=
  ∃ before m after, p.game.legalMoves s p.agent = .ok (before ++ m :: after) ∧
    score.action = some m ∧ p.HasWorst depth s m score.value ∧
    ∀ m' ∈ before, ∃ w, p.HasWorst depth s m' w ∧ w < score.value

theorem Searched.of_moves {moves : List μ} {scored : List (μ × Score μ)} {score : Score μ}
    (hs : p.game.terminal s = false) (hdepth : (depth : ℕ∞) < p.horizon)
    (hmoves : p.game.legalMoves s p.agent = .ok moves) (hfst : scored.map Prod.fst = moves)
    (hall : ∀ x ∈ scored, p.HasWorst depth s x.1 x.2.value ∧ x.2.action = some x.1)
    (hkept : Kept Int32.toInt scored (some score)) :
    p.HasValue depth s score.value ∧ FirstBest p depth s score := by
  subst hfst
  constructor
  · refine Problem.HasValue.of_moves hs hdepth hmoves ?_ ?_
    · intro m hm
      obtain ⟨x, hx, rfl⟩ := List.mem_map.1 hm
      exact ⟨x.2.value, (hall x hx).1, Int32.le_iff_toInt_le.2 (hkept.rank_le hx)⟩
    · obtain ⟨m, hmem⟩ := hkept.mem
      exact ⟨m, List.mem_map.2 ⟨_, hmem, rfl⟩, (hall _ hmem).1⟩
  · cases hkept with
    | @some before after m _ hscored hbefore _ =>
      subst hscored
      have hm := hall (m, score) (by simp)
      refine ⟨before.map Prod.fst, m, after.map Prod.fst, by simpa using hmoves, hm.2, hm.1, ?_⟩
      intro m' hm'
      obtain ⟨x, hx, rfl⟩ := List.mem_map.1 hm'
      exact ⟨x.2.value, (hall x (List.mem_append_left _ hx)).1,
        Int32.lt_iff_toInt_lt.2 (hbefore x hx)⟩

theorem maxNode_searched {bound : Nat} {score : Score μ} (hdepth : (depth : ℕ∞) ≤ p.horizon)
    (h : maxNode p bound s depth t = .ok (score, t')) :
    Searched p depth s t score t' ∧
      (p.game.terminal s = false → (depth : ℕ∞) < p.horizon → FirstBest p depth s score) := by
  induction bound using Nat.strongRecOn generalizing depth s t t' score with
  | ind bound ih =>
    rcases maxNode_ok h with ⟨hs, v, hv, rfl, rfl⟩ | ⟨hs, hlimit, v, hv, rfl, rfl⟩ |
      ⟨hs, hlimit, below, moves, rfl, hmoves, hbest⟩
    · obtain ⟨hended, hpaused⟩ := Problem.encard_lines_terminal hs hdepth
      refine ⟨⟨.goal hs hv, ?_⟩, fun hopen => by simp [hs] at hopen⟩
      rw [hended, hpaused]
      exact ⟨by simp [Tally.enter, Tally.exact], by simp [Tally.enter, Tally.exact]⟩
    · have heq := (Problem.atLimit_iff_eq hdepth).1 hlimit
      obtain ⟨hended, hpaused⟩ := Problem.encard_lines_horizon hs heq
      refine ⟨⟨.estimate hs heq hv, ?_⟩, fun _ hlt => absurd heq hlt.ne⟩
      rw [hended, hpaused]
      exact ⟨by simp [Tally.enter, Tally.estimate], by simp [Tally.enter, Tally.estimate]⟩
    · have hlt := Problem.lt_horizon hdepth hlimit
      have hvisit : ∀ m t score t',
          minNode p (fun s' t => maxNode p below s' (depth + 1) t) s m t = .ok (score, t') →
          SearchedMove p depth s m t score t' := fun m t score t' h =>
        minNode_searched (fun s' t score t' h =>
          (ih below (Nat.lt_succ_self below) (Problem.succ_le_horizon hlt) h).1) h
      obtain ⟨scored, hfst, hall, hkept, hcounts⟩ :=
        bestMove_searched hvisit (.none rfl) hbest
      obtain ⟨hvalue, hfirst⟩ := Searched.of_moves hs hlt hmoves hfst hall hkept
      obtain ⟨hfinishes, hpauses⟩ := Problem.goes_on hs hlt
      refine ⟨⟨hvalue, ?_⟩, fun _ _ => hfirst⟩
      rw [Problem.encard_lines hs hfinishes hmoves, Problem.encard_lines hs hpauses hmoves]
      exact ⟨hcounts.terminals, hcounts.estimates⟩

/-! ## Limits that no line comes to -/

theorem worstReply_congr {limit : Option Nat}
    {below below' : σ → Tally → Except SearchError (Score μ × Tally)}
    {joints : List (JointMove μ)}
    (hbelow : ∀ joint ∈ joints, ∀ s', p.game.next s joint = .ok s' → below' s' = below s')
    (worst : Option (Score μ)) (t : Tally) :
    worstReply (p.withDepth limit) below' s joints worst t =
      worstReply p below s joints worst t := by
  induction joints generalizing worst t with
  | nil => rfl
  | cons joint rest ih =>
    simp only [worstReply, Problem.withDepth_game]
    cases hnext : p.game.next s joint with
    | error e => rfl
    | ok s' =>
      simp only [hbelow joint List.mem_cons_self s' hnext]
      cases below s' t with
      | error e => rfl
      | ok found => exact ih (fun joint hj => hbelow joint (List.mem_cons_of_mem _ hj)) _ _

theorem minNode_congr {limit : Option Nat}
    {below below' : σ → Tally → Except SearchError (Score μ × Tally)} {m : μ}
    (hbelow : ∀ joints, p.game.replies s p.agent m = .ok joints → ∀ joint ∈ joints, ∀ s',
      p.game.next s joint = .ok s' → below' s' = below s') :
    minNode (p.withDepth limit) below' s m = minNode p below s m := by
  funext t
  simp only [minNode, Problem.withDepth_game, Problem.withDepth_agent]
  cases hjoints : p.game.replies s p.agent m with
  | error e => rfl
  | ok joints => simp only [worstReply_congr (hbelow joints hjoints)]

theorem bestMove_congr {visit visit' : μ → Tally → Except SearchError (Score μ × Tally)}
    {moves : List μ} (hvisit : ∀ m ∈ moves, visit' m = visit m) (best : Option (Score μ))
    (t : Tally) : bestMove visit' moves best t = bestMove visit moves best t := by
  induction moves generalizing best t with
  | nil => rfl
  | cons m rest ih =>
    simp only [bestMove, hvisit m List.mem_cons_self]
    cases visit m t with
    | error e => rfl
    | ok found => exact ih (fun m hm => hvisit m (List.mem_cons_of_mem _ hm)) _ _

/-- The limit only matters at the states that lines lead to. -/
theorem maxNode_congr {limit : Option Nat}
    (h : ∀ line s', p.Leads s line s' → p.game.terminal s' = false →
      (p.withDepth limit).atLimit (depth + line.length) = p.atLimit (depth + line.length))
    (bound : Nat) (t : Tally) :
    maxNode (p.withDepth limit) bound s depth t = maxNode p bound s depth t := by
  induction bound using Nat.strongRecOn generalizing depth s t with
  | ind bound ih =>
    unfold maxNode
    simp only [Problem.withDepth_game, Problem.withDepth_agent, Problem.withDepth_evaluator]
    by_cases hs : p.game.terminal s = true
    · simp only [hs, ↓reduceIte]
    · have hopen := Bool.eq_false_of_not_eq_true hs
      have hhere := h [] s rfl hopen
      simp only [List.length_nil, Nat.add_zero] at hhere
      simp only [hopen, hhere, Bool.false_eq_true, ↓reduceIte]
      cases p.atLimit depth with
      | true => rfl
      | false =>
        cases bound with
        | zero => rfl
        | succ bound =>
          cases hmoves : p.game.legalMoves s p.agent with
          | error e => rfl
          | ok moves =>
            have hvisit : ∀ m ∈ moves, minNode (p.withDepth limit)
                (fun s' t => maxNode (p.withDepth limit) bound s' (depth + 1) t) s m =
                  minNode p (fun s' t => maxNode p bound s' (depth + 1) t) s m := by
              intro m hm
              refine minNode_congr fun joints hjoints joint hjoint s' hnext => funext fun t => ?_
              obtain ⟨i, hi⟩ := List.getElem?_of_mem hm
              obtain ⟨j, hj⟩ := List.getElem?_of_mem hjoint
              refine ih bound (Nat.lt_succ_self bound) (fun line s'' hline hs'' => ?_) t
              rw [← Problem.depth_cons depth (i, j) line]
              exact h ((i, j) :: line) s''
                ⟨hopen, s', ⟨moves, m, joints, joint, hmoves, hi, hjoints, hj, hnext⟩, hline⟩ hs''
            simp only [bestMove_congr hvisit]

theorem search_withDepth {limit : Nat} (h : ∀ line s', p.Leads s line s' →
      line.length = max limit 1 → p.game.terminal s' = true) (bound : Nat) :
    search (p.withDepth (some limit)) bound s = search (p.withDepth none) bound s := by
  have hfar : ∀ line s', (p.withDepth none).Leads s line s' → p.game.terminal s' = false →
      ((p.withDepth none).withDepth (some limit)).atLimit (0 + line.length) =
        (p.withDepth none).atLimit (0 + line.length) := by
    intro line s' hline hs'
    rw [Problem.withDepth_leads] at hline
    have hlt : line.length < max limit 1 := by
      by_contra hle
      rcases Nat.eq_or_lt_of_le (Nat.not_lt.1 hle) with heq | hlt
      · simp [h line s' hline heq.symm] at hs'
      · obtain ⟨s₁, htake, hs₁⟩ := hline.open_before hlt
        simp [h _ s₁ htake (by rw [List.length_take]; omega)] at hs₁
    simp only [Problem.withDepth, Problem.atLimit, Nat.zero_add, Bool.and_eq_false_iff,
      decide_eq_false_iff_not]
    omega
  simp only [search, ← maxNode_congr hfar bound {}]
  rfl

theorem search_one (p : Problem σ μ α) (bound : Nat) (s : σ) :
    search (p.withDepth (some 0)) bound s = search (p.withDepth (some 1)) bound s := by
  have hsame : ∀ line s', (p.withDepth (some 1)).Leads s line s' → p.game.terminal s' = false →
      ((p.withDepth (some 1)).withDepth (some 0)).atLimit (0 + line.length) =
        (p.withDepth (some 1)).atLimit (0 + line.length) := by
    intro line s' _ _
    simp only [Problem.withDepth, Problem.atLimit, Nat.zero_add]
    grind
  simp only [search, ← maxNode_congr hsame bound {}]
  rfl

/-- A full search counts the lines that end the play within its horizon and those that pause there.
It finds what the position is worth, and the first of the best moves. One turn is the least horizon,
and one that no play exceeds is like none. -/
theorem search_lines (p : Problem σ μ α) {bound : Nat} {report : Report μ}
    (hs : p.game.terminal s = false) (h : search p bound s = .ok report) :
    (report.tally.terminals : ℕ∞) = Set.encard {line | ∃ s', p.Leads s line s' ∧
      p.game.terminal s' = true ∧ (line.length : ℕ∞) ≤ p.horizon} ∧
    (report.tally.estimates : ℕ∞) = Set.encard {line | ∃ s', p.Leads s line s' ∧
      p.game.terminal s' = false ∧ (line.length : ℕ∞) = p.horizon} ∧
    (∀ v, p.HasValue 0 s v ↔ v = report.score.value) ∧
    (∃ before m after, p.game.legalMoves s p.agent = .ok (before ++ m :: after) ∧
      report.score.action = some m ∧ p.HasWorst 0 s m report.score.value ∧
      ∀ m' ∈ before, ∃ w, p.HasWorst 0 s m' w ∧ w < report.score.value) ∧
    search (p.withDepth (some 0)) bound s = search (p.withDepth (some 1)) bound s ∧
    (∀ limit, (∀ line s', p.Leads s line s' → line.length = max limit 1 →
        p.game.terminal s' = true) →
      search (p.withDepth (some limit)) bound s = search (p.withDepth none) bound s) ∧
    (p.maxDepth = none → ∀ limit, (∀ line s', p.Leads s line s' → line.length ≤ max limit 1) →
      search (p.withDepth (some limit)) bound s = .ok report) := by
  have hroot : ((0 : Nat) : ℕ∞) < p.horizon :=
    lt_of_lt_of_le (by exact_mod_cast Nat.zero_lt_one) p.one_le_horizon
  obtain ⟨score, t, hmax, rfl⟩ : ∃ score t, maxNode p bound s 0 {} = .ok (score, t) ∧
      report = ⟨score, t⟩ := by
    unfold search at h
    split at h
    · cases h
    · rename_i score t hmax
      cases h
      exact ⟨score, t, hmax, rfl⟩
  obtain ⟨⟨hvalue, hcounts⟩, hfirst⟩ := maxNode_searched hroot.le hmax
  refine ⟨?_, ?_, fun v => ⟨fun hv => hv.unique hvalue, fun hv => hv ▸ hvalue⟩, hfirst hs hroot,
    search_one p bound s, fun limit hlimit => search_withDepth hlimit bound, ?_⟩
  · simpa [Problem.lines, Problem.Finishes] using hcounts.terminals
  · simpa [Problem.lines, Problem.Pauses] using hcounts.estimates
  · intro hnone limit hlimit
    have hhorizon : p.horizon = ⊤ := by simp [Problem.horizon, hnone]
    have hsame : p.withDepth none = p := by simp [Problem.withDepth, ← hnone]
    rw [search_withDepth ?_ bound, hsame, h]
    intro line s' hline hlength
    by_contra hopen
    have hs' := Bool.eq_false_of_not_eq_true hopen
    obtain ⟨w, hw⟩ := hvalue.along hline (by rw [hhorizon]; exact le_top)
    obtain ⟨turn, s'', hturn⟩ := hw.exists_turn hs' (by rw [hhorizon]; exact ENat.natCast_ne_top _)
    have hlong := hlimit (line ++ [turn]) s''
      (Problem.leads_append.2 ⟨s', hline, hs', s'', hturn, rfl⟩)
    rw [List.length_append, hlength] at hlong
    exact absurd hlong (Nat.not_succ_le_self _)

/-- Three cells are open. Two of the six lines of two turns end with a win of the other player, who
needs the cell that the agent may take now. -/
theorem search_lines_three_open :
    let p : Problem TicTacToe.Position TicTacToe.Action TicTacToe.Mark :=
      ⟨TicTacToe.game, .x, Heuristic.evaluator TicTacToe.game (.constant 50), some 2⟩
    let s := TicTacToe.Position.ofBoard #v[1, 1, 2, 2, 2, 0, 1, 0, 0]
    Set.encard {line | ∃ s', p.Leads s line s' ∧ p.game.terminal s' = true ∧
      (line.length : ℕ∞) ≤ p.horizon} = 2 ∧
    Set.encard {line | ∃ s', p.Leads s line s' ∧ p.game.terminal s' = false ∧
      (line.length : ℕ∞) = p.horizon} = 4 ∧ p.HasValue 0 s 50 := by
  intro p s
  have hs : p.game.terminal s = false := by decide +kernel
  have h : search p 2 s = .ok ⟨.withAction 50 (.place 5), ⟨16, 2, 4, 0⟩⟩ := by decide +kernel
  obtain ⟨hended, hpaused, hvalue, -⟩ := search_lines p hs h
  exact ⟨hended.symm, hpaused.symm, (hvalue 50).2 rfl⟩

end FullWidth

end GameSearch.Minimax
