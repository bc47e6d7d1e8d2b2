import GameSearch.Proofs.TreeSearch.History
import GameSearch.Random.Keystream
import GameSearch.TicTacToe.Rules
import Mathlib.Control.Monad.Basic

/-!
# GameSearch.Proofs.TreeSearch.Choice

The move that a session settles on. While the children of the root are gone through, the best of
them so far leads the ones seen (`Leads`): it is the first of the visited ones with the greatest
mean. One more child keeps this (`Leads.next`), so it holds of all children (`bestFrom_leads`).
The children stand for the legal moves in their order, so the chosen one is legal, and where
nothing was visited it is the first.

* `History.chooseMove_best`: the move, or the reason why there is none, for every history.
-/

namespace GameSearch.TreeSearch

variable {σ μ α V γ : Type}

theorem actions_of_roles {s : σ} {cs : List (Tree σ μ V)} {moves : List μ}
    (hroles : cs.map (·.label.role) = moves.map fun action => (.min action, s)) :
    cs.map (·.label.action) = moves.map some := by
  have h := congrArg (List.map fun role : Kind μ × σ => role.1.action) hroles
  rw [List.map_map, List.map_map] at h
  exact h

def Offered (moves : List μ) (children : List (Tree σ μ V)) : Prop :=
  ∀ c ∈ children, ∃ m ∈ moves, c.label.action = some m

theorem offered_iff_subset {cs : List (Tree σ μ V)} {actions moves : List μ}
    (hactions : cs.map (·.label.action) = actions.map some) :
    Offered moves cs ↔ actions ⊆ moves := by
  constructor
  · intro hcs m hm
    obtain ⟨c, hc, haction⟩ := List.mem_map.1 (hactions ▸ List.mem_map_of_mem (f := some) hm)
    obtain ⟨m', hm', haction'⟩ := hcs c hc
    obtain rfl : m' = m := Option.some.inj (haction'.symm.trans haction)
    exact hm'
  · intro hsub c hc
    have hmem : c.label.action ∈ cs.map (·.label.action) := List.mem_map_of_mem hc
    rw [hactions] at hmem
    obtain ⟨m, hm, haction⟩ := List.mem_map.1 hmem
    exact ⟨m, hsub hm, haction.symm⟩

variable [Utility V]

/-- `less` puts the given numbers in an order in which some of them may be equal. Floating-point
numbers are ordered as long as none of them is NaN. -/
structure Ordered (xs : List V) : Prop where
  asymm : ∀ a ∈ xs, ∀ b ∈ xs, Utility.less a b = true → Utility.less b a = false
  cotrans : ∀ a ∈ xs, ∀ b ∈ xs, ∀ c ∈ xs,
    Utility.less a b = false → Utility.less b c = false → Utility.less a c = false

theorem ordered_rat (xs : List Rat) : Ordered xs where
  asymm a _ b _ hlt := by
    have hlt : a < b := of_decide_eq_true hlt
    exact decide_eq_false (Rat.not_lt.2 (Rat.le_of_lt hlt))
  cotrans a _ b _ c _ hab hbc := by
    have hba : b ≤ a := Rat.not_lt.1 (of_decide_eq_false hab)
    have hcb : c ≤ b := Rat.not_lt.1 (of_decide_eq_false hbc)
    exact decide_eq_false (Rat.not_lt.2 (Rat.le_trans hcb hba))

def means (children : List (Tree σ μ V)) : List V := children.filterMap (·.stats.mean)

/-- The first of the visited siblings with the greatest mean. -/
structure FirstBest (children : List (Tree σ μ V)) (i : Nat) (c : Tree σ μ V) (mean : V) :
    Prop where
  child : children[i]? = some c
  mean_eq : c.stats.mean = some mean
  greatest : ∀ d ∈ children, ∀ u, d.stats.mean = some u → Utility.less mean u = false
  first : ∀ (j : Nat) d u, j < i → children[j]? = some d → d.stats.mean = some u →
    Utility.less u mean = true

theorem mean_eq_none_iff {t : Tree σ μ V} : t.stats.mean = none ↔ t.visits = 0 := by
  simp [Stats.mean, Stats.isUnvisited, Tree.stats, Tree.visits, ← UInt32.toNat_inj]

theorem mem_means {children : List (Tree σ μ V)} {t : Tree σ μ V} {mean : V}
    (ht : t ∈ children) (hmean : t.stats.mean = some mean) : mean ∈ means children :=
  List.mem_filterMap.2 ⟨t, ht, hmean⟩

/-! ## The best so far -/

/-- The best of the siblings seen so far. -/
inductive Leads (seen : List (Tree σ μ V)) : Option (V × Node σ μ V) → Prop where
  | unvisited : (∀ t ∈ seen, t.stats.mean = none) → Leads seen none
  | best {i : Nat} {c : Tree σ μ V} {mean : V} : FirstBest seen i c mean →
      Leads seen (some (mean, c.label))

section

variable {seen : List (Tree σ μ V)} {t c : Tree σ μ V} {i : Nat} {mean top : V}

theorem FirstBest.keep (h : FirstBest seen i c top)
    (ht : ∀ u, t.stats.mean = some u → Utility.less top u = false) :
    FirstBest (seen ++ [t]) i c top := by
  have hi : i < seen.length := (List.getElem?_eq_some_iff.1 h.child).1
  refine ⟨?_, h.mean_eq, ?_, ?_⟩
  · rw [List.getElem?_append_left hi, h.child]
  · intro d hd u hu
    rcases List.mem_append.1 hd with hd | hd
    · exact h.greatest d hd u hu
    · obtain rfl : d = t := List.mem_singleton.1 hd
      exact ht u hu
  · intro j d u hj hd hu
    rw [List.getElem?_append_left (Nat.lt_trans hj hi)] at hd
    exact h.first j d u hj hd hu

theorem FirstBest.last (hmean : t.stats.mean = some mean)
    (hless : Utility.less mean mean = false)
    (hbefore : ∀ d ∈ seen, ∀ u, d.stats.mean = some u →
      Utility.less mean u = false ∧ Utility.less u mean = true) :
    FirstBest (seen ++ [t]) seen.length t mean := by
  refine ⟨List.getElem?_concat_length, hmean, ?_, ?_⟩
  · intro d hd u hu
    rcases List.mem_append.1 hd with hd | hd
    · exact (hbefore d hd u hu).1
    · obtain rfl : d = t := List.mem_singleton.1 hd
      obtain rfl : mean = u := Option.some.inj (hmean.symm.trans hu)
      exact hless
  · intro j d u hj hd hu
    rw [List.getElem?_append_left hj] at hd
    exact (hbefore d (List.mem_of_getElem? hd) u hu).2

theorem Leads.next {best : Option (V × Node σ μ V)} (rest : List (Tree σ μ V))
    (hmeans : Ordered (means (seen ++ [t]))) (h : Leads seen best) :
    ∃ best', Leads (seen ++ [t]) best' ∧ bestFrom best (t :: rest) = bestFrom best' rest := by
  have hmem : t ∈ seen ++ [t] := List.mem_append_right seen List.mem_cons_self
  cases hmean : t.stats.mean with
  | none =>
    refine ⟨best, ?_, by simp only [bestFrom, hmean]⟩
    cases h with
    | unvisited h =>
      refine .unvisited fun d hd => ?_
      rcases List.mem_append.1 hd with hd | hd
      · exact h d hd
      · rwa [List.mem_singleton.1 hd]
    | best h => exact .best (h.keep fun u hu => by cases hmean.symm.trans hu)
  | some mean =>
    have hself : Utility.less mean mean = false := by
      have := hmeans.asymm mean (mem_means hmem hmean) mean (mem_means hmem hmean)
      cases hless : Utility.less mean mean with
      | false => rfl
      | true => exact hless ▸ this hless
    cases h with
    | unvisited h =>
      refine ⟨some (mean, t.label), .best (.last hmean hself fun d hd u hu => ?_),
        by simp only [bestFrom, hmean]⟩
      cases (h d hd).symm.trans hu
    | @best i c top h =>
      have htop : top ∈ means (seen ++ [t]) :=
        mem_means (List.mem_append_left [t] (List.mem_of_getElem? h.child)) h.mean_eq
      cases hless : Utility.less top mean with
      | false =>
        refine ⟨some (top, c.label), .best (h.keep fun u hu => ?_),
          by simp only [bestFrom, hmean, hless, Bool.false_eq_true, ↓reduceIte]⟩
        obtain rfl : mean = u := Option.some.inj (hmean.symm.trans hu)
        exact hless
      | true =>
        refine ⟨some (mean, t.label), .best (.last hmean hself fun d hd u hu => ?_),
          by simp only [bestFrom, hmean, hless, ↓reduceIte]⟩
        have hu' : u ∈ means (seen ++ [t]) := mem_means (List.mem_append_left [t] hd) hu
        have hmean' := mem_means hmem hmean
        -- what is not above the old lead is below the new one
        have hlt : Utility.less u mean = true := by
          cases hlt : Utility.less u mean with
          | true => rfl
          | false =>
            have := hmeans.cotrans top htop u hu' mean hmean' (h.greatest d hd u hu) hlt
            cases hless.symm.trans this
        exact ⟨hmeans.asymm u hu' mean hmean' hlt, hlt⟩

end

theorem Ordered.of_append {seen rest : List (Tree σ μ V)} (h : Ordered (means (seen ++ rest))) :
    Ordered (means seen) := by
  have hsub : ∀ a ∈ means seen, a ∈ means (seen ++ rest) := by
    intro a ha
    rw [means, List.filterMap_append]
    exact List.mem_append_left _ ha
  exact ⟨fun a ha b hb => h.asymm a (hsub a ha) b (hsub b hb),
    fun a ha b hb c hc => h.cotrans a (hsub a ha) b (hsub b hb) c (hsub c hc)⟩

theorem bestFrom_leads {best : Option (V × Node σ μ V)} (seen rest : List (Tree σ μ V))
    (hmeans : Ordered (means (seen ++ rest))) (h : Leads seen best) :
    Leads (seen ++ rest) (bestFrom best rest) := by
  induction rest generalizing seen best with
  | nil => rwa [List.append_nil]
  | cons t rest ih =>
    have hsplit : seen ++ t :: rest = (seen ++ [t]) ++ rest := by simp
    rw [hsplit] at hmeans ⊢
    obtain ⟨best', hbest', heq⟩ := h.next rest hmeans.of_append
    rw [heq]
    exact ih (seen ++ [t]) hmeans hbest'

/-! ## Legal moves -/

theorem bestFrom_mem {best : Option (V × Node σ μ V)} {rest : List (Tree σ μ V)}
    {r : V × Node σ μ V} (h : bestFrom best rest = some r) :
    best = some r ∨ ∃ c ∈ rest, r.2 = c.label := by
  induction rest generalizing best with
  | nil => exact .inl h
  | cons t rest ih =>
    have hrest : ∀ best', bestFrom best' rest = some r → best' = best ∨ (∃ m, best' = some (m, t.label)) →
        best = some r ∨ ∃ c ∈ t :: rest, r.2 = c.label := by
      intro best' h hbest'
      rcases ih h with hr | ⟨c, hc, hr⟩
      · rcases hbest' with rfl | ⟨m, rfl⟩
        · exact .inl hr
        · cases hr
          exact .inr ⟨t, List.mem_cons_self, rfl⟩
      · exact .inr ⟨c, List.mem_cons_of_mem t hc, hr⟩
    simp only [bestFrom] at h
    split at h
    · exact hrest _ h (.inl rfl)
    · split at h
      · exact hrest _ h (.inr ⟨_, rfl⟩)
      · split at h
        · exact hrest _ h (.inr ⟨_, rfl⟩)
        · exact hrest _ h (.inl rfl)

theorem bestFrom_isSome {r : V × Node σ μ V} (rest : List (Tree σ μ V)) :
    ∃ r', bestFrom (some r) rest = some r' := by
  induction rest generalizing r with
  | nil => exact ⟨r, rfl⟩
  | cons t rest ih =>
    simp only [bestFrom]
    split
    · exact ih
    · split <;> exact ih

theorem bestFrom_eq_none_iff {children : List (Tree σ μ V)} :
    bestFrom none children = none ↔ ∀ c ∈ children, c.visits = 0 := by
  induction children with
  | nil => simp [bestFrom]
  | cons t rest ih =>
    rw [List.forall_mem_cons, ← mean_eq_none_iff, ← ih]
    cases hmean : t.stats.mean with
    | none => simp [bestFrom, hmean]
    | some mean =>
      obtain ⟨r, hr⟩ := bestFrom_isSome (r := (mean, t.label)) rest
      simp [bestFrom, hmean, hr]

section

variable {s : σ} {cs : List (Tree σ μ V)} {moves : List μ}

theorem favourite_of_offered (hne : cs ≠ []) (h : Offered moves cs) :
    ∃ m ∈ moves, favourite cs = some m := by
  unfold favourite
  cases hbest : bestFrom none cs with
  | none =>
    obtain ⟨c, rest, rfl⟩ := List.exists_cons_of_ne_nil hne
    obtain ⟨m, hm, haction⟩ := h c List.mem_cons_self
    exact ⟨m, hm, by rw [Option.bind_none, List.head?_cons, Option.bind_some, haction]⟩
  | some r =>
    obtain ⟨c, hc, hr⟩ := (bestFrom_mem hbest).resolve_left nofun
    obtain ⟨m, hm, haction⟩ := h c hc
    exact ⟨m, hm, by rw [Option.bind_some, hr, haction]⟩

theorem favourite_of_roles (hne : moves ≠ [])
    (hroles : cs.map (·.label.role) = moves.map fun action => (.min action, s)) :
    ∃ m ∈ moves, favourite cs = some m ∧
      ((∀ c ∈ cs, c.visits = 0) → moves.head? = some m) ∧
      ((∃ c ∈ cs, c.visits ≠ 0) → Ordered (means cs) →
        ∃ i c mean, FirstBest cs i c mean ∧ c.label.action = some m) := by
  have hactions := actions_of_roles hroles
  have hlegal : Offered moves cs := (offered_iff_subset hactions).2 (List.Subset.refl moves)
  cases hbest : bestFrom none cs with
  | none =>
    have hunvisited := bestFrom_eq_none_iff.1 hbest
    obtain ⟨m, rest, rfl⟩ := List.exists_cons_of_ne_nil hne
    obtain ⟨c, cs', rfl⟩ : ∃ c cs', cs = c :: cs' := by
      cases cs with
      | nil => cases hroles
      | cons c cs' => exact ⟨c, cs', rfl⟩
    have hc : c.label.action = some m := (List.cons.inj hactions).1
    refine ⟨m, List.mem_cons_self, ?_, fun _ => rfl, fun ⟨d, hd, hvisited⟩ => ?_⟩
    · simp only [favourite, hbest, Option.bind_none, List.head?_cons, Option.bind_some, hc]
    · exact absurd (hunvisited d hd) hvisited
  | some r =>
    obtain ⟨c, hc, hr⟩ := (bestFrom_mem hbest).resolve_left nofun
    obtain ⟨m, hm, haction⟩ := hlegal c hc
    rw [← hr] at haction
    refine ⟨m, hm, ?_, fun hunvisited => ?_, fun _ hmeans => ?_⟩
    · simp only [favourite, hbest, Option.bind_some, haction]
    · cases (bestFrom_eq_none_iff.2 hunvisited).symm.trans hbest
    · have hleads := bestFrom_leads [] cs hmeans (.unvisited nofun)
      rw [hbest] at hleads
      cases hleads with
      | @best i c' mean h => exact ⟨i, c', mean, h, haction⟩

end

namespace History

variable [RandomSource γ] [DecidableEq σ] [DecidableEq μ]

/-- A terminal root has no move. Otherwise the move is legal, if there is a legal move at all. It
is that of the first child with the greatest mean among those visited, and the first legal move
where none was visited. -/
theorem chooseMove_best (game : Game σ μ α) (agent : α) (h : History σ μ V γ) :
    let x := h.session game agent
    let choice := x.chooseMove (h.setup game agent)
    (x.root.label.terminal = true → choice = .error .terminalRoot) ∧
    (x.root.label.terminal = false → ∀ moves, game.legalMoves x.root.state agent = .ok moves →
      (moves = [] → choice = .error .noLegalMoves) ∧
      (moves ≠ [] → ∃ m ∈ moves, choice = .ok m ∧
        ((∀ c ∈ x.root.children, c.visits = 0) → moves.head? = some m) ∧
        ((∃ c ∈ x.root.children, c.visits ≠ 0) → Ordered (means x.root.children) →
          ∃ i c mean, FirstBest x.root.children i c mean ∧ c.label.action = some m))) := by
  intro x choice
  obtain ⟨hshaped, hkind⟩ : x.root.Rooted game agent := h.rooted
  generalize hroot : x.root = root at hshaped hkind ⊢
  have hchoice : choice = x.chooseMove (h.setup game agent) := rfl
  simp only [Session.chooseMove, hroot] at hchoice
  cases hshaped.here with
  | @bare n _ _ _ =>
    have hnone : favourite (Tree.node n []).children = none := rfl
    simp only [hnone] at hchoice
    refine ⟨fun hn => ?_, fun hn moves hmoves => ?_⟩
    · rw [hchoice, if_pos hn]
    · have hlegal : (h.setup game agent).game.legalMoves (Tree.node n []).state
          (h.setup game agent).agent = .ok moves := hmoves
      simp only [hn, hlegal, Bool.false_eq_true, ↓reduceIte] at hchoice
      refine ⟨?_, fun hne => ?_⟩
      · rintro rfl
        exact hchoice
      · obtain ⟨m, rest, rfl⟩ := List.exists_cons_of_ne_nil hne
        exact ⟨m, List.mem_cons_self, hchoice, fun _ => rfl, fun ⟨c, hc, _⟩ => by cases hc⟩
  | @choices n cs moves _ hn _ _ hlegal hne hroles =>
    refine ⟨fun hterminal => absurd (hn.symm.trans hterminal) nofun, fun _ moves' hmoves' => ?_⟩
    obtain rfl : moves = moves' := Except.ok.inj (hlegal.symm.trans hmoves')
    obtain ⟨m, hm, hfavourite, hfirst, hbest⟩ := favourite_of_roles hne hroles
    have hfavourite : favourite (Tree.node n cs).children = some m := hfavourite
    simp only [hfavourite] at hchoice
    exact ⟨fun hnil => absurd hnil hne, fun _ => ⟨m, hm, hchoice, hfirst, hbest⟩⟩
  | outcomes hmin => cases hkind.symm.trans hmin

/-- Two of three moves win at once. After each was tried the first of the two is chosen, though
it is not the first legal move. -/
theorem chooseMove_best_tie :
    let o : Options Rat := ⟨⟨fun _ _ _ => 0, fun _ _ _ => List.length_pos_iff.2⟩, 1, 10⟩
    let s := TicTacToe.Position.ofBoard #v[1, 1, 2, 0, 1, 2, 2, 0, 0]
    let h : History TicTacToe.Position TicTacToe.Action Rat Keystream := .run (.start o s 7) 4
    let x := h.session TicTacToe.game .x
    means x.root.children = [0, 100, 100] ∧
      ∃ i c, FirstBest x.root.children i c 100 ∧ c.label.action = some (.place 7) ∧
        x.chooseMove (h.setup TicTacToe.game .x) = .ok (.place 7) := by
  intro o s h x
  obtain ⟨hmeans, hterminal, hlegal, hmove⟩ : means x.root.children = [0, 100, 100] ∧
      x.root.label.terminal = false ∧
      TicTacToe.game.legalMoves x.root.state .x = .ok [.place 3, .place 7, .place 8] ∧
      x.chooseMove (h.setup TicTacToe.game .x) = .ok (.place 7) := by decide +kernel
  obtain ⟨m, -, hchoice, -, hbest⟩ :=
    ((chooseMove_best TicTacToe.game .x h).2 hterminal _ hlegal).2 nofun
  obtain rfl : m = .place 7 := Except.ok.inj (hchoice.symm.trans hmove)
  have hmem : (100 : Rat) ∈ means x.root.children := by rw [hmeans]; decide
  obtain ⟨d, hd, hd100⟩ := List.mem_filterMap.1 hmem
  have hvisited : d.visits ≠ 0 := fun hd0 => by cases (mean_eq_none_iff.2 hd0).symm.trans hd100
  obtain ⟨i, c, mean, hfirst, haction⟩ := hbest ⟨d, hd, hvisited⟩ (ordered_rat _)
  have hmean : mean ∈ means x.root.children :=
    mem_means (List.mem_of_getElem? hfirst.child) hfirst.mean_eq
  have htop := hfirst.greatest d hd 100 hd100
  rw [hmeans] at hmean
  obtain rfl | rfl : mean = 0 ∨ mean = 100 := by simpa using hmean
  · cases htop.symm.trans (by decide : Utility.less (0 : Rat) 100 = true)
  · exact ⟨hmeans, i, c, hfirst, haction, hchoice⟩

end History

end GameSearch.TreeSearch
