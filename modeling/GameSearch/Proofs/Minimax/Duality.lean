import GameSearch.Proofs.Minimax.Answers

/-!
# GameSearch.Proofs.Minimax.Duality

What the same position is worth to two agents whose goals always add up to `c`. Each is sure of its
value whatever the other does, so the two values add up to `c` at most. Nothing is lost between
them where one of them has no choice.

`Maximin` is a game of one move each. `FullProduct` says that a position is such a game, with any
move of one agent against any of the other, and `Finds` that a full search finds a value there.
By induction on the length of plays both searches find a value in each position
(`Duel.exists_values`).
-/

namespace GameSearch.Minimax

variable {σ μ α : Type}

/-! ## One move each -/

/-- With the moves `ms` against `ns` an agent is sure of `v`, and of no more than that, where the
reply `n` to the move `m` is worth `V m n`. -/
structure Maximin (ms ns : List μ) (V : μ → μ → Int32) (v : Int32) : Prop where
  secured : ∃ m ∈ ms, ∀ n ∈ ns, v ≤ V m n
  limited : ∀ m ∈ ms, ∃ n ∈ ns, V m n ≤ v

namespace Maximin

variable {ms ns : List μ} {V W : μ → μ → Int32} {v w : Int32} {c : Int}

theorem unique (h : Maximin ms ns V v) (h' : Maximin ms ns V w) : v = w := by
  have hle : ∀ {v w : Int32}, Maximin ms ns V v → Maximin ms ns V w → v ≤ w := by
    intro v w h h'
    obtain ⟨m, hm, hv⟩ := h.secured
    obtain ⟨n, hn, hw⟩ := h'.limited m hm
    exact Int32.le_trans (hv n hn) hw
  exact Int32.le_antisymm (hle h h') (hle h' h)

theorem add_le (h : Maximin ms ns V v) (h' : Maximin ns ms W w)
    (hc : ∀ m ∈ ms, ∀ n ∈ ns, (V m n).toInt + (W n m).toInt ≤ c) : v.toInt + w.toInt ≤ c := by
  obtain ⟨m, hm, hv⟩ := h.secured
  obtain ⟨n, hn, hw⟩ := h'.secured
  have hle := hc m hm n hn
  have hv := Int32.le_iff_toInt_le.1 (hv n hn)
  have hw := Int32.le_iff_toInt_le.1 (hw m hm)
  omega

/-- The worst reply to an only move is the best for the agent who makes it. -/
theorem le_add {m : μ} (h : Maximin [m] ns V v) (h' : Maximin ns [m] W w)
    (hc : ∀ n ∈ ns, c ≤ (V m n).toInt + (W n m).toInt) : c ≤ v.toInt + w.toInt := by
  obtain ⟨n, hn, hv⟩ := h.limited m List.mem_cons_self
  obtain ⟨m', hm', hw⟩ := h'.limited n hn
  obtain rfl := List.mem_singleton.1 hm'
  have hle := hc n hn
  have hv := Int32.le_iff_toInt_le.1 hv
  have hw := Int32.le_iff_toInt_le.1 hw
  omega

end Maximin

/-! ## One position -/

def Finds (p : Problem σ μ α) (bound : Nat) (s : σ) (v : Int32) : Prop :=
  ∀ depth t, ∃ score t', FullWidth.maxNode p bound s depth t = .ok (score, t') ∧ score.value = v

def Worth (p : Problem σ μ α) (bound : Nat) (s : σ) (v : Int32) : Prop :=
  ∃ report, FullWidth.search p bound s = .ok report ∧ report.score.value = v

def RepliesPair (game : Game σ μ α) (s : σ) (a : α) (m : μ) (ns : List μ)
    (pair : μ → JointMove μ) : Prop :=
  ∃ joints, game.replies s a m = .ok joints ∧ ∀ joint, joint ∈ joints ↔ ∃ n ∈ ns, joint = pair n

/-- In a position each of the moves `ms` of `a` may meet each of the moves `ns` of `b`. -/
structure FullProduct (game : Game σ μ α) (a b : α) (s : σ) (ms ns : List μ) : Prop where
  left_moves : game.legalMoves s a = .ok ms
  right_moves : game.legalMoves s b = .ok ns
  left_nonempty : ms ≠ []
  right_nonempty : ns ≠ []
  left_replies : ∀ m ∈ ms, RepliesPair game s a m ns fun n => [m, n]
  right_replies : ∀ n ∈ ns, RepliesPair game s b n ms fun m => [m, n]
  next_ok : ∀ m ∈ ms, ∀ n ∈ ns, ∃ s', game.next s [m, n] = .ok s'

/-- A position of `a` against `b`, whose goals add up to `c`. -/
structure Duel (game : Game σ μ α) (a b : α) (c : Int) (s : σ) : Prop where
  goals : game.terminal s = true → ∃ v w, game.goal s a = .ok v ∧ game.goal s b = .ok w ∧
    v.toInt + w.toInt = c
  moves : game.terminal s = false → ∃ ms ns, FullProduct game a b s ms ns

def Forced (game : Game σ μ α) (a b : α) (s : σ) : Prop :=
  game.terminal s = false →
    ∃ m, game.legalMoves s a = .ok [m] ∨ game.legalMoves s b = .ok [m]

section

variable {p : Problem σ μ α} {bound : Nat} {s : σ} {v : Int32}

theorem Finds.terminal (hs : p.game.terminal s = true) (hv : p.game.goal s p.agent = .ok v) :
    Finds p bound s v := by
  intro depth t
  rw [FullWidth.maxNode.eq_def]
  simp only [hs, hv, ↓reduceIte]
  exact ⟨_, _, rfl, rfl⟩

theorem Finds.worth (h : Finds p bound s v) : Worth p bound s v := by
  obtain ⟨score, t, hfound, hv⟩ := h 0 {}
  exact ⟨⟨score, t⟩, by simp only [FullWidth.search, hfound], hv⟩

theorem Finds.minNode {m : μ} {ns : List μ} {V : μ → Int32} {pair : μ → JointMove μ} (hns : ns ≠ [])
    (hpair : ∀ n n', pair n = pair n' → n = n')
    (hreplies : RepliesPair p.game s p.agent m ns pair)
    (hnext : ∀ n ∈ ns, ∃ s', p.game.next s (pair n) = .ok s' ∧ Finds p bound s' (V n))
    (depth : Nat) (t : Tally) :
    ∃ score t',
      FullWidth.minNode p (fun s' t => FullWidth.maxNode p bound s' (depth + 1) t) s m t =
        .ok (score, t') ∧
      (∀ n ∈ ns, score.value ≤ V n) ∧ ∃ n ∈ ns, V n = score.value := by
  obtain ⟨joints, hjoints, hmem⟩ := hreplies
  obtain ⟨n, hn⟩ := List.exists_mem_of_ne_nil ns hns
  have hne : joints ≠ [] := List.ne_nil_of_mem ((hmem _).2 ⟨n, hn, rfl⟩)
  have hbelow : ∀ joint ∈ joints, ∃ s', p.game.next s joint = .ok s' ∧
      ∀ t, ∃ score t', FullWidth.maxNode p bound s' (depth + 1) t = .ok (score, t') ∧
        ∃ n ∈ ns, joint = pair n ∧ V n = score.value := by
    intro joint hjoint
    obtain ⟨n, hn, rfl⟩ := (hmem joint).1 hjoint
    obtain ⟨s', hs', hfinds⟩ := hnext n hn
    refine ⟨s', hs', fun t => ?_⟩
    obtain ⟨score, t', hfound, hv⟩ := hfinds (depth + 1) t
    exact ⟨score, t', hfound, n, hn, rfl, hv.symm⟩
  obtain ⟨worst, t', hworst, ⟨_, -, n, hn, -, hv⟩, hall⟩ :=
    FullWidth.minNode_ok hjoints hne hbelow t
  refine ⟨_, t', hworst, fun n hn => ?_, n, hn, hv⟩
  obtain ⟨score, ⟨n', -, heq, hv⟩, hle⟩ := hall _ ((hmem _).2 ⟨n, hn, rfl⟩)
  obtain rfl := hpair n n' heq
  rw [hv]
  exact hle

/-- From the positions that the pairs of moves lead to, to the position itself. -/
theorem Finds.step {ms ns : List μ} {V : μ → μ → Int32} (pair : μ → μ → JointMove μ)
    (hdepth : p.maxDepth = none) (hs : p.game.terminal s = false)
    (hmoves : p.game.legalMoves s p.agent = .ok ms) (hms : ms ≠ []) (hns : ns ≠ [])
    (hpair : ∀ m n n', pair m n = pair m n' → n = n')
    (hreplies : ∀ m ∈ ms, RepliesPair p.game s p.agent m ns (pair m))
    (hnext : ∀ m ∈ ms, ∀ n ∈ ns, ∃ s', p.game.next s (pair m n) = .ok s' ∧
      Finds p bound s' (V m n)) :
    ∃ v, Finds p (bound + 1) s v ∧ Maximin ms ns V v := by
  have hlimit : ∀ depth, p.atLimit depth = false := fun depth => by
    simp only [Problem.atLimit, hdepth]
  have hbest : ∀ depth t, ∃ best t', FullWidth.maxNode p (bound + 1) s depth t = .ok (best, t') ∧
      Maximin ms ns V best.value := by
    intro depth t
    obtain ⟨best, t', hbest, ⟨m, hm, hsecured, -⟩, hall⟩ :=
      FullWidth.maxNode_best hs (hlimit depth) hmoves hms
        (fun m hm => Finds.minNode hns (hpair m) (hreplies m hm) (hnext m hm) depth) t
    refine ⟨best, t', hbest, ⟨m, hm, hsecured⟩, fun m hm => ?_⟩
    obtain ⟨score, ⟨-, n, hn, hv⟩, hle⟩ := hall m hm
    exact ⟨n, hn, hv ▸ hle⟩
  obtain ⟨best, -, -, hv⟩ := hbest 0 {}
  refine ⟨best.value, fun depth t => ?_, hv⟩
  obtain ⟨best', t', hbest', hv'⟩ := hbest depth t
  exact ⟨best', t', hbest', hv'.unique hv⟩

end

/-! ## Every position -/

theorem FullProduct.succeeds {game : Game σ μ α} {a b : α} {s s' : σ} {ms ns : List μ} {m n : μ}
    (h : FullProduct game a b s ms ns) (hagents : game.agents = [a, b])
    (hs : game.terminal s = false) (hm : m ∈ ms) (hn : n ∈ ns)
    (hnext : game.next s [m, n] = .ok s') : game.Succeeds s s' := by
  refine ⟨hs, [m, n], ?_, hnext⟩
  rw [hagents]
  exact .cons ⟨ms, h.left_moves, hm⟩ (.cons ⟨ns, h.right_moves, hn⟩ .nil)

theorem FullProduct.le_add {game : Game σ μ α} {a b : α} {s : σ} {ms ns : List μ}
    {V W : μ → μ → Int32} {v w : Int32} {c : Int} (h : FullProduct game a b s ms ns)
    (hs : game.terminal s = false) (hforced : Forced game a b s) (hv : Maximin ms ns V v)
    (hw : Maximin ns ms W w) (hc : ∀ m ∈ ms, ∀ n ∈ ns, c ≤ (V m n).toInt + (W n m).toInt) :
    c ≤ v.toInt + w.toInt := by
  obtain ⟨only, hleft | hright⟩ := hforced hs
  · cases h.left_moves.symm.trans hleft
    exact hv.le_add hw (hc only List.mem_cons_self)
  · cases h.right_moves.symm.trans hright
    rw [Int.add_comm]
    refine hw.le_add hv fun m hm => ?_
    rw [Int.add_comm]
    exact hc m hm only List.mem_cons_self

/-- Both agents' searches find values. By induction on the length of plays. -/
theorem Duel.exists_values {game : Game σ μ α} {a b : α} {c : Int} {s : σ} {n bound : Nat}
    (e e' : Evaluator σ α) (hagents : game.agents = [a, b])
    (h : ∀ s', game.Reaches s s' → Duel game a b c s') (hn : game.EndsWithin n s)
    (hbound : n ≤ bound) :
    ∃ v w, Finds ⟨game, a, e, none⟩ bound s v ∧ Finds ⟨game, b, e', none⟩ bound s w ∧
      v.toInt + w.toInt ≤ c ∧
      ((∀ s', game.Reaches s s' → Forced game a b s') → c ≤ v.toInt + w.toInt) := by
  induction n using Nat.strongRecOn generalizing s bound with
  | ind n ih =>
    cases hs : game.terminal s with
    | true =>
      obtain ⟨v, w, hv, hw, hc⟩ := (h s .refl).goals hs
      exact ⟨v, w, .terminal hs hv, .terminal hs hw, hc.le, fun _ => hc.ge⟩
    | false =>
      obtain ⟨ms, ns, hfull⟩ := (h s .refl).moves hs
      have hbelow : ∀ m ∈ ms, ∀ n' ∈ ns, ∃ s', game.next s [m, n'] = .ok s' ∧
          ∃ k, n = k + 1 ∧ game.Succeeds s s' ∧ game.EndsWithin k s' := by
        intro m hm n' hn'
        obtain ⟨s', hs'⟩ := hfull.next_ok m hm n' hn'
        have hsucceeds := hfull.succeeds hagents hs hm hn' hs'
        obtain ⟨k, hk, hends⟩ := hn.after hsucceeds
        exact ⟨s', hs', k, hk, hsucceeds, hends⟩
      obtain ⟨m, hm⟩ := List.exists_mem_of_ne_nil ms hfull.left_nonempty
      obtain ⟨n', hn'⟩ := List.exists_mem_of_ne_nil ns hfull.right_nonempty
      obtain ⟨-, -, k, rfl, -⟩ := hbelow m hm n' hn'
      obtain ⟨bound, rfl⟩ : ∃ b, bound = b + 1 := ⟨bound - 1, by omega⟩
      have hvalues : ∀ m ∈ ms, ∀ n' ∈ ns, ∃ v w, ∃ s', game.next s [m, n'] = .ok s' ∧
          Finds ⟨game, a, e, none⟩ bound s' v ∧ Finds ⟨game, b, e', none⟩ bound s' w ∧
          v.toInt + w.toInt ≤ c ∧
          ((∀ s', game.Reaches s s' → Forced game a b s') → c ≤ v.toInt + w.toInt) := by
        intro m hm n' hn'
        obtain ⟨s', hs', k', hk, hsucceeds, hends⟩ := hbelow m hm n' hn'
        obtain rfl : k = k' := Nat.succ.inj hk
        obtain ⟨v, w, hv, hw, hle, hge⟩ := ih k (Nat.lt_succ_self k)
          (fun t ht => h t (.head hsucceeds ht)) hends (Nat.le_of_succ_le_succ hbound)
        exact ⟨v, w, s', hs', hv, hw, hle,
          fun hforced => hge fun t ht => hforced t (.head hsucceeds ht)⟩
      choose! V W hvalues using hvalues
      obtain ⟨v, hv, hmaximin⟩ := Finds.step (p := ⟨game, a, e, none⟩) (V := V)
        (fun m n => [m, n]) rfl hs hfull.left_moves hfull.left_nonempty
        hfull.right_nonempty (by simp) hfull.left_replies fun m hm n hn => by
          obtain ⟨s', hs', hv, -⟩ := hvalues m hm n hn
          exact ⟨s', hs', hv⟩
      obtain ⟨w, hw, hmaximin'⟩ := Finds.step (p := ⟨game, b, e', none⟩)
        (V := fun n m => W m n) (fun n m => [m, n]) rfl hs hfull.right_moves hfull.right_nonempty
        hfull.left_nonempty (by simp) hfull.right_replies fun n hn m hm => by
          obtain ⟨s', hs', -, hw, -⟩ := hvalues m hm n hn
          exact ⟨s', hs', hw⟩
      refine ⟨v, w, hv, hw, hmaximin.add_le hmaximin' fun m hm n hn => ?_, fun hforced => ?_⟩
      · obtain ⟨_, _, _, _, hle, _⟩ := hvalues m hm n hn
        exact hle
      · refine hfull.le_add hs (hforced s .refl) hmaximin hmaximin' fun m hm n hn => ?_
        obtain ⟨_, _, _, _, _, hge⟩ := hvalues m hm n hn
        exact hge hforced

end GameSearch.Minimax
