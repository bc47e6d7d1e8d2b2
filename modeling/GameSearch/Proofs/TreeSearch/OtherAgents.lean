import GameSearch.Proofs.Minimax.Sides
import GameSearch.Proofs.TreeSearch.Choice
import GameSearch.Proofs.TreeSearch.Progress

/-!
# GameSearch.Proofs.TreeSearch.OtherAgents

What is left of a session's moves when the tree of another session is merged into it, whatever
agent that one searches for. The roots need only hold the same state. Moves of the other agent
which are no moves of this one come in with the copies, and the session may settle on one of them
(`settles_on_foreign_move`). Nothing is lost exactly when the other root offers legal moves of this
agent alone (`merge_keeps_legal`), as it does where both search for the same agent.
-/

namespace GameSearch.TreeSearch

variable {σ μ α V γ : Type}

theorem Node.action_eq_of_key_eq {n m : Node σ μ V} {action : μ} (h : n.key = m.key)
    (hn : n.action = some action) : m.action = some action := by
  unfold key role Key.ofRole at h
  unfold Node.action at hn ⊢
  cases hk : n.kind <;> cases hk' : m.kind <;> simp_all [Kind.action]

theorem Node.action_eq_of_role_eq {n m : Node σ μ V} (h : n.role = m.role) :
    n.action = m.action := by
  rw [Node.action, (role_eq_iff.1 h).1, Node.action]

section

variable [DecidableEq σ] {game : Game σ μ α} {agent : α} {t : Tree σ μ V}

/-- A root offers the legal moves of its agent as soon as it has children. -/
theorem Tree.Rooted.actions (h : t.Rooted game agent) :
    t.children = [] ∨ ∃ actions, game.legalMoves t.state agent = .ok actions ∧
      t.children.map (·.label.action) = actions.map some := by
  obtain ⟨hshaped, hkind⟩ := h
  cases hshaped.here with
  | bare => exact .inl rfl
  | choices _ _ _ _ hm _ hroles => exact .inr ⟨_, hm, actions_of_roles hroles⟩
  | outcomes hmin => cases hkind.symm.trans hmin

theorem Tree.Rooted.offered {moves : List μ} (h : t.Rooted game agent)
    (hlegal : game.legalMoves t.state agent = .ok moves) : Offered moves t.children := by
  rcases h.actions with hnil | ⟨actions, hlegal', hactions⟩
  · rw [hnil]
    exact nofun
  · cases hlegal.symm.trans hlegal'
    exact (offered_iff_subset hactions).2 (List.Subset.refl moves)

end

/-! ## The moves of a sum -/

section

variable [Utility V] [DecidableEq σ] [DecidableEq μ] {t u : Tree σ μ V} {moves : List μ}

/-- Each of their children is matched or copied. -/
theorem exists_same_key (parent : Home) (i : Nat) (ours : List (Tree σ μ V))
    {theirs : List (Tree σ μ V)} {c : Tree σ μ V} (hc : c ∈ theirs) :
    ∃ d ∈ (mergeChildren parent i ours theirs).1 ++ (mergeChildren parent i ours theirs).2,
      d.label.key = c.label.key := by
  induction theirs generalizing ours i with
  | nil => cases hc
  | cons t rest ih =>
    simp only [mergeChildren]
    split
    · rename_i k hk
      rcases List.mem_cons.1 hc with rfl | hc
      · obtain ⟨hlt, hsame, -⟩ := List.findIdx?_eq_some_iff_getElem.1 hk
        -- the match keeps its role when the rest is merged
        have hrole : ours[k].label.role ∈
            (mergeChildren parent i (ours.modify k fun u => merge u c) rest).1.map
              (·.label.role) := by
          rw [kept_roles, modify_merge_roles]
          exact List.mem_map_of_mem (List.getElem_mem hlt)
        obtain ⟨d, hd, hrole⟩ := List.mem_map.1 hrole
        refine ⟨d, List.mem_append_left _ hd, ?_⟩
        rw [Node.key_eq_of_role_eq hrole, Node.sameOutcome_iff.1 hsame]
      · exact ih _ _ hc
    · rcases List.mem_cons.1 hc with rfl | hc
      · refine ⟨graft (parent.child i) c, List.mem_append_right _ List.mem_cons_self, ?_⟩
        exact Node.key_eq_of_role_eq (graft_role _ c)
      · obtain ⟨d, hd, hkey⟩ := ih (i + 1) ours hc
        refine ⟨d, ?_, hkey⟩
        rcases List.mem_append.1 hd with hd | hd
        · exact List.mem_append_left _ hd
        · exact List.mem_append_right _ (List.mem_cons_of_mem _ hd)

/-- A sum offers what we offered and what they did. -/
theorem merge_offered_iff (ht : Offered moves t.children) :
    Offered moves (merge t u).children ↔ Offered moves u.children := by
  obtain ⟨n, ours⟩ := t
  obtain ⟨m, theirs⟩ := u
  rw [merge_node]
  constructor
  · intro h c hc
    obtain ⟨d, hd, hkey⟩ := exists_same_key n.home ours.length ours hc
    obtain ⟨action, hmem, haction⟩ := h d hd
    exact ⟨action, hmem, Node.action_eq_of_key_eq hkey haction⟩
  · intro hu d hd
    rcases List.mem_append.1 hd with hd | hd
    · have hkept : (mergeChildren n.home ours.length ours theirs).1.map (·.label.role) =
          ours.map (·.label.role) := kept_roles
      obtain ⟨c, hc, hrole⟩ := List.mem_map.1 (hkept ▸ List.mem_map_of_mem hd)
      obtain ⟨action, hmem, haction⟩ := ht c hc
      exact ⟨action, hmem, (Node.action_eq_of_role_eq hrole).symm.trans haction⟩
    · obtain ⟨home, c, hc, rfl⟩ := mem_grafted hd
      obtain ⟨action, hmem, haction⟩ := hu c hc
      exact ⟨action, hmem, (Node.action_eq_of_role_eq (graft_role home c)).trans haction⟩

@[simp] theorem merge_terminal (t u : Tree σ μ V) :
    (merge t u).label.terminal = t.label.terminal := by
  cases t
  cases u
  rw [merge_node]
  rfl

end

theorem Session.chooseMove_of_offered [Utility V] {p : Setup σ μ α V} {x : Session σ μ V γ}
    {moves : List μ} (hterminal : x.root.label.terminal = false)
    (hlegal : p.game.legalMoves x.root.state p.agent = .ok moves) (hne : moves ≠ [])
    (h : Offered moves x.root.children) : ∃ m ∈ moves, x.chooseMove p = .ok m := by
  unfold chooseMove
  by_cases hcs : x.root.children = []
  · obtain ⟨m, rest, rfl⟩ := List.exists_cons_of_ne_nil hne
    have hnone : favourite x.root.children = none := by
      rw [hcs]
      rfl
    simp only [hnone, hterminal, hlegal, Bool.false_eq_true, ↓reduceIte]
    exact ⟨m, List.mem_cons_self, rfl⟩
  · obtain ⟨m, hm, hfavourite⟩ := favourite_of_offered hcs h
    simp only [hfavourite]
    exact ⟨m, hm, rfl⟩

/-! ## Two sessions of a game -/

namespace History

variable [Utility V] [RandomSource γ] [DecidableEq σ] [DecidableEq μ]

/-- Two sessions with the same state at their roots are merged. The moves on offer afterwards are
legal exactly when those of the other root are, and these are the legal moves of the other agent.
The session then settles on a legal move. -/
theorem merge_keeps_legal (game : Game σ μ α) (agent other : α) (h g : History σ μ V γ)
    {moves : List μ} :
    let x := h.session game agent
    let y := g.session game other
    let z := (x.merge y).2
    x.root.state = y.root.state → game.terminal x.root.state = false →
    game.legalMoves x.root.state agent = .ok moves → moves ≠ [] →
    (Offered moves z.root.children ↔ Offered moves y.root.children) ∧
    (Offered moves y.root.children ↔ y.root.children = [] ∨
      ∃ theirs, game.legalMoves x.root.state other = .ok theirs ∧ theirs ⊆ moves) ∧
    (Offered moves y.root.children → ∃ m ∈ moves, z.chooseMove (h.setup game agent) = .ok m) := by
  intro x y z hstate hterminal hlegal hne
  have hx : x.root.Rooted game agent := h.rooted
  have hy : y.root.Rooted game other := g.rooted
  have hz : z.root = TreeSearch.merge x.root y.root := by
    simp only [z, Session.merge, hstate, ↓reduceIte]
  have hoffered : Offered moves z.root.children ↔ Offered moves y.root.children := by
    rw [hz]
    exact merge_offered_iff (hx.offered hlegal)
  refine ⟨hoffered, ?_, fun hy' => ?_⟩
  · rcases hy.actions with hnil | ⟨theirs, htheirs, hactions⟩
    · simp [Offered, hnil]
    · rw [← hstate] at htheirs
      rw [offered_iff_subset hactions]
      constructor
      · exact fun hsub => .inr ⟨theirs, htheirs, hsub⟩
      · rintro (hnil | ⟨theirs', htheirs', hsub⟩)
        · obtain rfl : theirs = [] := by simpa [hnil] using hactions.symm
          exact List.nil_subset moves
        · cases htheirs.symm.trans htheirs'
          exact hsub
  · have hroot : z.root.state = x.root.state := by
      rw [hz]
      exact (Node.role_eq_iff.1 (merge_role _ _)).2
    have hbefore := (Tree.Shaped.conforms hx.1).terminal_max hx.2
    refine Session.chooseMove_of_offered ?_ ?_ hne (hoffered.2 hy')
    · rw [hz, merge_terminal, hbefore, hterminal]
    · rw [hroot]
      exact hlegal

/-- In matching pennies both agents have the same moves, so each can use the other's tree. -/
theorem merge_keeps_legal_pennies :
    let o : Options Rat := ⟨⟨fun _ _ _ => 0, fun _ _ _ => List.length_pos_iff.2⟩, 1, 10⟩
    let h : History (Option Bool) Bool Rat Keystream := .run (.start o none 7) 2
    let g : History (Option Bool) Bool Rat Keystream := .run (.start o none 8) 4
    let x := h.session Minimax.matchingPennies true
    let y := g.session Minimax.matchingPennies false
    x.root.state = y.root.state ∧ Minimax.matchingPennies.terminal x.root.state = false ∧
      Minimax.matchingPennies.legalMoves x.root.state true = .ok [true, false] ∧
      y.root.children ≠ [] ∧
      ∃ m ∈ [true, false],
        (x.merge y).2.chooseMove (h.setup Minimax.matchingPennies true) = .ok m := by
  intro o h g x y
  obtain ⟨hstate, hterminal, hlegal, hother, hcs⟩ : x.root.state = y.root.state ∧
      Minimax.matchingPennies.terminal x.root.state = false ∧
      Minimax.matchingPennies.legalMoves x.root.state true = .ok [true, false] ∧
      Minimax.matchingPennies.legalMoves x.root.state false = .ok [true, false] ∧
      y.root.children.isEmpty = false := by decide +kernel
  obtain ⟨-, hoffered, hchoice⟩ := merge_keeps_legal Minimax.matchingPennies true false h g
    hstate hterminal hlegal nofun
  have hsame := hoffered.2 (.inr ⟨_, hother, List.Subset.refl _⟩)
  refine ⟨hstate, hterminal, hlegal, ?_, hchoice hsame⟩
  rintro hnil
  cases hcs.symm.trans (List.isEmpty_iff.2 hnil)

/-- One cell is open and `x` is to move. The tree of the other agent has nothing but a pass to
offer, and `x` settles on that. -/
theorem settles_on_foreign_move :
    let o : Options Rat := ⟨⟨fun _ _ _ => 0, fun _ _ _ => List.length_pos_iff.2⟩, 1, 10⟩
    let s := TicTacToe.Position.ofBoard #v[1, 2, 1, 1, 2, 2, 2, 1, 0]
    let h : History TicTacToe.Position TicTacToe.Action Rat Keystream := .start o s 7
    let x := h.session TicTacToe.game .x
    let y := (History.run (.start o s 7) 3 :
      History TicTacToe.Position TicTacToe.Action Rat Keystream).session TicTacToe.game .o
    x.root.state = y.root.state ∧ TicTacToe.game.terminal s = false ∧
      TicTacToe.game.legalMoves s .x = .ok [.place 8] ∧ (x.merge y).1 = true ∧
      (x.merge y).2.chooseMove (h.setup TicTacToe.game .x) = .ok .pass := by
  decide +kernel

end History

end GameSearch.TreeSearch
