import GameSearch.Proofs.Occurrences
import GameSearch.Proofs.Table.Sound

/-!
# GameSearch.Proofs.Table.Consistency

The questions about a table are answered from one list of edges, and the answers agree with each
other. Legal moves are the entries of the joint moves, replies share the joint moves out by these
entries, successors are the targets of the edges, and random plays draw from the same list. All of
it rests on the soundness of the table (`Sound.consistent`), so it holds of every table that is
made (`rules_consistent`), in every state, listed or not.
-/

namespace GameSearch.Table

/-- The tables that come up. -/
inductive Made : Table → Prop where
  | entries {agents : List String} {es : List Entry} {t : Table} :
      ofEntries agents es = .ok t → Made t
  | uniform {γ : Type} [RandomSource γ] (g : γ) (agents branching depth : Nat) :
      Made (uniform g agents branching depth)

theorem Made.sound {t : Table} (h : t.Made) : t.Sound := by
  cases h with
  | entries h => exact sound_ofEntries h
  | uniform g agents branching depth => exact sound_uniform g agents branching depth

/-! ## Sharing out joint moves -/

/-- Each of the joint moves is in exactly one of the lists, that of the move at its place `i`. -/
structure Shares (joints : List (JointMove String)) (i : Nat) (moves : List String)
    (part : String → List (JointMove String)) : Prop where
  nonempty : ∀ m ∈ moves, part m ≠ []
  otherwise : ∀ m ∉ moves, part m = []
  ordered : ∀ m, (part m).Sublist joints
  once : ∀ joint ∈ joints, ∃! m, joint ∈ part m
  entry : ∀ m, ∀ joint ∈ part m, joint[i]? = some m

section

variable {joints : List (JointMove String)} {i : Nat}

theorem map_getElem?_eq (h : ∀ joint ∈ joints, i < joint.length) :
    joints.map (·[i]?) = (joints.filterMap (·[i]?)).map some := by
  induction joints with
  | nil => rfl
  | cons joint rest ih =>
    obtain ⟨m, hentry⟩ : ∃ m, joint[i]? = some m :=
      ⟨_, List.getElem?_eq_getElem (h joint List.mem_cons_self)⟩
    have hrest := ih fun joint hjoint => h joint (List.mem_cons_of_mem _ hjoint)
    simp only [List.map_cons, List.filterMap_cons, hentry, hrest]

theorem shares_filter (h : ∀ joint ∈ joints, i < joint.length) :
    Shares joints i (joints.filterMap (·[i]?)).eraseDups
      fun m => joints.filter fun joint => joint[i]? == some m := by
  have hmem : ∀ m joint, joint ∈ joints.filter (fun joint => joint[i]? == some m) ↔
      joint ∈ joints ∧ joint[i]? = some m := by
    intro m joint
    rw [List.mem_filter, beq_iff_eq]
  exact
    { nonempty := fun m hm => by
        obtain ⟨joint, hjoint, hentry⟩ := List.mem_filterMap.1 (List.mem_eraseDups.1 hm)
        exact List.ne_nil_of_mem ((hmem m joint).2 ⟨hjoint, hentry⟩)
      otherwise := fun m hm => by
        refine List.eq_nil_iff_forall_not_mem.2 fun joint hjoint => hm ?_
        exact List.mem_eraseDups.2 (List.mem_filterMap.2 ⟨joint, (hmem m joint).1 hjoint⟩)
      ordered := fun m => List.filter_sublist
      once := fun joint hjoint => by
        obtain ⟨m, hentry⟩ : ∃ m, joint[i]? = some m :=
          ⟨_, List.getElem?_eq_getElem (h joint hjoint)⟩
        refine ⟨m, (hmem m joint).2 ⟨hjoint, hentry⟩, fun m' hm' => ?_⟩
        exact Option.some.inj (((hmem m' joint).1 hm').2.symm.trans hentry)
      entry := fun m joint hjoint => ((hmem m joint).1 hjoint).2 }

end

/-! ## Answers that agree -/

/-- What the table answers about an agent whose moves are at the place `i` of joint moves. -/
structure ConsistentFor (t : Table) (s agent : String) (i : Nat) : Prop where
  moves : ∃ entries moves part, (t.jointMoves s).map (·[i]?) = entries.map some ∧
    t.legalMoves s agent = .ok moves ∧ FirstOccurrences entries moves ∧
    (∀ m, t.replies s agent m = .ok (part m)) ∧ Shares (t.jointMoves s) i moves part
  goal : ∀ row, t.goals[s]? = some row → ∃ v, row[i]? = some v ∧ t.goal s agent = .ok v
  goal_terminal : t.isTerminal s = true → ∃ v, t.goal s agent = .ok v

structure Consistent (t : Table) (s : String) : Prop where
  length : ∀ joint ∈ t.jointMoves s, joint.length = t.agents.length
  nodup : (t.jointMoves s).Nodup
  known : ∀ agent i, t.agents.idxOf? agent = some i → t.ConsistentFor s agent i
  unknown : ∀ agent ∉ t.agents, t.legalMoves s agent = .error (.move ("Unknown agent " ++ agent)) ∧
    (∀ m, t.replies s agent m = .error (.move ("Unknown agent " ++ agent))) ∧
    t.goal s agent = .error (.move ("Unknown agent " ++ agent))
  next_listed : ∀ joint ∈ t.jointMoves s, ∃ s', t.next s joint = .ok s' ∧
    ∀ target, ⟨joint, target⟩ ∈ t.edgesFrom s ↔ target = s'
  next_unlisted : ∀ joint ∉ t.jointMoves s, ∃ reason, t.next s joint = .error (.transition reason)
  drawn : ∀ {γ : Type} [RandomSource γ] (g g' : γ) joint,
    t.game.drawJoint s g = (.ok joint, g') → joint ∈ t.jointMoves s
  not_drawn : ∀ {γ : Type} [RandomSource γ] (g : γ),
    (∃ e g', t.game.drawJoint s g = (.error e, g')) ↔ t.jointMoves s = []
  terminal : t.isTerminal s = true → t.jointMoves s = []

section

variable {t : Table} {s agent : String} {i : Nat}

theorem Sound.length_of_mem (h : t.Sound) {joint : JointMove String}
    (hjoint : joint ∈ t.jointMoves s) : joint.length = t.agents.length := by
  obtain ⟨e, he, rfl⟩ := List.mem_map.1 hjoint
  exact (h.edges s).length e he

theorem Sound.consistentFor (h : t.Sound) (s : String) (hi : t.agents.idxOf? agent = some i) :
    t.ConsistentFor s agent i := by
  have hindex : t.agentIndex agent = .ok i := by simp only [agentIndex, hi]
  obtain ⟨hlt, -⟩ := List.idxOf?_eq_some_iff.1 hi
  have hlong : ∀ joint ∈ t.jointMoves s, i < joint.length := by
    intro joint hjoint
    rwa [h.length_of_mem hjoint]
  have hgoal : ∀ row, t.goals[s]? = some row → ∃ v, row[i]? = some v ∧ t.goal s agent = .ok v := by
    intro row hrow
    have hlt : i < row.length := by rwa [h.row s row hrow]
    obtain ⟨v, hentry⟩ : ∃ v, row[i]? = some v := ⟨_, List.getElem?_eq_getElem hlt⟩
    refine ⟨v, hentry, ?_⟩
    simp only [Table.goal, hindex, hrow, Option.bind_some, hentry]
  refine ⟨⟨_, _, _, map_getElem?_eq hlong, ?_, firstOccurrences_eraseDups _, ?_,
    shares_filter hlong⟩, hgoal, ?_⟩
  · simp only [legalMoves, hindex]
  · intro m
    simp only [replies, hindex]
  · intro hs
    obtain ⟨row, hrow⟩ := h.terminal_row s hs
    obtain ⟨v, -, hv⟩ := hgoal row hrow
    exact ⟨v, hv⟩

theorem Sound.next_of_mem (h : t.Sound) {e : Edge} (he : e ∈ t.edgesFrom s) :
    t.next s e.joint = .ok e.target := by
  unfold next
  split
  · rename_i e' hfind
    have he' := List.mem_of_find?_eq_some hfind
    have hjoint : e'.joint = e.joint := by simpa using List.find?_some hfind
    rw [List.inj_on_of_nodup_map (h.edges s).nodup he' he hjoint]
  · rename_i hnone
    exact absurd (beq_self_eq_true e.joint) (List.find?_eq_none.1 hnone e he)

theorem next_of_not_mem {joint : JointMove String} (h : joint ∉ t.jointMoves s) :
    ∃ reason, t.next s joint = .error (.transition reason) := by
  unfold next
  split
  · rename_i e hfind
    refine absurd (List.mem_map.2 ⟨e, List.mem_of_find?_eq_some hfind, ?_⟩) h
    simpa using List.find?_some hfind
  · exact ⟨_, rfl⟩

theorem drawJoint_mem {γ : Type} [RandomSource γ] {g g' : γ} {joint : JointMove String}
    (h : t.game.drawJoint s g = (.ok joint, g')) : joint ∈ t.jointMoves s := by
  obtain ⟨joints, hoffered, hjoint⟩ : ∃ joints, t.offered s = .ok joints ∧ joint ∈ joints :=
    Game.drawJoint_ok h
  unfold offered at hoffered
  split at hoffered
  · cases hoffered
  · cases hoffered
    exact hjoint

theorem drawJoint_error_iff {γ : Type} [RandomSource γ] (g : γ) :
    (∃ e g', t.game.drawJoint s g = (.error e, g')) ↔ t.jointMoves s = [] := by
  have hoffers : t.game.offered = some t.offered := rfl
  unfold Game.drawJoint
  simp only [hoffers, offered]
  cases hjoints : t.jointMoves s with
  | nil => simp
  | cons joint rest =>
    obtain ⟨drawn, g', hdrawn⟩ :=
      RandomSource.exists_choose (List.cons_ne_nil joint rest) g
    simp [hdrawn]

theorem Sound.consistent (h : t.Sound) (s : String) : t.Consistent s where
  length _ := h.length_of_mem
  nodup := (h.edges s).nodup
  known _ _ := h.consistentFor s
  unknown agent hagent := by
    have hindex : t.agentIndex agent = .error (.move ("Unknown agent " ++ agent)) := by
      simp only [agentIndex, List.idxOf?_eq_none_iff.2 hagent]
    refine ⟨?_, fun m => ?_, ?_⟩
    · simp only [legalMoves, hindex]
    · simp only [replies, hindex]
    · simp only [goal, hindex]
  next_listed joint hjoint := by
    obtain ⟨e, he, rfl⟩ := List.mem_map.1 hjoint
    refine ⟨e.target, h.next_of_mem he, fun target => ⟨fun htarget => ?_, ?_⟩⟩
    · exact Except.ok.inj ((h.next_of_mem htarget).symm.trans (h.next_of_mem he))
    · rintro rfl
      exact he
  next_unlisted _ := next_of_not_mem
  drawn _ _ _ := drawJoint_mem
  not_drawn := drawJoint_error_iff
  terminal hs := by rw [jointMoves, h.terminal_edges s hs, List.map_nil]

end

/-- The rules of every table that is made agree with each other in every state. -/
theorem rules_consistent {t : Table} (h : t.Made) (s : String) : t.Consistent s :=
  h.sound.consistent s

/-- Three of the four combinations are listed, and one move comes up twice. -/
theorem rules_consistent_three_joints :
    let es : List Entry := [.edge "root" ["b", "y"] "won", .edge "root" ["a", "x"] "drawn",
      .edge "root" ["b", "x"] "drawn", .terminal "won" [100, 0], .terminal "drawn" [50, 50]]
    ∃ t, ofEntries ["me", "you"] es = .ok t ∧
      t.jointMoves "root" = [["b", "y"], ["a", "x"], ["b", "x"]] ∧
      t.legalMoves "root" "me" = .ok ["b", "a"] ∧
      t.replies "root" "me" "b" = .ok [["b", "y"], ["b", "x"]] ∧ t.Consistent "root" := by
  intro es
  cases ht : ofEntries ["me", "you"] es with
  | error f =>
    have hok : (ofEntries ["me", "you"] es).isOk = true := by decide +kernel
    rw [ht] at hok
    cases hok
  | ok t =>
    have hanswers : (ofEntries ["me", "you"] es).toOption.map
        (fun t => (t.jointMoves "root", t.legalMoves "root" "me", t.replies "root" "me" "b")) =
        some ([["b", "y"], ["a", "x"], ["b", "x"]], .ok ["b", "a"],
          .ok [["b", "y"], ["b", "x"]]) := by decide +kernel
    rw [ht] at hanswers
    simp only [Except.toOption, Option.map_some, Option.some.injEq, Prod.mk.injEq] at hanswers
    exact ⟨t, rfl, hanswers.1, hanswers.2.1, hanswers.2.2, rules_consistent (.entries ht) "root"⟩

end GameSearch.Table
