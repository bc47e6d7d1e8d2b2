import GameSearch.Cancellation
import Mathlib.Data.List.Induction

/-!
# GameSearch.Proofs.Cancellation

Whom a request to stop reaches. Tokens are made, copied and raised, watchdogs are armed, act, are
waited for and are called off, in any order. Which tokens are copies of each other is told by
`handles`, which knows nothing of flags.

* `flagAt_step`: all that a step does to a flag.
* `requests_reach_copies`: a token is raised only for a reason that a copy of it has, certainly for
  some of these, and for good; and a step changes copies of its own token only.
-/

namespace GameSearch.Cancellation

/-! ## Runs -/

inductive Operation where
  | newToken
  | copyToken (token : Nat)
  | raise (token : Nat)
  | arm (token : Nat) (now deadline : Int) (margin : Nat)
  | armUntimed (token : Nat)
  | act (watchdog : Nat)
  | wait (token : Nat)
  | callOff (watchdog : Nat)
  deriving DecidableEq, Repr

def step (c : Cancellation) : Operation → Cancellation
  | .newToken => c.newToken
  | .copyToken token => c.copyToken token
  | .raise token => c.raise token
  | .arm token now deadline margin => c.arm token now deadline margin
  | .armUntimed token => c.armUntimed token
  | .act watchdog => c.act watchdog
  | .wait token => c.wait token
  | .callOff watchdog => (c.callOff watchdog).2

def run (ops : List Operation) : Cancellation := ops.foldl step empty

theorem run_append (ops : List Operation) (op : Operation) :
    run (ops ++ [op]) = (run ops).step op := by
  simp [run]

/-- Tokens and watchdogs, told without flags. -/
structure Handles where
  /-- Each token's first ancestor: it was made by copying that one, or copies of it. A new token
  is its own. -/
  origins : List Nat
  /-- The token that each watchdog was armed on. -/
  guarded : List Nat

namespace Handles

def guard (h : Handles) (token : Nat) : Handles :=
  if token < h.origins.length then { h with guarded := h.guarded ++ [token] } else h

def note (h : Handles) : Operation → Handles
  | .newToken => { h with origins := h.origins ++ [h.origins.length] }
  | .copyToken token => { h with origins := h.origins ++ (h.origins[token]?).toList }
  | .arm token _ _ _ => h.guard token
  | .armUntimed token => h.guard token
  | _ => h

end Handles

def handles (ops : List Operation) : Handles := ops.foldl .note ⟨[], []⟩

theorem handles_append (ops : List Operation) (op : Operation) :
    handles (ops ++ [op]) = (handles ops).note op := by
  simp [handles]

def Known (ops : List Operation) (t : Nat) : Prop := t < (handles ops).origins.length

def Copies (ops : List Operation) (t u : Nat) : Prop :=
  ∃ o, (handles ops).origins[t]? = some o ∧ (handles ops).origins[u]? = some o

/-- A step of a run was so, given the steps before it. -/
def Happened (P : List Operation → Operation → Prop) (ops : List Operation) : Prop :=
  ∃ before op after, ops = before ++ op :: after ∧ P before op

def Requested (ops : List Operation) (u : Nat) : Prop :=
  Happened (fun before op => op = .raise u ∧ Known before u) ops

def Untimed (ops : List Operation) (u : Nat) : Prop :=
  Happened (fun before op => op = .armUntimed u ∧ Known before u) ops

/-- The watchdog was armed on the token when no more time was left than the margin. -/
def ArmedDue (ops : List Operation) (w u : Nat) : Prop :=
  Happened (fun before op => ∃ now deadline margin, op = .arm u now deadline margin ∧
    deadline - now ≤ margin ∧ Known before u ∧ w = (handles before).guarded.length) ops

def CalledOff (ops : List Operation) (w : Nat) : Prop :=
  Happened (fun before op => op = .callOff w ∧ w < (handles before).guarded.length) ops

/-- A due watchdog on the token was waited for, and was not called off before. -/
def Awaited (ops : List Operation) (u : Nat) : Prop :=
  Happened (fun before op => ∃ v w, op = .wait v ∧ Copies before u v ∧ ArmedDue before w u ∧
    ¬CalledOff before w) ops

/-- What a step brings about and no step undoes holds ever after. -/
theorem Happened.stays {P : List Operation → Operation → Prop} {Q : List Operation → Prop}
    {ops : List Operation} (h : Happened P ops) (hP : ∀ before op, P before op → Q (before ++ [op]))
    (hQ : ∀ before op, Q before → Q (before ++ [op])) : Q ops := by
  obtain ⟨before, op, after, rfl, h⟩ := h
  induction after using List.reverseRecOn with
  | nil => exact hP before op h
  | append_singleton after last ih =>
    have hsplit : before ++ op :: (after ++ [last]) = (before ++ op :: after) ++ [last] := by simp
    exact hsplit ▸ hQ _ last ih

/-- The step is one of this token, or of a watchdog that was armed on it. -/
def ActsOn (ops : List Operation) (u : Nat) : Operation → Prop
  | .newToken => False
  | .copyToken t | .raise t | .arm t _ _ _ | .armUntimed t | .wait t => t = u
  | .act w | .callOff w => (handles ops).guarded[w]? = some u

theorem not_happened_nil {P : List Operation → Operation → Prop} : ¬Happened P [] := by
  rintro ⟨before, op, after, h, -⟩
  simp at h

theorem happened_append {P : List Operation → Operation → Prop} {ops : List Operation}
    {op : Operation} : Happened P (ops ++ [op]) ↔ Happened P ops ∨ P ops op := by
  constructor
  · rintro ⟨before, op', after, h, hP⟩
    rcases List.eq_nil_or_concat after with rfl | ⟨after, last, rfl⟩
    · obtain ⟨rfl, hop⟩ := List.append_inj' h rfl
      cases hop
      exact .inr hP
    · rw [List.concat_eq_append, ← List.cons_append, ← List.append_assoc] at h
      obtain ⟨rfl, -⟩ := List.append_inj' h rfl
      exact .inl ⟨before, op', after, rfl, hP⟩
  · rintro (⟨before, op', after, rfl, hP⟩ | hP)
    · exact ⟨before, op', after ++ [op], by simp, hP⟩
    · exact ⟨ops, op, [], rfl, hP⟩

/-! ## What a step does -/

section

variable {c : Cancellation} {f g t u w : Nat} {op : Operation}

/-- The step raises the flag. -/
def Raises (c : Cancellation) (f : Nat) : Operation → Prop
  | .raise t | .armUntimed t => c.tokens[t]? = some f
  | .act w => c.watchdogs[w]? = some (some ⟨f, true⟩)
  | .wait t => c.tokens[t]? = some f ∧ some ⟨f, true⟩ ∈ c.watchdogs
  | _ => False

@[simp] theorem act_tokens (c : Cancellation) (w : Nat) : (c.act w).tokens = c.tokens := by
  unfold act
  (repeat' split) <;> rfl

@[simp] theorem act_watchdogs (c : Cancellation) (w : Nat) :
    (c.act w).watchdogs = c.watchdogs := by
  unfold act
  (repeat' split) <;> rfl

@[simp] theorem act_flags_length (c : Cancellation) (w : Nat) :
    (c.act w).flags.length = c.flags.length := by
  unfold act
  (repeat' split) <;> simp [raiseFlag]

theorem actAll_keeps (ws : List Nat) (c : Cancellation) :
    (ws.foldl act c).tokens = c.tokens ∧ (ws.foldl act c).watchdogs = c.watchdogs ∧
      (ws.foldl act c).flags.length = c.flags.length := by
  induction ws generalizing c with
  | nil => exact ⟨rfl, rfl, rfl⟩
  | cons w ws ih => simpa using ih (c.act w)

theorem wait_keeps (c : Cancellation) (t : Nat) :
    (c.wait t).tokens = c.tokens ∧ (c.wait t).watchdogs = c.watchdogs ∧
      (c.wait t).flags.length = c.flags.length := by
  unfold wait
  split
  · exact ⟨rfl, rfl, rfl⟩
  · exact actAll_keeps _ c

theorem step_tokens (c : Cancellation) (op : Operation) :
    (c.step op).tokens = c.tokens ++ match op with
      | .newToken => [c.flags.length]
      | .copyToken t => (c.tokens[t]?).toList
      | _ => [] := by
  cases op with
  | wait t => simp [step, wait_keeps]
  | act w => simp [step]
  | _ =>
    simp only [step, newToken, copyToken, raise, arm, armUntimed, callOff] <;>
      (repeat' split) <;> simp_all [raiseFlag]

theorem step_flags_length (c : Cancellation) (op : Operation) :
    (c.step op).flags.length = c.flags.length + if op = .newToken then 1 else 0 := by
  cases op with
  | wait t => simp [step, wait_keeps]
  | act w => simp [step]
  | _ =>
    simp only [step, newToken, copyToken, raise, arm, armUntimed, callOff]
    (repeat' split) <;> simp_all [raiseFlag]

theorem step_watchdogs (c : Cancellation) (op : Operation) :
    (c.step op).watchdogs = match op with
      | .arm t now deadline margin => c.watchdogs ++
          (c.tokens[t]?).toList.map fun f => some ⟨f, decide (stopAt deadline margin ≤ now)⟩
      | .armUntimed t => c.watchdogs ++ (c.tokens[t]?).toList.map fun f => some ⟨f, false⟩
      | .callOff w => c.watchdogs.set w none
      | _ => c.watchdogs := by
  cases op with
  | callOff w =>
    simp only [step, callOff]
    split
    · rfl
    · -- an empty place, or none at all
      rename_i hnone
      rcases hw : c.watchdogs[w]? with _ | _ | dog
      · rw [List.set_eq_of_length_le (List.getElem?_eq_none_iff.1 hw)]
      · obtain ⟨hlt, hempty⟩ := List.getElem?_eq_some_iff.1 hw
        rw [← hempty, List.set_getElem_self]
      · exact absurd hw (hnone dog)
  | wait t => simp [step, wait_keeps]
  | act w => simp [step]
  | _ =>
    simp only [step, newToken, copyToken, raise, arm, armUntimed] <;>
      (repeat' split) <;> simp_all [raiseFlag]

theorem flagAt_raiseFlag (hf : f < c.flags.length) :
    (c.raiseFlag f).flagAt g = true ↔ c.flagAt g = true ∨ f = g := by
  simp only [flagAt, raiseFlag, List.getElem?_set]
  by_cases hfg : f = g
  · subst hfg
    simp [hf]
  · simp [hfg]

theorem flagAt_congr {d : Cancellation} (h : d.flags = c.flags) (g : Nat) :
    d.flagAt g = c.flagAt g := by
  rw [flagAt, flagAt, h]

theorem flagAt_act (hflags : ∀ f, c.watchdogs[w]? = some (some ⟨f, true⟩) → f < c.flags.length) :
    (c.act w).flagAt g = true ↔
      c.flagAt g = true ∨ c.watchdogs[w]? = some (some ⟨g, true⟩) := by
  unfold act
  rcases hw : c.watchdogs[w]? with _ | _ | ⟨f, due⟩
  · simp
  · simp
  · cases due with
    | false => simp
    | true => simp [flagAt_raiseFlag (hflags f hw)]

/-- By induction on the watchdogs: none of them changes what the others do. -/
theorem flagAt_actAll (ws : List Nat)
    (hflags : ∀ w ∈ ws, ∀ f, c.watchdogs[w]? = some (some ⟨f, true⟩) → f < c.flags.length) :
    (ws.foldl act c).flagAt g = true ↔
      c.flagAt g = true ∨ ∃ w ∈ ws, c.watchdogs[w]? = some (some ⟨g, true⟩) := by
  induction ws generalizing c with
  | nil => simp
  | cons w ws ih =>
    have hrest : ∀ v ∈ ws, ∀ f, (c.act w).watchdogs[v]? = some (some ⟨f, true⟩) →
        f < (c.act w).flags.length := by
      simpa using fun v hv => hflags v (List.mem_cons_of_mem w hv)
    rw [List.foldl_cons, ih hrest, flagAt_act (hflags w List.mem_cons_self), act_watchdogs,
      or_assoc]
    simp only [List.mem_cons, exists_eq_or_imp]

theorem mem_watchdogsOn :
    w ∈ c.watchdogsOn f ↔ ∃ due, c.watchdogs[w]? = some (some ⟨f, due⟩) := by
  rw [watchdogsOn, List.mem_filter, List.mem_range]
  rcases hw : c.watchdogs[w]? with _ | _ | ⟨g, due⟩
  · simp
  · simp
  · simp [(List.getElem?_eq_some_iff.1 hw).1]

theorem flagAt_step (hflags : ∀ f, c.Raises f op → f < c.flags.length) :
    (c.step op).flagAt g = true ↔ c.flagAt g = true ∨ c.Raises g op := by
  cases op with
  | newToken =>
    have hnew : c.newToken.flagAt g = c.flagAt g := by
      simp only [flagAt, newToken, List.getElem?_append, List.getElem?_singleton]
      grind
    simp [step, Raises, hnew]
  | copyToken t =>
    have hsame : (c.copyToken t).flagAt g = c.flagAt g :=
      flagAt_congr (by unfold copyToken; split <;> rfl) g
    simp [step, Raises, hsame]
  | raise t =>
    simp only [step, raise, Raises] at hflags ⊢
    cases ht : c.tokens[t]? with
    | none => simp
    | some f => simp [flagAt_raiseFlag (hflags f ht)]
  | arm t now deadline margin =>
    have hsame : (c.arm t now deadline margin).flagAt g = c.flagAt g :=
      flagAt_congr (by unfold arm; split <;> rfl) g
    simp [step, Raises, hsame]
  | armUntimed t =>
    simp only [step, armUntimed, Raises] at hflags ⊢
    cases ht : c.tokens[t]? with
    | none => simp
    | some f => exact flagAt_raiseFlag (hflags f ht) |>.trans (by simp)
  | act w => exact flagAt_act hflags
  | wait t =>
    simp only [step, wait, Raises] at hflags ⊢
    cases ht : c.tokens[t]? with
    | none => simp
    | some f =>
      -- only watchdogs on the flag of the token act
      have hon : ∀ w ∈ c.watchdogsOn f, ∀ g, c.watchdogs[w]? = some (some ⟨g, true⟩) →
          g = f := by
        intro w hw g hg
        obtain ⟨due, hdue⟩ := mem_watchdogsOn.1 hw
        cases hdue.symm.trans hg
        rfl
      have hlt : ∀ w ∈ c.watchdogsOn f, ∀ g, c.watchdogs[w]? = some (some ⟨g, true⟩) →
          g < c.flags.length := by
        intro w hw g hg
        obtain rfl := hon w hw g hg
        exact hflags g ⟨ht, List.mem_of_getElem? hg⟩
      refine (flagAt_actAll _ hlt).trans (or_congr_right ?_)
      constructor
      · rintro ⟨w, hw, hg⟩
        obtain rfl := hon w hw g hg
        exact ⟨rfl, List.mem_of_getElem? hg⟩
      · rintro ⟨hfg, hmem⟩
        cases hfg
        obtain ⟨w, hw⟩ := List.getElem?_of_mem hmem
        exact ⟨w, mem_watchdogsOn.2 ⟨true, hw⟩, hw⟩
  | callOff w =>
    have hsame : (c.callOff w).2.flagAt g = c.flagAt g :=
      flagAt_congr (by unfold callOff; split <;> rfl) g
    simp [step, Raises, hsame]

end

/-! ## Handles and flags -/

section

variable {ops : List Operation} {op : Operation} {f g t u w : Nat}

theorem origins_append (ops : List Operation) (op : Operation) :
    (handles (ops ++ [op])).origins = (handles ops).origins ++ match op with
      | .newToken => [(handles ops).origins.length]
      | .copyToken t => ((handles ops).origins[t]?).toList
      | _ => [] := by
  rw [handles_append]
  cases op <;> simp only [Handles.note, Handles.guard] <;> (repeat' split) <;> simp

theorem guarded_append (ops : List Operation) (op : Operation) :
    (handles (ops ++ [op])).guarded = (handles ops).guarded ++ match op with
      | .arm t _ _ _ | .armUntimed t => if t < (handles ops).origins.length then [t] else []
      | _ => [] := by
  rw [handles_append]
  cases op <;> simp only [Handles.note, Handles.guard] <;> (repeat' split) <;> simp_all

/-- Equal entries of one list stand where the entries of the other one are equal. -/
def Paired (xs ys : List Nat) : Prop :=
  ∀ a ∈ xs.zip ys, ∀ b ∈ xs.zip ys, a.1 = b.1 ↔ a.2 = b.2

theorem Paired.concat {xs ys : List Nat} {x y : Nat} (h : Paired xs ys)
    (hlength : xs.length = ys.length) (hnew : ∀ a ∈ xs.zip ys, a.1 = x ↔ a.2 = y) :
    Paired (xs ++ [x]) (ys ++ [y]) := by
  intro a ha b hb
  rw [List.zip_append hlength] at ha hb
  rcases List.mem_append.1 ha with ha | ha <;> rcases List.mem_append.1 hb with hb | hb
  · exact h a ha b hb
  · obtain rfl := List.mem_singleton.1 hb
    exact hnew a ha
  · obtain rfl := List.mem_singleton.1 ha
    exact eq_comm.trans ((hnew b hb).trans eq_comm)
  · obtain rfl := List.mem_singleton.1 ha
    obtain rfl := List.mem_singleton.1 hb
    simp

structure Tracked (ops : List Operation) (c : Cancellation) : Prop where
  length : c.tokens.length = (handles ops).origins.length
  flag_lt : ∀ f ∈ c.tokens, f < c.flags.length
  origin_lt : ∀ o ∈ (handles ops).origins, o < (handles ops).origins.length
  paired : Paired c.tokens (handles ops).origins

namespace Tracked

variable {c : Cancellation}

theorem newToken (h : Tracked ops c) : Tracked (ops ++ [.newToken]) (c.step .newToken) := by
  have htokens : (c.step .newToken).tokens = c.tokens ++ [c.flags.length] := step_tokens c .newToken
  have horigins := origins_append ops .newToken
  have hflags : (c.step .newToken).flags.length = c.flags.length + 1 :=
    step_flags_length c .newToken
  refine ⟨?_, ?_, ?_, ?_⟩ <;> simp only [htokens, horigins, hflags]
  · simp [h.length]
  · intro f hf
    rcases List.mem_append.1 hf with hf | hf
    · exact Nat.lt_succ_of_lt (h.flag_lt f hf)
    · exact (List.mem_singleton.1 hf).symm ▸ Nat.lt_succ_self _
  · intro o ho
    rw [List.length_append]
    rcases List.mem_append.1 ho with ho | ho
    · exact Nat.lt_succ_of_lt (h.origin_lt o ho)
    · exact (List.mem_singleton.1 ho).symm ▸ Nat.lt_succ_self _
  · refine h.paired.concat h.length fun a ha => ?_
    have hflag := h.flag_lt a.1 (List.of_mem_zip ha).1
    have horigin := h.origin_lt a.2 (List.of_mem_zip ha).2
    omega

theorem copyToken (h : Tracked ops c) (t : Nat) :
    Tracked (ops ++ [.copyToken t]) (c.step (.copyToken t)) := by
  have htokens : (c.step (.copyToken t)).tokens = c.tokens ++ (c.tokens[t]?).toList :=
    step_tokens c (.copyToken t)
  have horigins := origins_append ops (.copyToken t)
  have hflags : (c.step (.copyToken t)).flags.length = c.flags.length :=
    step_flags_length c (.copyToken t)
  by_cases ht : t < c.tokens.length
  · have ht' : t < (handles ops).origins.length := h.length ▸ ht
    rw [List.getElem?_eq_getElem ht, Option.toList_some] at htokens
    simp only [List.getElem?_eq_getElem ht', Option.toList_some] at horigins
    refine ⟨?_, ?_, ?_, ?_⟩ <;> simp only [htokens, horigins, hflags]
    · simp [h.length]
    · intro f hf
      rcases List.mem_append.1 hf with hf | hf
      · exact h.flag_lt f hf
      · exact (List.mem_singleton.1 hf).symm ▸ h.flag_lt _ (List.getElem_mem ht)
    · intro o ho
      rw [List.length_append]
      rcases List.mem_append.1 ho with ho | ho
      · exact Nat.lt_succ_of_lt (h.origin_lt o ho)
      · obtain rfl := List.mem_singleton.1 ho
        exact Nat.lt_succ_of_lt (h.origin_lt _ (List.getElem_mem ht'))
    · have hmem : (c.tokens[t], (handles ops).origins[t]) ∈ c.tokens.zip (handles ops).origins :=
        List.mem_of_getElem? (List.getElem?_zip_eq_some.2
          ⟨List.getElem?_eq_getElem ht, List.getElem?_eq_getElem ht'⟩)
      exact h.paired.concat h.length fun a ha => h.paired a ha _ hmem
  · rw [List.getElem?_eq_none (Nat.le_of_not_lt ht), Option.toList_none, List.append_nil] at htokens
    simp only [List.getElem?_eq_none (Nat.le_of_not_lt (h.length ▸ ht)), Option.toList_none,
      List.append_nil] at horigins
    refine ⟨?_, ?_, ?_, ?_⟩ <;> simp only [htokens, horigins, hflags]
    exacts [h.length, h.flag_lt, h.origin_lt, h.paired]

theorem step (h : Tracked ops c) (op : Operation) : Tracked (ops ++ [op]) (c.step op) := by
  have htokens := step_tokens c op
  have horigins := origins_append ops op
  have hflags := step_flags_length c op
  cases op with
  | newToken => exact h.newToken
  | copyToken t => exact h.copyToken t
  | _ =>
    simp only [List.append_nil, reduceCtorEq, ↓reduceIte, Nat.add_zero] at htokens horigins hflags
    refine ⟨?_, ?_, ?_, ?_⟩ <;> simp only [htokens, horigins, hflags]
    exacts [h.length, h.flag_lt, h.origin_lt, h.paired]

end Tracked

theorem tracked_run (ops : List Operation) : Tracked ops (run ops) := by
  induction ops using List.reverseRecOn with
  | nil => exact ⟨rfl, by simp [run, empty], by simp [handles], by simp [Paired, run, empty]⟩
  | append_singleton ops op ih => exact run_append ops op ▸ ih.step op

theorem run_tokens_append (ops : List Operation) (op : Operation) :
    (run ops).tokens <+: (run (ops ++ [op])).tokens := by
  rw [run_append, step_tokens]
  exact List.prefix_append _ _

theorem tokens_stay (h : (run ops).tokens[t]? = some f) :
    (run (ops ++ [op])).tokens[t]? = some f := by
  obtain ⟨new, hnew⟩ := run_tokens_append ops op
  rw [← hnew, List.getElem?_append_left (List.getElem?_eq_some_iff.1 h).1, h]

theorem exists_flag (h : Known ops t) : ∃ f, (run ops).tokens[t]? = some f :=
  ⟨_, List.getElem?_eq_getElem ((tracked_run ops).length ▸ h)⟩

theorem known_of_flag (h : (run ops).tokens[t]? = some f) : Known ops t :=
  Nat.lt_of_lt_of_eq (List.getElem?_eq_some_iff.1 h).1 (tracked_run ops).length

theorem Copies.known (h : Copies ops t u) : Known ops t ∧ Known ops u := by
  obtain ⟨o, ht, hu⟩ := h
  exact ⟨(List.getElem?_eq_some_iff.1 ht).1, (List.getElem?_eq_some_iff.1 hu).1⟩

theorem Known.append (h : Known ops t) : Known (ops ++ [op]) t := by
  obtain ⟨f, hf⟩ := exists_flag h
  exact known_of_flag (tokens_stay hf)

theorem copies_iff (ht : (run ops).tokens[t]? = some f) :
    Copies ops t u ↔ (run ops).tokens[u]? = some f := by
  have htracked := tracked_run ops
  have hpair : ∀ {t f o}, (run ops).tokens[t]? = some f → (handles ops).origins[t]? = some o →
      (f, o) ∈ (run ops).tokens.zip (handles ops).origins :=
    fun hf ho => List.mem_of_getElem? (List.getElem?_zip_eq_some.2 ⟨hf, ho⟩)
  constructor
  · intro h
    obtain ⟨g, hg⟩ := exists_flag h.known.2
    obtain ⟨o, hto, huo⟩ := h
    have hsame : g = f := (htracked.paired _ (hpair hg huo) _ (hpair ht hto)).2 rfl
    rw [hg, hsame]
  · intro hu
    have hto := List.getElem?_eq_getElem (known_of_flag ht)
    have huo := List.getElem?_eq_getElem (known_of_flag hu)
    have hsame := (htracked.paired _ (hpair ht hto) _ (hpair hu huo)).1 rfl
    exact ⟨_, hto, huo.trans (congrArg some hsame.symm)⟩

/-! ## Watchdogs -/

theorem getElem?_concat_eq_some {β : Type} {xs : List β} {x y : β} {i : Nat} :
    (xs ++ [x])[i]? = some y ↔ xs[i]? = some y ∨ i = xs.length ∧ x = y := by
  rw [List.getElem?_append]
  grind

theorem armedDue_append : ArmedDue (ops ++ [op]) w u ↔ ArmedDue ops w u ∨
    ∃ now deadline margin, op = .arm u now deadline margin ∧ deadline - now ≤ margin ∧
      Known ops u ∧ w = (handles ops).guarded.length :=
  happened_append

theorem calledOff_append : CalledOff (ops ++ [op]) w ↔
    CalledOff ops w ∨ op = .callOff w ∧ w < (handles ops).guarded.length :=
  happened_append

theorem guarded_stay (h : (handles ops).guarded[w]? = some u) :
    (handles (ops ++ [op])).guarded[w]? = some u := by
  rw [guarded_append, List.getElem?_append_left (List.getElem?_eq_some_iff.1 h).1, h]

theorem ArmedDue.guarded (h : ArmedDue ops w u) : (handles ops).guarded[w]? = some u := by
  refine h.stays (Q := fun ops => (handles ops).guarded[w]? = some u) ?_ fun _ _ => guarded_stay
  rintro before _ ⟨now, deadline, margin, rfl, -, hu, rfl⟩
  have hlast : (handles (before ++ [.arm u now deadline margin])).guarded =
      (handles before).guarded ++ [u] :=
    (guarded_append _ _).trans (congrArg _ (if_pos hu))
  rw [hlast, List.getElem?_concat_length]

theorem ArmedDue.known (h : ArmedDue ops w u) : Known ops u := by
  refine h.stays (Q := fun ops => Known ops u) ?_ fun _ _ => Known.append
  rintro before _ ⟨now, deadline, margin, rfl, -, hu, rfl⟩
  exact hu.append

theorem ArmedDue.lt (h : ArmedDue ops w u) : w < (handles ops).guarded.length :=
  (List.getElem?_eq_some_iff.1 h.guarded).1

theorem CalledOff.lt (h : CalledOff ops w) : w < (handles ops).guarded.length := by
  have hgrows : ∀ before op, (handles before).guarded.length ≤
      (handles (before ++ [op])).guarded.length := by
    intro before op
    rw [guarded_append, List.length_append]
    exact Nat.le_add_right _ _
  refine h.stays ?_ fun before op hlt => Nat.lt_of_lt_of_le hlt (hgrows before op)
  rintro before op ⟨-, hlt⟩
  exact Nat.lt_of_lt_of_le hlt (hgrows before op)

theorem watchdogs_length (ops : List Operation) :
    (run ops).watchdogs.length = (handles ops).guarded.length := by
  induction ops using List.reverseRecOn with
  | nil => rfl
  | append_singleton ops op ih =>
    have hlength := (tracked_run ops).length
    rw [run_append, step_watchdogs, guarded_append]
    cases op with
    | arm t now deadline margin =>
      by_cases ht : t < (handles ops).origins.length <;> simp_all
    | armUntimed t =>
      by_cases ht : t < (handles ops).origins.length <;> simp_all
    | _ => simpa using ih

/-- The due watchdogs that stand are those that were armed and not called off. -/
def Standing (ops : List Operation) (w f : Nat) : Prop :=
  ∃ u, ArmedDue ops w u ∧ (run ops).tokens[u]? = some f ∧ ¬CalledOff ops w

theorem Standing.lt (h : Standing ops w f) : w < (handles ops).guarded.length := by
  obtain ⟨u, hdue, -⟩ := h
  exact hdue.lt

theorem standing_append (harm : ∀ u, ArmedDue (ops ++ [op]) w u ↔ ArmedDue ops w u)
    (hoff : op ≠ .callOff w) : Standing (ops ++ [op]) w f ↔ Standing ops w f := by
  have hcalled : CalledOff (ops ++ [op]) w ↔ CalledOff ops w := by
    rw [calledOff_append]
    exact or_iff_left fun h => hoff h.1
  simp only [Standing, harm, hcalled]
  refine exists_congr fun u => and_congr_right fun hdue => and_congr_left fun _ => ?_
  obtain ⟨g, hg⟩ := exists_flag hdue.known
  rw [hg, tokens_stay hg]

theorem standing_arm {now deadline : Int} {margin : Nat} (ht : (run ops).tokens[t]? = some g) :
    Standing (ops ++ [.arm t now deadline margin]) w f ↔ Standing ops w f ∨
      w = (handles ops).guarded.length ∧ g = f ∧ deadline - now ≤ margin := by
  by_cases hw : w = (handles ops).guarded.length
  · have hold : ¬Standing ops w f := fun h => Nat.lt_irrefl _ (hw ▸ h.lt)
    have hcalled : ¬CalledOff (ops ++ [.arm t now deadline margin]) w := by
      rw [calledOff_append]
      rintro (h | ⟨h, -⟩)
      · exact Nat.lt_irrefl _ (hw ▸ h.lt)
      · cases h
    constructor
    · rintro ⟨u, hdue, hflag, -⟩
      rcases armedDue_append.1 hdue with hdue | ⟨_, _, _, hop, hleft, -, -⟩
      · exact absurd hdue.lt (hw ▸ Nat.lt_irrefl _)
      · cases hop
        rw [tokens_stay ht, Option.some.injEq] at hflag
        exact .inr ⟨hw, hflag, hleft⟩
    · rintro (h | ⟨-, rfl, hleft⟩)
      · exact absurd h hold
      · have hdue : ArmedDue (ops ++ [.arm t now deadline margin]) w t :=
          armedDue_append.2 (.inr ⟨now, deadline, margin, rfl, hleft, known_of_flag ht, hw⟩)
        exact ⟨t, hdue, tokens_stay ht, hcalled⟩
  · rw [standing_append (fun u => ?_) (by simp), or_iff_left fun h => hw h.1]
    rw [armedDue_append]
    refine or_iff_left ?_
    rintro ⟨_, _, _, -, -, -, h⟩
    exact hw h

theorem standing_iff (ops : List Operation) (w f : Nat) :
    (run ops).watchdogs[w]? = some (some ⟨f, true⟩) ↔ Standing ops w f := by
  induction ops using List.reverseRecOn generalizing w f with
  | nil => simp [run, empty, Standing, ArmedDue, not_happened_nil]
  | append_singleton ops op ih =>
    have hother : (∀ u now deadline margin, op ≠ .arm u now deadline margin) →
        ∀ w u, ArmedDue (ops ++ [op]) w u ↔ ArmedDue ops w u := by
      intro hop w u
      rw [armedDue_append]
      refine or_iff_left ?_
      rintro ⟨now, deadline, margin, rfl, -⟩
      exact hop u now deadline margin rfl
    have hdogs := step_watchdogs (run ops) op
    rw [← run_append] at hdogs
    cases op with
    | arm t now deadline margin =>
      cases ht : (run ops).tokens[t]? with
      | none =>
        have hunknown : ¬Known ops t := fun h => by
          obtain ⟨g, hg⟩ := exists_flag h
          cases ht.symm.trans hg
        rw [standing_append (fun u => ?_) (by simp), ← ih, hdogs]
        · simp only [ht, Option.toList_none, List.map_nil, List.append_nil]
        · rw [armedDue_append]
          refine or_iff_left ?_
          rintro ⟨_, _, _, hop, -, hu, -⟩
          cases hop
          exact hunknown hu
      | some g =>
        have hlast : (run (ops ++ [.arm t now deadline margin])).watchdogs[w]? =
            some (some ⟨f, true⟩) ↔ (run ops).watchdogs[w]? = some (some ⟨f, true⟩) ∨
              w = (handles ops).guarded.length ∧ g = f ∧ deadline - now ≤ margin := by
          have hdue : stopAt deadline margin ≤ now ↔ deadline - now ≤ margin := by
            unfold stopAt
            omega
          rw [hdogs, ← watchdogs_length]
          simp only [ht, Option.toList_some, List.map_cons, List.map_nil, getElem?_concat_eq_some,
            Option.some.injEq, Watchdog.mk.injEq, decide_eq_true_eq, hdue]
        rw [hlast, ih, standing_arm ht]
    | armUntimed t =>
      rw [standing_append (hother (by simp) w) (by simp), ← ih, hdogs]
      cases ht : (run ops).tokens[t]? with
      | none => simp only [ht, Option.toList_none, List.map_nil, List.append_nil]
      | some g => simp [ht, getElem?_concat_eq_some]
    | callOff w' =>
      rw [hdogs]
      by_cases hw : w' = w
      · subst hw
        have hgone : ¬Standing (ops ++ [.callOff w']) w' f := by
          rintro ⟨u, hdue, -, hstands⟩
          have hdue := (hother (by simp) w' u).1 hdue
          exact hstands (calledOff_append.2 (.inr ⟨rfl, hdue.lt⟩))
        simp [hgone, List.getElem?_set]
      · rw [standing_append (hother (by simp) w) (by simpa using hw), ← ih,
          List.getElem?_set_ne hw]
    | _ =>
      rw [standing_append (hother (by simp) w) (by simp), ← ih, hdogs]

/-! ## Reasons -/

theorem raises_lt (h : (run ops).Raises f op) : f < (run ops).flags.length := by
  have hflag : ∀ {t}, (run ops).tokens[t]? = some f → f < (run ops).flags.length :=
    fun h => (tracked_run ops).flag_lt f (List.mem_of_getElem? h)
  cases op with
  | raise t => exact hflag h
  | armUntimed t => exact hflag h
  | wait t => exact hflag h.1
  | act w =>
    obtain ⟨u, -, hu, -⟩ := (standing_iff ops w f).1 h
    exact hflag hu
  | newToken => cases h
  | copyToken t => cases h
  | arm t now deadline margin => cases h
  | callOff w => cases h

theorem flagAt_append : (run (ops ++ [op])).flagAt g = true ↔
    (run ops).flagAt g = true ∨ (run ops).Raises g op := by
  rw [run_append]
  exact flagAt_step fun _ => raises_lt

theorem isRaised_iff {c : Cancellation} :
    c.isRaised t = true ↔ ∃ f, c.tokens[t]? = some f ∧ c.flagAt f = true := by
  unfold isRaised
  cases c.tokens[t]? <;> simp

theorem isRaised_stays (h : (run ops).isRaised t = true) :
    (run (ops ++ [op])).isRaised t = true := by
  obtain ⟨f, hf, hraised⟩ := isRaised_iff.1 h
  exact isRaised_iff.2 ⟨f, tokens_stay hf, flagAt_append.2 (.inl hraised)⟩

/-- Some of the steps so far can have raised the flag of the token. -/
def HasReason (ops : List Operation) (u : Nat) : Prop :=
  Requested ops u ∨ Untimed ops u ∨ ∃ w, ArmedDue ops w u

/-- Some of the steps so far have raised the flag of the token. -/
def HasCause (ops : List Operation) (u : Nat) : Prop :=
  Requested ops u ∨ Untimed ops u ∨ Awaited ops u

theorem HasReason.append (h : HasReason ops u) : HasReason (ops ++ [op]) u := by
  rcases h with h | h | ⟨w, h⟩
  · exact .inl (happened_append.2 (.inl h))
  · exact .inr (.inl (happened_append.2 (.inl h)))
  · exact .inr (.inr ⟨w, happened_append.2 (.inl h)⟩)

theorem actsOn_of_raises (h : (run ops).Raises f op) :
    ∃ u, ActsOn ops u op ∧ (run ops).tokens[u]? = some f := by
  cases op with
  | raise t => exact ⟨t, rfl, h⟩
  | armUntimed t => exact ⟨t, rfl, h⟩
  | wait t => exact ⟨t, rfl, h.1⟩
  | act w =>
    obtain ⟨u, hdue, hu, -⟩ := (standing_iff ops w f).1 h
    exact ⟨u, hdue.guarded, hu⟩
  | newToken => cases h
  | copyToken t => cases h
  | arm t now deadline margin => cases h
  | callOff w => cases h

theorem hasReason_of_raises (h : (run ops).Raises f op) :
    ∃ u, (run ops).tokens[u]? = some f ∧ HasReason (ops ++ [op]) u := by
  have hstanding : ∀ {w : Nat}, (run ops).watchdogs[w]? = some (some ⟨f, true⟩) →
      ∃ u, (run ops).tokens[u]? = some f ∧ HasReason (ops ++ [op]) u := by
    intro w hw
    obtain ⟨u, hdue, hu, -⟩ := (standing_iff ops w f).1 hw
    have hreason : HasReason ops u := .inr (.inr ⟨w, hdue⟩)
    exact ⟨u, hu, hreason.append⟩
  cases op with
  | raise t => exact ⟨t, h, .inl (happened_append.2 (.inr ⟨rfl, known_of_flag h⟩))⟩
  | armUntimed t => exact ⟨t, h, .inr (.inl (happened_append.2 (.inr ⟨rfl, known_of_flag h⟩)))⟩
  | act w => exact hstanding h
  | wait t =>
    obtain ⟨w, hw⟩ := List.getElem?_of_mem h.2
    exact hstanding hw
  | newToken => cases h
  | copyToken t => cases h
  | arm t now deadline margin => cases h
  | callOff w => cases h

theorem hasReason_of_flagAt (h : (run ops).flagAt f = true) :
    ∃ u, (run ops).tokens[u]? = some f ∧ HasReason ops u := by
  induction ops using List.reverseRecOn with
  | nil => simp [run, empty, flagAt] at h
  | append_singleton ops op ih =>
    rcases flagAt_append.1 h with h | h
    · obtain ⟨u, hu, hreason⟩ := ih h
      exact ⟨u, tokens_stay hu, hreason.append⟩
    · obtain ⟨u, hu, hreason⟩ := hasReason_of_raises h
      exact ⟨u, tokens_stay hu, hreason⟩

theorem isRaised_of_raises (hf : (run ops).tokens[u]? = some f) (h : (run ops).Raises f op) :
    (run (ops ++ [op])).isRaised u = true :=
  isRaised_iff.2 ⟨f, tokens_stay hf, flagAt_append.2 (.inr h)⟩

theorem HasCause.isRaised (h : HasCause ops u) : (run ops).isRaised u = true := by
  have hstays : ∀ before op, (run before).isRaised u = true →
      (run (before ++ [op])).isRaised u = true := fun _ _ => isRaised_stays
  rcases h with h | h | h
  · refine h.stays (Q := fun ops => (run ops).isRaised u = true) ?_ hstays
    rintro before _ ⟨rfl, hu⟩
    obtain ⟨f, hf⟩ := exists_flag hu
    exact isRaised_of_raises hf hf
  · refine h.stays (Q := fun ops => (run ops).isRaised u = true) ?_ hstays
    rintro before _ ⟨rfl, hu⟩
    obtain ⟨f, hf⟩ := exists_flag hu
    exact isRaised_of_raises hf hf
  · refine h.stays (Q := fun ops => (run ops).isRaised u = true) ?_ hstays
    rintro before _ ⟨v, w, rfl, hcopies, hdue, hstands⟩
    obtain ⟨f, hf⟩ := exists_flag hdue.known
    have hw := (standing_iff before w f).2 ⟨u, hdue, hf, hstands⟩
    exact isRaised_of_raises hf ⟨(copies_iff hf).1 hcopies, List.mem_of_getElem? hw⟩

theorem Copies.isRaised_eq (h : Copies ops t u) : (run ops).isRaised t = (run ops).isRaised u := by
  obtain ⟨f, hf⟩ := exists_flag h.known.1
  have hu := (copies_iff hf).1 h
  simp only [isRaised, hf, hu]

theorem isRaised_append_eq (ht : Known ops t)
    (h : ∀ f, (run ops).tokens[t]? = some f → ¬(run ops).Raises f op) :
    (run (ops ++ [op])).isRaised t = (run ops).isRaised t := by
  obtain ⟨f, hf⟩ := exists_flag ht
  have hflag : (run (ops ++ [op])).flagAt f = (run ops).flagAt f :=
    Bool.eq_iff_iff.2 (flagAt_append.trans (or_iff_left (h f hf)))
  simp only [isRaised, tokens_stay hf, hf, hflag]

/-- Copies of a token read alike. A token is raised only if it or a copy of it was raised, or was
given a watchdog that was due or had no timer; it is raised for certain if it or a copy was raised
or given a watchdog without a timer, or if a due watchdog on one of them was waited for; and once
raised it stays so. A watchdog that is not due changes no token, whether it is called off or left
alone, and no step changes tokens that are no copies of the one that it is about. -/
theorem requests_reach_copies (ops : List Operation) :
    (∀ t u, Copies ops t u → (run ops).isRaised t = (run ops).isRaised u) ∧
    (∀ t, (run ops).isRaised t = true → ∃ u, Copies ops t u ∧ HasReason ops u) ∧
    (∀ t u, Copies ops t u → HasCause ops u → (run ops).isRaised t = true) ∧
    (∀ t op, (run ops).isRaised t = true → (run (ops ++ [op])).isRaised t = true) ∧
    (∀ t w op, Known ops t → (∀ u, ¬ArmedDue ops w u) → op = .callOff w ∨ op = .act w →
      (run (ops ++ [op])).isRaised t = (run ops).isRaised t) ∧
    ∀ t op, Known ops t → (∀ u, ActsOn ops u op → ¬Copies ops t u) →
      (run (ops ++ [op])).isRaised t = (run ops).isRaised t := by
  refine ⟨fun t u h => h.isRaised_eq, fun t ht => ?_, fun t u h hcause => ?_,
    fun t op => isRaised_stays, ?notDue, ?frame⟩
  · obtain ⟨f, hf, hraised⟩ := isRaised_iff.1 ht
    obtain ⟨u, hu, hreason⟩ := hasReason_of_flagAt hraised
    exact ⟨u, (copies_iff hf).2 hu, hreason⟩
  · exact h.isRaised_eq.trans hcause.isRaised
  case notDue =>
    rintro t w op ht hw (rfl | rfl)
    · exact isRaised_append_eq ht fun f hf h => h
    · refine isRaised_append_eq ht fun f hf h => ?_
      obtain ⟨u, hdue, -⟩ := (standing_iff ops w f).1 h
      exact hw u hdue
  case frame =>
    intro t op ht hop
    refine isRaised_append_eq ht fun f hf h => ?_
    obtain ⟨u, hacts, hu⟩ := actsOn_of_raises h
    exact hop u hacts ((copies_iff hf).2 hu)

/-- Two tokens of one flag and one of another, each with a watchdog. The one that was due is waited
for through a copy of its token, and a copy is made after that. -/
theorem requests_reach_copies_awaited :
    let ops : List Operation := [.newToken, .copyToken 0, .newToken, .arm 1 5 8 9, .arm 2 5 100 9,
      .callOff 1, .wait 0, .copyToken 1]
    Copies ops 3 1 ∧ HasCause ops 1 ∧ (run ops).isRaised 3 = true ∧
      Known ops 2 ∧ (∀ u, ActsOn ops u (.raise 0) → ¬Copies ops 2 u) ∧
      (run (ops ++ [.raise 0])).isRaised 2 = (run ops).isRaised 2 := by
  intro ops
  have hcopies : Copies ops 3 1 := ⟨0, rfl, rfl⟩
  have hdue : ArmedDue (ops.take 6) 0 1 :=
    ⟨ops.take 3, .arm 1 5 8 9, [.arm 2 5 100 9, .callOff 1], rfl, 5, 8, 9, rfl, by decide,
      by unfold Known; decide, rfl⟩
  have hstands : ¬CalledOff (ops.take 6) 0 := by
    rintro ⟨before, _, after, hops, rfl, -⟩
    have hmem : Operation.callOff 0 ∈ ops.take 6 := hops ▸ by simp
    exact absurd hmem (by decide)
  have hcause : HasCause ops 1 :=
    .inr (.inr ⟨ops.take 6, .wait 0, [.copyToken 1], rfl, 0, 0, rfl, ⟨0, rfl, rfl⟩, hdue, hstands⟩)
  have hknown : Known ops 2 := by unfold Known; decide
  have hother : ∀ u, ActsOn ops u (.raise 0) → ¬Copies ops 2 u := by
    rintro u rfl ⟨o, htwo, hzero⟩
    have horigins : (handles ops).origins = [0, 0, 2, 0] := rfl
    simp only [horigins] at htwo hzero
    cases htwo
    cases hzero
  obtain ⟨-, -, hcertain, -, -, hframe⟩ := requests_reach_copies ops
  exact ⟨hcopies, hcause, hcertain 3 1 hcopies hcause, hknown, hother, hframe 2 _ hknown hother⟩

end

end GameSearch.Cancellation
