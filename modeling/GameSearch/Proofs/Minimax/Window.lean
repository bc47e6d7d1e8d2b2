import GameSearch.Minimax.AlphaBeta

/-!
# GameSearch.Proofs.Minimax.Window

What a score found inside a window says about the exact score. `Window.Settles` lists the three
cases: the two are the same, or the found score is at or below `alpha` and bounds the exact one
from above, or it is at or above `beta` and bounds it from below. The least and the greatest
value have no room for a bound, so at the full window the two are the same (`settles_full`).

`Rising` and `Falling` relate the best of the moves so far, and the worst of the replies, to
their exact counterparts while a list is gone through. One more score keeps them, or else it
ends the list with a score that no later one can unsettle.
-/

namespace GameSearch.Minimax.AlphaBeta

variable {μ : Type}

theorem max_eq (x y : Int32) : max x y = if x ≤ y then y else x := rfl

theorem min_eq (x y : Int32) : min x y = if x ≤ y then x else y := rfl

/-- A score found in a window settles the exact one as far as the window goes. -/
inductive Window.Settles (v : Window) (found exact : Score μ) : Prop where
  | same : found = exact → Window.Settles v found exact
  | low : exact.value ≤ found.value → Int32.minValue < found.value → found.value ≤ v.alpha →
      Window.Settles v found exact
  | high : found.value ≤ exact.value → found.value < Int32.maxValue → v.beta ≤ found.value →
      Window.Settles v found exact

theorem Window.Settles.tagged {v : Window} {found exact : Score μ} (h : v.Settles found exact)
    (action : μ) : v.Settles (found.tagged action) (exact.tagged action) := by
  cases h with
  | same h => exact .same (by rw [h])
  | low h₁ h₂ h₃ => exact .low h₁ h₂ h₃
  | high h₁ h₂ h₃ => exact .high h₁ h₂ h₃

theorem settles_full {limit : Option Int} {found exact : Score μ}
    (h : (Window.full limit).Settles found exact) : found = exact := by
  cases h with
  | same h => exact h
  | low _ h₁ h₂ => exact absurd h₁ (Int32.not_lt.2 h₂)
  | high _ h₁ h₂ => exact absurd h₁ (Int32.not_lt.2 h₂)

/-- The best of the moves so far in the window `v₀` of a position, and the window that is left
for the next one. -/
inductive Rising (v₀ : Window) : Option (Score μ) → Option (Score μ) → Window → Prop where
  | start : v₀.alpha < v₀.beta → Rising v₀ none none v₀
  | going {found exact : Score μ} :
      found = exact ∨
        exact.value ≤ found.value ∧ Int32.minValue < found.value ∧ found.value ≤ v₀.alpha →
      max v₀.alpha found.value < v₀.beta →
      Rising v₀ (some found) (some exact) { v₀ with alpha := max v₀.alpha found.value }

inductive Falling (v₀ : Window) : Option (Score μ) → Option (Score μ) → Window → Prop where
  | start : v₀.alpha < v₀.beta → Falling v₀ none none v₀
  | going {found exact : Score μ} :
      found = exact ∨
        found.value ≤ exact.value ∧ found.value < Int32.maxValue ∧ v₀.beta ≤ found.value →
      v₀.alpha < min v₀.beta found.value →
      Falling v₀ (some found) (some exact) { v₀ with beta := min v₀.beta found.value }

/-! ## One more score -/

section

variable {v₀ v : Window} {found exact : Option (Score μ)} {score score' : Score μ}

theorem Rising.isOpen (h : Rising v₀ found exact v) : v.alpha < v.beta := by
  cases h with
  | start h => exact h
  | going _ h => exact h

theorem Rising.beta_eq (h : Rising v₀ found exact v) : v.beta = v₀.beta := by
  cases h <;> rfl

theorem Falling.isOpen (h : Falling v₀ found exact v) : v.alpha < v.beta := by
  cases h with
  | start h => exact h
  | going _ h => exact h

theorem Falling.alpha_eq (h : Falling v₀ found exact v) : v.alpha = v₀.alpha := by
  cases h <;> rfl

theorem Rising.keep (h : Rising v₀ found exact v) (hs : v.Settles score score')
    (hopen : ¬v.beta ≤ max v.alpha (keepBetter found score).value) :
    Rising v₀ (some (keepBetter found score)) (some (keepBetter exact score'))
      { v with alpha := max v.alpha (keepBetter found score).value } := by
  cases h with
  | start _ =>
    refine .going ?_ (Int32.not_le.1 hopen)
    cases hs with
    | same h => exact .inl h
    | low h₁ h₂ h₃ => exact .inr ⟨h₁, h₂, h₃⟩
    | high _ _ h => grind [keepBetter, max_eq]
  | @going best best' hb hlt =>
    have hmax : max (max v₀.alpha best.value) (best.betterOf score).value =
        max v₀.alpha (best.betterOf score).value := by
      grind [Score.betterOf, max_eq]
    simp only [keepBetter, hmax] at hopen ⊢
    refine .going ?_ (Int32.not_le.1 hopen)
    cases hs with
    | same h => grind [Score.betterOf, max_eq]
    | low h₁ h₂ h₃ => grind [Score.betterOf, max_eq]
    | high _ _ h => grind [Score.betterOf, max_eq]

/-- A move that closes the window settles the best of all moves: whatever comes after it is
only taken where it is better. -/
theorem Rising.cut (h : Rising v₀ found exact v) (hs : v.Settles score score')
    (hcut : v.beta ≤ max v.alpha (keepBetter found score).value) {last : Score μ}
    (hlast : last = keepBetter exact score' ∨ (keepBetter exact score').value < last.value) :
    v₀.Settles (keepBetter found score) last := by
  have hopen := h.isOpen
  -- the best so far was below `beta`, so it is the new score that reaches it
  have hnew : keepBetter found score = score ∧ keepBetter exact score' = score' ∧
      v₀.beta ≤ score.value := by
    cases h with
    | start _ => exact ⟨rfl, rfl, by grind [keepBetter, max_eq]⟩
    | going hb hlt =>
      cases hs with
      | same h => grind [keepBetter, Score.betterOf, max_eq]
      | low h₁ h₂ h₃ => grind [keepBetter, Score.betterOf, max_eq]
      | high h₁ h₂ h₃ => grind [keepBetter, Score.betterOf, max_eq]
  obtain ⟨hfound, hexact, hbeta⟩ := hnew
  rw [hexact] at hlast
  rw [hfound]
  cases hs with
  | same heq =>
    subst heq
    rcases hlast with rfl | hlast
    · exact .same rfl
    · exact .high (Int32.le_of_lt hlast) (Int32.lt_of_lt_of_le hlast (Int32.le_maxValue _)) hbeta
  | low _ _ h₃ =>
    -- the window was open below `beta`, so no bound from above reaches it
    rw [h.beta_eq] at hopen
    exact absurd (Int32.le_trans hbeta h₃) (Int32.not_le.2 hopen)
  | high h₁ h₂ _ =>
    have hle : score'.value ≤ last.value := by
      rcases hlast with rfl | hlast
      · exact Int32.le_refl _
      · exact Int32.le_of_lt hlast
    exact .high (Int32.le_trans h₁ hle) h₂ hbeta

theorem Rising.last (h : Rising v₀ found exact v) : Option.Rel v₀.Settles found exact := by
  cases h with
  | start _ => exact .none
  | going hb _ =>
    rcases hb with h | ⟨h₁, h₂, h₃⟩
    · exact .some (.same h)
    · exact .some (.low h₁ h₂ h₃)

theorem Falling.keep (h : Falling v₀ found exact v) (hs : v.Settles score score')
    (hopen : ¬min v.beta (keepWorse found score).value ≤ v.alpha) :
    Falling v₀ (some (keepWorse found score)) (some (keepWorse exact score'))
      { v with beta := min v.beta (keepWorse found score).value } := by
  cases h with
  | start _ =>
    refine .going ?_ (Int32.not_le.1 hopen)
    cases hs with
    | same h => exact .inl h
    | low _ _ h => grind [keepWorse, min_eq]
    | high h₁ h₂ h₃ => exact .inr ⟨h₁, h₂, h₃⟩
  | @going worst worst' hb hlt =>
    have hmin : min (min v₀.beta worst.value) (worst.worseOf score).value =
        min v₀.beta (worst.worseOf score).value := by
      grind [Score.worseOf, min_eq]
    simp only [keepWorse, hmin] at hopen ⊢
    refine .going ?_ (Int32.not_le.1 hopen)
    cases hs with
    | same h => grind [Score.worseOf, min_eq]
    | low _ _ h => grind [Score.worseOf, min_eq]
    | high h₁ h₂ h₃ => grind [Score.worseOf, min_eq]

theorem Falling.cut (h : Falling v₀ found exact v) (hs : v.Settles score score')
    (hcut : min v.beta (keepWorse found score).value ≤ v.alpha) {last : Score μ}
    (hlast : last = keepWorse exact score' ∨ last.value < (keepWorse exact score').value) :
    v₀.Settles (keepWorse found score) last := by
  have hopen := h.isOpen
  have hnew : keepWorse found score = score ∧ keepWorse exact score' = score' ∧
      score.value ≤ v₀.alpha := by
    cases h with
    | start _ => exact ⟨rfl, rfl, by grind [keepWorse, min_eq]⟩
    | going hb hlt =>
      cases hs with
      | same h => grind [keepWorse, Score.worseOf, min_eq]
      | low h₁ h₂ h₃ => grind [keepWorse, Score.worseOf, min_eq]
      | high h₁ h₂ h₃ => grind [keepWorse, Score.worseOf, min_eq]
  obtain ⟨hfound, hexact, halpha⟩ := hnew
  rw [hexact] at hlast
  rw [hfound]
  cases hs with
  | same heq =>
    subst heq
    rcases hlast with rfl | hlast
    · exact .same rfl
    · exact .low (Int32.le_of_lt hlast) (Int32.lt_of_le_of_lt (Int32.minValue_le _) hlast) halpha
  | low h₁ h₂ _ =>
    have hle : last.value ≤ score'.value := by
      rcases hlast with rfl | hlast
      · exact Int32.le_refl _
      · exact Int32.le_of_lt hlast
    exact .low (Int32.le_trans hle h₁) h₂ halpha
  | high _ _ h₃ =>
    rw [h.alpha_eq] at hopen
    exact absurd (Int32.le_trans h₃ halpha) (Int32.not_le.2 hopen)

theorem Falling.last (h : Falling v₀ found exact v) : Option.Rel v₀.Settles found exact := by
  cases h with
  | start _ => exact .none
  | going hb _ =>
    rcases hb with h | ⟨h₁, h₂, h₃⟩
    · exact .some (.same h)
    · exact .some (.high h₁ h₂ h₃)

end

end GameSearch.Minimax.AlphaBeta
