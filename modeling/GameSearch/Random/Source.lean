/-!
# GameSearch.Random.Source

What a search needs from a source of randomness: to be started from a seed, to give a 64-bit
word, and to give a number below a bound. `choose` picks an element of a list with it and
`choose_mem` says that nothing else comes out.
-/

namespace GameSearch

class RandomSource (γ : Type) where
  seeded : UInt64 → γ
  word64 : γ → UInt64 × γ
  below : Nat → γ → Nat × γ
  below_lt : ∀ (n : Nat) (g : γ), 0 < n → (below n g).1 < n

namespace RandomSource

variable {γ β : Type} [RandomSource γ]

/-- A uniform choice. Nothing is drawn for an empty list. -/
def choose (xs : List β) (g : γ) : Option β × γ :=
  match xs with
  | [] => (none, g)
  | x :: rest =>
    let (i, g) := below (rest.length + 1) g
    ((x :: rest)[i]?, g)

theorem choose_isSome {xs : List β} (g : γ) (h : xs ≠ []) : (choose xs g).1.isSome := by
  cases xs with
  | nil => exact absurd rfl h
  | cons x rest =>
    simpa [choose] using below_lt (rest.length + 1) g (Nat.succ_pos _)

theorem choose_mem {xs : List β} {g g' : γ} {x : β} (h : choose xs g = (some x, g')) :
    x ∈ xs := by
  cases xs with
  | nil => simp [choose] at h
  | cons y rest =>
    simp only [choose, Prod.mk.injEq] at h
    exact List.mem_of_getElem? h.1

end RandomSource

end GameSearch
