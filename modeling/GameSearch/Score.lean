/-!
# GameSearch.Score

What a minimax search finds: a value and the move that reaches it. Scores are compared by
value alone, and of two equal ones the first is kept.
-/

namespace GameSearch

structure Score (μ : Type) where
  value : Int32
  action : Option μ
  deriving DecidableEq, Repr

namespace Score

variable {μ : Type}

def leaf (value : Int32) : Score μ := ⟨value, none⟩

def withAction (value : Int32) (action : μ) : Score μ := ⟨value, some action⟩

def least : Score μ := leaf Int32.minValue

def greatest : Score μ := leaf Int32.maxValue

def tagged (s : Score μ) (action : μ) : Score μ := withAction s.value action

def betterOf (s candidate : Score μ) : Score μ :=
  if s.value < candidate.value then candidate else s

def worseOf (s candidate : Score μ) : Score μ :=
  if candidate.value < s.value then candidate else s

def cmp (s t : Score μ) : Ordering := compare s.value t.value

/-- Positions in ascending order of score. Equal scores keep their order. -/
def ascending (scores : List (Score μ)) : List Nat :=
  (scores.zipIdx.mergeSort fun a b => (a.1.cmp b.1).isLE).map Prod.snd

end Score

end GameSearch
