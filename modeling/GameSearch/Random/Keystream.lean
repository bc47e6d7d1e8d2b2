import GameSearch.Random.Source

/-!
# GameSearch.Random.Keystream

The ChaCha stream with twenty rounds as a source of randomness. The key comes from a 64-bit
seed by eight steps of a linear congruential generator with permuted output; the stream
number is zero and the words of the blocks 0, 1, 2, … follow each other.

A number below `n` is the high half of the product of `n` with a random word. A word whose
product has a low half above the largest multiple of `n` is drawn again, so that all numbers
are equally likely.
-/

namespace GameSearch

namespace ChaCha

abbrev Block := Vector UInt32 16

def rotateLeft (w : UInt32) (n : UInt32) : UInt32 := (w <<< n) ||| (w >>> (32 - n))

def rotateRight (w : UInt32) (n : UInt32) : UInt32 := (w >>> n) ||| (w <<< ((32 - n) % 32))

def quarterRound (s : Block) (a b c d : Fin 16) : Block :=
  let a₁ := s[a] + s[b]
  let d₁ := rotateLeft (s[d] ^^^ a₁) 16
  let c₁ := s[c] + d₁
  let b₁ := rotateLeft (s[b] ^^^ c₁) 12
  let a₂ := a₁ + b₁
  let d₂ := rotateLeft (d₁ ^^^ a₂) 8
  let c₂ := c₁ + d₂
  let b₂ := rotateLeft (b₁ ^^^ c₂) 7
  (((s.set a a₂).set b b₂).set c c₂).set d d₂

def doubleRound (s : Block) : Block :=
  let s := quarterRound s 0 4 8 12
  let s := quarterRound s 1 5 9 13
  let s := quarterRound s 2 6 10 14
  let s := quarterRound s 3 7 11 15
  let s := quarterRound s 0 5 10 15
  let s := quarterRound s 1 6 11 12
  let s := quarterRound s 2 7 8 13
  quarterRound s 3 4 9 14

def rounds : Nat → Block → Block
  | 0, s => s
  | n + 1, s => rounds n (doubleRound s)

/-- The constants, the key, the block counter and the stream number zero. -/
def start (key : Vector UInt32 8) (counter : UInt64) : Block :=
  #v[0x61707865, 0x3320646e, 0x79622d32, 0x6b206574,
    key[0], key[1], key[2], key[3], key[4], key[5], key[6], key[7],
    counter.toUInt32, (counter >>> 32).toUInt32, 0, 0]

def block (key : Vector UInt32 8) (counter : UInt64) : Block :=
  let s := start key counter
  (rounds 10 s).zipWith (· + ·) s

end ChaCha

/-- A key, the number of words taken so far, and the block that holds the next word. -/
structure Keystream where
  key : Vector UInt32 8
  position : Nat
  block : ChaCha.Block

namespace Keystream

def ofKey (key : Vector UInt32 8) : Keystream :=
  ⟨key, 0, ChaCha.block key 0⟩

def seedStep (s : UInt64) : UInt64 := s * 6364136223846793005 + 11634580027462260723

def seedWord (s : UInt64) : UInt32 :=
  ChaCha.rotateRight (((s >>> 18) ^^^ s) >>> 27).toUInt32 (s >>> 59).toUInt32

def seedWords : Nat → UInt64 → List UInt32
  | 0, _ => []
  | n + 1, s => seedWord (seedStep s) :: seedWords n (seedStep s)

theorem length_seedWords (n : Nat) (s : UInt64) : (seedWords n s).length = n := by
  induction n generalizing s with
  | zero => rfl
  | succ n ih => simp [seedWords, ih]

def seeded (seed : UInt64) : Keystream :=
  ofKey ⟨(seedWords 8 seed).toArray, by simp [length_seedWords]⟩

def word32 (g : Keystream) : UInt32 × Keystream :=
  let i := g.position % 16
  let w := g.block.get ⟨i, Nat.mod_lt _ (by decide)⟩
  let next := g.position + 1
  if i = 15 then (w, ⟨g.key, next, ChaCha.block g.key (next / 16).toUInt64⟩)
  else (w, ⟨g.key, next, g.block⟩)

def word64 (g : Keystream) : UInt64 × Keystream :=
  let (low, g) := g.word32
  let (high, g) := g.word32
  ((high.toUInt64 <<< 32) ||| low.toUInt64, g)

/-- Words are redrawn at most this often; each is refused with a chance below one half. -/
def redraws : Nat := 1000

def belowWithin (n : Nat) : Nat → Keystream → Nat × Keystream
  | 0, g => (0, g)
  | k + 1, g =>
    let (w, g) := g.word32
    let product := w.toNat * n
    if product % UInt32.size ≤ (n <<< (31 - n.log2)) - 1 then (product / UInt32.size, g)
    else belowWithin n k g

def below (n : Nat) (g : Keystream) : Nat × Keystream :=
  belowWithin (n % UInt32.size) redraws g

theorem belowWithin_lt {m n : Nat} (k : Nat) (g : Keystream) (hm : m ≤ n) (hn : 0 < n) :
    (belowWithin m k g).1 < n := by
  induction k generalizing g with
  | zero => simpa [belowWithin] using hn
  | succ k ih =>
    simp only [belowWithin]
    split
    · rcases Nat.eq_zero_or_pos m with rfl | hpos
      · simpa using hn
      · have hw : g.word32.1.toNat < UInt32.size := g.word32.1.toNat_lt
        have : g.word32.1.toNat * m / UInt32.size < m := by
          apply Nat.div_lt_of_lt_mul
          exact Nat.mul_lt_mul_of_pos_right hw hpos
        omega
    · exact ih _

theorem below_lt (n : Nat) (g : Keystream) (h : 0 < n) : (below n g).1 < n :=
  belowWithin_lt redraws g (Nat.mod_le _ _) h

instance : RandomSource Keystream := ⟨seeded, word64, below, below_lt⟩

end Keystream

end GameSearch
