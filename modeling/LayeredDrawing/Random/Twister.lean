/-!
# The Mersenne twister

A generator of 32-bit words with a state of 624 words.

* `Twister.ofSeed n`   the generator seeded with the 32-bit digits of `|n|`, the lowest first;
* `Twister.next`       the next word, and the generator after it;
* `Twister.below n`    a number below `n`: as many leading bits of a word as `n` has are drawn
                       until they are below `n`.
-/

namespace LayeredDrawing

structure Twister where
  state : Array UInt32
  /-- how many words of the state have been given out -/
  used : Nat

namespace Twister

def size : Nat := 624

def word (a : Array UInt32) (i : Nat) : UInt32 := a.getD i 0

/-! ## seeding -/

/-- fills the state from one word -/
def fill (seed : UInt32) : Array UInt32 :=
  (List.range (size - 1)).foldl (fun (a : Array UInt32) i =>
    let prev := word a i
    a.push ((prev ^^^ (prev >>> 30)) * 1812433253 + UInt32.ofNat (i + 1))) #[seed]

/-- one step of mixing at position `i`, after which position 0 repeats the last word if the end was
reached -/
def mix (a : Array UInt32) (i : Nat) (f : UInt32 → UInt32 → UInt32) : Array UInt32 × Nat :=
  let prev := word a (i - 1)
  let a := a.setIfInBounds i (f (word a i) (prev ^^^ (prev >>> 30)))
  if i + 1 < size then (a, i + 1) else (a.setIfInBounds 0 (word a (size - 1)), 1)

/-- the state seeded with a list of words -/
def ofKey (key : Array UInt32) : Twister :=
  let first := (List.range (max size key.size)).foldl (fun (s : Array UInt32 × Nat) n =>
    let j := n % key.size
    mix s.1 s.2 fun x y => (x ^^^ (y * 1664525)) + word key j + UInt32.ofNat j)
    (fill 19650218, 1)
  let second := (List.range (size - 1)).foldl (fun (s : Array UInt32 × Nat) _ =>
    mix s.1 s.2 fun x y => (x ^^^ (y * 1566083941)) - UInt32.ofNat s.2) first
  ⟨second.1.setIfInBounds 0 0x80000000, size⟩

/-- the 32-bit digits of a number, the lowest first, at least one -/
def digits (n : Nat) : List UInt32 :=
  if n < UInt32.size then [UInt32.ofNat n]
  else UInt32.ofNat (n % UInt32.size) :: digits (n / UInt32.size)
termination_by n
decreasing_by
  have hsize : ¬ n < UInt32.size := by assumption
  have hpos : 0 < n := Nat.lt_of_lt_of_le (by decide) (Nat.le_of_not_lt hsize)
  exact Nat.div_lt_self hpos (by decide)

def ofSeed (n : Int) : Twister := ofKey (digits n.natAbs).toArray

/-! ## drawing -/

/-- the word that replaces word `i` when the state is renewed -/
def renewed (a : Array UInt32) (i : Nat) : UInt32 :=
  let y := (word a i &&& 0x80000000) ||| (word a ((i + 1) % size) &&& 0x7fffffff)
  let twist : UInt32 := if y &&& 1 = 0 then 0 else 0x9908b0df
  word a ((i + 397) % size) ^^^ (y >>> 1) ^^^ twist

def renew (a : Array UInt32) : Array UInt32 :=
  (List.range size).foldl (fun a i => a.setIfInBounds i (renewed a i)) a

def temper (y : UInt32) : UInt32 :=
  let y := y ^^^ (y >>> 11)
  let y := y ^^^ ((y <<< 7) &&& 0x9d2c5680)
  let y := y ^^^ ((y <<< 15) &&& 0xefc60000)
  y ^^^ (y >>> 18)

def next (t : Twister) : UInt32 × Twister :=
  let t := if t.used < size then t else ⟨renew t.state, 0⟩
  (temper (word t.state t.used), ⟨t.state, t.used + 1⟩)

/-- draws until the leading bits of a word are below `n`, but at most `tries` times -/
def draw (n bits : Nat) : (tries : Nat) → Twister → Nat × Twister
  | 0, t => (0, t)
  | tries + 1, t =>
    let (y, t) := t.next
    let r := y.toNat >>> (32 - bits)
    if r < n then (r, t) else draw n bits tries t

/-- a number below `n`, for `0 < n < 2 ^ 32`.  Each try succeeds at least half of the time, so the
bound on their number is never met in practice. -/
def below (n : Nat) (t : Twister) : Nat × Twister := draw n (n.log2 + 1) 100000 t

theorem draw_lt {n : Nat} (bits : Nat) (h : 0 < n) (tries : Nat) (t : Twister) :
    (draw n bits tries t).1 < n := by
  induction tries generalizing t with
  | zero => exact h
  | succ tries ih =>
    unfold draw
    dsimp only
    split
    · assumption
    · exact ih _

theorem below_lt {n : Nat} (h : 0 < n) (t : Twister) : (below n t).1 < n := draw_lt _ h _ t

end Twister

end LayeredDrawing
