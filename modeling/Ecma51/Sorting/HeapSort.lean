/-!
# Heap sort

Sorting by any comparison, which may itself have effects and need not be consistent. Elements are only
ever exchanged, so the result is a rearrangement of the input whatever the comparison answers.

* `siftDown`: one element sinks below the larger of its children.
* `heapSort`: the whole sort.
-/

namespace Ecma51

variable {m : Type → Type} [Monad m] {α : Type} {n : Nat}

/-- The child of a node that sinks less: the right one if the left is less than it. -/
def largerChild (compare : α → α → m Ordering) (v : Vector α n) (root stop : Nat) (h : stop ≤ n)
    (hl : 2 * root + 1 < stop) : m { c : Nat // root < c ∧ c < stop } :=
  let left : { c : Nat // root < c ∧ c < stop } := ⟨2 * root + 1, by omega, hl⟩
  if hr : 2 * root + 2 < stop then do
    let o ← compare v[2 * root + 1] v[2 * root + 2]
    return if o == .lt then ⟨2 * root + 2, by omega, hr⟩ else left
  else return left

/-- Exchanges the element at `root` with its larger child until neither child below `stop` is
larger. -/
def siftDown (compare : α → α → m Ordering) (v : Vector α n) (root stop : Nat) (h : stop ≤ n) :
    m (Vector α n) :=
  if hl : 2 * root + 1 < stop then do
    let ⟨child, hc⟩ ← largerChild compare v root stop h hl
    let o ← compare v[root] v[child]
    if o == .lt then siftDown compare (v.swap root child) child stop h else return v
  else return v
termination_by stop - root
decreasing_by omega

/-- Makes heaps of the subtrees below `count`, the last first. -/
def heapify (compare : α → α → m Ordering) (v : Vector α n) : (count : Nat) → m (Vector α n)
  | 0 => return v
  | count + 1 => do
    let v ← siftDown compare v count n (Nat.le_refl n)
    heapify compare v count

/-- Moves the largest element behind the heap of the first `stop + 1`, and so on downwards. -/
def extractAll (compare : α → α → m Ordering) (v : Vector α n) :
    (stop : Nat) → stop < n → m (Vector α n)
  | 0, _ => return v
  | stop + 1, h => do
    let v ← siftDown compare (v.swap 0 (stop + 1)) 0 (stop + 1) (by omega)
    extractAll compare v stop (by omega)

/-- The elements in ascending order. -/
def heapSort (compare : α → α → m Ordering) (v : Vector α n) : m (Vector α n) := do
  let v ← heapify compare v (n / 2)
  if h : 0 < n then extractAll compare v (n - 1) (by omega) else return v

end Ecma51
