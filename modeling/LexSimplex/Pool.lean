/-!
# Pools

A **pool** hands out slots by number. A released slot is given out again before a new one is
made, the least number first, so the numbers that a sequence of requests receives depend on that
sequence alone.

Slots are never destroyed. The capacity is the number of slots that room was made for; it grows
by doubling, and by at least eight, when a slot is needed and every one is in use.

## Main definitions

* `Pool`: the slots, live ones holding a value.
* `Pool.occupy`, `Pool.acquire`, `Pool.release`, `Pool.reset`: the ways to change which slots are
  live.

## Main results

* `Pool.isLive_nextFree`, `Pool.isLive_of_lt_nextFree`: `nextFree` is the least slot not live.
* `Pool.nextFree_eq`: it is the one after the live ones where these come first.
* `Pool.get?_occupy`, `Pool.get?_release`, `Pool.get?_reset`, `Pool.get?_modify`: what a slot
  holds after an operation.
-/

namespace LexSimplex

/-- The slots by number, `none` for those that are not live, with the capacity and how often it
has grown. -/
structure Pool (β : Type) where
  slots : List (Option β) := []
  capacity : Nat
  growths : Nat := 0

namespace Pool

variable {β : Type}

/-- A pool with room for `capacity` slots and none made. -/
def empty (capacity : Nat) : Pool β :=
  { capacity }

/-- The value in a live slot. -/
def get? (p : Pool β) (i : Nat) : Option β :=
  p.slots[i]?.join

/-- Whether a slot is live. -/
def isLive (p : Pool β) (i : Nat) : Bool :=
  (p.get? i).isSome

/-- The values of the live slots, by slot number. -/
def toList (p : Pool β) : List β :=
  p.slots.filterMap id

/-- The number of live slots. -/
def liveCount (p : Pool β) : Nat :=
  p.slots.countP Option.isSome

/-- The number of slots ever made, which is the greatest number that were live at once: a slot
is made only when all others are live. -/
def highWater (p : Pool β) : Nat :=
  p.slots.length

/-- The least slot that is not live; past the last slot if all of them are. -/
def nextFree (p : Pool β) : Nat :=
  p.slots.findIdx Option.isNone

/-- The pool with room for one more slot. -/
def reserve (p : Pool β) : Pool β :=
  if p.slots.length = p.capacity then
    { p with capacity := p.capacity + max p.capacity 8, growths := p.growths + 1 }
  else p

/-- The pool in which the least free slot holds `b`. A slot is made if there is none. -/
def occupy (p : Pool β) (b : β) : Pool β :=
  if p.nextFree < p.slots.length then { p with slots := p.slots.set p.nextFree (some b) }
  else { p.reserve with slots := p.slots ++ [some b] }

/-- The least free slot, and the pool in which it holds `b`. -/
def acquire (p : Pool β) (b : β) : Nat × Pool β :=
  (p.nextFree, p.occupy b)

/-- The pool in which a slot is not live. Releasing a slot that is not live does nothing. -/
def release (p : Pool β) (i : Nat) : Pool β :=
  { p with slots := p.slots.set i none }

/-- The pool with every slot released. -/
def reset (p : Pool β) : Pool β :=
  { p with slots := p.slots.map fun _ => none }

/-- The value in a live slot changed by `f`. -/
def modify (p : Pool β) (i : Nat) (f : β → β) : Pool β :=
  { p with slots := p.slots.modify i (Option.map f) }

/-- Every live value changed by `f`. -/
def map (p : Pool β) (f : β → β) : Pool β :=
  { p with slots := p.slots.map (Option.map f) }

/-! ### What the slots hold -/

/-- There is nothing beyond the last slot. -/
theorem get?_of_length_le {p : Pool β} {i : Nat} (h : p.slots.length ≤ i) : p.get? i = none := by
  simp [get?, h]

/-- The next free slot is one of the slots or the one after them. -/
theorem nextFree_le_length (p : Pool β) : p.nextFree ≤ p.slots.length :=
  List.findIdx_le_length

/-- The next free slot is not live. -/
theorem isLive_nextFree (p : Pool β) : p.isLive p.nextFree = false := by
  by_cases h : p.nextFree < p.slots.length
  · have hnone : (p.slots[p.nextFree]).isNone := List.findIdx_getElem (w := h)
    simp only [isLive, get?, List.getElem?_eq_getElem h]
    cases hs : p.slots[p.nextFree] with
    | none => rfl
    | some b => simp [hs] at hnone
  · simp [isLive, get?_of_length_le (Nat.le_of_not_lt h)]

/-- The slots before the next free one are live. -/
theorem isLive_of_lt_nextFree {p : Pool β} {i : Nat} (h : i < p.nextFree) : p.isLive i := by
  have hi : i < p.slots.length := Nat.lt_of_lt_of_le h p.nextFree_le_length
  have hsome : (p.slots[i]).isSome := by
    simpa using List.not_of_lt_findIdx h
  simpa [isLive, get?, hi] using hsome

/-- Where the first `n` slots are live and no others, the next free one is the one after them. -/
theorem nextFree_eq {p : Pool β} {n : Nat} (h : ∀ i, p.isLive i ↔ i < n) : p.nextFree = n := by
  refine Nat.le_antisymm (Nat.le_of_not_lt fun hlt => ?_) (Nat.le_of_not_lt fun hlt => ?_)
  · exact Nat.lt_irrefl n ((h n).mp (isLive_of_lt_nextFree hlt))
  · have hlive := (h p.nextFree).mpr hlt
    rw [isLive_nextFree] at hlive
    exact absurd hlive (by simp)

/-- An occupied slot holds its value, and the others what they held. -/
theorem get?_occupy (p : Pool β) (b : β) (i : Nat) :
    (p.occupy b).get? i = if i = p.nextFree then some b else p.get? i := by
  by_cases h : p.nextFree < p.slots.length
  · by_cases hi : i = p.nextFree
    · simp [occupy, get?, h, hi]
    · simp [occupy, get?, h, hi, List.getElem?_set_ne (Ne.symm hi)]
  · have hlen : p.nextFree = p.slots.length :=
      Nat.le_antisymm p.nextFree_le_length (Nat.le_of_not_lt h)
    simp only [occupy, get?, hlen, Nat.lt_irrefl, if_false]
    by_cases hi : i = p.slots.length
    · simp [hi]
    · by_cases hlt : i < p.slots.length
      · simp [hi, List.getElem?_append_left hlt]
      · have hgt : p.slots.length + 1 ≤ i :=
          Nat.lt_of_le_of_ne (Nat.le_of_not_lt hlt) (Ne.symm hi)
        have hend : (p.slots ++ [some b]).length ≤ i := by
          rw [List.length_append]
          exact hgt
        rw [List.getElem?_eq_none hend, List.getElem?_eq_none (Nat.le_of_lt hgt), if_neg hi]

/-- A released slot is not live, and the others hold what they held. -/
theorem get?_release (p : Pool β) (i j : Nat) :
    (p.release i).get? j = if j = i then none else p.get? j := by
  by_cases h : j = i
  · subst h
    by_cases hj : j < p.slots.length
    · simp [get?, release, hj]
    · simp [get?, release, Nat.le_of_not_lt hj]
  · simp [get?, release, h, List.getElem?_set_ne (Ne.symm h)]

/-- After a reset no slot is live. -/
theorem get?_reset (p : Pool β) (i : Nat) : p.reset.get? i = none := by
  simp only [get?, reset, List.getElem?_map]
  cases p.slots[i]? <;> rfl

/-- A change applies to one slot, if it is live. -/
theorem get?_modify (p : Pool β) (i : Nat) (f : β → β) (j : Nat) :
    (p.modify i f).get? j = if j = i then (p.get? j).map f else p.get? j := by
  by_cases h : j = i
  · subst h
    simp only [get?, modify, List.getElem?_modify_eq, if_true]
    cases hj : p.slots[j]? with
    | none => rfl
    | some x => cases x <;> rfl
  · simp [get?, modify, h, Ne.symm h]

/-- A change of every value applies to each live slot. -/
theorem get?_map (p : Pool β) (f : β → β) (i : Nat) : (p.map f).get? i = (p.get? i).map f := by
  simp only [get?, map, List.getElem?_map]
  cases p.slots[i]? with
  | none => rfl
  | some x => cases x <;> rfl

end Pool

end LexSimplex
