import LexSimplex.Proofs.Variables

/-!
# Pools that hold the same

Two pools are **alike** if the same slots are live in them and hold the same values. They may
have made different numbers of slots, have room for different numbers, and have grown at different
times: a request is served from the least free slot, and which one that is depends on the live
slots alone.

## Main definitions

* `Pool.Alike`, `VariablePool.Alike`: the same slots hold the same values.

## Main results

* `Pool.Alike.nextFree_eq`, `Pool.Alike.liveCount_eq`: the next slot and the number of live slots.
* `VariablePool.Alike.acquire`: a new variable gets the same handle and name.
-/

namespace LexSimplex

namespace Pool

variable {β : Type} {p q : Pool β}

/-- Pools are **alike** if each slot holds the same in both. -/
def Alike (p q : Pool β) : Prop :=
  ∀ i, p.get? i = q.get? i

/-- Followed by slots that were not made yet, the slots of a pool are what its numbers hold. -/
theorem slots_append_eq_map (p : Pool β) {n : Nat} (h : p.slots.length ≤ n) :
    p.slots ++ List.replicate (n - p.slots.length) none = (List.range n).map p.get? := by
  refine List.ext_getElem? fun i => ?_
  rw [List.getElem?_map]
  by_cases hi : i < p.slots.length
  · rw [List.getElem?_append_left hi, List.getElem?_range (Nat.lt_of_lt_of_le hi h)]
    simp [get?, hi]
  · have hle : p.slots.length ≤ i := Nat.le_of_not_lt hi
    rw [List.getElem?_append_right hle]
    by_cases hn : i < n
    · have hpad : i - p.slots.length < n - p.slots.length := by omega
      rw [List.getElem?_range hn, List.getElem?_replicate_of_lt hpad]
      simp [get?_of_length_le hle]
    · rw [List.getElem?_eq_none (by simp; omega), List.getElem?_eq_none (by simp; omega)]
      rfl

namespace Alike

/-- Being alike goes both ways. -/
theorem symm (h : p.Alike q) : q.Alike p :=
  fun i => (h i).symm

/-- Alike pools have the same live slots. -/
theorem isLive_eq (h : p.Alike q) (i : Nat) : p.isLive i = q.isLive i :=
  congrArg Option.isSome (h i)

/-- Alike pools serve a request from the same slot. A lower free slot in one would be live in the
other. -/
theorem nextFree_eq (h : p.Alike q) : p.nextFree = q.nextFree := by
  have hle : ∀ {p q : Pool β}, p.Alike q → q.nextFree ≤ p.nextFree := by
    intro p q h
    by_contra hlt
    have hlive := isLive_of_lt_nextFree (Nat.lt_of_not_le hlt)
    rw [← h.isLive_eq, isLive_nextFree] at hlive
    exact absurd hlive (by simp)
  exact Nat.le_antisymm (hle h.symm) (hle h)

/-- Slots that were not made yet are not live, so they may be counted as well. -/
theorem liveCount_eq (h : p.Alike q) : p.liveCount = q.liveCount := by
  have hpad : ∀ (p : Pool β) {n : Nat}, p.slots.length ≤ n →
      p.liveCount = ((List.range n).map p.get?).countP Option.isSome := by
    intro p n hn
    rw [← p.slots_append_eq_map hn, List.countP_append, List.countP_replicate]
    rfl
  rw [hpad p (Nat.le_max_left _ q.slots.length), hpad q (Nat.le_max_right p.slots.length _),
    funext h]

/-- Alike pools stay alike where the same entry is added. -/
theorem occupy (h : p.Alike q) (b : β) : (p.occupy b).Alike (q.occupy b) := by
  intro i
  rw [get?_occupy, get?_occupy, h.nextFree_eq, h i]

/-- Alike pools stay alike where the same slot is freed. -/
theorem release (h : p.Alike q) (i : Nat) : (p.release i).Alike (q.release i) := by
  intro j
  rw [get?_release, get?_release, h j]

/-- Alike pools stay alike where the same entry is changed. -/
theorem modify (h : p.Alike q) (i : Nat) (f : β → β) : (p.modify i f).Alike (q.modify i f) := by
  intro j
  rw [get?_modify, get?_modify, h j]

/-- Alike pools stay alike where all entries are changed. -/
theorem map (h : p.Alike q) (f : β → β) : (p.map f).Alike (q.map f) := by
  intro i
  rw [get?_map, get?_map, h i]

/-- Whatever two pools held, after a reset neither holds anything. -/
theorem reset (p q : Pool β) : p.reset.Alike q.reset := by
  intro i
  rw [get?_reset, get?_reset]

end Alike

end Pool

namespace VariablePool

variable {Q : Type} {p q : VariablePool Q}

/-- Pools of variables are **alike** if the same variables are live in them, with the same
contents, and as many were named. -/
structure Alike (p q : VariablePool Q) : Prop where
  slots : p.slots.Alike q.slots
  named : p.named = q.named

namespace Alike

/-- The same variable is found at a handle. -/
theorem get?_eq (h : p.Alike q) : p.get? = q.get? :=
  funext fun v => h.slots v.index

/-- The same handles are live. -/
theorem isLive_eq (h : p.Alike q) : p.isLive = q.isLive :=
  funext fun v => h.slots.isLive_eq v.index

/-- Alike pools stay alike where the same variable is released. -/
theorem release (h : p.Alike q) (v : VarId) : (p.release v).Alike (q.release v) :=
  ⟨h.slots.release v.index, h.named⟩

/-- Alike pools stay alike where the same variable is changed. -/
theorem modify (h : p.Alike q) (v : VarId) (f : Variable Q → Variable Q) :
    (p.modify v f).Alike (q.modify v f) :=
  ⟨h.slots.modify v.index f, h.named⟩

/-- Variables changed one after another. -/
theorem foldl_modify (h : p.Alike q) (vs : List VarId) (f : VarId → Variable Q → Variable Q) :
    (vs.foldl (fun p v => p.modify v (f v)) p).Alike
      (vs.foldl (fun p v => p.modify v (f v)) q) := by
  induction vs generalizing p q with
  | nil => exact h
  | cons v vs ih => exact ih (h.modify v (f v))

/-- Alike pools stay alike where all variables are changed. -/
theorem map (h : p.Alike q) (f : Variable Q → Variable Q) : (p.map f).Alike (q.map f) :=
  ⟨h.slots.map f, h.named⟩

/-- After a reset no variable is live and none was named. -/
theorem reset (p q : VariablePool Q) : p.reset.Alike q.reset :=
  ⟨.reset p.slots q.slots, rfl⟩

/-- A new variable gets the same handle and name in alike pools. -/
theorem acquire [Scalar Q] (h : p.Alike q) (kind : Kind) (stem : Option String) :
    (p.acquire kind stem).1 = (q.acquire kind stem).1 ∧
      (p.acquire kind stem).2.Alike (q.acquire kind stem).2 := by
  rw [VariablePool.acquire, VariablePool.acquire, h.named, h.slots.nextFree_eq]
  exact ⟨rfl, h.slots.occupy _, rfl⟩

end Alike

end VariablePool

end LexSimplex
