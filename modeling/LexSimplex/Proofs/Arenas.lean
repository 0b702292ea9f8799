import Mathlib.Data.List.Infix
import Mathlib.Data.List.MinMax
import Mathlib.Data.Nat.Count
import Mathlib.Data.Set.Card
import Mathlib.Order.Bounds.Basic
import LexSimplex.Variable.Pool

/-!
# The books of a pool

A pool finds the least free slot by looking through all of them, and counts the live ones when it
is asked. An **arena** does the same work without looking: it keeps the free slots apart, takes the
least of these, counts along, and notes the peak of the count. Its books are flags, free slots and
counters, and they have to stay in step when a slot is released twice, when a slot is released that
was never made, and when everything is released at once.

They do, and a pool that gets the same calls reads the same in every respect. So the laws of the
books are laws of every pool: rows, variables, and whatever else is kept in slots.

## Main definitions

* `PoolCall`, `Pool.run`, `VariablePool.run`: pools under a history of calls.
* `Arena`: the books, kept call by call.
* `room`: the capacities that a pool goes through.
* `Gauge.Lawful`: least numbers, exact counts, and no more room than the peak needs.

## Main results

* `Arena.Sound.call`: each call keeps the books in step.
* `Arena.lawful_run`: the laws of the books, over every history.
* `Pool.lawful_of_follows`: a pool reads as the books say that get the same calls.
* `pools_lawful`: the laws of pools and of variable pools.
-/

namespace LexSimplex

/-- A call of a pool. A new slot is acquired with an `α`. -/
inductive PoolCall (α : Type) where
  | acquire (a : α)
  | release (i : Nat)
  | reset

/-- A call without what the slot is acquired with. -/
def PoolCall.plain {α : Type} : PoolCall α → PoolCall Unit
  | .acquire _ => .acquire ()
  | .release i => .release i
  | .reset => .reset

/-- The capacity after so many growths: it doubles, and grows by eight at least. -/
def room (c : Nat) : Nat → Nat
  | 0 => c
  | k + 1 => room c k + max (room c k) 8

/-- Every growth makes room. -/
theorem room_lt_room_succ (c k : Nat) : room c k < room c (k + 1) := by
  rw [room]
  omega

/-- Later growths leave no less room. -/
theorem room_mono (c : Nat) : Monotone (room c) :=
  monotone_nat_of_le_succ fun k => Nat.le_of_lt (room_lt_room_succ c k)

/-- What can be read off a pool: the slot that the next call acquires, the slots that are live and
how many these are, the slots that were made, the peak, the capacity and how often it grew. -/
structure Gauge where
  next : Nat
  isLive : Nat → Bool
  liveCount : Nat
  made : Nat
  highWater : Nat
  capacity : Nat
  growths : Nat

/-- A reading is **lawful** for a capacity at the start and the counts so far if the next slot is
the least that is not live, the live slots are counted, as many slots were made as were live at the
peak, and the capacity grew until it had room for these and no further. -/
structure Gauge.Lawful (c : Nat) (counts : Set Nat) (g : Gauge) : Prop where
  next : IsLeast {i | g.isLive i = false} g.next
  liveCount : {i | g.isLive i = true}.encard = g.liveCount
  made : g.made = g.highWater
  highWater : IsGreatest counts g.highWater
  capacity : g.capacity = room c g.growths
  growths : IsLeast {k | g.highWater ≤ room c k} g.growths

/-! ### Arenas -/

/-- The books of a pool: for each slot that was made whether it is live, the slots that are free,
and the counters. -/
structure Arena where
  live : List Bool := []
  free : List Nat := []
  liveCount : Nat := 0
  highWater : Nat := 0
  capacity : Nat
  growths : Nat := 0

namespace Arena

/-- The least free slot, or the one that would be made. -/
def next (a : Arena) : Nat :=
  a.free.min?.getD a.live.length

/-- Room for one more slot. -/
def reserve (a : Arena) : Arena :=
  if a.live.length = a.capacity then
    { a with capacity := a.capacity + max a.capacity 8, growths := a.growths + 1 }
  else a

/-- The least free slot made live, or one more slot where none is free. -/
def enlist (a : Arena) : Arena :=
  match a.free.min? with
  | some i => { a with live := a.live.set i true, free := a.free.erase i }
  | none => { a.reserve with live := a.live ++ [true] }

/-- A slot acquired, and counted. -/
def acquire (a : Arena) : Arena :=
  { a.enlist with
    liveCount := a.liveCount + 1
    highWater := max a.highWater (a.liveCount + 1) }

/-- A slot released, if it is live. -/
def release (a : Arena) (i : Nat) : Arena :=
  if a.live[i]? = some true then
    { a with live := a.live.set i false, free := i :: a.free, liveCount := a.liveCount - 1 }
  else a

/-- Every slot released. The peak stays. -/
def reset (a : Arena) : Arena :=
  { a with
    live := a.live.map fun _ => false
    free := List.range a.live.length
    liveCount := 0 }

def call (a : Arena) : PoolCall Unit → Arena
  | .acquire _ => a.acquire
  | .release i => a.release i
  | .reset => a.reset

/-- The books after a history of calls. -/
def run (c : Nat) (calls : List (PoolCall Unit)) : Arena :=
  calls.foldl call { capacity := c }

def gauge (a : Arena) : Gauge where
  next := a.next
  isLive i := a.live[i]?.getD false
  liveCount := a.liveCount
  made := a.live.length
  highWater := a.highWater
  capacity := a.capacity
  growths := a.growths

/-- Books are **sound** if their parts are in step: the free slots are those that were made and are
not live, each once; the counters count the flags; and the capacity is the first that there is room
in. -/
structure Sound (c : Nat) (a : Arena) : Prop where
  nodup_free : a.free.Nodup
  mem_free_iff : ∀ i, i ∈ a.free ↔ a.live[i]? = some false
  liveCount_eq : a.liveCount = a.live.count true
  length_eq : a.live.length = a.highWater
  capacity_eq : a.capacity = room c a.growths
  le_capacity : a.live.length ≤ a.capacity
  room_lt : ∀ k < a.growths, room c k < a.live.length

variable {a : Arena} {c i : Nat}

namespace Sound

/-- Empty books are sound. -/
theorem empty (c : Nat) : Sound c { capacity := c } :=
  ⟨List.nodup_nil, fun _ => by simp, rfl, rfl, rfl, Nat.zero_le c, fun k hk => absurd hk (by simp)⟩

/-- No more slots are live than were at their peak. -/
theorem liveCount_le (h : a.Sound c) : a.liveCount ≤ a.highWater := by
  rw [h.liveCount_eq, ← h.length_eq]
  exact List.count_le_length

/-- A free slot is one that was made. -/
theorem lt_length (h : a.Sound c) (hi : i ∈ a.free) :
    ∃ hlt : i < a.live.length, a.live[i] = false :=
  List.getElem?_eq_some_iff.mp ((h.mem_free_iff i).mp hi)

/-- Where no slot is free, all that were made are live. -/
theorem liveCount_eq_length (h : a.Sound c) (hnone : a.free.min? = none) :
    a.liveCount = a.live.length := by
  have hfree : a.free = [] := List.min?_eq_none_iff.mp hnone
  rw [h.liveCount_eq]
  refine List.count_eq_length.mpr fun x hx => ?_
  obtain ⟨i, hi⟩ := List.mem_iff_getElem?.mp hx
  cases x with
  | true => rfl
  | false =>
      have hmem := (h.mem_free_iff i).mpr hi
      rw [hfree] at hmem
      exact absurd hmem List.not_mem_nil

/-- Where no slot is made and the peak stays, the room stays in step. The free slots and the count
have to change with the flags. -/
theorem of_length_eq {b : Arena} (h : a.Sound c) (hlength : b.live.length = a.live.length)
    (hpeak : b.highWater = a.highWater) (hcapacity : b.capacity = a.capacity)
    (hgrowths : b.growths = a.growths) (hnodup : b.free.Nodup)
    (hfree : ∀ i, i ∈ b.free ↔ b.live[i]? = some false)
    (hcount : b.liveCount = b.live.count true) : b.Sound c where
  nodup_free := hnodup
  mem_free_iff := hfree
  liveCount_eq := hcount
  length_eq := hlength.trans (h.length_eq.trans hpeak.symm)
  capacity_eq := hcapacity.trans (hgrowths ▸ h.capacity_eq)
  le_capacity := hlength.trans_le (hcapacity ▸ h.le_capacity)
  room_lt := fun k hk => (h.room_lt k (hgrowths ▸ hk)).trans_eq hlength.symm

/-- The next slot is the least that is not live. -/
theorem next_isLeast (h : a.Sound c) : IsLeast {i | a.gauge.isLive i = false} a.next := by
  have hdead : ∀ i, a.gauge.isLive i = false ↔ i ∈ a.free ∨ a.live.length ≤ i := by
    intro i
    rw [h.mem_free_iff]
    cases hi : a.live[i]? with
    | none => simp [gauge, List.getElem?_eq_none_iff.mp hi]
    | some x =>
        obtain ⟨hlt, -⟩ := List.getElem?_eq_some_iff.mp hi
        simp [gauge, hi, Nat.not_le.mpr hlt]
  rw [next]
  cases hmin : a.free.min? with
  | none =>
      have hfree : a.free = [] := List.min?_eq_none_iff.mp hmin
      refine ⟨(hdead _).mpr (.inr (Nat.le_refl _)), fun i hi => ?_⟩
      rcases (hdead i).mp hi with hmem | hle
      · rw [hfree] at hmem
        exact absurd hmem List.not_mem_nil
      · exact hle
  | some j =>
      obtain ⟨hj, hleast⟩ := List.min?_eq_some_iff.mp hmin
      refine ⟨(hdead j).mpr (.inl hj), fun i hi => ?_⟩
      rcases (hdead i).mp hi with hmem | hle
      · exact hleast i hmem
      · exact Nat.le_trans (Nat.le_of_lt (h.lt_length hj).1) hle

/-- A slot that was released is taken again. -/
theorem acquire_of_some (h : a.Sound c) (hmin : a.free.min? = some i) : a.acquire.Sound c := by
  have hi : i ∈ a.free := (List.min?_eq_some_iff.mp hmin).1
  obtain ⟨hlt, hdead⟩ := h.lt_length hi
  have hcount : (a.live.set i true).count true = a.liveCount + 1 := by
    rw [List.count_set hlt, h.liveCount_eq, hdead]
    rfl
  have hpeak : max a.highWater (a.liveCount + 1) = a.highWater := by
    refine max_eq_left ?_
    rw [← hcount, ← h.length_eq, ← List.length_set]
    exact List.count_le_length
  rw [acquire, enlist, hmin]
  refine h.of_length_eq List.length_set hpeak rfl rfl (h.nodup_free.erase i) (fun j => ?_)
    hcount.symm
  rw [h.nodup_free.mem_erase_iff, h.mem_free_iff, List.getElem?_set]
  by_cases hj : i = j
  · subst hj
    simp [hlt]
  · simp [hj, Ne.symm hj]

/-- A slot is made where all others are live, and room where all of it is taken. -/
theorem acquire_of_none (h : a.Sound c) (hmin : a.free.min? = none) : a.acquire.Sound c := by
  have hfree : a.free = [] := List.min?_eq_none_iff.mp hmin
  have hall := h.liveCount_eq_length hmin
  have hlength : (a.live ++ [true]).length = a.live.length + 1 := List.length_append
  have hreserve : a.reserve.capacity = room c a.reserve.growths ∧
      a.live.length + 1 ≤ a.reserve.capacity ∧
      ∀ k < a.reserve.growths, room c k < a.live.length + 1 := by
    rw [reserve]
    by_cases hfull : a.live.length = a.capacity
    · rw [if_pos hfull]
      refine ⟨by rw [room, ← h.capacity_eq], by dsimp only; omega, fun k hk => ?_⟩
      have hle := room_mono c (Nat.le_of_lt_succ hk)
      rw [← h.capacity_eq, ← hfull] at hle
      exact Nat.lt_succ_of_le hle
    · rw [if_neg hfull]
      refine ⟨h.capacity_eq, Nat.lt_of_le_of_ne h.le_capacity hfull, fun k hk => ?_⟩
      exact Nat.lt_succ_of_lt (h.room_lt k hk)
  have hfree' : a.reserve.free = [] := by
    rw [reserve]
    split <;> exact hfree
  rw [acquire, enlist, hmin]
  refine ⟨?_, fun j => ?_, ?_, ?_, hreserve.1, hlength ▸ hreserve.2.1, ?_⟩
  · exact hfree'.symm ▸ List.nodup_nil
  · have hnot : ¬(a.live ++ [true])[j]? = some false := by
      intro hj
      rcases List.mem_append.mp (List.mem_of_getElem? hj) with hmem | hmem
      · obtain ⟨k, hk⟩ := List.mem_iff_getElem?.mp hmem
        exact absurd ((h.mem_free_iff k).mpr hk) (hfree ▸ List.not_mem_nil)
      · exact absurd (List.mem_singleton.mp hmem) (by simp)
    dsimp only
    rw [hfree']
    exact iff_of_false List.not_mem_nil hnot
  · dsimp only
    rw [List.count_append, h.liveCount_eq]
    rfl
  · dsimp only
    rw [hlength, ← h.length_eq, hall, max_eq_right (Nat.le_succ _)]
  · intro k hk
    exact (hreserve.2.2 k hk).trans_eq hlength.symm

/-- Books stay sound where a slot is acquired. -/
theorem acquire (h : a.Sound c) : a.acquire.Sound c := by
  cases hmin : a.free.min? with
  | some i => exact h.acquire_of_some hmin
  | none => exact h.acquire_of_none hmin

/-- A release of a slot that is not live, or was never made, is no release. -/
theorem release (h : a.Sound c) (i : Nat) : (a.release i).Sound c := by
  rw [Arena.release]
  by_cases hlive : a.live[i]? = some true
  · rw [if_pos hlive]
    obtain ⟨hlt, hi⟩ := List.getElem?_eq_some_iff.mp hlive
    have hnot : i ∉ a.free := fun hmem => by
      rw [(h.mem_free_iff i).mp hmem] at hlive
      exact absurd hlive (by simp)
    refine h.of_length_eq List.length_set rfl rfl rfl (List.nodup_cons.mpr ⟨hnot, h.nodup_free⟩)
      (fun j => ?_) ?_
    · rw [List.mem_cons, h.mem_free_iff, List.getElem?_set]
      by_cases hj : i = j
      · subst hj
        simp [hlt]
      · simp [hj, Ne.symm hj]
    · dsimp only
      rw [List.count_set hlt, hi, h.liveCount_eq]
      rfl
  · rw [if_neg hlive]
    exact h

/-- Books stay sound after a reset. -/
theorem reset (h : a.Sound c) : a.reset.Sound c := by
  refine h.of_length_eq (List.length_map _) rfl rfl rfl List.nodup_range (fun i => ?_) ?_
  · rw [Arena.reset, List.mem_range, List.getElem?_map]
    cases hi : a.live[i]? with
    | none => simp [List.getElem?_eq_none_iff.mp hi]
    | some x =>
        obtain ⟨hlt, -⟩ := List.getElem?_eq_some_iff.mp hi
        simp [hlt]
  · refine (List.count_eq_zero.mpr fun hmem => ?_).symm
    obtain ⟨x, -, hx⟩ := List.mem_map.mp hmem
    exact absurd hx (by simp)

/-- Each **call** keeps the books in step. -/
theorem call (h : a.Sound c) (x : PoolCall Unit) : (a.call x).Sound c := by
  cases x with
  | acquire _ => exact h.acquire
  | release i => exact h.release i
  | reset => exact h.reset

end Sound

/-- One call more is made after the others. -/
theorem run_append (c : Nat) (calls : List (PoolCall Unit)) (x : PoolCall Unit) :
    run c (calls ++ [x]) = (run c calls).call x :=
  List.foldl_concat ..

/-- The books are in step after every history. -/
theorem sound_run (c : Nat) (calls : List (PoolCall Unit)) : (run c calls).Sound c := by
  induction calls using List.reverseRecOn with
  | nil => exact .empty c
  | append_singleton calls x ih => exact run_append c calls x ▸ ih.call x

/-- The peak is the greater of the peak before and the count. -/
theorem highWater_call (h : a.Sound c) (x : PoolCall Unit) :
    (a.call x).highWater = max a.highWater (a.call x).liveCount := by
  cases x with
  | acquire _ => rfl
  | release i =>
      have hkeep : (a.release i).highWater = a.highWater := by
        rw [release]
        split <;> rfl
      have hle : (a.release i).liveCount ≤ (a.release i).highWater := (h.release i).liveCount_le
      exact hkeep.trans (max_eq_left (hkeep ▸ hle)).symm
  | reset => exact (max_eq_left (Nat.zero_le _)).symm

/-- The peak is the greatest count that there was. -/
theorem highWater_isGreatest (c : Nat) (calls : List (PoolCall Unit)) :
    IsGreatest {n | ∃ past, past <+: calls ∧ (run c past).liveCount = n}
      (run c calls).highWater := by
  induction calls using List.reverseRecOn with
  | nil =>
      refine ⟨⟨[], List.prefix_rfl, rfl⟩, ?_⟩
      rintro n ⟨past, hpast, rfl⟩
      obtain rfl := List.prefix_nil.mp hpast
      exact Nat.le_refl _
  | append_singleton calls x ih =>
      have hpeak := highWater_call (sound_run c calls) x
      rw [← run_append] at hpeak
      rw [hpeak]
      obtain ⟨⟨past, hpast, hcount⟩, hgreatest⟩ := ih
      refine ⟨?_, ?_⟩
      · rcases le_total (run c calls).highWater (run c (calls ++ [x])).liveCount with hle | hle
        · exact ⟨calls ++ [x], List.prefix_rfl, (max_eq_right hle).symm⟩
        · refine ⟨past, hpast.trans (List.prefix_append calls [x]), ?_⟩
          rw [hcount, max_eq_left hle]
      · rintro n ⟨past, hpast, rfl⟩
        rcases List.prefix_concat_iff.mp hpast with rfl | hpast
        · exact le_max_right _ _
        · exact le_max_of_le_left (hgreatest ⟨past, hpast, rfl⟩)

/-- The live slots are as many as the flags that are set. -/
theorem encard_live (live : List Bool) :
    {i : Nat | live[i]?.getD false = true}.encard = live.count true := by
  have hfinite : {i : Nat | live[i]?.getD false = true} =
      ((Finset.range live.length).filter fun i => live[i]?.getD false = true : Finset Nat) := by
    ext i
    simp only [Set.mem_ofPred_eq, Finset.coe_filter, Finset.mem_range]
    refine ⟨fun hi => ⟨?_, hi⟩, And.right⟩
    by_contra hlt
    rw [List.getElem?_eq_none (Nat.le_of_not_lt hlt)] at hi
    exact absurd hi (by simp)
  rw [hfinite, Set.encard_coe_eq_coe_finsetCard, ← Nat.count_eq_card_filter_range, Nat.count]
  have hlive : live = (List.range live.length).map fun i => live[i]?.getD false := by
    refine List.ext_getElem (by simp) fun i hi _ => ?_
    simp [hi]
  congr 1
  conv_rhs => rw [hlive, List.count, List.countP_map]
  refine List.countP_congr fun i _ => ?_
  simp

/-- **The laws of the books**, after every history of calls. -/
theorem lawful_run (c : Nat) (calls : List (PoolCall Unit)) :
    (run c calls).gauge.Lawful c {n | ∃ past, past <+: calls ∧ (run c past).liveCount = n} := by
  have h := sound_run c calls
  refine ⟨h.next_isLeast, ?_, h.length_eq, highWater_isGreatest c calls, h.capacity_eq, ?_, ?_⟩
  · exact (encard_live _).trans (congrArg Nat.cast h.liveCount_eq.symm)
  · have hle := h.le_capacity
    rwa [h.length_eq, h.capacity_eq] at hle
  · intro k hk
    by_contra hlt
    have hroom := h.room_lt k (Nat.lt_of_not_le hlt)
    rw [h.length_eq] at hroom
    exact absurd hk (Nat.not_le.mpr hroom)

end Arena

/-! ### Pools -/

namespace Pool

variable {β : Type} {p : Pool β} {a : Arena} {c : Nat}

def call (p : Pool β) : PoolCall β → Pool β
  | .acquire b => p.occupy b
  | .release i => p.release i
  | .reset => p.reset

/-- A pool with room for `c` slots after a history of calls. -/
def run (c : Nat) (calls : List (PoolCall β)) : Pool β :=
  calls.foldl call (empty c)

def gauge (p : Pool β) : Gauge where
  next := p.nextFree
  isLive := p.isLive
  liveCount := p.liveCount
  made := p.slots.length
  highWater := p.highWater
  capacity := p.capacity
  growths := p.growths

/-- Books **follow** a pool if the flags are those of its slots, and the room is the same. -/
structure Follows (a : Arena) (p : Pool β) : Prop where
  live_eq : a.live = p.slots.map Option.isSome
  capacity_eq : a.capacity = p.capacity
  growths_eq : a.growths = p.growths

namespace Follows

/-- There are as many flags as slots. -/
theorem length_eq (h : Follows a p) : a.live.length = p.slots.length := by
  rw [h.live_eq, List.length_map]

/-- A flag is raised if the slot is live. -/
theorem isLive_eq (h : Follows a p) (i : Nat) : a.gauge.isLive i = p.isLive i := by
  simp only [Arena.gauge, h.live_eq, isLive, get?, List.getElem?_map]
  cases p.slots[i]? with
  | none => rfl
  | some x => cases x <;> rfl

/-- The pool finds the slot that the books have for the least. -/
theorem next_eq (h : Follows a p) (ha : a.Sound c) : a.next = p.nextFree := by
  refine ha.next_isLeast.unique ⟨?_, fun i hi => ?_⟩
  · exact (h.isLive_eq _).trans (isLive_nextFree p)
  · refine Nat.le_of_not_lt fun hlt => ?_
    have hlive := isLive_of_lt_nextFree hlt
    rw [← h.isLive_eq, hi] at hlive
    exact absurd hlive (by simp)

/-- Sound books that follow a pool read the same. -/
theorem gauge_eq (h : Follows a p) (ha : a.Sound c) : p.gauge = a.gauge := by
  have hcount : p.liveCount = a.liveCount := by
    rw [ha.liveCount_eq, h.live_eq, List.count, List.countP_map, liveCount]
    exact List.countP_congr fun x _ => by simp
  have hlength := h.length_eq
  simp only [gauge, Arena.gauge, Gauge.mk.injEq]
  exact ⟨(h.next_eq ha).symm, funext fun i => (h.isLive_eq i).symm, hcount, hlength.symm,
    hlength.symm.trans ha.length_eq, h.capacity_eq.symm, h.growths_eq.symm⟩

/-- Books follow a pool in which a slot is acquired. -/
theorem acquire (h : Follows a p) (ha : a.Sound c) (b : β) : Follows a.acquire (p.occupy b) := by
  have hnext := h.next_eq ha
  have hlength := h.length_eq
  rw [Arena.next] at hnext
  rw [Arena.acquire, Arena.enlist, occupy]
  cases hmin : a.free.min? with
  | some i =>
      rw [hmin, Option.getD_some] at hnext
      have hlt : p.nextFree < p.slots.length := by
        rw [← hnext, ← hlength]
        exact (ha.lt_length (List.min?_eq_some_iff.mp hmin).1).1
      rw [if_pos hlt]
      refine ⟨?_, h.capacity_eq, h.growths_eq⟩
      rw [← hnext, List.map_set, ← h.live_eq]
      rfl
  | none =>
      rw [hmin, Option.getD_none] at hnext
      rw [if_neg (by omega)]
      refine ⟨?_, ?_, ?_⟩
      · rw [List.map_append, ← h.live_eq]
        rfl
      all_goals
        simp only [Arena.reserve, reserve, hlength, h.capacity_eq]
        split
        · simp [h.growths_eq]
        · simp [h.capacity_eq, h.growths_eq]

/-- Books follow a pool in which a slot is freed. -/
theorem release (h : Follows a p) (i : Nat) : Follows (a.release i) (p.release i) := by
  have hset : (p.slots.set i none).map Option.isSome = a.live.set i false := by
    rw [List.map_set, ← h.live_eq]
    rfl
  rw [Arena.release, Pool.release]
  by_cases hlive : a.live[i]? = some true
  · rw [if_pos hlive]
    exact ⟨hset.symm, h.capacity_eq, h.growths_eq⟩
  · rw [if_neg hlive]
    refine ⟨?_, h.capacity_eq, h.growths_eq⟩
    rw [hset]
    refine (List.ext_getElem? fun j => ?_).symm
    rw [List.getElem?_set]
    by_cases hj : i = j
    · subst hj
      cases hi : a.live[i]? with
      | none => simp [List.getElem?_eq_none_iff.mp hi]
      | some x =>
          obtain ⟨hlt, -⟩ := List.getElem?_eq_some_iff.mp hi
          cases x with
          | true => exact absurd hi hlive
          | false => simp [hlt]
    · rw [if_neg hj]

/-- Books follow a pool that is reset. -/
theorem reset (h : Follows a p) : Follows a.reset p.reset := by
  refine ⟨?_, h.capacity_eq, h.growths_eq⟩
  simp only [Arena.reset, Pool.reset, h.live_eq, List.map_map]
  exact List.map_congr_left fun _ _ => rfl

end Follows

/-- Books follow a pool call by call. -/
theorem Follows.call (h : Follows a p) (ha : a.Sound c) (x : PoolCall β) :
    Follows (a.call x.plain) (p.call x) := by
  cases x with
  | acquire b => exact h.acquire ha b
  | release i => exact h.release i
  | reset => exact h.reset

/-- Whatever a pool goes through, if the books that get the same calls follow it throughout, then it
reads as they do, and lawfully. -/
theorem lawful_of_follows {α : Type} {F : List (PoolCall α) → Pool β}
    (h : ∀ calls, Follows (Arena.run c (calls.map PoolCall.plain)) (F calls))
    (calls : List (PoolCall α)) :
    (F calls).gauge = (Arena.run c (calls.map PoolCall.plain)).gauge ∧
      (F calls).gauge.Lawful c {n | ∃ past, past <+: calls ∧ (F past).liveCount = n} := by
  have hgauge : ∀ calls, (F calls).gauge = (Arena.run c (calls.map PoolCall.plain)).gauge :=
    fun calls => (h calls).gauge_eq (Arena.sound_run c _)
  have hcount : ∀ calls, (F calls).liveCount =
      (Arena.run c (calls.map PoolCall.plain)).liveCount :=
    fun calls => congrArg Gauge.liveCount (hgauge calls)
  have hcounts : {n | ∃ past, past <+: calls ∧ (F past).liveCount = n} =
      {n | ∃ past, past <+: calls.map PoolCall.plain ∧ (Arena.run c past).liveCount = n} := by
    ext n
    constructor
    · rintro ⟨past, hpast, rfl⟩
      exact ⟨past.map PoolCall.plain, hpast.map _, (hcount past).symm⟩
    · rintro ⟨past, hpast, rfl⟩
      obtain ⟨drawn, hdrawn, rfl⟩ := List.prefix_map_iff.mp hpast
      exact ⟨drawn, hdrawn, hcount drawn⟩
  refine ⟨hgauge calls, ?_⟩
  rw [hcounts, hgauge]
  exact Arena.lawful_run c _

/-- Books that get the same calls follow a pool. -/
theorem follows_run (c : Nat) (calls : List (PoolCall β)) :
    Follows (Arena.run c (calls.map PoolCall.plain)) (run c calls) := by
  induction calls using List.reverseRecOn with
  | nil => exact ⟨rfl, rfl, rfl⟩
  | append_singleton calls x ih =>
      rw [List.map_append, List.map_singleton, Arena.run_append, run, List.foldl_concat]
      exact ih.call (Arena.sound_run c _) x

end Pool

/-! ### Variable pools -/

namespace VariablePool

variable {Q : Type} [Scalar Q]

/-- A call with a slot number for a handle. A variable is acquired with its kind and a stem. -/
def call (p : VariablePool Q) : PoolCall (Kind × Option String) → VariablePool Q
  | .acquire x => (p.acquire x.1 x.2).2
  | .release i => p.release ⟨i⟩
  | .reset => p.reset

/-- A pool with room for `c` variables after a history of calls. -/
def run (c : Nat) (calls : List (PoolCall (Kind × Option String))) : VariablePool Q :=
  calls.foldl call (empty c)

/-- The slots get a call of their own, which differs in nothing that the books note. -/
theorem slots_call (p : VariablePool Q) (x : PoolCall (Kind × Option String)) :
    ∃ y, y.plain = x.plain ∧ (p.call x).slots = p.slots.call y := by
  cases x with
  | acquire x => exact ⟨.acquire _, rfl, rfl⟩
  | release i => exact ⟨.release i, rfl, rfl⟩
  | reset => exact ⟨.reset, rfl, rfl⟩

/-- Books follow the slots of the variables over any calls. -/
theorem follows_run (c : Nat) (calls : List (PoolCall (Kind × Option String))) :
    Pool.Follows (Arena.run c (calls.map PoolCall.plain)) (run c calls : VariablePool Q).slots := by
  induction calls using List.reverseRecOn with
  | nil => exact ⟨rfl, rfl, rfl⟩
  | append_singleton calls x ih =>
      obtain ⟨y, hplain, hslots⟩ := (run c calls : VariablePool Q).slots_call x
      rw [List.map_append, List.map_singleton, Arena.run_append, run, List.foldl_concat, ← hplain]
      exact hslots ▸ ih.call (Arena.sound_run c _) y

end VariablePool

/-- **The laws of pools**, after every history of calls from a pool with room for `c` slots. What
can be read off is what books say that are kept call by call. The slot that is acquired next is the
least that is not live; the count is the number of live slots; as many slots were made as were live
at the peak of the count, which a reset does not lower; and the capacity is the first of those that
it goes through which has room for the peak. The same holds of variables. -/
theorem pools_lawful (c : Nat) :
    (∀ {β : Type} (calls : List (PoolCall β)),
      (Pool.run c calls).gauge = (Arena.run c (calls.map PoolCall.plain)).gauge ∧
      (∀ b, ((Pool.run c calls).acquire b).1 = (Pool.run c calls).gauge.next) ∧
      (Pool.run c calls).gauge.Lawful c
        {n | ∃ past, past <+: calls ∧ (Pool.run c past).liveCount = n}) ∧
    ∀ {Q : Type} [Scalar Q] (calls : List (PoolCall (Kind × Option String))),
      (VariablePool.run c calls : VariablePool Q).slots.gauge =
        (Arena.run c (calls.map PoolCall.plain)).gauge ∧
      (∀ kind stem, ((VariablePool.run c calls : VariablePool Q).acquire kind stem).1 =
        ⟨(VariablePool.run c calls : VariablePool Q).slots.gauge.next⟩) ∧
      (VariablePool.run c calls : VariablePool Q).slots.gauge.Lawful c
        {n | ∃ past, past <+: calls ∧
          (VariablePool.run c past : VariablePool Q).slots.liveCount = n} := by
  constructor
  · intro β calls
    obtain ⟨hgauge, hlawful⟩ := Pool.lawful_of_follows (Pool.follows_run c) calls
    exact ⟨hgauge, fun _ => rfl, hlawful⟩
  · intro Q _ calls
    obtain ⟨hgauge, hlawful⟩ :=
      Pool.lawful_of_follows (VariablePool.follows_run (Q := Q) c) calls
    exact ⟨hgauge, fun _ _ => rfl, hlawful⟩

/-- A pool without room at the start: three slots are live at the peak, so it grew once, by eight.
Slots that were released are acquired again from the least on, and a release that releases nothing
changes nothing. -/
example : let p : Pool Nat := Pool.run 0 [.acquire 7, .acquire 7, .acquire 7, .release 2,
      .release 0, .release 0, .release 9, .acquire 5]
    (p.slots, p.nextFree, p.liveCount, p.highWater, p.capacity, p.growths) =
      ([some 5, some 7, none], 2, 2, 3, 8, 1) := by decide

end LexSimplex
