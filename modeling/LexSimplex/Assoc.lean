/-!
# Associations in order

A key occurs at most once in an association, and the order of its entries can be observed: it
decides how rows and objectives are printed and the order in which a pivot visits rows. So an
association is a list of entries, and each operation says what it does to the order.

**Order convention.** A new entry goes to the end and an overwritten one stays in its place.
There are two ways to take an entry out: `erase` closes the gap, `swapErase` moves the last
entry into it.

## Main definitions

* `List.swapErase`: removal by moving the last element into the gap.
* `Assoc`: entries in order, with `get?`, `contains`, `set`, `insert`, `erase`, `swapErase`.

## Main results

* `List.swapErase_perm`: apart from order, `swapErase` is removal.
* `Assoc.get?_insert`, `Assoc.get?_erase`, `Assoc.get?_swapErase`: what is found under a key
  after an operation.
* `Assoc.nodup_keys_insert`, `Assoc.nodup_keys_swapErase`: keys stay distinct.
-/

/-- The list without its first element that satisfies `p`; the last element takes its place. -/
def List.swapErase {α : Type} (p : α → Bool) : List α → List α
  | [] => []
  | x :: xs =>
    if p x then
      match xs.getLast? with
      | none => []
      | some z => z :: xs.dropLast
    else x :: xs.swapErase p

/-- Apart from the order, one element is removed and nothing else happens. -/
theorem List.swapErase_perm {α : Type} (p : α → Bool) (l : List α) :
    (l.swapErase p).Perm (l.eraseP p) := by
  induction l with
  | nil => exact .nil
  | cons x xs ih =>
    by_cases h : p x
    · rw [List.eraseP_cons_of_pos h]
      simp only [List.swapErase, h, if_true]
      cases hz : xs.getLast? with
      | none => simp [List.getLast?_eq_none_iff.mp hz]
      | some z =>
        obtain ⟨ys, rfl⟩ := List.getLast?_eq_some_iff.mp hz
        simpa using (List.perm_append_singleton z ys).symm
    · rw [List.eraseP_cons_of_neg h]
      simpa [List.swapErase, h] using ih

/-- Where no element satisfies `p`, nothing happens. -/
theorem List.swapErase_of_forall_not {α : Type} {p : α → Bool} {l : List α}
    (h : ∀ x ∈ l, ¬p x) : l.swapErase p = l := by
  induction l with
  | nil => rfl
  | cons x xs ih =>
    have hx : p x = false := by simpa using h x (by simp)
    simp [List.swapErase, hx, ih fun y hy => h y (by simp [hy])]

namespace LexSimplex

/-- Entries in order, each a key with its value. -/
abbrev Assoc (κ β : Type) := List (κ × β)

namespace Assoc

variable {κ β : Type} [DecidableEq κ]

/-- The value under a key. -/
def get? (m : Assoc κ β) (k : κ) : Option β :=
  m.lookup k

/-- Whether a key has a value. -/
def contains (m : Assoc κ β) (k : κ) : Bool :=
  (m.get? k).isSome

/-- The keys in order. -/
def keys (m : Assoc κ β) : List κ :=
  m.map Prod.fst

/-- The value under a key overwritten in its place; nothing happens to an absent key. -/
def set (m : Assoc κ β) (k : κ) (b : β) : Assoc κ β :=
  m.map fun e => if e.1 = k then (k, b) else e

/-- The value under a key overwritten in its place, or a new entry at the end. -/
def insert (m : Assoc κ β) (k : κ) (b : β) : Assoc κ β :=
  if m.contains k then m.set k b else m ++ [(k, b)]

/-- The entry of a key taken out, the entries after it moving up. -/
def erase (m : Assoc κ β) (k : κ) : Assoc κ β :=
  m.filter fun e => e.1 != k

/-- The entry of a key taken out, the last entry moving into its place. -/
def swapErase (m : Assoc κ β) (k : κ) : Assoc κ β :=
  List.swapErase (fun e => e.1 == k) m

/-! ### Looking up -/

/-- Nothing is found in an empty map. -/
@[simp] theorem get?_nil (k : κ) : get? ([] : Assoc κ β) k = none := rfl

/-- A lookup meets the first entry first. -/
theorem get?_cons (e : κ × β) (m : Assoc κ β) (k : κ) :
    get? (e :: m) k = if k = e.1 then some e.2 else get? m k := by
  obtain ⟨k', b⟩ := e
  by_cases h : k = k'
  · simp [get?, h]
  · have : (k == k') = false := by simp [h]
    simp [get?, List.lookup_cons, this, h]

/-- Nothing is found exactly under the keys that do not occur. -/
theorem get?_eq_none_iff {m : Assoc κ β} {k : κ} : m.get? k = none ↔ k ∉ m.keys := by
  induction m with
  | nil => simp [keys]
  | cons e m ih =>
    rw [get?_cons]
    by_cases h : k = e.1
    · simp [h, keys]
    · simp only [h, if_false, ih]
      simp [keys, h]

/-- The test for a key is membership among the keys. -/
theorem contains_iff {m : Assoc κ β} {k : κ} : m.contains k ↔ k ∈ m.keys := by
  cases h : m.get? k with
  | none => simp [contains, h, get?_eq_none_iff.mp h]
  | some b =>
    have : k ∈ m.keys := Decidable.of_not_not fun hk => by simp [get?_eq_none_iff.mpr hk] at h
    simp [contains, h, this]

/-- With distinct keys, an entry is what is found under its key. -/
theorem get?_eq_some_iff {m : Assoc κ β} (h : m.keys.Nodup) {k : κ} {b : β} :
    m.get? k = some b ↔ (k, b) ∈ m := by
  induction m with
  | nil => simp
  | cons e m ih =>
    obtain ⟨k', b'⟩ := e
    have hm : keys m |>.Nodup := (List.nodup_cons.mp h).2
    have hk' : k' ∉ keys m := (List.nodup_cons.mp h).1
    rw [get?_cons]
    by_cases hk : k = k'
    · subst hk
      have : (k, b) ∉ m := fun hb => hk' (List.mem_map.mpr ⟨(k, b), hb, rfl⟩)
      simp [this, eq_comm]
    · simp [hk, ih hm]

/-! ### Overwriting and inserting -/

/-- Overwriting keeps the keys, in their order. -/
@[simp] theorem keys_set (m : Assoc κ β) (k : κ) (b : β) : (m.set k b).keys = m.keys := by
  induction m with
  | nil => rfl
  | cons e m ih =>
    by_cases h : e.1 = k
    · simpa [set, keys, h] using ih
    · simpa [set, keys, h] using ih

/-- Overwriting writes where the key is there, and nothing where it is not. -/
theorem get?_set (m : Assoc κ β) (k : κ) (b : β) (k' : κ) :
    (m.set k b).get? k' = if k' = k ∧ k ∈ m.keys then some b else m.get? k' := by
  induction m with
  | nil => simp [set, keys]
  | cons e m ih =>
    have hset : set (e :: m) k b = (if e.1 = k then (k, b) else e) :: set m k b := rfl
    have hkeys : keys (e :: m) = e.1 :: keys m := rfl
    simp only [hset, hkeys, get?_cons, ih, List.mem_cons]
    by_cases h : e.1 = k
    · by_cases hk : k' = k
      · simp [h, hk]
      · simp [h, hk]
    · by_cases hk : k' = k
      · subst hk
        simp [h, Ne.symm h]
      · simp [h, hk]

/-- The first of two associations is looked up first. -/
theorem get?_append (m n : Assoc κ β) (k : κ) :
    get? (m ++ n) k = (m.get? k).or (n.get? k) := by
  induction m with
  | nil => rfl
  | cons e m ih =>
    rw [List.cons_append, get?_cons, get?_cons, ih]
    by_cases h : k = e.1
    · simp [h]
    · simp [h]

/-- Under the inserted key its value is found, and under any other what was there. -/
theorem get?_insert (m : Assoc κ β) (k : κ) (b : β) (k' : κ) :
    (m.insert k b).get? k' = if k' = k then some b else m.get? k' := by
  by_cases h : m.contains k
  · simp [insert, h, get?_set, contains_iff.mp h]
  · have hk : k ∉ m.keys := fun hk => h (contains_iff.mpr hk)
    simp only [insert, h, Bool.false_eq_true, if_false, get?_append, get?_cons, get?_nil]
    by_cases hk' : k' = k
    · simp [hk', get?_eq_none_iff.mpr hk]
    · simp [hk']

/-- What is found after an insertion is the new entry, or is found under another key and was there
before. -/
theorem get?_insert_eq_some_iff {m : Assoc κ β} {k k' : κ} {b b' : β} :
    (m.insert k b).get? k' = some b' ↔ k' = k ∧ b = b' ∨ k' ≠ k ∧ m.get? k' = some b' := by
  rw [get?_insert]
  by_cases hk : k' = k <;> simp [hk]

/-- A new key comes last. -/
theorem keys_insert (m : Assoc κ β) (k : κ) (b : β) :
    (m.insert k b).keys = if k ∈ m.keys then m.keys else m.keys ++ [k] := by
  by_cases h : m.contains k
  · simp [insert, h, contains_iff.mp h]
  · have hk : k ∉ m.keys := fun hk => h (contains_iff.mpr hk)
    rw [if_neg hk]
    simp [insert, h, keys]

/-- Inserting keeps the keys apart. -/
theorem nodup_keys_insert {m : Assoc κ β} (h : m.keys.Nodup) (k : κ) (b : β) :
    (m.insert k b).keys.Nodup := by
  rw [keys_insert]
  split
  · exact h
  · rename_i hk
    exact List.nodup_append.mpr
      ⟨h, by simp, fun a ha c hc => by simp at hc; exact fun hac => hk (hc ▸ hac ▸ ha)⟩

/-! ### Taking out -/

/-- Erasing takes one key out and leaves the others in order. -/
theorem keys_erase (m : Assoc κ β) (k : κ) : (m.erase k).keys = m.keys.filter (· != k) := by
  simp [erase, keys, List.filter_map, Function.comp_def]

/-- Erasing keeps the keys apart. -/
theorem nodup_keys_erase {m : Assoc κ β} (h : m.keys.Nodup) (k : κ) :
    (m.erase k).keys.Nodup := by
  rw [keys_erase]
  exact h.filter _

/-- Under an erased key nothing is found, and under any other what was there. -/
theorem get?_erase (m : Assoc κ β) (k k' : κ) :
    (m.erase k).get? k' = if k' = k then none else m.get? k' := by
  induction m with
  | nil => simp [erase]
  | cons e m ih =>
    by_cases h : e.1 = k
    · have he : erase (e :: m) k = erase m k := by simp [erase, h]
      rw [he, ih, get?_cons, h]
      by_cases hk : k' = k <;> simp [hk]
    · have he : erase (e :: m) k = e :: erase m k := by simp [erase, h]
      rw [he, get?_cons, get?_cons, ih]
      by_cases hk : k' = e.1
      · simp [hk, h]
      · simp [hk]

/-- What is found once a key was erased is found under another key, and was there before. -/
theorem get?_erase_eq_some_iff {m : Assoc κ β} {k k' : κ} {b : β} :
    (m.erase k).get? k' = some b ↔ k' ≠ k ∧ m.get? k' = some b := by
  rw [get?_erase]
  by_cases hk : k' = k <;> simp [hk]

/-- Apart from the order, `swapErase` is `erase`. -/
theorem swapErase_perm {m : Assoc κ β} (h : m.keys.Nodup) (k : κ) :
    (m.swapErase k).Perm (m.erase k) := by
  refine (List.swapErase_perm _ m).trans (.of_eq ?_)
  induction m with
  | nil => rfl
  | cons e m ih =>
    have hm : keys m |>.Nodup := (List.nodup_cons.mp h).2
    by_cases he : e.1 = k
    · have hk : ∀ x ∈ m, (x.1 != k) = true := fun x hx => by
        have hne : e.1 ∉ keys m := (List.nodup_cons.mp h).1
        simp only [bne_iff_ne]
        exact fun hxk => hne (he ▸ hxk ▸ List.mem_map.mpr ⟨x, hx, rfl⟩)
      simp [erase, he, List.filter_eq_self.mpr hk]
    · have ih := ih hm
      simp only [erase] at ih
      simp [erase, he, ih]

/-- Erasing by a swap keeps the keys apart. -/
theorem nodup_keys_swapErase {m : Assoc κ β} (h : m.keys.Nodup) (k : κ) :
    (m.swapErase k).keys.Nodup :=
  (((swapErase_perm h k).map Prod.fst).nodup_iff).mpr (nodup_keys_erase h k)

/-- Under a key taken out nothing is found, and under any other what was there. -/
theorem get?_swapErase {m : Assoc κ β} (h : m.keys.Nodup) (k k' : κ) :
    (m.swapErase k).get? k' = if k' = k then none else m.get? k' := by
  rw [← get?_erase]
  refine Option.ext fun b => ?_
  rw [get?_eq_some_iff (nodup_keys_swapErase h k), get?_eq_some_iff (nodup_keys_erase h k)]
  exact (swapErase_perm h k).mem_iff

end Assoc

end LexSimplex
