import Mathlib.Data.List.Nodup
import TableMachine.Order.Classes

/-!
# The first element of each key

`distinctBy key xs` keeps, of all elements of one key, the one that comes first. Whatever only
depends on the key can be asked of these elements instead of the whole list: the first element with
such a property is the same (`find?_distinctBy`), and to filter by such a property before or after
makes no difference (`distinctBy_filter`). The classes of a list are led by exactly these elements
(`classes_eq_map_distinctBy`, `filterMap_head?_classes`).
-/

namespace TableMachine

universe u v

variable {α : Type u} {κ : Type v} [DecidableEq κ] {key : α → κ}

/-- The first element is kept, and of the others those of a different key are looked at. -/
theorem distinctBy_cons (key : α → κ) (x : α) (xs : List α) :
    distinctBy key (x :: xs) = x :: distinctBy key (xs.filter fun y => key y ≠ key x) := by
  have others : ((fun p : κ × α => decide ((p.1 == key x) = false)) ∘ fun y => (key y, y)) =
      fun y => decide (key y ≠ key x) := by
    funext y
    simp
  unfold distinctBy
  rw [List.map_cons, List.eraseDupsBy_cons, List.map_cons, List.filter_map, others]

/-! ## Which elements are kept -/

/-- What is kept was there, in the same order. -/
theorem distinctBy_sublist : (xs : List α) → (distinctBy key xs).Sublist xs
  | [] => List.Sublist.slnil
  | x :: xs => by
      rw [distinctBy_cons]
      have rest := distinctBy_sublist (xs.filter fun y => key y ≠ key x)
      exact (rest.trans List.filter_sublist).cons_cons x
termination_by xs => xs.length
decreasing_by exact Nat.lt_succ_of_le (List.length_filter_le _ _)

theorem mem_of_mem_distinctBy {x : α} {xs : List α} (h : x ∈ distinctBy key xs) : x ∈ xs :=
  (distinctBy_sublist xs).subset h

/-- No two of the elements kept have one key. -/
theorem pairwise_distinctBy (key : α → κ) :
    (xs : List α) → (distinctBy key xs).Pairwise fun x y => key x ≠ key y
  | [] => List.Pairwise.nil
  | x :: xs => by
      rw [distinctBy_cons, List.pairwise_cons]
      refine ⟨fun y hy => ?_, pairwise_distinctBy key (xs.filter fun y => key y ≠ key x)⟩
      have hy' := (List.mem_filter.1 (mem_of_mem_distinctBy hy)).2
      intro e
      simp [e] at hy'
termination_by xs => xs.length
decreasing_by exact Nat.lt_succ_of_le (List.length_filter_le _ _)

/-- Of elements with a property that depends on the key alone, the first is kept. -/
theorem find?_distinctBy {p : α → Bool} (hp : ∀ x y, key x = key y → p x = p y) :
    (xs : List α) → (distinctBy key xs).find? p = xs.find? p
  | [] => rfl
  | x :: xs => by
      rw [distinctBy_cons]
      by_cases hx : p x = true
      · rw [List.find?_cons_of_pos hx, List.find?_cons_of_pos hx]
      · rw [List.find?_cons_of_neg hx, List.find?_cons_of_neg hx,
          find?_distinctBy hp (xs.filter fun y => key y ≠ key x), List.find?_filter]
        congr 1
        funext y
        -- an element of the key of `x` has the property no more than `x` has
        by_cases hy : key y = key x
        · simp [hy, hp y x hy, hx]
        · simp [hy]
termination_by xs => xs.length
decreasing_by exact Nat.lt_succ_of_le (List.length_filter_le _ _)

/-- Filtering by a property that depends on the key alone may be done before or after. -/
theorem distinctBy_filter {p : α → Bool} (hp : ∀ x y, key x = key y → p x = p y) :
    (xs : List α) → distinctBy key (xs.filter p) = (distinctBy key xs).filter p
  | [] => rfl
  | x :: xs => by
      have rest := distinctBy_filter hp (xs.filter fun y => key y ≠ key x)
      rw [distinctBy_cons]
      by_cases hx : p x = true
      · rw [List.filter_cons_of_pos hx, List.filter_cons_of_pos hx, distinctBy_cons, ← rest,
          List.filter_filter, List.filter_filter]
        congr 3
        funext y
        rw [Bool.and_comm]
      · rw [List.filter_cons_of_neg hx, List.filter_cons_of_neg hx, ← rest, List.filter_filter]
        congr 2
        funext y
        by_cases hy : key y = key x
        · simp [hp y x hy, hx]
        · simp [hy]
termination_by xs => xs.length
decreasing_by exact Nat.lt_succ_of_le (List.length_filter_le _ _)

/-- An element is kept exactly if it is the first of its key. -/
theorem mem_distinctBy_iff {x : α} {xs : List α} :
    x ∈ distinctBy key xs ↔ xs.find? (fun y => key y = key x) = some x := by
  have same : ∀ y z, key y = key z → decide (key y = key x) = decide (key z = key x) := by
    intro y z h
    rw [h]
  rw [← find?_distinctBy same xs]
  constructor
  · intro hx
    cases hf : (distinctBy key xs).find? (fun y => key y = key x) with
    | none =>
      have := List.find?_eq_none.1 hf x hx
      simp at this
    | some y =>
      have hy : y ∈ distinctBy key xs := List.mem_of_find?_eq_some hf
      have hyx : key y = key x := by simpa using List.find?_some hf
      have nodup : ((distinctBy key xs).map key).Nodup :=
        List.pairwise_map.2 (pairwise_distinctBy key xs)
      rw [List.inj_on_of_nodup_map nodup hy hx hyx]
  · exact List.mem_of_find?_eq_some

/-- Every element has a representative among those kept. -/
theorem exists_mem_distinctBy (key : α → κ) {x : α} {xs : List α} (hx : x ∈ xs) :
    ∃ y ∈ distinctBy key xs, key y = key x := by
  have same : ∀ y z, key y = key z → decide (key y = key x) = decide (key z = key x) := by
    intro y z h
    rw [h]
  cases hf : (distinctBy key xs).find? (fun y => key y = key x) with
  | none =>
    rw [find?_distinctBy same] at hf
    have := List.find?_eq_none.1 hf x hx
    simp at this
  | some y => exact ⟨y, List.mem_of_find?_eq_some hf, by simpa using List.find?_some hf⟩

theorem head?_distinctBy (xs : List α) : (distinctBy key xs).head? = xs.head? := by
  cases xs with
  | nil => rfl
  | cons x xs => rw [distinctBy_cons, List.head?_cons, List.head?_cons]

theorem distinctBy_eq_nil_iff {xs : List α} : distinctBy key xs = [] ↔ xs = [] := by
  rw [← List.head?_eq_none_iff, head?_distinctBy, List.head?_eq_none_iff]

/-- A list without two elements of one key is kept whole. -/
theorem distinctBy_eq_self {xs : List α} (h : (xs.map key).Nodup) : distinctBy key xs = xs := by
  induction xs with
  | nil => rfl
  | cons x xs ih =>
    rw [List.map_cons, List.nodup_cons] at h
    have others : (xs.filter fun y => key y ≠ key x) = xs := by
      rw [List.filter_eq_self]
      intro y hy
      have hyx : key y ≠ key x := fun e => h.1 (e ▸ List.mem_map_of_mem hy)
      simpa using hyx
    rw [distinctBy_cons, others, ih h.2]

/-- One more element is kept if it is the first of its key. -/
theorem distinctBy_concat (xs : List α) (x : α) :
    distinctBy key (xs ++ [x]) =
      if ∃ y ∈ xs, key y = key x then distinctBy key xs else distinctBy key xs ++ [x] := by
  induction xs with
  | nil => rfl
  | cons y ys ih =>
    have same : ∀ a b, key a = key b → decide (key a ≠ key y) = decide (key b ≠ key y) := by
      intro a b h
      rw [h]
    rw [List.cons_append, distinctBy_cons, distinctBy_filter same, ih, distinctBy_cons,
      distinctBy_filter same]
    by_cases hys : ∃ z ∈ ys, key z = key x
    · obtain ⟨z, hz, hzx⟩ := hys
      rw [if_pos ⟨z, hz, hzx⟩, if_pos ⟨z, List.mem_cons_of_mem y hz, hzx⟩]
    · rw [if_neg hys, List.filter_append]
      by_cases hy : key y = key x
      · rw [if_pos ⟨y, List.mem_cons_self, hy⟩, List.filter_cons_of_neg (by simp [hy]),
          List.filter_nil, List.append_nil]
      · have fresh : ¬∃ z ∈ y :: ys, key z = key x := by
          rintro ⟨z, hz, hzx⟩
          rcases List.mem_cons.1 hz with rfl | hz
          · exact hy hzx
          · exact hys ⟨z, hz, hzx⟩
        rw [if_neg fresh, List.filter_cons_of_pos (by simp [Ne.symm hy]), List.filter_nil,
          List.cons_append]

/-- Elements that are kept can be found again by their keys. -/
theorem filterMap_find?_key {xs ys : List α} (h : ys ⊆ distinctBy key xs) :
    (ys.map key).filterMap (fun k => xs.find? fun x => key x = k) = ys := by
  rw [List.filterMap_map]
  calc ys.filterMap ((fun k => xs.find? fun x => key x = k) ∘ key)
      = ys.filterMap some := List.filterMap_congr fun y hy => mem_distinctBy_iff.1 (h hy)
    _ = ys := List.filterMap_some

omit [DecidableEq κ] in
/-- Of elements of one key there is one at most, if no key is repeated. -/
theorem length_le_one_of_key {k : κ} {xs : List α} (h : (xs.map key).Nodup)
    (hk : ∀ x ∈ xs, key x = k) : xs.length ≤ 1 := by
  have same : ∀ k' ∈ xs.map key, k' = k := by
    intro k' hk'
    obtain ⟨x, hx, rfl⟩ := List.mem_map.1 hk'
    exact hk x hx
  rwa [List.eq_replicate_of_mem same, List.nodup_replicate, List.length_map] at h

/-- Two elements are kept exactly if there are two keys. -/
theorem one_lt_length_distinctBy {xs : List α} :
    1 < (distinctBy key xs).length ↔ ∃ x ∈ xs, ∃ y ∈ xs, key x ≠ key y := by
  constructor
  · intro h
    obtain ⟨x, y, rest, hxy⟩ : ∃ x y rest, distinctBy key xs = x :: y :: rest := by
      match hd : distinctBy key xs with
      | [] => simp [hd] at h
      | [_] => simp [hd] at h
      | x :: y :: rest => exact ⟨x, y, rest, rfl⟩
    have hx : x ∈ xs := mem_of_mem_distinctBy (by rw [hxy]; simp)
    have hy : y ∈ xs := mem_of_mem_distinctBy (by rw [hxy]; simp)
    have apart := pairwise_distinctBy key xs
    rw [hxy, List.pairwise_cons] at apart
    exact ⟨x, hx, y, hy, apart.1 y (by simp)⟩
  · rintro ⟨x, hx, y, hy, hne⟩
    obtain ⟨x', hx', ex⟩ := exists_mem_distinctBy key hx
    obtain ⟨y', hy', ey⟩ := exists_mem_distinctBy key hy
    by_contra hlen
    match hd : distinctBy key xs with
    | [] => simp [hd] at hx'
    | [z] =>
      rw [hd, List.mem_singleton] at hx' hy'
      rw [← ex, ← ey, hx', hy'] at hne
      exact hne rfl
    | _ :: _ :: _ => simp [hd] at hlen

/-- Without repetitions every element is there once. -/
theorem nodup_eraseDups {β : Type v} [BEq β] [LawfulBEq β] : (xs : List β) → xs.eraseDups.Nodup
  | [] => List.Pairwise.nil
  | x :: xs => by
      rw [List.eraseDups_cons, List.nodup_cons]
      refine ⟨fun hx => ?_, nodup_eraseDups (xs.filter fun y => !y == x)⟩
      have hx := (List.mem_filter.1 (List.mem_eraseDups.1 hx)).2
      simp at hx
termination_by xs => xs.length
decreasing_by exact Nat.lt_succ_of_le (List.length_filter_le _ _)

/-! ## The classes -/

theorem eraseDups_map (key : α → κ) : (xs : List α) →
    (xs.map key).eraseDups = (distinctBy key xs).map key
  | [] => rfl
  | x :: xs => by
      have others : ((fun k : κ => !k == key x) ∘ key) = fun y => decide (key y ≠ key x) := by
        funext y
        simp [Bool.beq_eq_decide_eq]
      rw [List.map_cons, List.eraseDups_cons, distinctBy_cons, List.map_cons, List.filter_map,
        others, eraseDups_map key (xs.filter fun y => key y ≠ key x)]
termination_by xs => xs.length
decreasing_by exact Nat.lt_succ_of_le (List.length_filter_le _ _)

/-- There is one class for each element kept: all elements of its key. -/
theorem classes_eq_map_distinctBy (xs : List α) :
    classes key xs = (distinctBy key xs).map fun x => xs.filter fun y => key y = key x := by
  unfold classes
  rw [eraseDups_map, List.map_map]
  rfl

theorem length_classes (xs : List α) : (classes key xs).length = (distinctBy key xs).length := by
  rw [classes_eq_map_distinctBy, List.length_map]

/-- The class of an element kept begins with that element. -/
theorem head?_class {x : α} {xs : List α} (h : x ∈ distinctBy key xs) :
    (xs.filter fun y => key y = key x).head? = some x := by
  rw [List.head?_filter]
  exact mem_distinctBy_iff.1 h

/-- The first elements of the classes are the elements kept. -/
theorem filterMap_head?_classes (xs : List α) :
    (classes key xs).filterMap List.head? = distinctBy key xs := by
  rw [classes_eq_map_distinctBy, List.filterMap_map]
  calc (distinctBy key xs).filterMap (List.head? ∘ fun x => xs.filter fun y => key y = key x)
      = (distinctBy key xs).filterMap some :=
        List.filterMap_congr fun x hx => head?_class hx
    _ = distinctBy key xs := List.filterMap_some

end TableMachine
