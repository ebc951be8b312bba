/-!
# Finite sets of an ordered type

A `SortedSet` is a strictly ascending list. Since each finite set has exactly one such list, two
sets with the same members are equal as values (`SortedSet.ext`), so a set can be a field of a key,
be compared by `=`, and be an element of another set.

**Main statements.** `mem_insert`, `mem_ofList` and `mem_union` say what each operation does to
membership; `ext` is extensionality; `compare` on sets is the lexicographic order of their lists and
is lawful whenever the order of the elements is.
-/

namespace TableMachine

universe u

/-- A finite set, kept as its strictly ascending list of members. -/
structure SortedSet (α : Type u) [Ord α] where
  /-- The members in ascending order. -/
  toList : List α
  /-- Each member is below all that follow it. -/
  ascending : toList.Pairwise fun a b => compare a b = .lt

namespace SortedSet

variable {α : Type u} [Ord α]

instance : Membership α (SortedSet α) where
  mem s a := a ∈ s.toList

instance : EmptyCollection (SortedSet α) where
  emptyCollection := ⟨[], .nil⟩

instance : Inhabited (SortedSet α) where
  default := ∅

instance [DecidableEq α] : DecidableEq (SortedSet α) := fun s t =>
  decidable_of_iff (s.toList = t.toList) <| by
    cases s
    cases t
    simp

instance [DecidableEq α] (a : α) (s : SortedSet α) : Decidable (a ∈ s) :=
  inferInstanceAs (Decidable (a ∈ s.toList))

instance : HasSubset (SortedSet α) where
  Subset s t := ∀ a ∈ s.toList, a ∈ t

instance [DecidableEq α] (s t : SortedSet α) : Decidable (s ⊆ t) :=
  inferInstanceAs (Decidable (∀ a ∈ s.toList, a ∈ t))

/-- Sets are ordered as their ascending lists are: lexicographically, a shorter list below any list
that it begins. -/
instance : Ord (SortedSet α) where
  compare s t := compare s.toList t.toList

/-- The number of members. -/
def size (s : SortedSet α) : Nat :=
  s.toList.length

/-- Whether the set has no member. -/
def isEmpty (s : SortedSet α) : Bool :=
  s.toList.isEmpty

theorem mem_def {a : α} {s : SortedSet α} : a ∈ s ↔ a ∈ s.toList :=
  Iff.rfl

theorem subset_def {s t : SortedSet α} : s ⊆ t ↔ ∀ a ∈ s, a ∈ t :=
  Iff.rfl

@[simp]
theorem not_mem_empty (a : α) : a ∉ (∅ : SortedSet α) :=
  List.not_mem_nil

@[simp]
theorem toList_empty : (∅ : SortedSet α).toList = [] :=
  rfl

theorem toList_inj {s t : SortedSet α} : s.toList = t.toList ↔ s = t := by
  cases s
  cases t
  simp

/-! ## Insertion -/

/-- Puts an element into an ascending list, before the first element above it. An element that is
already there is kept as it is. -/
def insertInto (a : α) : List α → List α
  | [] => [a]
  | b :: rest =>
    match compare a b with
    | .lt => a :: b :: rest
    | .eq => b :: rest
    | .gt => b :: insertInto a rest

/-! ## Merging -/

/-- Writes an element at its place into an ascending list and lets `rest` continue after it. -/
def mergeOne (a : α) (rest : List α → List α) : List α → List α
  | [] => a :: rest []
  | b :: bs =>
    match compare a b with
    | .lt => a :: rest (b :: bs)
    | .eq => a :: rest bs
    | .gt => b :: mergeOne a rest bs

/-- Merges two ascending lists into one, in one pass over both. -/
def merge (xs ys : List α) : List α :=
  xs.foldr mergeOne id ys

section Lawful

variable [Std.TransOrd α] [Std.LawfulEqOrd α]

omit [Std.TransOrd α] in
theorem mem_insertInto {a x : α} {xs : List α} : x ∈ insertInto a xs ↔ x = a ∨ x ∈ xs := by
  induction xs with
  | nil => simp [insertInto]
  | cons b rest ih =>
    unfold insertInto
    split
    · simp
    · next h =>
      have : a = b := Std.LawfulEqOrd.eq_of_compare h
      subst this
      simp
    · simp only [List.mem_cons, ih]
      exact or_left_comm

theorem pairwise_insertInto {a : α} {xs : List α}
    (h : xs.Pairwise fun a b => compare a b = .lt) :
    (insertInto a xs).Pairwise fun a b => compare a b = .lt := by
  induction xs with
  | nil => simp [insertInto]
  | cons b rest ih =>
    obtain ⟨below, tail⟩ := List.pairwise_cons.1 h
    unfold insertInto
    split
    · next hab =>
      refine List.pairwise_cons.2 ⟨fun x hx => ?_, h⟩
      rcases List.mem_cons.1 hx with rfl | hx
      · exact hab
      · exact Std.TransCmp.lt_trans hab (below x hx)
    · exact h
    · next hab =>
      refine List.pairwise_cons.2 ⟨fun x hx => ?_, ih tail⟩
      rcases mem_insertInto.1 hx with rfl | hx
      · exact Std.OrientedCmp.lt_of_gt hab
      · exact below x hx

omit [Std.TransOrd α] in
theorem mem_mergeOne {a x : α} {rest : List α → List α} {P : Prop} {ys : List α}
    (h : ∀ zs, x ∈ rest zs ↔ P ∨ x ∈ zs) : x ∈ mergeOne a rest ys ↔ (x = a ∨ P) ∨ x ∈ ys := by
  induction ys with
  | nil => simp [mergeOne, h]
  | cons b bs ih =>
    unfold mergeOne
    split
    · simp [h, or_assoc]
    · next hab =>
      have : a = b := Std.LawfulEqOrd.eq_of_compare hab
      subst this
      simp only [List.mem_cons, h]
      exact ⟨fun hx => hx.elim (.inl ∘ .inl) (Or.imp .inr .inr),
        fun hx => hx.elim (Or.imp_right .inl) (fun hx => hx.elim .inl (.inr ∘ .inr))⟩
    · simp only [List.mem_cons, ih]
      exact or_left_comm

omit [Std.TransOrd α] in
theorem mem_merge {x : α} {xs ys : List α} : x ∈ merge xs ys ↔ x ∈ xs ∨ x ∈ ys := by
  unfold merge
  induction xs generalizing ys with
  | nil => simp
  | cons a xs ih => simpa using mem_mergeOne (a := a) fun zs => @ih zs

theorem pairwise_mergeOne {a : α} {rest : List α → List α} {P : α → Prop} {ys : List α}
    (hmem : ∀ x zs, x ∈ rest zs ↔ P x ∨ x ∈ zs)
    (hrest : ∀ zs, zs.Pairwise (fun a b => compare a b = .lt) →
      (rest zs).Pairwise fun a b => compare a b = .lt)
    (hP : ∀ x, P x → compare a x = .lt) (h : ys.Pairwise fun a b => compare a b = .lt) :
    (mergeOne a rest ys).Pairwise fun a b => compare a b = .lt := by
  induction ys with
  | nil =>
    refine List.pairwise_cons.2 ⟨fun x hx => ?_, hrest [] .nil⟩
    exact hP x (((hmem x []).1 hx).resolve_right List.not_mem_nil)
  | cons b bs ih =>
    obtain ⟨below, tail⟩ := List.pairwise_cons.1 h
    unfold mergeOne
    split
    · next hab =>
      refine List.pairwise_cons.2 ⟨fun x hx => ?_, hrest _ h⟩
      rcases (hmem x _).1 hx with hp | hx
      · exact hP x hp
      · rcases List.mem_cons.1 hx with rfl | hx
        · exact hab
        · exact Std.TransCmp.lt_trans hab (below x hx)
    · next hab =>
      have : a = b := Std.LawfulEqOrd.eq_of_compare hab
      subst this
      refine List.pairwise_cons.2 ⟨fun x hx => ?_, hrest _ tail⟩
      exact ((hmem x _).1 hx).elim (hP x) (below x)
    · next hab =>
      have hba : compare b a = .lt := Std.OrientedCmp.lt_of_gt hab
      refine List.pairwise_cons.2 ⟨fun x hx => ?_, ih tail⟩
      rcases (mem_mergeOne fun zs => hmem x zs).1 hx with (rfl | hp) | hx
      · exact hba
      · exact Std.TransCmp.lt_trans hba (hP x hp)
      · exact below x hx

theorem pairwise_merge {xs ys : List α} (hx : xs.Pairwise fun a b => compare a b = .lt)
    (hy : ys.Pairwise fun a b => compare a b = .lt) :
    (merge xs ys).Pairwise fun a b => compare a b = .lt := by
  induction xs generalizing ys with
  | nil => exact hy
  | cons a xs ih =>
    obtain ⟨below, tail⟩ := List.pairwise_cons.1 hx
    exact pairwise_mergeOne (fun _ _ => mem_merge) (fun _ h => ih tail h) below hy

/-- The set with one more member. -/
protected def insert (a : α) (s : SortedSet α) : SortedSet α where
  toList := insertInto a s.toList
  ascending := pairwise_insertInto s.ascending

instance : Insert α (SortedSet α) where
  insert := SortedSet.insert

/-- The set of the elements of a list, in whatever order and however often they occur in it. -/
def ofList (xs : List α) : SortedSet α :=
  xs.foldr insert ∅

instance : Singleton α (SortedSet α) where
  singleton a := ofList [a]

/-- The set of the members of either set. -/
protected def union (s t : SortedSet α) : SortedSet α where
  toList := merge s.toList t.toList
  ascending := pairwise_merge s.ascending t.ascending

instance : Union (SortedSet α) where
  union := SortedSet.union

/-! ## Membership -/

@[simp]
theorem mem_insert {a x : α} {s : SortedSet α} : x ∈ insert a s ↔ x = a ∨ x ∈ s :=
  mem_insertInto

@[simp]
theorem mem_ofList {x : α} {xs : List α} : x ∈ ofList xs ↔ x ∈ xs := by
  unfold ofList
  induction xs with
  | nil => simp
  | cons a rest ih => simp [ih]

@[simp]
theorem mem_singleton {a x : α} : x ∈ ({a} : SortedSet α) ↔ x = a := by
  simp [singleton]

@[simp]
theorem mem_union {x : α} {s t : SortedSet α} : x ∈ s ∪ t ↔ x ∈ s ∨ x ∈ t :=
  mem_merge

/-! ## Extensionality -/

omit [Std.TransOrd α] in
theorem nodup_toList (s : SortedSet α) : s.toList.Nodup :=
  s.ascending.imp fun {a b} h hab => by
    subst hab
    simp [Std.ReflCmp.compare_self] at h

/-- An ascending list is determined by its members. -/
theorem eq_of_mem_iff {xs ys : List α} (hx : xs.Pairwise fun a b => compare a b = .lt)
    (hy : ys.Pairwise fun a b => compare a b = .lt) (h : ∀ a, a ∈ xs ↔ a ∈ ys) : xs = ys := by
  induction xs generalizing ys with
  | nil =>
    cases ys with
    | nil => rfl
    | cons y ys => exact absurd ((h y).2 (by simp)) (by simp)
  | cons x xs ih =>
    cases ys with
    | nil => exact absurd ((h x).1 (by simp)) (by simp)
    | cons y ys =>
      obtain ⟨hx₁, hx₂⟩ := List.pairwise_cons.1 hx
      obtain ⟨hy₁, hy₂⟩ := List.pairwise_cons.1 hy
      have head : x = y := by
        rcases List.mem_cons.1 ((h x).1 (by simp)) with e | hxy
        · exact e
        rcases List.mem_cons.1 ((h y).2 (by simp)) with e | hyx
        · exact e.symm
        have cycle := Std.TransCmp.lt_trans (hx₁ y hyx) (hy₁ x hxy)
        simp [Std.ReflCmp.compare_self] at cycle
      subst head
      have fresh : ∀ {zs : List α}, (∀ a ∈ zs, compare x a = .lt) → x ∉ zs := fun hz hm => by
        have := hz x hm
        simp [Std.ReflCmp.compare_self] at this
      congr 1
      refine ih hx₂ hy₂ fun a => ⟨fun ha => ?_, fun ha => ?_⟩
      · rcases List.mem_cons.1 ((h a).1 (List.mem_cons_of_mem x ha)) with rfl | ha'
        · exact absurd ha (fresh hx₁)
        · exact ha'
      · rcases List.mem_cons.1 ((h a).2 (List.mem_cons_of_mem x ha)) with rfl | ha'
        · exact absurd ha (fresh hy₁)
        · exact ha'

/-- Sets with the same members are equal. -/
@[ext]
theorem ext {s t : SortedSet α} (h : ∀ a, a ∈ s ↔ a ∈ t) : s = t :=
  toList_inj.1 (eq_of_mem_iff s.ascending t.ascending h)

@[simp]
theorem ofList_toList (s : SortedSet α) : ofList s.toList = s :=
  ext fun _ => mem_ofList

@[simp]
theorem empty_union (s : SortedSet α) : ∅ ∪ s = s :=
  ext fun _ => by simp

@[simp]
theorem union_empty (s : SortedSet α) : s ∪ ∅ = s :=
  ext fun _ => by simp

theorem union_comm (s t : SortedSet α) : s ∪ t = t ∪ s :=
  ext fun _ => by simp [or_comm]

theorem union_assoc (s t r : SortedSet α) : s ∪ t ∪ r = s ∪ (t ∪ r) :=
  ext fun _ => by simp [or_assoc]

@[simp]
theorem union_self (s : SortedSet α) : s ∪ s = s :=
  ext fun _ => by simp

theorem union_subset {s t r : SortedSet α} : s ∪ t ⊆ r ↔ s ⊆ r ∧ t ⊆ r := by
  simp only [subset_def, mem_union]
  exact ⟨fun h => ⟨fun a ha => h a (.inl ha), fun a ha => h a (.inr ha)⟩,
    fun h a ha => ha.elim (h.1 a) (h.2 a)⟩

/-- The order of sets is transitive and oriented. -/
instance : Std.TransOrd (SortedSet α) :=
  inferInstanceAs <| Std.TransCmp <| compareOn (@SortedSet.toList α _)

/-- Only equal sets compare as equal. -/
instance : Std.LawfulEqOrd (SortedSet α) where
  compare_self := @Std.ReflCmp.compare_self _ (compareOn (@SortedSet.toList α _)) _
  eq_of_compare {_ _} h := toList_inj.1 (Std.LawfulEqOrd.eq_of_compare h)

end Lawful

end SortedSet

end TableMachine
