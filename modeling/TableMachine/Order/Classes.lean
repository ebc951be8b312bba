/-!
# Lists by key

Two ways to bring the elements of a list together by a key, both in order of first occurrence:
`classes` gathers the elements of each key, `distinctBy` keeps the first element of each key.
-/

namespace TableMachine

universe u v

variable {α : Type u} {κ : Type v} [DecidableEq κ]

/-- The elements gathered by key, the classes in order of first occurrence and the elements of a
class in their order in the list. -/
def classes (key : α → κ) (xs : List α) : List (List α) :=
  (xs.map key).eraseDups.map fun k => xs.filter fun x => key x = k

/-- The first element of each key, in order. -/
def distinctBy (key : α → κ) (xs : List α) : List α :=
  ((xs.map fun x => (key x, x)).eraseDupsBy fun a b => a.1 == b.1).map Prod.snd

/-- Each class is the list of all elements of one key, and each key that occurs has its class. -/
theorem mem_classes {key : α → κ} {xs g : List α} :
    g ∈ classes key xs ↔ ∃ x ∈ xs, g = xs.filter fun y => key y = key x := by
  simp only [classes, List.mem_map, List.mem_eraseDups]
  constructor
  · rintro ⟨k, ⟨x, hx, rfl⟩, rfl⟩
    exact ⟨x, hx, rfl⟩
  · rintro ⟨x, hx, rfl⟩
    exact ⟨key x, ⟨x, hx, rfl⟩, rfl⟩

end TableMachine
