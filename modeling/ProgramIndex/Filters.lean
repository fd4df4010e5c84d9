/- Filters that are asked in order until one refuses. `asked` gives the places of the filters
   that are asked about an item: those whose predecessors all accept it (`mem_asked`). -/
namespace ProgramIndex.Filters

/-- Whether all filters accept an item. -/
def accept {α : Type} (filters : List (α → Bool)) (a : α) : Bool := filters.all (· a)

def asked {α : Type} (filters : List (α → Bool)) (a : α) : List Nat :=
  List.range (min filters.length ((filters.takeWhile (· a)).length + 1))

theorem le_length_takeWhile {α : Type} (p : α → Bool) : ∀ (xs : List α) (k : Nat), k ≤ xs.length →
    (k ≤ (xs.takeWhile p).length ↔ ∀ x ∈ xs.take k, p x = true)
  | xs, 0, _ => by simp
  | [], k + 1, h => by simp at h
  | x :: xs, k + 1, h => by
    have ih := le_length_takeWhile p xs k (by simpa using h)
    by_cases hx : p x = true
    · simp [hx, ih]
    · simp [hx]

theorem mem_asked {α : Type} (filters : List (α → Bool)) (a : α) (k : Nat) :
    k ∈ asked filters a ↔ k < filters.length ∧ ∀ f ∈ filters.take k, f a = true := by
  simp only [asked, List.mem_range]
  constructor
  · intro h
    exact ⟨by omega, (le_length_takeWhile _ filters k (by omega)).1 (by omega)⟩
  · rintro ⟨hk, hall⟩
    have := (le_length_takeWhile _ filters k (by omega)).2 hall
    omega

end ProgramIndex.Filters
