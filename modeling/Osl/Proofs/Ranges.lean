/-!
# Ranges without gaps

`Adjoining start stop p xs q` says that the ranges of the members of `xs` follow each other from `p` up
to `q`. Such ranges do not overlap (`apart`), and together they are all that lies in between
(`exists_mem_iff`).
-/

namespace Osl
set_option autoImplicit false

variable {α : Type}

/-- From `p` up to `q` the ranges of the members follow each other, in their order and without gaps. -/
def Adjoining (start stop : α → Nat) (p : Nat) : List α → (q : Nat) → Prop
  | [], q => p = q
  | x :: rest, q => start x = p ∧ p ≤ stop x ∧ Adjoining start stop (stop x) rest q

namespace Adjoining

variable {start stop : α → Nat} {p q r : Nat} {xs : List α}

theorem le (h : Adjoining start stop p xs q) : p ≤ q := by
  induction xs generalizing p with
  | nil => exact Nat.le_of_eq h
  | cons x rest ih => exact Nat.le_trans h.2.1 (ih h.2.2)

/-- Each range lies between the ends. -/
theorem bounds (h : Adjoining start stop p xs q) : ∀ x ∈ xs, p ≤ start x ∧ stop x ≤ q := by
  induction xs generalizing p with
  | nil => exact List.forall_mem_nil _
  | cons x rest ih =>
    obtain ⟨first, forward, later⟩ := h
    refine List.forall_mem_cons.2 ⟨⟨Nat.le_of_eq first.symm, later.le⟩, fun y member => ?_⟩
    have inside := ih later y member
    omega

/-- Each range ends where later ones have not begun. -/
theorem apart (h : Adjoining start stop p xs q) : xs.Pairwise fun x y => stop x ≤ start y := by
  induction xs generalizing p with
  | nil => exact .nil
  | cons x rest ih =>
    obtain ⟨-, -, later⟩ := h
    exact .cons (fun y member => (later.bounds y member).1) (ih later)

/-- What lies between the ends lies in one of the ranges, and nothing else does. -/
theorem exists_mem_iff (h : Adjoining start stop p xs q) :
    (∃ x ∈ xs, start x ≤ r ∧ r < stop x) ↔ p ≤ r ∧ r < q := by
  constructor
  · rintro ⟨x, member, low, high⟩
    have inside := h.bounds x member
    omega
  · rintro ⟨low, high⟩
    induction xs generalizing p with
    | nil =>
      have none : p = q := h
      omega
    | cons x rest ih =>
      obtain ⟨first, -, later⟩ := h
      by_cases here : r < stop x
      · exact ⟨x, List.mem_cons_self, by omega, here⟩
      · obtain ⟨y, member, place⟩ := ih later (by omega)
        exact ⟨y, List.mem_cons_of_mem _ member, place⟩

end Adjoining
end Osl
