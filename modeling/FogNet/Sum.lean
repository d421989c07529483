/-!
# Sums

The sum of some natural numbers, and how the sums of two functions over one list compare.

## Main statements

* `sumOf_append` — the sum of two lists
* `sumOf_map_le`, `sumOf_map_lt` — smaller terms have a smaller sum
* `mul_sumOf_map_le` — terms with a common bound have a sum within as many times the bound
* `sumOf_perm`, `sumOf_sublist` — the order does not matter, and fewer terms have a smaller sum
* `sumOf_map_filter` — what a filter keeps and what it drops make up the whole
-/

namespace FogNet

def sumOf : List Nat → Nat
  | [] => 0
  | n :: rest => n + sumOf rest

variable {α : Type}

@[simp] theorem sumOf_nil : sumOf [] = 0 := rfl

@[simp] theorem sumOf_cons (n : Nat) (l : List Nat) : sumOf (n :: l) = n + sumOf l := rfl

theorem sumOf_append : ∀ l l' : List Nat, sumOf (l ++ l') = sumOf l + sumOf l'
  | [], _ => (Nat.zero_add _).symm
  | n :: l, l' => by
    rw [List.cons_append, sumOf_cons, sumOf_cons, sumOf_append l l', Nat.add_assoc]

/-- The order does not matter. -/
theorem sumOf_perm {l l' : List Nat} (h : l.Perm l') : sumOf l = sumOf l' := by
  induction h with
  | nil => rfl
  | cons n _ ih => rw [sumOf_cons, sumOf_cons, ih]
  | swap n m l => rw [sumOf_cons, sumOf_cons, sumOf_cons, sumOf_cons, Nat.add_left_comm]
  | trans _ _ ih ih' => exact ih.trans ih'

/-- Fewer terms have a smaller sum. -/
theorem sumOf_sublist {l l' : List Nat} (h : l.Sublist l') : sumOf l ≤ sumOf l' := by
  induction h with
  | slnil => exact Nat.le_refl _
  | cons n _ ih => exact Nat.le_trans ih (Nat.le_add_left _ _)
  | cons_cons n _ ih => exact Nat.add_le_add_left ih n

theorem sumOf_flatMap {β : Type} (f : β → List Nat) : ∀ l : List β,
    sumOf (l.flatMap f) = sumOf (l.map fun b => sumOf (f b))
  | [] => rfl
  | b :: l => by
    rw [List.flatMap_cons, sumOf_append, sumOf_flatMap f l, List.map_cons, sumOf_cons]

theorem sumOf_map_filter (p : α → Bool) (f : α → Nat) : ∀ l : List α,
    sumOf ((l.filter p).map f) + sumOf ((l.filter fun x => !p x).map f) = sumOf (l.map f)
  | [] => rfl
  | x :: l => by
    have ih := sumOf_map_filter p f l
    cases hp : p x with
    | true =>
      rw [List.filter_cons_of_pos hp, List.filter_cons_of_neg (by simp [hp])]
      simp only [List.map_cons, sumOf_cons]
      omega
    | false =>
      rw [List.filter_cons_of_neg (by simp [hp]), List.filter_cons_of_pos (by simp [hp])]
      simp only [List.map_cons, sumOf_cons]
      omega

theorem sumOf_map_le {f g : α → Nat} : ∀ {l : List α}, (∀ x ∈ l, f x ≤ g x) →
    sumOf (l.map f) ≤ sumOf (l.map g)
  | [], _ => Nat.le_refl _
  | x :: l, h => by
    have hx := h x List.mem_cons_self
    have hl := sumOf_map_le fun y hy => h y (List.mem_cons_of_mem _ hy)
    exact Nat.add_le_add hx hl

theorem sumOf_map_lt {f g : α → Nat} : ∀ {l : List α}, (∀ x ∈ l, f x ≤ g x) →
    (∃ x ∈ l, f x < g x) → sumOf (l.map f) < sumOf (l.map g)
  | [], _, h => by simp at h
  | x :: l, h, h' => by
    have hrest : ∀ y ∈ l, f y ≤ g y := fun y hy => h y (List.mem_cons_of_mem _ hy)
    obtain ⟨y, hy, hlt⟩ := h'
    rcases List.mem_cons.mp hy with rfl | hy
    · exact Nat.add_lt_add_of_lt_of_le hlt (sumOf_map_le hrest)
    · exact Nat.add_lt_add_of_le_of_lt (h x List.mem_cons_self)
        (sumOf_map_lt hrest ⟨y, hy, hlt⟩)

theorem mul_sumOf_map_le {f : α → Nat} {k bound : Nat} : ∀ {l : List α},
    (∀ x ∈ l, k * f x ≤ bound) → k * sumOf (l.map f) ≤ l.length * bound
  | [], _ => by simp
  | x :: l, h => by
    have hx := h x List.mem_cons_self
    have hl := mul_sumOf_map_le fun y hy => h y (List.mem_cons_of_mem _ hy)
    rw [List.map_cons, sumOf_cons, Nat.mul_add, List.length_cons, Nat.succ_mul, Nat.add_comm]
    exact Nat.add_le_add hl hx

end FogNet
