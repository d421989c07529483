/-!
# How many are left

Searches that never return to what they have met end because fewer and fewer elements of a fixed
list are left. `remaining` is that count.

## Main statements

* `remaining_lt` — meeting an element of the list for the first time leaves fewer
* `remaining_append_le` — meeting several elements leaves as many fewer
-/

namespace FogNet

variable {α : Type}

theorem length_filter_le {p q : α → Bool} : ∀ {l : List α},
    (∀ x ∈ l, p x = true → q x = true) → (l.filter p).length ≤ (l.filter q).length
  | [], _ => by simp
  | x :: l, h => by
    have hl := length_filter_le fun y hy => h y (List.mem_cons_of_mem _ hy)
    have hx := h x List.mem_cons_self
    cases hp : p x with
    | true => simpa [hp, hx hp] using hl
    | false =>
      rw [List.filter_cons_of_neg (by simp [hp])]
      refine Nat.le_trans hl ?_
      cases hq : q x <;> simp [hq]

theorem length_filter_lt {p q : α → Bool} : ∀ {l : List α},
    (∀ x ∈ l, p x = true → q x = true) → (∃ x ∈ l, q x = true ∧ p x = false) →
      (l.filter p).length < (l.filter q).length
  | [], _, h => by simp at h
  | x :: l, h, h' => by
    have htail : ∀ y ∈ l, p y = true → q y = true := fun y hy => h y (List.mem_cons_of_mem _ hy)
    have hle := length_filter_le htail
    obtain ⟨y, hy, hq, hp⟩ := h'
    rcases List.mem_cons.mp hy with rfl | hy
    · simp [hq, hp]
      omega
    · have hlt := length_filter_lt htail ⟨y, hy, hq, hp⟩
      have hx := h x List.mem_cons_self
      cases hpx : p x with
      | true => simpa [hpx, hx hpx] using hlt
      | false =>
        rw [List.filter_cons_of_neg (by simp [hpx])]
        refine Nat.lt_of_lt_of_le hlt ?_
        cases hqx : q x <;> simp [hqx]

/-- How many elements of a list are not met yet. -/
def remaining [BEq α] (all met : List α) : Nat := (all.filter fun x => !met.contains x).length

variable [BEq α] [LawfulBEq α]

/-- Meeting an element of the list for the first time leaves fewer. -/
theorem remaining_lt {all met met' : List α} (h : met ⊆ met') {x : α} (hx : x ∈ all)
    (hnew : x ∉ met) (hmet : x ∈ met') : remaining all met' < remaining all met := by
  refine length_filter_lt (fun y _ hy => ?_) ⟨x, hx, ?_, ?_⟩
  · simp only [Bool.not_eq_eq_eq_not, Bool.not_true, List.contains_eq_mem,
      decide_eq_false_iff_not] at *
    exact fun hm => hy (h hm)
  · simpa using hnew
  · simpa using hmet

/-- Meeting several elements of the list for the first time leaves as many fewer. -/
theorem remaining_append_le {all : List α} : ∀ {new met : List α}, new.Nodup →
    (∀ x ∈ new, x ∈ all ∧ x ∉ met) →
      remaining all (met ++ new) + new.length ≤ remaining all met
  | [], met, _, _ => by simp
  | x :: new, met, hn, hnew => by
    obtain ⟨hx, hn⟩ := List.nodup_cons.mp hn
    obtain ⟨hall, hmet⟩ := hnew x List.mem_cons_self
    have hlt : remaining all (met ++ [x]) < remaining all met :=
      remaining_lt (List.subset_append_left met [x]) hall hmet
        (List.mem_append_right met List.mem_cons_self)
    have hlater : ∀ y ∈ new, y ∈ all ∧ y ∉ met ++ [x] := by
      intro y hy
      refine ⟨(hnew y (List.mem_cons_of_mem _ hy)).1, fun hm => ?_⟩
      rcases List.mem_append.mp hm with hm | hm
      · exact (hnew y (List.mem_cons_of_mem _ hy)).2 hm
      · exact hx (List.mem_singleton.mp hm ▸ hy)
    have ih := remaining_append_le hn hlater
    rw [List.append_assoc, List.singleton_append] at ih
    rw [List.length_cons]
    omega

theorem nodup_eraseDups : ∀ l : List α, l.eraseDups.Nodup
  | [] => by simp
  | x :: l => by
    rw [List.eraseDups_cons, List.nodup_cons]
    exact ⟨by simp, nodup_eraseDups _⟩
termination_by l => l.length
decreasing_by exact Nat.lt_succ_of_le (List.length_filter_le _ _)

end FogNet
