import Mathlib

/-!
# Lists that are read as maps and tables

A list of pairs is read as a map: a key has the value of the first pair with it.  In a list with
ascending keys no key comes twice.  Such a list is known by its members (`eq_of_mem_iff`), and they
are known by the values of the keys (`lookup_eq_some_iff_mem`, `eq_of_lookup_eq`).

A list is read as a table with a row and a column for every place: the place `i + d * p` is in row
`i` of column `p` if columns have `d` rows (`range_mul`).
-/

namespace QuadProg

theorem range_mul (d n : Nat) :
    List.range (d * n) = (List.range n).flatMap fun p => (List.range d).map (· + d * p) := by
  induction n with
  | zero => rfl
  | succ n ih =>
      rw [Nat.mul_succ, List.range_add, ih, List.range_succ, List.flatMap_append]
      simp [Nat.add_comm]

variable {κ β : Type} [DecidableEq κ] {es fs : List (κ × β)}

theorem lookup_cons_eq (e : κ × β) (es : List (κ × β)) (k : κ) :
    (e :: es).lookup k = if k = e.1 then some e.2 else es.lookup k := by
  rw [List.lookup_cons]
  by_cases h : k = e.1
  · simp [h]
  · have hbeq : (k == e.1) = false := by simpa using h
    rw [hbeq, if_neg h]

section Ascending

variable [Preorder κ]

theorem lookup_eq_none_of_lt {k : κ} (h : ∀ e ∈ es, k < e.1) : es.lookup k = none := by
  refine List.lookup_eq_none_iff.2 fun e he => ?_
  have hlt := h e he
  simpa using hlt.ne

/-- A list that is in order has no key twice. -/
theorem map_filter_eq_lookup (h : es.Pairwise (·.1 < ·.1)) (k : κ) :
    (es.filter (·.1 == k)).map (·.2) = (es.lookup k).toList := by
  induction es with
  | nil => rfl
  | cons e es ih =>
      obtain ⟨he, hes⟩ := List.pairwise_cons.1 h
      rw [lookup_cons_eq]
      by_cases hk : k = e.1
      · have hnone : es.lookup k = none := lookup_eq_none_of_lt fun f hf => hk ▸ he f hf
        rw [List.filter_cons_of_pos (by simpa using hk.symm), List.map_cons, ih hes, hnone,
          if_pos hk]
        rfl
      · rw [List.filter_cons_of_neg (by simpa using Ne.symm hk), ih hes, if_neg hk]

theorem lookup_eq_some_iff_mem (h : es.Pairwise (·.1 < ·.1)) {k : κ} {v : β} :
    es.lookup k = some v ↔ (k, v) ∈ es := by
  rw [← Option.mem_toList, ← map_filter_eq_lookup h]
  simp

omit [DecidableEq κ] in
/-- Lists that are in order and have the same members are the same. -/
theorem eq_of_mem_iff (hes : es.Pairwise (·.1 < ·.1)) (hfs : fs.Pairwise (·.1 < ·.1))
    (h : ∀ e, e ∈ es ↔ e ∈ fs) : es = fs := by
  have hirrefl : Std.Irrefl fun e f : κ × β => e.1 < f.1 := ⟨fun e => lt_irrefl e.1⟩
  have hantisymm : Std.Antisymm fun e f : κ × β => e.1 < f.1 :=
    ⟨fun _ _ hlt hgt => absurd hlt hgt.not_gt⟩
  exact hes.eq_of_mem_iff hfs h

theorem eq_of_lookup_eq (hes : es.Pairwise (·.1 < ·.1)) (hfs : fs.Pairwise (·.1 < ·.1))
    (h : ∀ k, es.lookup k = fs.lookup k) : es = fs := by
  refine eq_of_mem_iff hes hfs fun e => ?_
  rw [← lookup_eq_some_iff_mem hes, ← lookup_eq_some_iff_mem hfs]
  exact Eq.congr_left (h e.1)

end Ascending

end QuadProg
