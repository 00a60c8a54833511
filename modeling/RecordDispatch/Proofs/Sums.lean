import Mathlib.Algebra.BigOperators.Group.List.Basic
import Mathlib.Algebra.Ring.Nat

/-!
# Sums over lists

Lengths and counts are sums (`sum_map_one`, `countP_eq_sum_map`).  A change of
one element changes a sum by what this element adds (`sum_map_modify`), and the
elements may be added up by groups (`sum_map_groups`).
-/

namespace RecordDispatch

variable {α κ : Type}

/-- A length is a sum of ones. -/
theorem sum_map_one (l : List α) : (l.map fun _ => 1).sum = l.length := by
  rw [List.map_const', List.sum_const_nat, Nat.mul_one]

/-- A count is a sum. -/
theorem countP_eq_sum_map (p : α → Bool) (l : List α) :
    l.countP p = (l.map fun a => if p a then 1 else 0).sum := by
  induction l with
  | nil => rfl
  | cons a l ih => rw [List.countP_cons, ih, List.map_cons, List.sum_cons, Nat.add_comm]

/-- A change of one element adds what the new one adds, in place of what the old
one did. -/
theorem sum_map_modify (f : α → Nat) (g : α → α) {l : List α} {i : Nat} {a : α}
    (h : l[i]? = some a) : ((l.modify i g).map f).sum + f a = (l.map f).sum + f (g a) := by
  induction l generalizing i with
  | nil => exact absurd h nofun
  | cons b l ih =>
    cases i with
    | zero =>
      obtain rfl := Option.some.inj h
      rw [List.modify_zero_cons, List.map_cons, List.sum_cons, List.map_cons, List.sum_cons]
      omega
    | succ i =>
      have hrest := ih (List.getElem?_cons_succ ▸ h)
      rw [List.modify_succ_cons, List.map_cons, List.sum_cons, List.map_cons, List.sum_cons]
      omega

/-- A list may be added up by groups, if each of its elements is in one of
them. -/
theorem sum_map_groups [DecidableEq κ] (f : α → Nat) (key : α → κ) {ks : List κ}
    (hks : ks.Nodup) {l : List α} (hl : ∀ a ∈ l, key a ∈ ks) :
    (ks.map fun k => ((l.filter fun a => key a == k).map f).sum).sum = (l.map f).sum := by
  induction l with
  | nil => exact List.sum_map_zero
  | cons a l ih =>
    obtain ⟨ha, hl⟩ := List.forall_mem_cons.mp hl
    -- The first element adds to the sum of its own group alone.
    have hsplit (k : κ) : (((a :: l).filter fun a => key a == k).map f).sum =
        (if key a == k then f a else 0) + ((l.filter fun a => key a == k).map f).sum := by
      rw [List.filter_cons]
      split
      · exact List.sum_cons
      · exact (Nat.zero_add _).symm
    have hown : (ks.map fun k => if key a == k then f a else 0).sum = f a := by
      rw [List.sum_map_eq_nsmul_single (key a) _
        fun k hk _ => if_neg fun h => hk (eq_of_beq h).symm]
      rw [hks.count, if_pos ha, one_nsmul, if_pos (beq_self_eq_true _)]
    rw [funext hsplit, List.sum_map_add, hown, ih hl, List.map_cons, List.sum_cons]

end RecordDispatch
