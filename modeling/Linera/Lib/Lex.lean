import Mathlib

set_option autoImplicit false

/-! Lexicographic order on lists, seen through prefixes.

Ordered key-value stores select the keys that extend a prefix `p` by a range scan
`p ≤ k < u`. The facts below say when such a scan is exact: a prefix is below
everything that extends it, everything squeezed between a prefix and one of its
extensions extends it as well, and a run of greatest elements is a prefix of
everything above it. -/

namespace Lexicographic

variable {α : Type} [LinearOrder α]

theorem cons_lt_cons_iff {a b : α} {l l' : List α} :
    a :: l < b :: l' ↔ a < b ∨ a = b ∧ l < l' := by
  change List.Lex _ _ _ ↔ _
  constructor
  · intro h
    cases h with
    | cons tail => exact Or.inr ⟨rfl, tail⟩
    | rel head => exact Or.inl head
  · rintro (head | ⟨rfl, tail⟩)
    · exact List.Lex.rel head
    · exact List.Lex.cons tail

theorem cons_le_cons_iff {a b : α} {l l' : List α} :
    a :: l ≤ b :: l' ↔ a < b ∨ a = b ∧ l ≤ l' := by
  rw [le_iff_lt_or_eq, cons_lt_cons_iff, le_iff_lt_or_eq, List.cons.injEq]
  constructor
  · rintro ((head | ⟨rfl, tail⟩) | ⟨rfl, rfl⟩)
    · exact Or.inl head
    · exact Or.inr ⟨rfl, Or.inl tail⟩
    · exact Or.inr ⟨rfl, Or.inr rfl⟩
  · rintro (head | ⟨rfl, tail | rfl⟩)
    · exact Or.inl (Or.inl head)
    · exact Or.inl (Or.inr ⟨rfl, tail⟩)
    · exact Or.inr ⟨rfl, rfl⟩

theorem not_cons_le_nil (a : α) (l : List α) : ¬ a :: l ≤ [] := by
  rw [le_iff_lt_or_eq]
  rintro (below | equal)
  · exact List.not_lt_nil _ below
  · exact List.cons_ne_nil a l equal

theorem nil_le (l : List α) : ([] : List α) ≤ l := by
  cases l with
  | nil => exact le_rfl
  | cons a rest => exact le_of_lt List.Lex.nil

theorem append_le_append_iff (q : List α) {l l' : List α} : q ++ l ≤ q ++ l' ↔ l ≤ l' := by
  induction q with
  | nil => rfl
  | cons a rest ih =>
      rw [List.cons_append, List.cons_append, cons_le_cons_iff, ih]
      simp only [lt_irrefl, true_and, false_or]

theorem le_of_isPrefix {p k : List α} (extends_p : p <+: k) : p ≤ k := by
  obtain ⟨rest, rfl⟩ := extends_p
  conv_lhs => rw [← List.append_nil p]
  rw [append_le_append_iff]
  exact nil_le rest

theorem isPrefix_of_le_of_le {p q k : List α} (extends_p : p <+: k) (lower : p ≤ q)
    (upper : q ≤ k) : p <+: q := by
  induction p generalizing q k with
  | nil => exact List.nil_prefix
  | cons a rest ih =>
      obtain ⟨tail, rfl⟩ := extends_p
      cases q with
      | nil => exact absurd lower (not_cons_le_nil a rest)
      | cons b middle =>
          rw [List.cons_append, cons_le_cons_iff] at upper
          rw [cons_le_cons_iff] at lower
          have same_head : b = a := by
            rcases lower with below | ⟨equal, -⟩
            · rcases upper with above | ⟨equal', -⟩
              · exact absurd (below.trans above) (lt_irrefl a)
              · exact absurd below (equal' ▸ lt_irrefl a)
            · exact equal.symm
          subst same_head
          have lower' : rest ≤ middle := by
            rcases lower with below | ⟨-, tail_le⟩
            · exact absurd below (lt_irrefl b)
            · exact tail_le
          have upper' : middle ≤ rest ++ tail := by
            rcases upper with above | ⟨-, tail_le⟩
            · exact absurd above (lt_irrefl b)
            · exact tail_le
          exact List.cons_prefix_cons.mpr ⟨rfl, ih ⟨tail, rfl⟩ lower' upper'⟩

theorem isPrefix_of_top_le {r s : List α} {top : α} (greatest : ∀ x, x ≤ top)
    (all_top : ∀ x ∈ r, x = top) (above : r ≤ s) : r <+: s := by
  induction r generalizing s with
  | nil => exact List.nil_prefix
  | cons a rest ih =>
      cases s with
      | nil => exact absurd above (not_cons_le_nil a rest)
      | cons b tail =>
          have a_top : a = top := all_top a List.mem_cons_self
          rw [cons_le_cons_iff] at above
          rcases above with below | ⟨rfl, tail_le⟩
          · exact absurd (greatest b) (not_le.mpr (a_top ▸ below))
          · exact List.cons_prefix_cons.mpr
              ⟨rfl, ih (fun x mem => all_top x (List.mem_cons_of_mem _ mem)) tail_le⟩

theorem lt_of_isPrefix_append {q r k : List α} {a b : α} (smaller : a < b)
    (extends_p : q ++ a :: r <+: k) : k < q ++ [b] := by
  obtain ⟨tail, rfl⟩ := extends_p
  rw [List.append_assoc, List.cons_append]
  exact List.Lex.append_left (· < ·) (List.Lex.rel smaller) q

/-- Between `q ++ [a]` and `q ++ [b]`, with nothing strictly between `a` and `b`,
only the extensions of `q ++ [a]` remain. -/
theorem isPrefix_of_le_of_lt_succ {q k : List α} {a b : α}
    (between : ∀ x, a ≤ x → x < b → x = a) (lower : q ++ [a] ≤ k) (upper : k < q ++ [b]) :
    q ++ [a] <+: k := by
  induction q generalizing k with
  | nil =>
      cases k with
      | nil => exact absurd lower (not_cons_le_nil a [])
      | cons c tail =>
          rw [List.nil_append, cons_le_cons_iff] at lower
          rw [List.nil_append, cons_lt_cons_iff] at upper
          have c_lt : c < b := by
            rcases upper with below | ⟨rfl, tail_lt⟩
            · exact below
            · exact absurd tail_lt (List.not_lt_nil tail)
          have a_le : a ≤ c := by
            rcases lower with below | ⟨rfl, -⟩
            · exact le_of_lt below
            · exact le_rfl
          rw [between c a_le c_lt]
          exact List.prefix_append [a] tail
  | cons x rest ih =>
      cases k with
      | nil => exact absurd lower (not_cons_le_nil x _)
      | cons c tail =>
          rw [List.cons_append, cons_le_cons_iff] at lower
          rw [List.cons_append, cons_lt_cons_iff] at upper
          have same_head : c = x := by
            rcases lower with below | ⟨equal, -⟩
            · rcases upper with above | ⟨equal', -⟩
              · exact absurd (below.trans above) (lt_irrefl x)
              · exact absurd below (equal' ▸ lt_irrefl x)
            · exact equal.symm
          subst same_head
          have lower' : rest ++ [a] ≤ tail := by
            rcases lower with below | ⟨-, tail_le⟩
            · exact absurd below (lt_irrefl c)
            · exact tail_le
          have upper' : tail < rest ++ [b] := by
            rcases upper with above | ⟨-, tail_lt⟩
            · exact absurd above (lt_irrefl c)
            · exact tail_lt
          rw [List.cons_append]
          exact List.cons_prefix_cons.mpr ⟨rfl, ih lower' upper'⟩

theorem append_singleton_lt_iff {p q : List α} {x y : α} (sameLength : p.length = q.length) :
    p ++ [x] < q ++ [y] ↔ p < q ∨ p = q ∧ x < y := by
  induction p generalizing q with
  | nil =>
      cases q with
      | nil => simp [cons_lt_cons_iff]
      | cons b rest => cases sameLength
  | cons a rest ih =>
      cases q with
      | nil => cases sameLength
      | cons b tail =>
          rw [List.cons_append, List.cons_append, cons_lt_cons_iff, cons_lt_cons_iff,
            ih (Nat.succ.inj sameLength), List.cons.injEq]
          constructor
          · rintro (below | ⟨rfl, tailBelow | ⟨rfl, last⟩⟩)
            · exact Or.inl (Or.inl below)
            · exact Or.inl (Or.inr ⟨rfl, tailBelow⟩)
            · exact Or.inr ⟨⟨rfl, rfl⟩, last⟩
          · rintro ((below | ⟨rfl, tailBelow⟩) | ⟨⟨rfl, rfl⟩, last⟩)
            · exact Or.inl below
            · exact Or.inr ⟨rfl, Or.inl tailBelow⟩
            · exact Or.inr ⟨rfl, Or.inr ⟨rfl, last⟩⟩

end Lexicographic
