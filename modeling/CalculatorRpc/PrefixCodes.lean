import Mathlib.Data.List.Basic

/- Cutting a list into pieces of a prefix-free kind. Such a cut is unique as far
   as it goes, whatever the pieces are made of. -/
namespace PrefixCodes

variable {α : Type}

def PrefixFree (Piece : List α → Prop) : Prop :=
  ∀ p q x y, Piece p → Piece q → p ++ x = q ++ y → p = q

/-- When nothing more can be cut off `y`, every cut of the same list follows the
    one that ends in `y`. -/
theorem cut_follows {Piece : List α → Prop} (free : PrefixFree Piece)
    {ps qs : List (List α)} {x y : List α} (pieces : ∀ p ∈ ps, Piece p)
    (others : ∀ q ∈ qs, Piece q) (same : ps.flatten ++ x = qs.flatten ++ y)
    (stuck : ∀ p, p <+: y → ¬ Piece p) :
    ∃ more, qs = ps ++ more ∧ x = more.flatten ++ y := by
  induction ps generalizing qs with
  | nil => exact ⟨qs, rfl, by simpa using same⟩
  | cons p ps ih =>
    have piece := pieces p (by simp)
    cases qs with
    | nil =>
      simp only [List.flatten_cons, List.flatten_nil, List.nil_append, List.append_assoc] at same
      exact absurd piece (stuck p ⟨_, same⟩)
    | cons q qs =>
      simp only [List.flatten_cons, List.append_assoc] at same
      have first := free p q _ _ piece (others q (by simp)) same
      subst q
      obtain ⟨more, eq, rest⟩ := ih (fun r hr => pieces r (by simp [hr]))
        (fun r hr => others r (by simp [hr])) (List.append_cancel_left same)
      exact ⟨more, by rw [eq]; rfl, rest⟩

end PrefixCodes
