import Chamneul.Proofs.FeedbackSpecs
import Chamneul.Spec.AdviceViews
import Chamneul.Store.RowByRow

/-! What the queries find, one membership lemma each. Ordering does not change what is
found, and `get_object_or_404` finds the one row there is. -/

namespace Chamneul

open ReadCommitted

theorem mem_newestFirst {α : Type} {time : α → Time} {rows : List α} {a : α} :
    a ∈ newestFirst time rows ↔ a ∈ rows :=
  List.mem_insertionSort _

theorem mem_oldestFirst {α : Type} {time : α → Time} {rows : List α} {a : α} :
    a ∈ oldestFirst time rows ↔ a ∈ rows :=
  List.mem_insertionSort _

theorem nodup_newestFirst {α : Type} {time : α → Time} {rows : List α} :
    (newestFirst time rows).Nodup ↔ rows.Nodup :=
  (List.perm_insertionSort _ _).nodup_iff

theorem sorted_newestFirst {α : Type} (time : α → Time) (rows : List α) :
    (newestFirst time rows).Pairwise fun a b => time b ≤ time a :=
  have : Std.Total fun a b : α => time b ≤ time a := ⟨fun _ _ => Nat.le_total _ _⟩
  have : IsTrans α fun a b : α => time b ≤ time a := ⟨fun _ _ _ hab hbc => hbc.trans hab⟩
  List.pairwise_insertionSort _ _

theorem filter_newestFirst {α : Type} (time : α → Time) (p : α → Bool) (rows : List α) :
    (newestFirst time rows).filter p = newestFirst time (rows.filter p) := by
  have : IsTrans α fun a b => time b ≤ time a := ⟨fun _ _ _ hab hbc => hbc.trans hab⟩
  have : Std.Total fun a b : α => time b ≤ time a := ⟨fun _ _ => Nat.le_total _ _⟩
  exact filter_insertionSort p rows

theorem getObjectOr404_eq_ok {α : Type} {rows : List α} {a : α} :
    getObjectOr404 rows = .ok a ↔ rows = [a] := by
  match rows with
  | [] => simp [getObjectOr404]
  | [b] => simp [getObjectOr404]
  | b :: b' :: rows => simp [getObjectOr404]

theorem getObjectOr404_toList {α : Type} (found : Option α) :
    getObjectOr404 found.toList = found.elim (.error .notFound) .ok := by
  cases found <;> rfl

/-- A list without repetition is `[a]` if `a` is all that is in it. -/
theorem eq_singleton_iff {α : Type} {rows : List α} (h : rows.Nodup) {a : α} :
    rows = [a] ↔ a ∈ rows ∧ ∀ b ∈ rows, b = a := by
  rw [← List.perm_singleton, List.perm_ext_iff_of_nodup h (List.nodup_singleton a)]
  simp only [List.mem_singleton]
  constructor
  · intro hall
    exact ⟨(hall a).mpr rfl, fun b => (hall b).mp⟩
  · rintro ⟨ha, hall⟩ b
    exact ⟨hall b, fun hb => hb ▸ ha⟩

theorem rows_nodup {α ι : Type} [Keyed α ι] (t : Table α) : t.rows.Nodup :=
  t.nodup.of_map _

end Chamneul
