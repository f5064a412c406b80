import Chamneul.Spec.StaleWrite
import Mathlib.Tactic.Common

/-! The stale-write guard. A full save writes a guarded column if and only if the instance
holds another value for it than the one it last exchanged with the row. -/

namespace Chamneul.StaleWrite

variable {V : Type}

@[simp] theorem mem_concreteFields (c : Column) : c ∈ concreteFields := by
  cases c <;> decide

theorem mem_guardedAmong {fields : Option (List Column)} {c : Column} :
    c ∈ guardedAmong fields ↔ c ∈ staleWriteGuarded ∧ ∀ names ∈ fields, c ∈ names := by
  cases fields <;> simp [guardedAmong]

/-- The value a save writes for a column, of the one the instance holds. -/
def preSaved (row : Column → V) (now : V) (held : Option V) (c : Column) : V :=
  if c = .updatedAt then now else held.getD (row c)

namespace Instance

variable {row : Column → V} {now : V} {u : Instance V} {c d : Column} {names : List Column}

theorem mem_loaded : c ∈ u.loaded ↔ (u.dict c).isSome := by
  simp [loaded]

@[simp] theorem rememberGuarded_dict : (u.rememberGuarded names).dict = u.dict := rfl

@[simp] theorem setFrom_dict :
    (u.setFrom row names).dict c = if c ∈ names then some (row c) else u.dict c := rfl

@[simp] theorem assign_dict {v : V} :
    (u.assign d v).dict c = if c = d then some v else u.dict c := by
  simp [assign, Function.update_apply]

theorem preSave_dict : (u.preSave row now d).dict c =
    if c = d then some (preSaved row now (u.dict c) c) else u.dict c := by
  unfold preSave
  by_cases hcd : c = d
  · subst hcd
    rw [if_pos rfl]
    split_ifs with hc hloaded
    · simp [preSaved, hc]
    · obtain ⟨v, hv⟩ := Option.isSome_iff_exists.mp hloaded
      simp [preSaved, hc, hv]
    · simp [refreshFromDb, preSaved, hc, Option.not_isSome_iff_eq_none.mp hloaded]
  · split_ifs with hd hloaded
    · simp [hd ▸ hcd]
    · rfl
    · simp [refreshFromDb, hcd]

theorem preSave_baseline (h : c ≠ d ∨ c ∉ staleWriteGuarded) :
    (u.preSave row now d).guardedBaseline c = u.guardedBaseline c := by
  unfold preSave
  split_ifs
  · rfl
  · rfl
  · refine if_neg ?_
    rintro ⟨hc, -⟩
    obtain ⟨hguarded, hnamed⟩ := mem_guardedAmong.mp hc
    exact h.elim (fun hcd => hcd (by simpa using hnamed)) fun hnot => hnot hguarded

/-- `pre_save` on a column twice is as good as once. -/
theorem foldl_preSave_dict (columns : List Column) (u : Instance V) :
    (columns.foldl (preSave row now) u).dict c =
      if c ∈ columns then some (preSaved row now (u.dict c) c) else u.dict c := by
  induction columns generalizing u with
  | nil => simp
  | cons d columns ih =>
    rw [List.foldl_cons, ih, preSave_dict]
    by_cases hcd : c = d
    · by_cases hd : d = .updatedAt <;> simp [hcd, preSaved, hd]
    · simp [hcd]

theorem foldl_preSave_baseline (columns : List Column) (u : Instance V)
    (h : c ∉ columns ∨ c ∉ staleWriteGuarded) :
    (columns.foldl (preSave row now) u).guardedBaseline c = u.guardedBaseline c := by
  induction columns generalizing u with
  | nil => rfl
  | cons d columns ih =>
    rw [List.mem_cons, not_or] at h
    rw [List.foldl_cons, ih _ (h.imp_left And.right), preSave_baseline (h.imp_left And.left)]

theorem lookup_filterMap {value : Column → Option V} (columns : List Column) :
    (columns.filterMap fun c => (value c).map fun v => (c, v)).lookup c =
      if c ∈ columns then value c else none := by
  induction columns with
  | nil => rfl
  | cons d columns ih =>
    by_cases hcd : c = d
    · subst hcd
      cases hv : value c with
      | none => simp [hv, ih]
      | some v => simp [hv]
    · cases hv : value d with
      | none => simp [hv, ih, hcd]
      | some v => simp [hv, ih, hcd, List.lookup_cons, beq_eq_false_iff_ne.mpr hcd]

/-! What a save does to one column. -/

variable [DecidableEq V] {fields : Option (List Column)}

theorem mem_untouched :
    c ∈ u.untouched ↔ (u.guardedBaseline c).isSome ∧ u.dict c = u.guardedBaseline c := by
  simp [untouched]

/-- The columns a save writes: those it names, or else those the instance has loaded, less
the ones that are as remembered. -/
def Writes (u : Instance V) (fields : Option (List Column)) (c : Column) : Prop :=
  match fields with
  | some names => c ∈ names
  | none => (u.dict c).isSome ∧ c ∉ u.untouched

instance : Decidable (u.Writes fields c) :=
  match fields with
  | some names => inferInstanceAs (Decidable (c ∈ names))
  | none => inferInstanceAs (Decidable ((u.dict c).isSome ∧ c ∉ u.untouched))

theorem mem_columns : c ∈ (u.kwargs fields).getD u.loaded ↔ u.Writes fields c := by
  unfold kwargs
  split_ifs with h
  · simp [h.2.1, Writes]
  · cases fields with
    | some names => simp [Writes]
    | none =>
      -- No column is as remembered: the guard has nothing to leave out.
      have hnone : c ∉ u.untouched := by
        intro hc
        refine h ⟨?_, rfl, List.ne_nil_of_mem hc⟩
        exact List.any_eq_true.mpr ⟨c, mem_concreteFields c, (mem_untouched.mp hc).1⟩
      simp [Writes, mem_loaded, hnone]

theorem save_dict : (u.save row now fields).1.dict c =
    if u.Writes fields c then some (preSaved row now (u.dict c) c) else u.dict c := by
  simp only [save, djangoSave, rememberGuarded_dict, foldl_preSave_dict, List.mem_filter,
    mem_concreteFields, mem_columns, true_and, decide_eq_true_eq]

theorem save_set : (u.save row now fields).2.lookup c =
    if u.Writes fields c then some (preSaved row now (u.dict c) c) else none := by
  simp only [save, djangoSave, lookup_filterMap, foldl_preSave_dict, List.mem_filter,
    mem_concreteFields, mem_columns, true_and, decide_eq_true_eq]
  split_ifs <;> rfl

theorem mem_guardedAmong_kwargs (hc : c ∈ staleWriteGuarded) :
    (c ∈ guardedAmong (u.kwargs fields) ∧ ((u.save row now fields).1.dict c).isSome) ↔
      u.Writes fields c := by
  have hdict : ((u.save row now fields).1.dict c).isSome ↔
      u.Writes fields c ∨ (u.dict c).isSome := by
    rw [save_dict]
    split_ifs with hw <;> simp [hw]
  rw [hdict, mem_guardedAmong, ← mem_columns]
  cases u.kwargs fields with
  | none => simp [mem_loaded, hc]
  | some names => simp +contextual [hc]

/-- A guarded column that is written is remembered, and no other one. -/
theorem save_baseline (hc : c ∈ staleWriteGuarded) :
    (u.save row now fields).1.guardedBaseline c =
      ((u.save row now fields).2.lookup c).or (u.guardedBaseline c) := by
  rw [save_set]
  by_cases hw : u.Writes fields c
  · refine (if_pos ((mem_guardedAmong_kwargs hc).mpr hw)).trans ?_
    rw [if_pos hw]
    exact save_dict.trans (if_pos hw)
  · refine (if_neg fun h => hw ((mem_guardedAmong_kwargs hc).mp h)).trans ?_
    rw [if_neg hw]
    exact foldl_preSave_baseline _ u (.inl (by simpa [mem_columns] using hw))

theorem save_baseline_of_not_mem (hc : c ∉ staleWriteGuarded) :
    (u.save row now fields).1.guardedBaseline c = u.guardedBaseline c :=
  (if_neg fun h => hc (mem_guardedAmong.mp h.1).1).trans (foldl_preSave_baseline _ u (.inr hc))

end Instance

/-! What a history says, whatever the instances remember. -/

section

variable [DecidableEq V]

def Op.loads (i : ℕ) : Op V → Bool
  | .load j _ => decide (j = i)
  | _ => false

end

/-- The hidden baseline is, for the guarded columns, what the instance last exchanged. -/
structure Remembers (u : Instance V) (synced : Column → Option V) : Prop where
  guarded : ∀ c ∈ staleWriteGuarded, u.guardedBaseline c = synced c
  other : ∀ c, c ∉ staleWriteGuarded → u.guardedBaseline c = none

section

variable {row : Column → V}

theorem Remembers.refresh {u : Instance V} {synced : Column → Option V}
    (hu : Remembers u synced) (fields : Option (List Column)) :
    Remembers (u.refreshFromDb row fields) fun c =>
      (if c ∈ fields.getD u.loaded then some (row c) else none).or (synced c) := by
  constructor
  · intro c hc
    have hbase : (u.refreshFromDb row fields).guardedBaseline c =
        if c ∈ guardedAmong fields ∧ ((u.setFrom row (fields.getD u.loaded)).dict c).isSome then
          (u.setFrom row (fields.getD u.loaded)).dict c
        else u.guardedBaseline c := rfl
    rw [hbase]
    cases fields with
    | none =>
      by_cases hd : (u.dict c).isSome <;>
        simp [mem_guardedAmong, Instance.mem_loaded, hc, hd, hu.guarded]
    | some names => by_cases hd : c ∈ names <;> simp [mem_guardedAmong, hc, hd, hu.guarded]
  · intro c hc
    exact (if_neg fun hin => hc (mem_guardedAmong.mp hin.1).1).trans (hu.other c hc)

theorem Remembers.save [DecidableEq V] {u : Instance V} {synced : Column → Option V}
    (hu : Remembers u synced) (now : V) (fields : Option (List Column)) :
    Remembers (u.save row now fields).1 fun c =>
      ((u.save row now fields).2.lookup c).or (synced c) := by
  constructor
  · intro c hc
    rw [Instance.save_baseline hc, hu.guarded c hc]
  · intro c hc
    rw [Instance.save_baseline_of_not_mem hc, hu.other c hc]

end

variable [DecidableEq V] {row : Column → V} {past : List (Op V)}

def Op.target : Op V → ℕ
  | .load i _ | .assign i _ _ | .save i _ _ | .refresh i _ => i

end Chamneul.StaleWrite
