import Mathlib.Data.List.Nodup
import Mathlib.Data.List.Basic
import Mathlib.Data.Fintype.EquivFin

/-! Tables with a unique key. A table keeps its rows in insertion order, and
the fact that no two of them share the key travels with it, so a lookup by key
and membership say the same thing. -/

namespace ReadCommitted

/-- A row type together with the columns its table is unique in. -/
class Keyed (α : Type) (ι : outParam Type) where
  key : α → ι

structure Table (α : Type) {ι : Type} [Keyed α ι] where
  rows : List α
  nodup : (rows.map Keyed.key).Nodup

namespace Table

variable {α ι : Type} [Keyed α ι]

def empty : Table α := ⟨[], List.nodup_nil⟩

instance : Inhabited (Table α) := ⟨empty⟩

instance : Membership α (Table α) := ⟨fun t r => r ∈ t.rows⟩

/-- Some row satisfies `p`: SQL's `EXISTS (SELECT … WHERE p)`. -/
def any (t : Table α) (p : α → Bool) : Bool := t.rows.any p

theorem mem_def (t : Table α) (r : α) : r ∈ t ↔ r ∈ t.rows := Iff.rfl

@[simp] theorem not_mem_empty (r : α) : ¬ r ∈ (empty : Table α) := by
  simp [mem_def, empty]

theorem any_iff (t : Table α) (p : α → Bool) : t.any p = true ↔ ∃ r ∈ t, p r = true := by
  simp [any, mem_def]

theorem any_eq_false_iff (t : Table α) (p : α → Bool) :
    t.any p = false ↔ ∀ r ∈ t, p r = false := by
  simp [any, mem_def]

theorem eq_of_key (t : Table α) {r r' : α} (h : r ∈ t) (h' : r' ∈ t)
    (hk : Keyed.key r = Keyed.key r') : r = r' :=
  List.inj_on_of_nodup_map t.nodup h h' hk

theorem eq_of_rows {t t' : Table α} (h : t.rows = t'.rows) : t = t' := by
  cases t
  cases h
  rfl

variable [DecidableEq ι]

def get? (t : Table α) (k : ι) : Option α := t.rows.find? fun r => decide (Keyed.key r = k)

theorem get?_eq_some {t : Table α} {k : ι} {r : α} :
    t.get? k = some r ↔ r ∈ t ∧ Keyed.key r = k := by
  constructor
  · intro h
    exact ⟨List.mem_of_find?_eq_some h, by simpa using List.find?_some h⟩
  · rintro ⟨hm, rfl⟩
    cases h : t.get? (Keyed.key r) with
    | none =>
      have := List.find?_eq_none.mp h r hm
      simp at this
    | some r' =>
      have hk : Keyed.key r' = Keyed.key r := by simpa using List.find?_some h
      exact congrArg some (t.eq_of_key (List.mem_of_find?_eq_some h) hm hk)

theorem mem_iff_get? {t : Table α} {r : α} : r ∈ t ↔ t.get? (Keyed.key r) = some r := by
  simp [get?_eq_some]

theorem get?_eq_none {t : Table α} {k : ι} :
    t.get? k = none ↔ ∀ r ∈ t, Keyed.key r ≠ k := by
  simp [get?, mem_def]

/-- Some key is not taken. -/
theorem exists_free [Infinite ι] (t : Table α) : ∃ k, t.get? k = none := by
  obtain ⟨k, hk⟩ := Infinite.exists_notMem_finset (t.rows.map Keyed.key).toFinset
  refine ⟨k, get?_eq_none.mpr fun r hr hkey => hk ?_⟩
  exact List.mem_toFinset.mpr (List.mem_map.mpr ⟨r, hr, hkey⟩)

@[simp] theorem get?_empty (k : ι) : (empty : Table α).get? k = none := rfl

/-- `INSERT`. A row whose key is taken changes nothing; the engine reports it
as an integrity error before it comes to that. -/
def insert (t : Table α) (r : α) : Table α :=
  if h : t.get? (Keyed.key r) = none then
    ⟨t.rows ++ [r], by
      rw [List.map_append, List.nodup_append]
      refine ⟨t.nodup, by simp, ?_⟩
      intro k hk k' hk' he
      obtain ⟨r', hr', rfl⟩ := List.mem_map.mp hk
      simp only [List.map_cons, List.map_nil, List.mem_singleton] at hk'
      exact get?_eq_none.mp h r' hr' (he.trans hk')⟩
  else t

/-- `UPDATE … WHERE key = k`, with the assignments of its `SET` clause as `f`. -/
def update (t : Table α) (k : ι) (f : α → α) (hf : ∀ r, Keyed.key (f r) = Keyed.key r) : Table α :=
  ⟨t.rows.map fun r => if Keyed.key r = k then f r else r, by
    have : (t.rows.map fun r => if Keyed.key r = k then f r else r).map Keyed.key =
        t.rows.map Keyed.key := by
      rw [List.map_map]
      refine List.map_congr_left fun r _ => ?_
      simp only [Function.comp]
      split_ifs <;> simp [hf]
    rw [this]
    exact t.nodup⟩

/-- `DELETE … WHERE p`. -/
def delete (t : Table α) (p : α → Bool) : Table α :=
  ⟨t.rows.filter fun r => !p r, t.nodup.sublist (List.filter_sublist.map _)⟩

theorem rows_insert {t : Table α} {r : α} (h : t.get? (Keyed.key r) = none) :
    (t.insert r).rows = t.rows ++ [r] := by
  simp [insert, h]

theorem mem_insert {t : Table α} {r r' : α} (h : t.get? (Keyed.key r) = none) :
    r' ∈ t.insert r ↔ r' ∈ t ∨ r' = r := by
  simp [mem_def, rows_insert h]

theorem mem_insert_of_mem {t : Table α} {r r' : α} (h : r' ∈ t) : r' ∈ t.insert r := by
  unfold insert
  split
  · exact List.mem_append_left _ h
  · exact h

theorem mem_of_mem_insert {t : Table α} {r r' : α} (h : r' ∈ t.insert r) : r' ∈ t ∨ r' = r := by
  unfold insert at h
  split at h
  · simpa [mem_def] using h
  · exact Or.inl h

theorem forall_mem_insert {t : Table α} {r : α} {P : α → Prop} (h : ∀ r' ∈ t, P r') (hr : P r) :
    ∀ r' ∈ t.insert r, P r' := by
  intro r' hr'
  rcases mem_of_mem_insert hr' with hr' | rfl
  · exact h r' hr'
  · exact hr

/-- A column without repetitions has none after a row with a new value is inserted. -/
theorem unique_insert {β : Type} {column : α → β} {t : Table α} {r : α}
    (h : ∀ a ∈ t, ∀ b ∈ t, column a = column b → a = b) (hnew : ∀ a ∈ t, column a ≠ column r) :
    ∀ a ∈ t.insert r, ∀ b ∈ t.insert r, column a = column b → a = b := by
  intro a ha b hb hab
  rcases mem_of_mem_insert ha with hold | hr <;> rcases mem_of_mem_insert hb with hold' | hr'
  · exact h a hold b hold' hab
  · exact absurd (hr' ▸ hab) (hnew a hold)
  · exact absurd (hr ▸ hab.symm) (hnew b hold')
  · rw [hr, hr']

theorem mem_update {t : Table α} {k : ι} {f : α → α} {hf} {r : α} :
    r ∈ t.update k f hf ↔ ∃ r' ∈ t, r = if Keyed.key r' = k then f r' else r' := by
  simp only [mem_def, update, List.mem_map]
  exact ⟨fun ⟨r', h, e⟩ => ⟨r', h, e.symm⟩, fun ⟨r', h, e⟩ => ⟨r', h, e.symm⟩⟩

omit [DecidableEq ι] in
theorem mem_delete {t : Table α} {p : α → Bool} {r : α} :
    r ∈ t.delete p ↔ r ∈ t ∧ p r = false := by
  simp [mem_def, delete]

theorem get?_insert (t : Table α) (r : α) (k : ι) (h : t.get? (Keyed.key r) = none) :
    (t.insert r).get? k = if Keyed.key r = k then some r else t.get? k := by
  split_ifs with hk
  · exact get?_eq_some.mpr ⟨(mem_insert h).mpr (Or.inr rfl), hk⟩
  · cases hg : t.get? k with
    | none =>
      rw [get?_eq_none] at hg ⊢
      intro r' hr'
      rcases (mem_insert h).mp hr' with hm | rfl
      · exact hg r' hm
      · exact hk
    | some r' =>
      rw [get?_eq_some] at hg ⊢
      exact ⟨(mem_insert h).mpr (Or.inl hg.1), hg.2⟩

theorem get?_insert_of_ne (t : Table α) (r : α) {k : ι} (hk : Keyed.key r ≠ k) :
    (t.insert r).get? k = t.get? k := by
  by_cases h : t.get? (Keyed.key r) = none
  · rw [get?_insert t r k h, if_neg hk]
  · simp [insert, h]

/-- A row that is there stays, whether or not the key of the new one is free. -/
theorem get?_insert_of_some {t : Table α} {r r' : α} {k : ι} (h : t.get? k = some r') :
    (t.insert r).get? k = some r' := by
  obtain ⟨hm, hk⟩ := get?_eq_some.mp h
  exact get?_eq_some.mpr ⟨mem_insert_of_mem hm, hk⟩

theorem get?_update (t : Table α) (k k' : ι) (f : α → α) (hf) :
    (t.update k f hf).get? k' = if k' = k then (t.get? k').map f else t.get? k' := by
  cases hg : t.get? k' with
  | none =>
    have hn : (t.update k f hf).get? k' = none := by
      rw [get?_eq_none] at hg ⊢
      intro r hr
      obtain ⟨r', hr', rfl⟩ := mem_update.mp hr
      split_ifs
      · rw [hf]; exact hg r' hr'
      · exact hg r' hr'
    simp [hn]
  | some r =>
    obtain ⟨hm, rfl⟩ := get?_eq_some.mp hg
    split_ifs with hk
    · refine get?_eq_some.mpr ⟨mem_update.mpr ⟨r, hm, by simp [hk]⟩, hf r⟩
    · exact get?_eq_some.mpr ⟨mem_update.mpr ⟨r, hm, by simp [hk]⟩, rfl⟩

theorem get?_delete (t : Table α) (p : α → Bool) (k : ι) :
    (t.delete p).get? k = (t.get? k).filter fun r => !p r := by
  cases hg : t.get? k with
  | none =>
    rw [get?_eq_none] at hg
    refine get?_eq_none.mpr fun r hr => hg r (mem_delete.mp hr).1
  | some r =>
    obtain ⟨hm, rfl⟩ := get?_eq_some.mp hg
    cases hp : p r with
    | true =>
      simp only [Option.filter_some, hp, Bool.not_true, Bool.false_eq_true, if_false]
      refine get?_eq_none.mpr fun r' hr' hk => ?_
      have := t.eq_of_key (mem_delete.mp hr').1 hm hk
      rw [this] at hr'
      simp [mem_delete, hp] at hr'
    | false =>
      simp only [Option.filter_some, hp, Bool.not_false, if_true]
      exact get?_eq_some.mpr ⟨mem_delete.mpr ⟨hm, hp⟩, rfl⟩

/-- Rows found under the same key are the same. -/
theorem eq_of_get? {t : Table α} {k k' : ι} {r r' : α} (h : t.get? k = some r)
    (h' : t.get? k' = some r') (hk : k = k') : r = r' := by
  rw [hk] at h
  exact Option.some.inj (h.symm.trans h')

/-- A row after an `UPDATE` was there before, or is what the update made of one. -/
theorem of_mem_update {t : Table α} {k : ι} {f : α → α} (hf : ∀ r, Keyed.key (f r) = Keyed.key r)
    {r : α} (h : r ∈ t.update k f hf) : r ∈ t ∨ ∃ r₀ ∈ t, Keyed.key r₀ = k ∧ r = f r₀ := by
  obtain ⟨r₀, h₀, rfl⟩ := mem_update.mp h
  split_ifs with hk
  · exact .inr ⟨r₀, h₀, hk, rfl⟩
  · exact .inl h₀

theorem get?_insert_cases {t : Table α} {r r' : α} {k : ι} (h : (t.insert r).get? k = some r') :
    t.get? k = some r' ∨ r' = r ∧ k = Keyed.key r := by
  obtain ⟨hmem, hkey⟩ := get?_eq_some.mp h
  obtain hold | rfl := mem_of_mem_insert hmem
  · exact .inl (get?_eq_some.mpr ⟨hold, hkey⟩)
  · exact .inr ⟨rfl, hkey.symm⟩

theorem get?_update_cases {t : Table α} {k k' : ι} {f : α → α}
    (hf : ∀ r, Keyed.key (f r) = Keyed.key r) {r : α} (h : (t.update k f hf).get? k' = some r) :
    t.get? k' = some r ∨ k' = k ∧ ∃ r₀, t.get? k = some r₀ ∧ r = f r₀ := by
  rw [get?_update] at h
  split_ifs at h with hk
  · subst hk
    obtain ⟨r₀, h₀, rfl⟩ := Option.map_eq_some_iff.mp h
    exact .inr ⟨rfl, r₀, h₀, rfl⟩
  · exact .inl h

theorem isSome_get?_update (t : Table α) (k k' : ι) (f : α → α) (hf) :
    ((t.update k f hf).get? k').isSome = (t.get? k').isSome := by
  rw [get?_update]
  split_ifs
  · exact Option.isSome_map
  · rfl

theorem isSome_get?_insert {t : Table α} {r : α} {k : ι} (h : (t.get? k).isSome = true) :
    ((t.insert r).get? k).isSome = true := by
  obtain ⟨r', hr'⟩ := Option.isSome_iff_exists.mp h
  rw [get?_insert_of_some hr']
  rfl

end Table

end ReadCommitted
