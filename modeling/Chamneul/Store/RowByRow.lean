import Chamneul.Store.Table
import Mathlib.Data.List.Forall2
import Mathlib.Data.List.Sort
import Mathlib.Data.Option.Basic

/-! Two tables row by row. What a query finds in tables whose rows are related is related
again, and so are the tables after the same change to both. -/

namespace ReadCommitted

variable {α β ι : Type}

section

variable {S : α → β → Prop}

theorem forall₂_orderedInsert {r : α → α → Prop} {r' : β → β → Prop} [DecidableRel r]
    [DecidableRel r'] (hr : ∀ a a' b b', S a b → S a' b' → (r a a' ↔ r' b b')) {a : α} {b : β}
    (hab : S a b) {xs : List α} {ys : List β} (h : List.Forall₂ S xs ys) :
    List.Forall₂ S (xs.orderedInsert r a) (ys.orderedInsert r' b) := by
  induction h with
  | nil => exact .cons hab .nil
  | @cons x y xs ys hxy h ih =>
    simp only [List.orderedInsert_cons, hr a x b y hab hxy]
    split_ifs
    · exact .cons hab (.cons hxy h)
    · exact .cons hxy ih

theorem forall₂_insertionSort {r : α → α → Prop} {r' : β → β → Prop} [DecidableRel r]
    [DecidableRel r'] (hr : ∀ a a' b b', S a b → S a' b' → (r a a' ↔ r' b b')) {xs : List α}
    {ys : List β} (h : List.Forall₂ S xs ys) :
    List.Forall₂ S (xs.insertionSort r) (ys.insertionSort r') := by
  induction h with
  | nil => exact .nil
  | cons hxy h ih => exact forall₂_orderedInsert hr hxy ih

theorem forall₂_filter {p : α → Bool} {q : β → Bool} (hp : ∀ a b, S a b → p a = q b) {xs : List α}
    {ys : List β} (h : List.Forall₂ S xs ys) : List.Forall₂ S (xs.filter p) (ys.filter q) :=
  List.rel_filter (fun a b hab => iff_of_eq (congrArg (· = true) (hp a b hab))) h

theorem forall₂_any {p : α → Bool} {q : β → Bool} (hp : ∀ a b, S a b → p a = q b) {xs : List α}
    {ys : List β} (h : List.Forall₂ S xs ys) : xs.any p = ys.any q := by
  induction h with
  | nil => rfl
  | cons hxy h ih => rw [List.any_cons, List.any_cons, hp _ _ hxy, ih]

theorem forall₂_find? {p : α → Bool} {q : β → Bool} (hp : ∀ a b, S a b → p a = q b) {xs : List α}
    {ys : List β} (h : List.Forall₂ S xs ys) : Option.Rel S (xs.find? p) (ys.find? q) := by
  induction h with
  | nil => exact .none
  | @cons x y xs ys hxy h ih =>
    rw [List.find?_cons, List.find?_cons, hp x y hxy]
    cases q y
    · exact ih
    · exact .some hxy

theorem forall₂_head? {xs : List α} {ys : List β} (h : List.Forall₂ S xs ys) :
    Option.Rel S xs.head? ys.head? := by
  cases h with
  | nil => exact .none
  | cons hxy h => exact .some hxy

/-- What shows the related rows alike shows the lists alike. -/
theorem forall₂_map_eq {γ : Type} {f : α → γ} {g : β → γ} (hf : ∀ a b, S a b → f a = g b)
    {xs : List α} {ys : List β} (h : List.Forall₂ S xs ys) : xs.map f = ys.map g := by
  induction h with
  | nil => rfl
  | cons hxy h ih => rw [List.map_cons, List.map_cons, hf _ _ hxy, ih]

/-- A query for rows that are the same in both finds the same. -/
theorem forall₂_filter_eq {S : α → α → Prop} {p q : α → Bool}
    (hp : ∀ a b, S a b → p a = q b ∧ (p a = true → a = b)) {xs ys : List α}
    (h : List.Forall₂ S xs ys) : xs.filter p = ys.filter q := by
  induction h with
  | nil => rfl
  | @cons x y xs ys hxy h ih =>
    obtain ⟨hpq, heq⟩ := hp x y hxy
    rw [List.filter_cons, List.filter_cons, ← hpq, ih]
    split_ifs with hx
    · rw [heq hx]
    · rfl

theorem rel_map_eq {γ : Type} {f : α → γ} {g : β → γ} (hf : ∀ a b, S a b → f a = g b)
    {x : Option α} {y : Option β} (h : Option.Rel S x y) : x.map f = y.map g := by
  cases h with
  | none => rfl
  | some hxy => exact congrArg some (hf _ _ hxy)

theorem rel_map {γ δ : Type} {T : γ → δ → Prop} {f : α → γ} {g : β → δ}
    (hf : ∀ a b, S a b → T (f a) (g b)) {x : Option α} {y : Option β} (h : Option.Rel S x y) :
    Option.Rel T (x.map f) (y.map g) := by
  cases h with
  | none => exact .none
  | some hxy => exact .some (hf _ _ hxy)

theorem rel_filter {p : α → Bool} {q : β → Bool} (hp : ∀ a b, S a b → p a = q b) {x : Option α}
    {y : Option β} (h : Option.Rel S x y) : Option.Rel S (x.filter p) (y.filter q) := by
  cases h with
  | none => exact .none
  | @some a b hab =>
    rw [Option.filter_some, Option.filter_some, hp a b hab]
    cases q b
    · exact .none
    · exact .some hab

end

/-! Sorting and filtering, in either order. -/

theorem orderedInsert_of_forall_rel {r : α → α → Prop} [DecidableRel r] {a : α} {xs : List α}
    (h : ∀ b ∈ xs, r a b) : xs.orderedInsert r a = a :: xs := by
  cases xs with
  | nil => rfl
  | cons x xs => exact List.orderedInsert_cons_of_le _ _ (h x (List.mem_cons_self ..))

theorem filter_orderedInsert {r : α → α → Prop} [DecidableRel r] [IsTrans α r] (p : α → Bool)
    (a : α) {xs : List α} (h : xs.Pairwise r) :
    (xs.orderedInsert r a).filter p =
      if p a then (xs.filter p).orderedInsert r a else xs.filter p := by
  induction xs with
  | nil => simp [List.filter_cons]
  | cons x xs ih =>
    obtain ⟨hx, hxs⟩ := List.pairwise_cons.mp h
    by_cases hax : r a x
    · -- `a` goes before all of `x :: xs`, so also before what is left of it
      have hle : ∀ b ∈ (x :: xs).filter p, r a b := by
        intro b hb
        rcases List.mem_cons.mp (List.mem_filter.mp hb).1 with rfl | hb
        · exact hax
        · exact IsTrans.trans _ _ _ hax (hx b hb)
      rw [List.orderedInsert_cons_of_le _ _ hax, List.filter_cons, orderedInsert_of_forall_rel hle]
    · rw [List.orderedInsert_of_not_le _ _ hax, List.filter_cons, ih hxs, List.filter_cons]
      split_ifs with hpx hpa
      · exact (List.orderedInsert_of_not_le _ _ hax).symm
      · rfl
      · rfl
      · rfl

theorem filter_insertionSort {r : α → α → Prop} [DecidableRel r] [IsTrans α r] [Std.Total r]
    (p : α → Bool) (xs : List α) : (xs.insertionSort r).filter p = (xs.filter p).insertionSort r := by
  induction xs with
  | nil => rfl
  | cons x xs ih =>
    rw [List.insertionSort_cons, filter_orderedInsert p x (List.pairwise_insertionSort r xs), ih,
      List.filter_cons]
    split_ifs <;> rfl

theorem filterMap_filter_isSome {α β : Type} (f : α → Option β) (rows : List α) :
    (rows.filter fun a => (f a).isSome).filterMap f = rows.filterMap f := by
  rw [List.filterMap_filter]
  refine List.filterMap_congr fun a _ => ?_
  cases f a <;> rfl

/-! Tables. -/

namespace Table

variable [Keyed α ι]

/-- The rows of `t` that satisfy `p`. -/
def restrict (t : Table α) (p : α → Bool) : Table α :=
  ⟨t.rows.filter p, t.nodup.sublist (List.filter_sublist.map _)⟩

@[simp] theorem rows_restrict (t : Table α) (p : α → Bool) : (t.restrict p).rows = t.rows.filter p := rfl

/-- A query for rows among those of `mine`, as one on the restricted table. -/
theorem filter_rows (t : Table α) {mine p q : α → Bool} (hq : ∀ a, q a = (p a && mine a)) :
    t.rows.filter q = (t.restrict mine).rows.filter p := by
  rw [rows_restrict, List.filter_filter]
  exact List.filter_congr fun a _ => hq a

theorem any_restrict (t : Table α) {mine p q : α → Bool} (hq : ∀ a, q a = (p a && mine a)) :
    t.any q = (t.restrict mine).any p := by
  rw [Table.any, Table.any, rows_restrict, List.any_filter]
  exact congrArg t.rows.any (funext fun a => (hq a).trans (Bool.and_comm _ _))

/-- The rows of the two tables, in their order, are related. -/
def Related (S : α → α → Prop) (t t' : Table α) : Prop := List.Forall₂ S t.rows t'.rows

variable [DecidableEq ι] {S : α → α → Prop} {t t' : Table α}

theorem get?_restrict (t : Table α) (p : α → Bool) (k : ι) :
    (t.restrict p).get? k = (t.get? k).filter p := by
  cases hg : t.get? k with
  | none =>
    rw [get?_eq_none] at hg
    exact get?_eq_none.mpr fun r hr => hg r (List.mem_filter.mp hr).1
  | some r =>
    obtain ⟨hm, rfl⟩ := get?_eq_some.mp hg
    cases hp : p r with
    | true =>
      rw [Option.filter_some, hp, if_pos rfl]
      exact get?_eq_some.mpr ⟨List.mem_filter.mpr ⟨hm, hp⟩, rfl⟩
    | false =>
      rw [Option.filter_some, hp, if_neg (by simp), get?_eq_none]
      intro r' hr' hk
      obtain ⟨hr', hp'⟩ := List.mem_filter.mp hr'
      rw [t.eq_of_key hr' hm hk, hp] at hp'
      cases hp'

theorem Related.get? (hkey : ∀ a b, S a b → Keyed.key a = Keyed.key b) (h : Related S t t') (k : ι) :
    Option.Rel S (t.get? k) (t'.get? k) :=
  forall₂_find? (fun a b hab => by rw [hkey a b hab]) h

theorem restrict_insert {p : α → Bool} {r : α} (hr : t.get? (Keyed.key r) = none) (hp : p r = true) :
    (t.insert r).restrict p = (t.restrict p).insert r := by
  have hr' : (t.restrict p).get? (Keyed.key r) = none := by
    rw [get?_restrict, hr, Option.filter_none]
  apply eq_of_rows
  rw [rows_restrict, rows_insert hr, List.filter_append, rows_insert hr', rows_restrict]
  simp [hp]

theorem Related.insert (h : Related S t t') {r r' : α} (hr : t.get? (Keyed.key r) = none)
    (hr' : t'.get? (Keyed.key r') = none) (hS : S r r') : Related S (t.insert r) (t'.insert r') := by
  rw [Related, rows_insert hr, rows_insert hr']
  exact List.rel_append h (.cons hS .nil)

theorem Related.update (h : Related S t t') {k k' : ι} {f g : α → α} {hf hg}
    (hfg : ∀ a b, S a b → S (if Keyed.key a = k then f a else a) (if Keyed.key b = k' then g b else b)) :
    Related S (t.update k f hf) (t'.update k' g hg) :=
  List.rel_map hfg h

/-- The same row goes into both tables, as one of those looked at. -/
theorem Related.restrict_insert {p p' : α → Bool} (h : Related S (t.restrict p) (t'.restrict p'))
    {r r' : α} (hr : t.get? (Keyed.key r) = none) (hr' : t'.get? (Keyed.key r') = none)
    (hp : p r = true) (hp' : p' r' = true) (hS : S r r') :
    Related S ((t.insert r).restrict p) ((t'.insert r').restrict p') := by
  rw [Table.restrict_insert hr hp, Table.restrict_insert hr' hp']
  refine h.insert ?_ ?_ hS
  · rw [get?_restrict, hr, Option.filter_none]
  · rw [get?_restrict, hr', Option.filter_none]

theorem restrict_update {p : α → Bool} {k : ι} {f : α → α} {hf} (hp : ∀ a, p (f a) = p a) :
    (t.update k f hf).restrict p = (t.restrict p).update k f hf := by
  apply eq_of_rows
  change (t.rows.map _).filter p = (t.rows.filter p).map _
  rw [List.filter_map]
  refine congrArg (List.map _) (List.filter_congr fun a _ => ?_)
  simp only [Function.comp]
  split_ifs <;> simp [hp]

/-- An update that does not change which rows are looked at. -/
theorem Related.restrict_update {p p' : α → Bool} (h : Related S (t.restrict p) (t'.restrict p'))
    {k k' : ι} {f g : α → α} (hf : ∀ r, Keyed.key (f r) = Keyed.key r)
    (hg : ∀ r, Keyed.key (g r) = Keyed.key r) (hp : ∀ a, p (f a) = p a) (hp' : ∀ a, p' (g a) = p' a)
    (hfg : ∀ a b, S a b → S (if Keyed.key a = k then f a else a) (if Keyed.key b = k' then g b else b)) :
    Related S ((t.update k f hf).restrict p) ((t'.update k' g hg).restrict p') := by
  rw [Table.restrict_update hp, Table.restrict_update hp']
  exact h.update hfg

/-! Which keys are taken. -/

theorem isSome_insert {r : α} (h : ∀ k, (t.get? k).isSome = (t'.get? k).isSome)
    (hr : t.get? (Keyed.key r) = none) (k : ι) :
    ((t.insert r).get? k).isSome = ((t'.insert r).get? k).isSome := by
  have hr' : t'.get? (Keyed.key r) = none := by
    have hk := h (Keyed.key r)
    rw [hr] at hk
    simpa using hk.symm
  rw [get?_insert _ _ _ hr, get?_insert _ _ _ hr']
  split_ifs
  · rfl
  · exact h k

theorem isSome_update {k k' : ι} {f : α → α} {hf} :
    ((t.update k f hf).get? k').isSome = (t.get? k').isSome := by
  rw [get?_update _ _ _ _ hf]
  split_ifs
  · exact Option.isSome_map
  · rfl

end Table

end ReadCommitted
