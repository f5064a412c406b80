import Mathlib.Data.List.Sort
import Mathlib.Data.List.Perm.Basic

/-! Reading an ordered query page by page. Each page is a query of its own, and rows that
tie on the `ORDER BY` keys may come in another order each time. -/

namespace Paging

variable {α : Type} (before : α → α → Prop)

/-- What `SELECT … ORDER BY` may answer. `before a b` says that the keys let `a` come before
`b`; rows that tie are each before the other. -/
structure IsAnswer (rows answer : List α) : Prop where
  perm : answer.Perm rows
  sorted : answer.Pairwise before

/-- `LIMIT size OFFSET k * size`. -/
def page (size k : ℕ) (answer : List α) : List α := (answer.drop (k * size)).take size

/-- The first `n` pages one after the other, each from the answer to its own query. -/
def concat (size n : ℕ) (answers : ℕ → List α) : List α :=
  (List.range n).flatMap fun k => page size k (answers k)

section

variable [DecidableRel before]

/-- How many rows come before `a` in every answer. -/
def ahead (rows : List α) (a : α) : ℕ := rows.countP fun b => !decide (before a b)

/-- How many rows may come before `a`, with `a` and what ties with it. -/
def upTo (rows : List α) (a : α) : ℕ := rows.countP fun b => decide (before b a)

/-- Some rows that tie lie on both sides of a page's end. -/
def Straddles (size : ℕ) (rows : List α) : Prop :=
  ∃ a ∈ rows, ∃ k, ahead before rows a < k * size ∧ k * size < upTo before rows a

end

variable {before} {rows l l' : List α} {size n : ℕ}

/-! Pages of one answer. -/

theorem mem_page {k : ℕ} {a : α} : a ∈ page size k l ↔
    ∃ (i : ℕ) (h : i < l.length), l[i] = a ∧ k * size ≤ i ∧ i < (k + 1) * size := by
  rw [Nat.succ_mul]
  constructor
  · intro ha
    obtain ⟨j, hj, rfl⟩ := List.mem_iff_getElem.mp ha
    simp only [page, List.length_take, List.length_drop] at hj
    exact ⟨k * size + j, by omega, by simp [page], by omega, by omega⟩
  · rintro ⟨i, hi, rfl, hlo, hhi⟩
    refine List.mem_iff_getElem.mpr ⟨i - k * size, ?_, ?_⟩
    · simp only [page, List.length_take, List.length_drop]
      omega
    · have : k * size + (i - k * size) = i := by omega
      simp [page, this]

theorem nodup_page (hl : l.Nodup) (k : ℕ) : (page size k l).Nodup :=
  (hl.sublist (List.drop_sublist _ _)).sublist (List.take_sublist _ _)

theorem concat_const : concat size n (fun _ => l) = l.take (n * size) := by
  induction n with
  | zero => simp [concat]
  | succ n ih =>
    rw [concat, List.range_succ, List.flatMap_append, ← concat, ih, Nat.succ_mul, List.take_add]
    simp [page]

/-! Where a row may stand in an answer. -/

/-- In a sorted list, what is closed downwards holds of a first part of it. -/
theorem lt_countP_iff {p : α → Bool} (hp : ∀ a b, before a b → p b = true → p a = true) :
    ∀ {l : List α}, l.Pairwise before → ∀ (i : ℕ) (h : i < l.length),
      (p l[i] = true ↔ i < l.countP p) := by
  intro l
  induction l with
  | nil => intro _ i h; simp at h
  | cons a l ih =>
    intro hl i h
    rw [List.pairwise_cons] at hl
    by_cases ha : p a = true
    · rw [List.countP_cons_of_pos ha]
      cases i with
      | zero => simpa using ha
      | succ i =>
        have := ih hl.2 i (by simpa using h)
        simp only [List.getElem_cons_succ, this]
        omega
    · have hnone : ∀ b ∈ a :: l, ¬ p b = true := by
        intro b hb
        rcases List.mem_cons.mp hb with rfl | hb
        · exact ha
        · exact fun hpb => ha (hp a b (hl.1 b hb) hpb)
      rw [List.countP_eq_zero.mpr hnone]
      simpa using hnone _ (List.getElem_mem h)

theorem IsAnswer.swap {u v : List α} {x y : α} (hl : IsAnswer before rows (u ++ x :: y :: v))
    (hyx : before y x) : IsAnswer before rows (u ++ y :: x :: v) := by
  refine ⟨((List.Perm.swap x y v).append_left u).trans hl.perm, ?_⟩
  have hs := hl.sorted
  simp only [List.pairwise_append, List.pairwise_cons, List.mem_cons, forall_eq_or_imp] at hs ⊢
  obtain ⟨hu, ⟨⟨-, hx⟩, hy, hv⟩, huv⟩ := hs
  exact ⟨hu, ⟨⟨hyx, hy⟩, hx, hv⟩, fun a ha => ⟨(huv a ha).2.1, (huv a ha).1, (huv a ha).2.2⟩⟩

section

variable [DecidableRel before] [IsTrans α before]

theorem IsAnswer.lt_upTo_iff (hl : IsAnswer before rows l) (a : α) (i : ℕ) (h : i < l.length) :
    before l[i] a ↔ i < upTo before rows a := by
  have hp : ∀ b c, before b c → decide (before c a) = true → decide (before b a) = true := by
    intro b c hbc hca
    simpa using IsTrans.trans _ _ _ hbc (by simpa using hca)
  rw [upTo, ← hl.perm.countP_eq, ← lt_countP_iff hp hl.sorted i h, decide_eq_true_eq]

theorem IsAnswer.ahead_le_iff (hl : IsAnswer before rows l) (a : α) (i : ℕ) (h : i < l.length) :
    before a l[i] ↔ ahead before rows a ≤ i := by
  have hp : ∀ b c, before b c → (!decide (before a c)) = true → (!decide (before a b)) = true := by
    intro b c hbc hca
    simp only [Bool.not_eq_true', decide_eq_false_iff_not] at hca ⊢
    exact fun hab => hca (IsTrans.trans _ _ _ hab hbc)
  have := lt_countP_iff hp hl.sorted i h
  rw [ahead, ← hl.perm.countP_eq, ← Nat.not_lt, ← this]
  simp

/-! Rows that tie across a page's end may change places between two queries. -/

/-- In any answer, the rows on the two sides of such an end tie. -/
theorem Straddles.ties (h : Straddles before size rows) (hl : IsAnswer before rows l) :
    ∃ k u x y v, l = u ++ x :: y :: v ∧ u.length + 1 = k * size ∧ before x y ∧ before y x := by
  obtain ⟨a, -, k, hlo, hhi⟩ := h
  have hlen : k * size < l.length := by
    have : upTo before rows a ≤ rows.length := List.countP_le_length
    rw [hl.perm.length_eq]
    omega
  have hpred : k * size - 1 < l.length := by omega
  have hax := (hl.ahead_le_iff a _ hpred).mpr (by omega)
  have hxa := (hl.lt_upTo_iff a _ hpred).mpr (by omega)
  have hay := (hl.ahead_le_iff a _ hlen).mpr (by omega)
  have hya := (hl.lt_upTo_iff a _ hlen).mpr hhi
  refine ⟨k, l.take (k * size - 1), _, _, l.drop (k * size + 1), ?_, ?_,
    IsTrans.trans _ _ _ hxa hay, IsTrans.trans _ _ _ hya hax⟩
  · have hsucc : k * size - 1 + 1 = k * size := by omega
    rw [← List.drop_eq_getElem_cons hlen]
    conv_lhs => rw [← List.take_append_drop (k * size - 1) l]
    rw [List.drop_eq_getElem_cons hpred, hsucc]
  · rw [List.length_take]
    omega

/-- The page before the end and the page after it then show one row both. -/
theorem Straddles.breaks (h : Straddles before size rows) (hn : rows.length ≤ n * size)
    (hl : IsAnswer before rows l) :
    ∃ answers : ℕ → List α, (∀ k, IsAnswer before rows (answers k)) ∧
      ¬ (concat size n answers).Nodup := by
  obtain ⟨k, u, x, y, v, rfl, hk, hxy, hyx⟩ := h.ties hl
  have hsize : 0 < size := Nat.pos_of_ne_zero fun h0 => by simp [h0] at hk
  obtain ⟨j, rfl⟩ : ∃ j, k = j + 1 := ⟨k - 1, by
    have : k ≠ 0 := fun h0 => by simp [h0] at hk
    omega⟩
  let answers : ℕ → List α := fun i => if i = j then u ++ x :: y :: v else u ++ y :: x :: v
  refine ⟨answers, ?_, ?_⟩
  · intro i
    by_cases hi : i = j
    · simpa [answers, hi] using hl
    · simpa [answers, hi] using hl.swap hyx
  · have hx : x ∈ page size j (answers j) := by
      refine mem_page.mpr ⟨u.length, by simp [answers], by simp [answers], ?_, by omega⟩
      have := Nat.add_one_mul j size
      omega
    have hx' : x ∈ page size (j + 1) (answers (j + 1)) := by
      refine mem_page.mpr ⟨u.length + 1, by simp [answers], by simp [answers], by omega, ?_⟩
      have := Nat.add_one_mul (j + 1) size
      omega
    have hlen := hl.perm.length_eq
    simp only [List.length_append, List.length_cons] at hlen
    have hjn : j + 1 < n := by
      by_contra hge
      have := Nat.mul_le_mul_right size (Nat.not_lt.mp hge)
      omega
    intro hnd
    rw [concat, List.nodup_flatMap] at hnd
    have hpair := List.pairwise_iff_getElem.mp hnd.2 j (j + 1) (by simp; omega) (by simpa using hjn)
      (by omega)
    simp only [List.getElem_range, Function.onFun] at hpair
    exact hpair hx hx'

end

theorem before_self [Std.Total before] (a : α) : before a a := (Std.Total.total a a).elim id id

variable [DecidableRel before] [IsTrans α before] [Std.Total before]

/-! A row that no page's end comes between is on one page in every answer. -/

theorem IsAnswer.no_end_between (hs : ¬ Straddles before size rows) (hl : IsAnswer before rows l)
    (hl' : IsAnswer before rows l') {i j : ℕ} (hi : i < l.length) (hj : j < l'.length)
    (heq : l[i] = l'[j]) : ¬ ∃ k, i < k * size ∧ k * size ≤ j := by
  rintro ⟨k, hik, hkj⟩
  have hlo : ahead before rows l[i] ≤ i := (hl.ahead_le_iff _ i hi).mp (before_self _)
  have hhi : j < upTo before rows l[i] := by
    rw [heq]
    exact (hl'.lt_upTo_iff _ j hj).mp (before_self _)
  exact hs ⟨l[i], hl.perm.subset (List.getElem_mem hi), k, by omega, by omega⟩

theorem page_subset (hs : ¬ Straddles before size rows) (hl : IsAnswer before rows l)
    (hl' : IsAnswer before rows l') {k : ℕ} {a : α} (ha : a ∈ page size k l) : a ∈ page size k l' := by
  obtain ⟨i, hi, rfl, hlo, hhi⟩ := mem_page.mp ha
  have hmem : l[i] ∈ l' := hl'.perm.mem_iff.mpr (hl.perm.subset (List.getElem_mem hi))
  obtain ⟨j, hj, heq⟩ := List.mem_iff_getElem.mp hmem
  refine mem_page.mpr ⟨j, hj, heq, ?_, ?_⟩
  · by_contra hlt
    exact hl'.no_end_between hs hl hj hi heq ⟨k, by omega, hlo⟩
  · by_contra hge
    exact hl.no_end_between hs hl' hi hj heq.symm ⟨k + 1, hhi, by omega⟩

theorem page_perm (hnd : rows.Nodup) (hs : ¬ Straddles before size rows)
    (hl : IsAnswer before rows l) (hl' : IsAnswer before rows l') (k : ℕ) :
    (page size k l).Perm (page size k l') :=
  (List.perm_ext_iff_of_nodup (nodup_page (hl.perm.nodup_iff.mpr hnd) k)
    (nodup_page (hl'.perm.nodup_iff.mpr hnd) k)).mpr fun _ =>
      ⟨page_subset hs hl hl', page_subset hs hl' hl⟩

theorem concat_perm (hnd : rows.Nodup) (hs : ¬ Straddles before size rows)
    (hn : rows.length ≤ n * size) {answers : ℕ → List α}
    (h : ∀ k, IsAnswer before rows (answers k)) : (concat size n answers).Perm rows := by
  have hpages : (concat size n answers).Perm (concat size n fun _ => answers 0) :=
    List.Perm.flatMap_left _ fun k _ => page_perm hnd hs (h k) (h 0) k
  have hall : (answers 0).take (n * size) = answers 0 :=
    List.take_of_length_le ((h 0).perm.length_eq ▸ hn)
  rw [concat_const, hall] at hpages
  exact hpages.trans (h 0).perm

/-- The pages show each row exactly once, whatever each query makes of the ties, if and
only if no group of rows that tie lies across a page's end. -/
theorem concat_perm_iff (hnd : rows.Nodup) (hn : rows.length ≤ n * size) :
    (∀ answers : ℕ → List α, (∀ k, IsAnswer before rows (answers k)) →
      (concat size n answers).Perm rows) ↔ ¬ Straddles before size rows := by
  constructor
  · intro hall hs
    have hsort : IsAnswer before rows (rows.insertionSort before) :=
      ⟨List.perm_insertionSort _ _, List.pairwise_insertionSort _ _⟩
    obtain ⟨answers, hans, hdup⟩ := hs.breaks hn hsort
    exact hdup ((hall answers hans).nodup_iff.mpr hnd)
  · intro hs answers hans
    exact concat_perm hnd hs hn hans

/-- An order that tells any two of the rows apart leaves no ties. -/
theorem not_straddles (hnd : rows.Nodup)
    (hanti : ∀ a ∈ rows, ∀ b ∈ rows, before a b → before b a → a = b) :
    ¬ Straddles before size rows := by
  intro hs
  have hsort : IsAnswer before rows (rows.insertionSort before) :=
    ⟨List.perm_insertionSort _ _, List.pairwise_insertionSort _ _⟩
  obtain ⟨k, u, x, y, v, heq, -, hxy, hyx⟩ := hs.ties hsort
  have hperm : (u ++ x :: y :: v).Perm rows := heq ▸ hsort.perm
  obtain rfl : x = y :=
    hanti x (hperm.subset (by simp)) y (hperm.subset (by simp)) hxy hyx
  have hnd' := hperm.nodup_iff.mpr hnd
  simp [List.nodup_append] at hnd'

end Paging
