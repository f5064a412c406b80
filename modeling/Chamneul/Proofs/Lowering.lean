import Chamneul.Spec.Email
import Mathlib.Tactic.Common

/-! What `str.lower` does to the characters of an address, by the tables: which are lowered alike, and
what two addresses have in common that are. -/

namespace Chamneul.Auth

/-- The dotted capital I written as an `i` and a combining dot, and ASCII letters lowered. -/
def undot (l : List Char) : List Char :=
  l.flatMap fun c => if c = '\u0130' then ['i', '\u0307'] else [c.toLower]

/-- No character of `l`, which comes after `x`, is lowered to what another would be lowered to in its
place, except the other case of an ASCII letter. -/
def CaseTable.Apart (T : CaseTable) (x l : List Char) : Prop :=
  ∀ y c z d, l = y ++ c :: z → T.lowerAt (x ++ y) z d = T.lowerAt (x ++ y) z c → d.toLower = c.toLower

/-! Characters. -/

theorem toLower_of_not_ascii {c : Char} (h : ¬ c.toNat < 128) : c.toLower = c := by
  have := toNat_toLower c
  rw [if_neg (by omega)] at this
  exact Char.toNat_inj.mp this

theorem toLower_ascii {c : Char} : c.toLower.toNat < 128 ↔ c.toNat < 128 := by
  have := toNat_toLower c
  split_ifs at this <;> omega

theorem toLower_eq_of_not_ascii {c d : Char} (hd : ¬ d.toNat < 128) : c.toLower = d ↔ c = d := by
  constructor
  · rintro rfl
    exact (toLower_of_not_ascii fun h => hd (toLower_ascii.mpr h)).symm
  · rintro rfl
    exact toLower_of_not_ascii hd

/-- The capital and the small k, and no other ASCII character. -/
theorem toLower_eq_k {c : Char} (h : c.toLower = 'k') : c ∈ kelvins := by
  have hlower := toNat_toLower c
  have hk : 'k'.toNat = 107 := rfl
  have hK : 'K'.toNat = 75 := rfl
  rw [h, hk] at hlower
  simp only [kelvins, List.mem_cons, ← Char.toNat_inj, hk, hK]
  split_ifs at hlower <;> omega

theorem undot_cons (c : Char) (l : List Char) :
    undot (c :: l) = (if c = '\u0130' then ['i', '\u0307'] else [c.toLower]) ++ undot l := rfl

theorem of_mem_undot {l : List Char} {d : Char} (h : d ∈ undot l) : d ≠ '\u0130' ∧ d.toLower = d := by
  obtain ⟨c, -, hd⟩ := List.mem_flatMap.mp h
  split_ifs at hd with hc
  · simp only [List.mem_cons, List.not_mem_nil, or_false] at hd
    obtain rfl | rfl := hd <;> decide
  · obtain rfl := List.mem_singleton.mp hd
    refine ⟨fun hdot => hc ?_, toLower_toLower c⟩
    exact (toLower_eq_of_not_ascii (by decide)).mp hdot

/-! Lowering. -/

namespace CaseTable

variable (T : CaseTable)

theorem low_toLower (c : Char) : T.low c.toLower = T.low c := by
  by_cases hc : c.toNat < 128
  · rw [T.low_ascii c hc, T.low_ascii c.toLower (toLower_ascii.mpr hc), toLower_toLower]
  · rw [toLower_of_not_ascii hc]

theorem skeleton_cons (c : Char) (l : List Char) :
    skeleton T.low (c :: l) = skeleton T.low [c] ++ skeleton T.low l := by
  simp [skeleton]

theorem skeleton_append (x y : List Char) :
    skeleton T.low (x ++ y) = skeleton T.low x ++ skeleton T.low y := by
  simp [skeleton]

theorem lowerAt_of_ne {c : Char} (h : c ≠ '\u03A3') (x y : List Char) : T.lowerAt x y c = T.low c :=
  if_neg h

theorem lowerAt_toLower (x y : List Char) (c : Char) : T.lowerAt x y c.toLower = T.lowerAt x y c := by
  have hsigma : c.toLower = '\u03A3' ↔ c = '\u03A3' := toLower_eq_of_not_ascii (by decide)
  simp only [lowerAt, hsigma, low_toLower]

/-- The casing rules do not see a sigma that ends a word. -/
theorem map_unfinal_lowerAt (x y : List Char) (c : Char) :
    (T.lowerAt x y c).map unfinal = skeleton T.low [c] := by
  rw [skeleton, List.flatMap_singleton]
  unfold lowerAt
  split_ifs with hc
  · rw [hc, T.low_sigma]
    decide
  · rw [hc, T.low_sigma]
  · rfl

theorem map_unfinal_lowerFrom (x l : List Char) : (T.lowerFrom x l).map unfinal = skeleton T.low l := by
  induction l generalizing x with
  | nil => rfl
  | cons c l ih => rw [lowerFrom, List.map_append, map_unfinal_lowerAt, ih, ← skeleton_cons]

theorem skeleton_eq_of_lowerAt {x y x' y' : List Char} {c d : Char}
    (h : T.lowerAt x y d = T.lowerAt x' y' c) : skeleton T.low [d] = skeleton T.low [c] := by
  rw [← T.map_unfinal_lowerAt x y d, h, map_unfinal_lowerAt]

theorem exists_lowerAt {c : Char} (h : c ≠ '\u0130') (x y : List Char) : ∃ d, T.lowerAt x y c = [d] := by
  unfold lowerAt
  split_ifs
  · exact ⟨_, rfl⟩
  · exact ⟨_, rfl⟩
  · exact T.low_single c h

theorem lowerAt_dotted (x y : List Char) : T.lowerAt x y '\u0130' = ['i', '\u0307'] :=
  (T.lowerAt_of_ne (by decide) x y).trans T.low_dotted

/-- Each dotted capital I adds one. -/
theorem length_lowerFrom (x l : List Char) :
    (T.lowerFrom x l).length = l.length + l.count '\u0130' := by
  induction l generalizing x with
  | nil => rfl
  | cons c l ih =>
    rw [lowerFrom, List.length_append, ih, List.length_cons, List.count_cons]
    by_cases hc : c = '\u0130'
    · rw [hc, lowerAt_dotted]
      simp
      omega
    · obtain ⟨d, hd⟩ := T.exists_lowerAt hc x l
      simp [hd, hc]
      omega

theorem lowerFrom_eq_nil {x l : List Char} : T.lowerFrom x l = [] ↔ l = [] := by
  rw [← List.length_eq_zero_iff, length_lowerFrom]
  cases l <;> simp

section

variable {x x' : List Char} (hx : skeleton T.low x = skeleton T.low x')

include hx

theorem lowerAt_congr {y y' : List Char} (hy : skeleton T.low y = skeleton T.low y') (c : Char) :
    T.lowerAt x y c = T.lowerAt x' y' c := by
  unfold lowerAt
  rw [T.final_congr x x' y y' hx hy]

theorem lowerFrom_congr (l : List Char) : T.lowerFrom x l = T.lowerFrom x' l := by
  induction l generalizing x x' with
  | nil => rfl
  | cons c l ih =>
    rw [lowerFrom, lowerFrom, T.lowerAt_congr hx rfl, ih]
    rw [skeleton_append, skeleton_append, hx]

end

theorem skeleton_toLower (c : Char) : skeleton T.low [c.toLower] = skeleton T.low [c] := by
  simp only [skeleton, List.flatMap_singleton, low_toLower]

theorem skeleton_dotted : skeleton T.low ['\u0130'] = skeleton T.low ['i', '\u0307'] := by
  have hdot : T.low '\u0307' = ['\u0307'] := (T.low_alone _ _ (by decide)).mpr rfl
  simp [skeleton, T.low_dotted, T.low_ascii 'i' (by decide), hdot, show 'i'.toLower = 'i' by decide]

theorem skeleton_undot (l : List Char) : skeleton T.low (undot l) = skeleton T.low l := by
  induction l with
  | nil => rfl
  | cons c l ih =>
    rw [undot_cons, skeleton_append, ih, T.skeleton_cons c l]
    split_ifs with hc
    · rw [hc, skeleton_dotted]
    · rw [skeleton_toLower]

theorem lowerAt_dot (x y : List Char) : T.lowerAt x y '\u0307' = ['\u0307'] :=
  (T.lowerAt_of_ne (by decide) x y).trans ((T.low_alone _ _ (by decide)).mpr rfl)

theorem lowerAt_ascii {c : Char} (h : c.toNat < 128) (x y : List Char) :
    T.lowerAt x y c = [c.toLower] := by
  rw [lowerAt_of_ne, T.low_ascii c h]
  rintro rfl
  exact absurd h (by decide)

theorem skeleton_append_dotted {x x' : List Char} (hx : skeleton T.low x = skeleton T.low x') :
    skeleton T.low (x ++ ['i'] ++ ['\u0307']) = skeleton T.low (x' ++ ['\u0130']) := by
  rw [List.append_assoc, T.skeleton_append x, T.skeleton_append x', hx, T.skeleton_dotted]
  rfl

/-- A dotted capital I is lowered to what an `i` and a combining dot are. -/
theorem lowerFrom_undot {x x' : List Char} (hx : skeleton T.low x = skeleton T.low x') (l : List Char) :
    T.lowerFrom x (undot l) = T.lowerFrom x' l := by
  induction l generalizing x x' with
  | nil => rfl
  | cons c l ih =>
    rw [undot_cons]
    split_ifs with hc
    · rw [hc, List.cons_append, List.singleton_append, lowerFrom, lowerFrom, lowerFrom,
        T.lowerAt_ascii (by decide), T.lowerAt_dot, T.lowerAt_dotted]
      rw [ih (T.skeleton_append_dotted hx)]
      rfl
    · have hlast : skeleton T.low (x ++ [c.toLower]) = skeleton T.low (x' ++ [c]) := by
        rw [skeleton_append, skeleton_append, hx, skeleton_toLower]
      rw [List.singleton_append, lowerFrom, lowerFrom, lowerAt_toLower,
        T.lowerAt_congr hx (T.skeleton_undot l), ih hlast]

end CaseTable

/-! Characters that are lowered alike. -/

section

variable {T : CaseTable} {x y : List Char} {c d : Char}

theorem CaseTable.low_of_lowerAt (h : T.lowerAt x y d = [c]) (hc : c ≠ '\u03C2') (hc' : c ≠ '\u03C3') :
    T.low d = [c] := by
  unfold CaseTable.lowerAt at h
  split_ifs at h
  · exact absurd (List.cons.inj h).1.symm hc
  · exact absurd (List.cons.inj h).1.symm hc'
  · exact h

theorem CaseTable.of_lowerAt_ascii (h : T.lowerAt x y d = [c]) (hc : c.toNat < 128) :
    d.toLower = c ∨ d = '\u212A' ∧ c = 'k' := by
  have hlow : T.low d = [c] := by
    refine CaseTable.low_of_lowerAt h ?_ ?_ <;> rintro rfl <;> exact absurd hc (by decide)
  obtain hd | rfl := T.low_toAscii d c hlow hc
  · rw [T.low_ascii d hd] at hlow
    exact .inl (List.cons.inj hlow).1
  · rw [T.low_kelvin] at hlow
    exact .inr ⟨rfl, (List.cons.inj hlow).1.symm⟩

theorem CaseTable.lowerAt_of_kelvin (hc : c ∈ kelvins) : T.lowerAt x y c = ['k'] := by
  simp only [kelvins, List.mem_cons, List.not_mem_nil, or_false] at hc
  obtain rfl | rfl | rfl := hc
  · exact T.lowerAt_ascii (by decide) x y
  · exact T.lowerAt_ascii (by decide) x y
  · exact (T.lowerAt_of_ne (by decide) x y).trans T.low_kelvin

theorem CaseTable.kelvin_of_lowerAt (h : T.lowerAt x y d = ['k']) : d ∈ kelvins := by
  obtain hk | ⟨rfl, -⟩ := CaseTable.of_lowerAt_ascii h (by decide)
  · exact toLower_eq_k hk
  · decide

/-- What is lowered to a combining dot is one. -/
theorem CaseTable.dot_of_lowerAt (h : T.lowerAt x y d = ['\u0307']) : d = '\u0307' :=
  (T.low_alone d _ (by decide)).mp (CaseTable.low_of_lowerAt h (by decide) (by decide))

/-- A letter that `[A-Z]` matches, but no k, is lowered like no other. -/
theorem CaseTable.eq_of_lowerAt (hc : c ∈ unicodeLetters) (hk : c ∉ kelvins)
    (h : T.lowerAt x y d = T.lowerAt x y c) : d = c := by
  have halone : ∀ c ∈ ['\u0307', '\u0131', '\u017F'], c ≠ '\u03A3' → c ≠ '\u03C2' → c ≠ '\u03C3' →
      T.lowerAt x y d = T.lowerAt x y c → d = c := by
    intro c hmem hne hne₁ hne₂ h
    rw [T.lowerAt_of_ne hne, (T.low_alone c c hmem).mpr rfl] at h
    exact (T.low_alone d c hmem).mp (CaseTable.low_of_lowerAt h hne₁ hne₂)
  simp only [unicodeLetters, List.mem_cons, List.not_mem_nil, or_false] at hc
  obtain rfl | rfl | rfl | rfl := hc
  · by_contra hne
    obtain ⟨e, he⟩ := T.exists_lowerAt hne x y
    rw [T.lowerAt_dotted, he] at h
    cases h
  · exact halone _ (by decide) (by decide) (by decide) (by decide) h
  · exact halone _ (by decide) (by decide) (by decide) (by decide) h
  · exact absurd (by decide) hk

/-- A character of the range is lowered like others of it only, sigmas included. -/
theorem CaseTable.KeepsRange.lowerAt (hT : T.KeepsRange) (hc : International c) (hk : c ∉ kelvins)
    (h : T.lowerAt x y d = T.lowerAt x y c) (hne : d ≠ c) :
    International d ∧ d ∉ unicodeLetters ∧ isSpace d = false := by
  by_cases hd : d = '\u03A3'
  · rw [hd]
    decide
  rw [T.lowerAt_of_ne hd] at h
  unfold CaseTable.lowerAt at h
  split_ifs at h with hsigma
  · -- `c` is a capital sigma that ends its word
    by_cases hend : d = '\u03C2'
    · rw [hend]
      decide
    · exact hT '\u03C2' d (by decide) (by decide) (h.trans T.low_finalSigma.symm) hend
  · exact hT '\u03A3' d (by decide) (by decide) (h.trans T.low_sigma.symm) hd
  · exact hT c d hc hk h hne

end

/-! Addresses that are lowered alike. -/

section

variable {T : CaseTable} {x x' l m : List Char}

theorem CaseTable.Apart.tail {c : Char} (h : T.Apart x (c :: l)) : T.Apart (x ++ [c]) l := by
  intro y c' z d hl
  rw [List.append_assoc]
  exact h (c :: y) c' z d (by rw [hl]; rfl)

theorem CaseTable.Apart.head {c d : Char} (h : T.Apart x (c :: l))
    (hd : T.lowerAt x l d = T.lowerAt x l c) : d.toLower = c.toLower :=
  h [] c l d rfl (by rwa [List.append_nil])

/-- Where no character can be mistaken, only dotted letters are lowered alike. -/
theorem CaseTable.Apart.undot_eq (h : T.Apart x l) (hx : skeleton T.low x = skeleton T.low x')
    (hm : ∀ d ∈ m, d ≠ '\u0130' ∧ d.toLower = d) (hl : T.lowerFrom x l = T.lowerFrom x' m) :
    undot l = m := by
  induction l generalizing x x' m with
  | nil => exact (T.lowerFrom_eq_nil.mp hl.symm).symm
  | cons c l ih =>
    obtain _ | ⟨d, m⟩ := m
    · cases T.lowerFrom_eq_nil.mp hl
    rw [List.forall_mem_cons] at hm
    obtain ⟨⟨hd, hlower⟩, hm⟩ := hm
    obtain ⟨e, he⟩ := T.exists_lowerAt hd x' m
    rw [CaseTable.lowerFrom, CaseTable.lowerFrom, he] at hl
    rw [undot_cons]
    split_ifs with hc
    · -- `d` is an `i`, and a combining dot comes after it
      rw [hc, T.lowerAt_dotted] at hl
      simp only [List.cons_append, List.nil_append, List.cons.injEq] at hl
      obtain ⟨rfl, hl⟩ := hl
      obtain hi | ⟨-, hk⟩ := CaseTable.of_lowerAt_ascii he (by decide)
      swap
      · exact absurd hk (by decide)
      obtain rfl : d = 'i' := hlower.symm.trans hi
      obtain _ | ⟨d, m⟩ := m
      · cases hl
      rw [List.forall_mem_cons] at hm
      obtain ⟨⟨hd, -⟩, hm⟩ := hm
      obtain ⟨e, hdot⟩ := T.exists_lowerAt hd (x' ++ ['i']) m
      rw [CaseTable.lowerFrom, hdot] at hl
      simp only [List.cons_append, List.nil_append, List.cons.injEq] at hl
      obtain ⟨rfl, hl⟩ := hl
      obtain rfl := CaseTable.dot_of_lowerAt hdot
      rw [ih (hc ▸ h.tail) (T.skeleton_append_dotted hx.symm).symm hm hl]
      rfl
    · obtain ⟨e', he'⟩ := T.exists_lowerAt hc x l
      rw [he'] at hl
      simp only [List.cons_append, List.nil_append, List.cons.injEq] at hl
      obtain ⟨rfl, hl⟩ := hl
      have hrest : skeleton T.low l = skeleton T.low m := by
        rw [← T.map_unfinal_lowerFrom (x ++ [c]) l, ← T.map_unfinal_lowerFrom (x' ++ [d]) m]
        exact congrArg (List.map unfinal) hl
      have hsame : T.lowerAt x l d = T.lowerAt x l c := by
        rw [T.lowerAt_congr hx hrest, he, he']
      obtain rfl : d = c.toLower := hlower.symm.trans (h.head hsame)
      rw [ih h.tail ?_ hm hl]
      · rfl
      · rw [T.skeleton_append, T.skeleton_append, hx, T.skeleton_toLower]

/-- One character in the place of another that is lowered alike there. -/
theorem CaseTable.lowerFrom_replace {y : List Char} {c d : Char} (z : List Char)
    (h : T.lowerAt (x ++ y) z d = T.lowerAt (x ++ y) z c) :
    T.lowerFrom x (y ++ d :: z) = T.lowerFrom x (y ++ c :: z) := by
  have hskeleton := T.skeleton_eq_of_lowerAt h
  induction y generalizing x with
  | nil =>
    have hlast : skeleton T.low (x ++ [d]) = skeleton T.low (x ++ [c]) := by
      rw [T.skeleton_append, T.skeleton_append, hskeleton]
    rw [List.append_nil] at h
    rw [List.nil_append, List.nil_append, CaseTable.lowerFrom, CaseTable.lowerFrom, h,
      T.lowerFrom_congr hlast]
  | cons e y ih =>
    have hrest : skeleton T.low (y ++ d :: z) = skeleton T.low (y ++ c :: z) := by
      rw [T.skeleton_append, T.skeleton_append, T.skeleton_cons d, T.skeleton_cons c, hskeleton]
    rw [List.cons_append, List.cons_append, CaseTable.lowerFrom, CaseTable.lowerFrom,
      T.lowerAt_congr rfl hrest, ih (x := x ++ [e])]
    rwa [List.append_assoc]

end

theorem CaseTable.apart_of_ascii {T : CaseTable} {x l : List Char}
    (h : ∀ c ∈ l, c.toNat < 128 ∧ c ∉ kelvins) : T.Apart x l := by
  rintro y c z d rfl hd
  obtain ⟨hc, hk⟩ := h c (by simp)
  rw [T.lowerAt_ascii hc] at hd
  obtain hd | ⟨-, hck⟩ := CaseTable.of_lowerAt_ascii hd (toLower_ascii.mpr hc)
  · exact hd
  · exact absurd (toLower_eq_k hck) hk

theorem undot_of_not_mem {l : List Char} (h : '\u0130' ∉ l) : undot l = l.map Char.toLower := by
  induction l with
  | nil => rfl
  | cons c l ih =>
    rw [List.mem_cons, not_or] at h
    rw [undot_cons, if_neg (Ne.symm h.1), ih h.2]
    rfl

end Chamneul.Auth
