import Chamneul.Proofs.Lowering

/-! Look-alike addresses. An address is folded after it has been checked, and folding takes the Kelvin
sign to a `k`, the letters of an internationalised domain to their lower case, and makes two characters
of a dotted capital I. -/

namespace Chamneul.Auth

/-- The addresses differ at most in the case of ASCII letters. -/
def SameButCase (a b : String) : Prop := a.toList.map Char.toLower = b.toList.map Char.toLower

/-- Folding the accepted address is safe: it is folded for good, fits the column, and shares its
stored form only with addresses that differ from it in the case of ASCII letters. -/
structure FoldsSafely (U : Unicode) (field : EmailField) (a : String) : Prop where
  idempotent : U.canonicalEmail (U.canonicalEmail a) = U.canonicalEmail a
  fits : (U.canonicalEmail a).length ≤ 254
  alone : ∀ b, field.accepts b → U.canonicalEmail a = U.canonicalEmail b → SameButCase a b

section

variable {U : Unicode} {T : CaseTable} (hU : U.Follows T) (field : EmailField) {a : String}

include hU

theorem canonicalEmail_accepted (ha : field.accepts a) :
    U.canonicalEmail a = String.ofList (T.lowerFrom [] a.toList) := by
  have hat : '@' ∈ (strip a).toList := by
    rw [field.trimmed a ha]
    exact field.hasAt a ha
  rw [canonicalEmail_of_mem U hat, field.trimmed a ha, hU]

omit hU in
/-- Where a character can be mistaken, the address with the other one is accepted. -/
theorem accepts_alike (hT : T.KeepsRange) {x y : List Char} {c d : Char}
    (ha : field.accepts (String.ofList (x ++ c :: y))) (h : T.lowerAt x y d = T.lowerAt x y c)
    (hne : d.toLower ≠ c.toLower) : field.accepts (String.ofList (x ++ d :: y)) := by
  by_cases hk : c ∈ kelvins
  · rw [CaseTable.lowerAt_of_kelvin hk] at h
    exact field.ignoreCase x c d y hk (CaseTable.kelvin_of_lowerAt h) ha
  have hc := field.chars _ ha c (by simp)
  obtain hascii | hc := hc
  · rw [T.lowerAt_ascii hascii] at h
    obtain hd | ⟨-, hck⟩ := CaseTable.of_lowerAt_ascii h (toLower_ascii.mpr hascii)
    · exact absurd hd hne
    · exact absurd (toLower_eq_k hck) hk
  have hnot : ¬ c.toNat < 128 := fun hlt => by have := hc.1; omega
  have hletter : c ∉ unicodeLetters := fun hmem =>
    hne (congrArg Char.toLower (CaseTable.eq_of_lowerAt hmem hk h))
  have hy : '@' ∉ y := fun hat => (field.name x c y ha hat).elim hnot hletter
  have hx : '@' ∈ x := by
    have hat := field.hasAt _ ha
    rw [String.toList_ofList, List.mem_append, List.mem_cons] at hat
    obtain hat | rfl | hat := hat
    · exact hat
    · exact absurd (by decide) hnot
    · exact absurd hat hy
  obtain ⟨hd, hdletter, hspace⟩ := hT.lowerAt hc hk h fun heq => hne (congrArg Char.toLower heq)
  exact field.domain x c d y hx hy hc hletter hd hdletter hspace ha

/-- Folding is safe for an accepted address if and only if no other character is lowered to what one of
its characters is lowered to in its place, it stays short enough when each dotted capital I counts
twice, and no other is accepted that writes such a letter as an `i` and a combining dot, or the other
way. -/
theorem folds_safely_iff (hT : T.KeepsRange) (ha : field.accepts a) :
    FoldsSafely U field a ↔ T.Apart [] a.toList ∧ a.length + a.toList.count '\u0130' ≤ 254 ∧
      ∀ b, field.accepts b → undot b.toList = undot a.toList → SameButCase a b := by
  have hlength : (U.canonicalEmail a).length = a.length + a.toList.count '\u0130' := by
    rw [canonicalEmail_accepted hU field ha, String.length_ofList, T.length_lowerFrom,
      String.length_toList]
  constructor
  · intro h
    refine ⟨fun x c y d hxy hd => ?_, hlength ▸ h.fits, fun b hb hundot => h.alone b hb ?_⟩
    · by_contra hne
      rw [List.nil_append] at hd
      rw [← String.ofList_toList (s := a), hxy] at ha h
      have hb := accepts_alike field hT ha hd hne
      have hsame := h.alone _ hb (by
        rw [canonicalEmail_accepted hU field ha, canonicalEmail_accepted hU field hb,
          String.toList_ofList, String.toList_ofList, CaseTable.lowerFrom_replace y (x := []) hd])
      rw [SameButCase, String.toList_ofList, String.toList_ofList, List.map_append, List.map_append,
        List.append_cancel_left_eq] at hsame
      exact hne (List.cons.inj hsame).1.symm
    · rw [canonicalEmail_accepted hU field ha, canonicalEmail_accepted hU field hb,
        ← T.lowerFrom_undot rfl, ← hundot, T.lowerFrom_undot rfl]
  · rintro ⟨hapart, hshort, hdots⟩
    refine ⟨canonicalEmail_canonicalEmail U a, hlength ▸ hshort, fun b hb h => hdots b hb ?_⟩
    rw [canonicalEmail_accepted hU field ha, canonicalEmail_accepted hU field hb,
      String.ofList_inj, ← T.lowerFrom_undot rfl b.toList] at h
    exact (hapart.undot_eq rfl (fun d => of_mem_undot) h).symm

end

/-! Tables with some entries, and a field that accepts the plainest addresses. -/

/-- The lower case of the ASCII letters, of the Kelvin sign, of a sigma and of a U with diaeresis. -/
def letter (c : Char) : Char :=
  if c = '\u212A' then 'k' else if c = '\u03A3' then '\u03C3' else if c = '\u00DC' then '\u00FC'
  else c.toLower

def lowerLetter (c : Char) : List Char := if c = '\u0130' then ['i', '\u0307'] else [letter c]

theorem letter_cases (c : Char) : c = '\u212A' ∨ c = '\u03A3' ∨ c = '\u00DC' ∨
    (c ≠ '\u212A' ∧ c ≠ '\u03A3' ∧ c ≠ '\u00DC' ∧ letter c = c.toLower) := by
  unfold letter
  split_ifs <;> tauto

theorem letter_toLower {c : Char} (hk : c ≠ '\u212A') (hs : c ≠ '\u03A3') (hu : c ≠ '\u00DC') :
    letter c.toLower = c.toLower := by
  have hne : ∀ d : Char, ¬ d.toNat < 128 → c ≠ d → c.toLower ≠ d :=
    fun d hd hcd heq => hcd ((toLower_eq_of_not_ascii hd).mp heq)
  obtain h | h | h | ⟨-, -, -, h⟩ := letter_cases c.toLower
  · exact absurd h (hne _ (by decide) hk)
  · exact absurd h (hne _ (by decide) hs)
  · exact absurd h (hne _ (by decide) hu)
  · rw [h, toLower_toLower]

theorem letter_letter (c : Char) : letter (letter c) = letter c := by
  obtain rfl | rfl | rfl | ⟨hk, hs, hu, h⟩ := letter_cases c
  · decide
  · decide
  · decide
  · rw [h, letter_toLower hk hs hu]

theorem letter_ascii {c : Char} (h : c.toNat < 128) : letter c = c.toLower := by
  obtain rfl | rfl | rfl | ⟨-, -, -, hc⟩ := letter_cases c
  · exact absurd h (by decide)
  · exact absurd h (by decide)
  · exact absurd h (by decide)
  · exact hc

theorem letter_ne_dotted {c : Char} (h : c ≠ '\u0130') : letter c ≠ '\u0130' := by
  obtain rfl | rfl | rfl | ⟨-, -, -, hc⟩ := letter_cases c
  · decide
  · decide
  · decide
  · rw [hc]
    exact fun heq => h ((toLower_eq_of_not_ascii (by decide)).mp heq)

theorem isSpace_letter (c : Char) : isSpace (letter c) = isSpace c := by
  obtain rfl | rfl | rfl | ⟨-, -, -, h⟩ := letter_cases c
  · decide
  · decide
  · decide
  · rw [h, isSpace_toLower]

theorem letter_eq_at {c : Char} : letter c = '@' ↔ c = '@' := by
  obtain rfl | rfl | rfl | ⟨-, -, -, h⟩ := letter_cases c
  · decide
  · decide
  · decide
  · rw [h, toLower_eq_at]

theorem flatMap_lowerLetter_lowerLetter (c : Char) :
    (lowerLetter c).flatMap lowerLetter = lowerLetter c := by
  by_cases hc : c = '\u0130'
  · rw [hc]
    decide
  · simp only [lowerLetter, if_neg hc, List.flatMap_singleton, if_neg (letter_ne_dotted hc),
      letter_letter]

/-- Either nothing of `lowerLetter c` is a space or all of it is, as `c` is. -/
theorem isSpace_lowerLetter (c : Char) : ∀ d ∈ lowerLetter c, isSpace d = isSpace c := by
  by_cases hc : c = '\u0130'
  · rw [hc]
    exact List.forall_mem_cons.mpr ⟨by decide, List.forall_mem_singleton.mpr (by decide)⟩
  · rw [lowerLetter, if_neg hc]
    exact List.forall_mem_singleton.mpr (isSpace_letter c)

theorem dropWhile_flatMap {p : Char → Bool} {f : Char → List Char} (hne : ∀ c, f c ≠ [])
    (hp : ∀ c, ∀ d ∈ f c, p d = p c) (l : List Char) :
    (l.flatMap f).dropWhile p = (l.dropWhile p).flatMap f := by
  induction l with
  | nil => rfl
  | cons c l ih =>
    rw [List.flatMap_cons]
    cases hc : p c with
    | true =>
      have hall : ∀ d ∈ f c, p d = true := fun d hd => (hp c d hd).trans hc
      rw [List.dropWhile_append_of_pos hall, ih, List.dropWhile_cons_of_pos hc]
    | false =>
      obtain ⟨d, t, hd⟩ := List.exists_cons_of_ne_nil (hne c)
      have hfirst : p d = false := (hp c d (by simp [hd])).trans hc
      rw [List.dropWhile_cons_of_neg (by simp [hc]), List.flatMap_cons, hd, List.cons_append,
        List.dropWhile_cons_of_neg (by simp [hfirst])]

def Unicode.letters : Unicode where
  lower s := String.ofList (s.toList.flatMap lowerLetter)
  nfkc s := s
  lower_lower s := by
    simp [List.flatMap_assoc, flatMap_lowerLetter_lowerLetter]
  lower_at s t := by
    refine String.toList_injective ?_
    simp [show lowerLetter '@' = ['@'] by decide]
  mem_lower s := by
    have hat : ∀ c, '@' ∈ lowerLetter c ↔ '@' = c := by
      intro c
      by_cases hc : c = '\u0130'
      · rw [hc]
        decide
      · rw [lowerLetter, if_neg hc, List.mem_singleton, eq_comm, letter_eq_at, eq_comm]
    simp [hat]
  strip_lower s := by
    have hne : ∀ c, lowerLetter c ≠ [] := fun c hc => by
      unfold lowerLetter at hc
      split_ifs at hc
    refine congrArg String.ofList ?_
    simp only [strip, String.toList_ofList]
    rw [dropWhile_flatMap hne isSpace_lowerLetter, List.reverse_flatMap,
      dropWhile_flatMap (f := List.reverse ∘ lowerLetter), List.reverse_flatMap]
    · simp [Function.comp_def]
    · exact fun c => by simpa using hne c
    · exact fun c d hd => isSpace_lowerLetter c d (by simpa using hd)

theorem lowerLetter_eq {c d : Char} : lowerLetter c = [d] ↔ c ≠ '\u0130' ∧ letter c = d := by
  unfold lowerLetter
  split_ifs with hc <;> simp [hc]

/-- No sigma ends a word. -/
def letterTable : CaseTable where
  low := lowerLetter
  final _ _ := false
  low_ascii c hc := by
    rw [lowerLetter_eq]
    refine ⟨?_, letter_ascii hc⟩
    rintro rfl
    exact absurd hc (by decide)
  low_dotted := by decide
  low_kelvin := by decide
  low_sigma := by decide
  low_finalSigma := by decide
  low_single c hc := ⟨letter c, if_neg hc⟩
  low_toAscii c d h hd := by
    obtain ⟨-, rfl⟩ := lowerLetter_eq.mp h
    obtain rfl | rfl | rfl | ⟨-, -, -, hc⟩ := letter_cases c
    · exact .inr rfl
    · exact absurd hd (by decide)
    · exact absurd hd (by decide)
    · exact .inl (toLower_ascii.mp (hc ▸ hd))
  low_alone c d hd := by
    rw [lowerLetter_eq]
    constructor
    · rintro ⟨-, rfl⟩
      obtain rfl | rfl | rfl | ⟨-, -, -, hc⟩ := letter_cases c
      · exact absurd hd (by decide)
      · exact absurd hd (by decide)
      · exact absurd hd (by decide)
      · have hfar : ¬ (letter c).toNat < 128 := by
          simp only [List.mem_cons, List.not_mem_nil, or_false] at hd
          obtain hd | hd | hd := hd <;> rw [hd] <;> decide
        exact (toLower_eq_of_not_ascii hfar).mp hc.symm
    · rintro rfl
      simp only [List.mem_cons, List.not_mem_nil, or_false] at hd
      obtain rfl | rfl | rfl := hd <;> decide
  final_congr _ _ _ _ _ _ := rfl

theorem lowerFrom_letterTable (x l : List Char) : letterTable.lowerFrom x l = l.flatMap lowerLetter := by
  induction l generalizing x with
  | nil => rfl
  | cons c l ih =>
    rw [CaseTable.lowerFrom, ih, List.flatMap_cons]
    refine congrArg (· ++ _) ?_
    by_cases hc : c = '\u03A3'
    · rw [hc]
      rfl
    · exact letterTable.lowerAt_of_ne hc x l

theorem letters_follows : Unicode.letters.Follows letterTable := fun s =>
  congrArg String.ofList (lowerFrom_letterTable [] s.toList).symm

theorem letterTable_keepsRange : letterTable.KeepsRange := by
  intro c d hc hk h hne
  have hnot : ¬ c.toNat < 128 := fun hlt => by have := hc.1; omega
  change lowerLetter d = lowerLetter c at h
  by_cases hdot : c = '\u0130'
  · by_cases hd : d = '\u0130'
    · exact absurd (hd.trans hdot.symm) hne
    · simp [lowerLetter, hdot, hd] at h
  obtain ⟨-, heq⟩ := lowerLetter_eq.mp (h.trans (if_neg hdot))
  have hfar : ¬ (letter c).toNat < 128 ∧ (letter c = c ∨ letter c = '\u03C3' ∨ letter c = '\u00FC') := by
    obtain rfl | rfl | rfl | ⟨-, -, -, hc⟩ := letter_cases c
    · exact absurd (by decide) hk
    · decide
    · decide
    · rw [hc, toLower_of_not_ascii hnot]
      exact ⟨hnot, .inl rfl⟩
  obtain rfl | rfl | rfl | ⟨-, -, -, hd⟩ := letter_cases d
  · rw [← heq] at hfar
    exact absurd (by decide) hfar.1
  · decide
  · decide
  · obtain rfl : d = letter c := (toLower_eq_of_not_ascii hfar.1).mp (hd.symm.trans heq)
    obtain hsame | hsame | hsame := hfar.2
    · exact absurd hsame hne
    · rw [hsame]
      decide
    · rw [hsame]
      decide

def Named : List Char → Prop
  | [] => True
  | c :: l => ('@' ∈ l → c.toNat < 128 ∨ c ∈ unicodeLetters) ∧ Named l

instance decidableNamed : (l : List Char) → Decidable (Named l)
  | [] => isTrue trivial
  | _ :: l =>
    have := decidableNamed l
    inferInstanceAs (Decidable ((_ → _) ∧ _))

theorem Named.of_mem {x y : List Char} {c : Char} (h : Named (x ++ c :: y)) (hat : '@' ∈ y) :
    c.toNat < 128 ∨ c ∈ unicodeLetters := by
  induction x with
  | nil => exact h.1 hat
  | cons e x ih => exact ih h.2

theorem Named.replace {x y : List Char} {c d : Char} (h : Named (x ++ c :: y)) (hd : d ≠ '@')
    (hname : '@' ∈ y → d.toNat < 128 ∨ d ∈ unicodeLetters) : Named (x ++ d :: y) := by
  induction x with
  | nil => exact ⟨hname, h.2⟩
  | cons e x ih =>
    refine ⟨fun hat => ?_, ih h.2⟩
    obtain hat | hat := List.mem_append.mp hat
    · exact h.1 (List.mem_append_left _ hat)
    · obtain heq | hat := List.mem_cons.mp hat
      · exact absurd heq.symm hd
      · exact h.1 (List.mem_append_right _ (List.mem_cons_of_mem c hat))

theorem named_of_forall {l : List Char} (h : ∀ c ∈ l, c.toNat < 128 ∨ c ∈ unicodeLetters) : Named l := by
  induction l with
  | nil => trivial
  | cons c l ih =>
    rw [List.forall_mem_cons] at h
    exact ⟨fun _ => h.1, ih h.2⟩

/-- An `@` after letters and before what a domain may have, and no space. -/
structure Plain (a : String) : Prop where
  hasAt : '@' ∈ a.toList
  noSpace : ∀ c ∈ a.toList, isSpace c = false
  short : a.toList.length ≤ 254
  chars : ∀ c ∈ a.toList, c.toNat < 128 ∨ International c
  named : Named a.toList

instance (a : String) : Decidable (Plain a) :=
  have := List.decidableBAll (fun c => isSpace c = false) a.toList
  have := List.decidableBAll (fun c => c.toNat < 128 ∨ International c) a.toList
  decidable_of_iff ('@' ∈ a.toList ∧ (∀ c ∈ a.toList, isSpace c = false) ∧ a.toList.length ≤ 254 ∧
    (∀ c ∈ a.toList, c.toNat < 128 ∨ International c) ∧ Named a.toList)
    ⟨fun ⟨h₁, h₂, h₃, h₄, h₅⟩ => ⟨h₁, h₂, h₃, h₄, h₅⟩, fun ⟨h₁, h₂, h₃, h₄, h₅⟩ => ⟨h₁, h₂, h₃, h₄, h₅⟩⟩

theorem Plain.replace {x y : List Char} {c d : Char} (h : Plain (String.ofList (x ++ c :: y)))
    (hc : c ≠ '@') (hd : d ≠ '@') (hspace : isSpace d = false) (hchar : d.toNat < 128 ∨ International d)
    (hname : '@' ∈ y → d.toNat < 128 ∨ d ∈ unicodeLetters) : Plain (String.ofList (x ++ d :: y)) := by
  have hmem : ∀ e ∈ x ++ d :: y, e = d ∨ e ∈ x ++ c :: y := by
    intro e he
    simp only [List.mem_append, List.mem_cons] at he ⊢
    tauto
  obtain ⟨hat, hspaces, hshort, hchars, hnamed⟩ := h
  simp only [String.toList_ofList] at hat hspaces hshort hchars hnamed
  constructor <;> simp only [String.toList_ofList]
  · simp only [List.mem_append, List.mem_cons] at hat ⊢
    tauto
  · intro e he
    obtain rfl | hold := hmem e he
    · exact hspace
    · exact hspaces e hold
  · simpa using hshort
  · intro e he
    obtain rfl | hold := hmem e he
    · exact hchar
    · exact hchars e hold
  · exact hnamed.replace hd hname

theorem Plain.trimmed {a : String} (h : Plain a) : strip a = a := by
  have hkeep : ∀ l : List Char, (∀ c ∈ l, isSpace c = false) → l.dropWhile isSpace = l := by
    intro l hl
    cases l with
    | nil => rfl
    | cons c l => exact List.dropWhile_cons_of_neg (by simp [hl c])
  rw [strip, hkeep _ h.noSpace, hkeep _ fun c hc => h.noSpace c (List.mem_reverse.mp hc),
    List.reverse_reverse, String.ofList_toList]

theorem kelvin_facts {c : Char} (h : c ∈ kelvins) : c ≠ '@' ∧ isSpace c = false ∧
    (c.toNat < 128 ∨ International c) ∧ (c.toNat < 128 ∨ c ∈ unicodeLetters) := by
  simp only [kelvins, List.mem_cons, List.not_mem_nil, or_false] at h
  obtain rfl | rfl | rfl := h <;> decide

theorem International.ne_at {c : Char} (h : International c) : c ≠ '@' := by
  rintro rfl
  exact absurd h (by decide)

def plainField : EmailField where
  accepts := Plain
  trimmed _ h := h.trimmed
  hasAt _ h := h.hasAt
  maxLength _ h := String.length_toList ▸ h.short
  chars _ h := h.chars
  name x c y h hat := by
    have hnamed := h.named
    rw [String.toList_ofList] at hnamed
    exact hnamed.of_mem hat
  domain x c d y _ hy hc _ hd _ hspace h :=
    h.replace hc.ne_at hd.ne_at hspace (.inr hd) fun hat => absurd hat hy
  ignoreCase x c d y hc hd h := by
    obtain ⟨hne, hspace, hchar, hname⟩ := kelvin_facts hd
    exact h.replace (kelvin_facts hc).1 hne hspace hchar fun _ => hname

def kelvinAddress : String := "\u212Aim@example.com"

/-- Of `n + 12` characters, which become `2 * n + 12`. -/
def dottedAddress (n : ℕ) : String :=
  String.ofList (List.replicate n '\u0130' ++ "@example.com".toList)

theorem plain_dottedAddress {n : ℕ} (hn : n ≤ 242) : Plain (dottedAddress n) := by
  have hmem : ∀ c ∈ (dottedAddress n).toList, c = '\u0130' ∨ c ∈ "@example.com".toList := by
    intro c hc
    rw [dottedAddress, String.toList_ofList, List.mem_append] at hc
    exact hc.imp_left List.eq_of_mem_replicate
  have htail : ∀ c ∈ "@example.com".toList, isSpace c = false ∧ c.toNat < 128 := by
    have hall : "@example.com".toList.all (fun c => !isSpace c && decide (c.toNat < 128)) = true := by
      decide
    simpa using List.all_eq_true.mp hall
  constructor
  · simp [dottedAddress]
  · intro c hc
    rcases hmem c hc with rfl | hc
    · decide
    · exact (htail c hc).1
  · simp only [dottedAddress, String.toList_ofList, List.length_append, List.length_replicate]
    have hlen : "@example.com".toList.length = 12 := by decide
    omega
  · intro c hc
    rcases hmem c hc with rfl | hc
    · exact Or.inr (by decide)
    · exact Or.inl (htail c hc).2
  · refine named_of_forall fun c hc => ?_
    rcases hmem c hc with rfl | hc
    · exact Or.inr (by decide)
    · exact Or.inl (htail c hc).2

theorem length_canonicalEmail_dotted {n : ℕ} (hn : n ≤ 242) :
    (Unicode.letters.canonicalEmail (dottedAddress n)).length = 2 * n + 12 := by
  have hcount : List.count '\u0130' "@example.com".toList = 0 := by decide
  have hlen : "@example.com".toList.length = 12 := by decide
  rw [canonicalEmail_accepted letters_follows plainField (plain_dottedAddress hn),
    String.length_ofList, CaseTable.length_lowerFrom, dottedAddress, String.toList_ofList,
    List.length_append, List.count_append, List.length_replicate, List.count_replicate_self, hcount,
    hlen]
  omega

/-- A look-alike in either part, and an address of 254 characters of which 496 are to be stored. -/
theorem lookAlikes_accepted :
    plainField.accepts "kim@example.com" ∧ plainField.accepts kelvinAddress ∧
    Unicode.letters.canonicalEmail kelvinAddress = "kim@example.com" ∧
    ¬ FoldsSafely .letters plainField "kim@example.com" ∧
    plainField.accepts "min@bücher.example" ∧ plainField.accepts "min@BÜCHER.example" ∧
    Unicode.letters.canonicalEmail "min@BÜCHER.example" = "min@bücher.example" ∧
    ¬ FoldsSafely .letters plainField "min@bücher.example" ∧
    plainField.accepts (dottedAddress 242) ∧
    (Unicode.letters.canonicalEmail (dottedAddress 242)).length = 496 ∧
    ¬ FoldsSafely .letters plainField (dottedAddress 242) := by
  have hkim : Plain "kim@example.com" := by decide
  have hkelvin : Plain kelvinAddress := by decide
  have hsmall : Plain "min@bücher.example" := by decide
  have hcapital : Plain "min@BÜCHER.example" := by decide
  have hsame : Unicode.letters.canonicalEmail "kim@example.com" =
      Unicode.letters.canonicalEmail kelvinAddress := by decide +kernel
  have hbooks : Unicode.letters.canonicalEmail "min@bücher.example" =
      Unicode.letters.canonicalEmail "min@BÜCHER.example" := by decide +kernel
  have hlong := length_canonicalEmail_dotted (le_refl 242)
  refine ⟨hkim, hkelvin, by decide +kernel, fun h => ?_, hsmall, hcapital, by decide +kernel, fun h => ?_,
    plain_dottedAddress le_rfl, hlong, fun h => ?_⟩
  · exact absurd (h.alone kelvinAddress hkelvin hsame) (by unfold SameButCase; decide)
  · exact absurd (h.alone _ hcapital hbooks) (by unfold SameButCase; decide)
  · have hfits := h.fits
    rw [hlong] at hfits
    omega

theorem sameButCase_of_undot {a b : String} (ha : ∀ c ∈ a.toList, c.toNat < 128)
    (h : undot b.toList = undot a.toList) : SameButCase a b := by
  have hadot : '\u0130' ∉ a.toList := fun hmem => absurd (ha _ hmem) (by decide)
  rw [undot_of_not_mem hadot] at h
  have hbdot : '\u0130' ∉ b.toList := by
    intro hmem
    have hdot : '\u0307' ∈ undot b.toList := List.mem_flatMap.mpr ⟨_, hmem, by decide⟩
    rw [h] at hdot
    obtain ⟨c, hc, heq⟩ := List.mem_map.mp hdot
    exact absurd (heq ▸ toLower_ascii.mpr (ha c hc)) (by decide)
  rw [undot_of_not_mem hbdot] at h
  exact h.symm

/-- The letter k aside, an ASCII address is folded safely. -/
theorem folds_safely_plain : FoldsSafely .letters plainField "Min@Example.com" := by
  have hplain : Plain "Min@Example.com" := by decide
  have hall : "Min@Example.com".toList.all (fun c => decide (c.toNat < 128 ∧ c ∉ kelvins)) = true := by
    decide
  have hascii : ∀ c ∈ "Min@Example.com".toList, c.toNat < 128 ∧ c ∉ kelvins := fun c hc =>
    of_decide_eq_true (List.all_eq_true.mp hall c hc)
  refine (folds_safely_iff letters_follows plainField letterTable_keepsRange hplain).mpr
    ⟨CaseTable.apart_of_ascii hascii, by decide, fun b _ hundot => ?_⟩
  exact sameButCase_of_undot (fun c hc => (hascii c hc).1) hundot

end Chamneul.Auth
