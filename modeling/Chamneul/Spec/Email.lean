import Chamneul.Spec.Models
import Mathlib.Data.List.DropRight

/-! `accounts.managers`: the one form in which an address is stored and looked up. -/

namespace Chamneul.Auth

/-- `str.lower` and NFKC, which are tables of the Unicode database, with what the accounts rely
on: an `@` and a space are no letters, and no casing rule looks across an `@`. -/
structure Unicode where
  lower : String → String
  nfkc : String → String
  lower_lower : ∀ s, lower (lower s) = lower s
  lower_at : ∀ s t, lower (s ++ "@" ++ t) = lower s ++ "@" ++ lower t
  mem_lower : ∀ s, '@' ∈ (lower s).toList ↔ '@' ∈ s.toList
  strip_lower : ∀ s, strip (lower s) = lower (strip s)

/-- `s.rsplit("@", 1)`, or nothing where it has one part. -/
def rsplitAt (s : String) : Option (String × String) :=
  let upToAt := s.toList.rdropWhile (· ≠ '@')
  if upToAt = [] then none
  else some (String.ofList upToAt.dropLast, String.ofList (s.toList.rtakeWhile (· ≠ '@')))

namespace Unicode

variable (U : Unicode)

/-- `BaseUserManager.normalize_email`. -/
def normalizeEmail (email : String) : String :=
  match rsplitAt (strip email) with
  | none => email
  | some (name, domain) => name ++ "@" ++ U.lower domain

def canonicalEmail (email : String) : String := U.lower (U.normalizeEmail email)

end Unicode

/-! The folding. -/

theorem rsplitAt_eq_none {s : String} : rsplitAt s = none ↔ '@' ∉ s.toList := by
  simp only [rsplitAt, ite_eq_left_iff, reduceCtorEq, imp_false, not_not, List.rdropWhile_eq_nil_iff,
    ne_eq, decide_not, Bool.not_eq_eq_eq_not, Bool.not_true, decide_eq_false_iff_not]
  exact ⟨fun h hm => h _ hm rfl, fun h c hm hc => h (hc ▸ hm)⟩

theorem of_rsplitAt {s name domain : String} (h : rsplitAt s = some (name, domain)) :
    s = name ++ "@" ++ domain := by
  simp only [rsplitAt] at h
  split at h
  · cases h
  · rename_i hne
    simp only [Option.some.injEq, Prod.mk.injEq] at h
    obtain ⟨rfl, rfl⟩ := h
    have hlast := List.rdropWhile_last_not (· ≠ '@') s.toList hne
    have hat : (s.toList.rdropWhile (· ≠ '@')).getLast hne = '@' := by simpa using hlast
    have hname := List.dropLast_append_getLast hne
    rw [hat] at hname
    refine String.toList_injective ?_
    have hsplit := List.rdropWhile_append_rtakeWhile (p := (· ≠ '@')) (l := s.toList)
    rw [← hname] at hsplit
    simpa using hsplit.symm

theorem dropWhile_of_prefix {p : Char → Bool} {l l' : List Char} (h : l' <+: l)
    (hl : l.dropWhile p = l) : l'.dropWhile p = l' := by
  obtain ⟨t, rfl⟩ := h
  cases l' with
  | nil => rfl
  | cons c l' =>
    have hc : ¬ p c = true := by
      simpa using List.dropWhile_eq_self_iff.mp hl (by simp)
    rw [List.dropWhile_cons, if_neg hc]

theorem strip_strip (s : String) : strip (strip s) = strip s := by
  have hfront := List.dropWhile_idempotent isSpace s.toList
  have hboth := dropWhile_of_prefix (List.rdropWhile_prefix isSpace _) hfront
  have hback := List.rdropWhile_idempotent isSpace (s.toList.dropWhile isSpace)
  refine congrArg String.ofList ?_
  simp only [strip, String.toList_ofList]
  change List.rdropWhile isSpace (((s.toList.dropWhile isSpace).rdropWhile isSpace).dropWhile isSpace) = _
  rw [hboth]
  exact hback

section

variable (U : Unicode)

/-- An address with an `@` is stripped and folded as a whole. -/
theorem canonicalEmail_of_mem {email : String} (h : '@' ∈ (strip email).toList) :
    U.canonicalEmail email = U.lower (strip email) := by
  cases hs : rsplitAt (strip email) with
  | none => exact absurd h (rsplitAt_eq_none.mp hs)
  | some parts =>
    obtain ⟨name, domain⟩ := parts
    rw [Unicode.canonicalEmail, Unicode.normalizeEmail, hs, of_rsplitAt hs]
    simp only [U.lower_at, U.lower_lower]

theorem canonicalEmail_of_not_mem {email : String} (h : '@' ∉ (strip email).toList) :
    U.canonicalEmail email = U.lower email := by
  rw [Unicode.canonicalEmail, Unicode.normalizeEmail, rsplitAt_eq_none.mpr h]

/-- Folding twice is folding once. -/
theorem canonicalEmail_canonicalEmail (email : String) :
    U.canonicalEmail (U.canonicalEmail email) = U.canonicalEmail email := by
  by_cases h : '@' ∈ (strip email).toList
  · have hstrip : strip (U.lower (strip email)) = U.lower (strip email) := by
      rw [U.strip_lower, strip_strip]
    rw [canonicalEmail_of_mem U h, canonicalEmail_of_mem U, hstrip, U.lower_lower]
    rw [hstrip, U.mem_lower]
    exact h
  · rw [canonicalEmail_of_not_mem U h, canonicalEmail_of_not_mem U, U.lower_lower]
    rw [U.strip_lower, U.mem_lower]
    exact h

end

/-! ASCII, where the tables are short. -/

theorem toNat_toLower (c : Char) :
    c.toLower.toNat = if 65 ≤ c.toNat ∧ c.toNat ≤ 90 then c.toNat + 32 else c.toNat := by
  have hval : c.val.toNat = c.toNat := rfl
  unfold Char.toLower
  split
  · rename_i h
    obtain ⟨h₁, h₂⟩ := h
    rw [ge_iff_le, UInt32.le_iff_toNat_le] at h₁
    rw [UInt32.le_iff_toNat_le] at h₂
    have h₁' : 65 ≤ c.toNat := h₁
    have h₂' : c.toNat ≤ 90 := h₂
    rw [if_pos ⟨h₁', h₂'⟩]
    change (c.val + ('a'.val - 'A'.val)).toNat = _
    rw [UInt32.toNat_add, hval]
    have : ('a'.val - 'A'.val).toNat = 32 := by decide
    omega
  · rename_i h
    rw [if_neg]
    rintro ⟨h₁, h₂⟩
    refine h ⟨?_, ?_⟩
    · exact UInt32.le_iff_toNat_le.mpr h₁
    · exact UInt32.le_iff_toNat_le.mpr h₂

theorem toLower_toLower (c : Char) : c.toLower.toLower = c.toLower := by
  rw [← Char.toNat_inj, toNat_toLower c.toLower]
  have := toNat_toLower c
  split_ifs at this ⊢ <;> omega

theorem isSpace_toLower (c : Char) : isSpace c.toLower = isSpace c := by
  have := toNat_toLower c
  split_ifs at this with h
  · rw [Bool.eq_iff_iff]
    simp only [isSpace, this, Bool.or_eq_true, Bool.and_eq_true, decide_eq_true_eq, beq_iff_eq]
    omega
  · rw [Char.toNat_inj.mp this]

theorem toLower_eq_at (c : Char) : c.toLower = '@' ↔ c = '@' := by
  have := toNat_toLower c
  rw [← Char.toNat_inj, ← Char.toNat_inj, this]
  have : '@'.toNat = 64 := rfl
  split_ifs <;> omega

/-- The ASCII part of the tables. -/
def Unicode.ascii : Unicode where
  lower s := String.ofList (s.toList.map Char.toLower)
  nfkc s := s
  lower_lower s := by
    have h : Char.toLower ∘ Char.toLower = Char.toLower := funext toLower_toLower
    simp [h]
  lower_at s t := by
    refine String.toList_injective ?_
    simp [show Char.toLower '@' = '@' by decide]
  mem_lower s := by simp [toLower_eq_at]
  strip_lower s := by
    have h : isSpace ∘ Char.toLower = isSpace := funext isSpace_toLower
    refine congrArg String.ofList ?_
    simp only [strip, String.toList_ofList]
    rw [List.dropWhile_map, h, ← List.map_reverse, List.dropWhile_map, h, ← List.map_reverse]

example : Unicode.ascii.canonicalEmail " Kim@Example.COM " = "kim@example.com" := by decide

/-! Beyond ASCII, where a capital sigma is lowered by the letters around it. -/

/-- A sigma, whether or not it ends a word. -/
def unfinal (c : Char) : Char := if c = '\u03C2' then '\u03C3' else c

/-- The letters lowered one by one, as far as the casing rules see them. -/
def skeleton (low : Char → List Char) (l : List Char) : List Char := (l.flatMap low).map unfinal

/-- What `str.lower` looks up in the Unicode database: the full mapping of a character, and whether
a capital sigma ends a word between these characters. -/
structure CaseTable where
  low : Char → List Char
  final : List Char → List Char → Bool
  low_ascii : ∀ c, c.toNat < 128 → low c = [c.toLower]
  low_dotted : low '\u0130' = ['i', '\u0307']
  low_kelvin : low '\u212A' = ['k']
  low_sigma : low '\u03A3' = ['\u03C3']
  low_finalSigma : low '\u03C2' = ['\u03C2']
  low_single : ∀ c, c ≠ '\u0130' → ∃ d, low c = [d]
  low_toAscii : ∀ c d, low c = [d] → d.toNat < 128 → c.toNat < 128 ∨ c = '\u212A'
  /-- A combining dot, a dotless i and a long s are what nothing else is lowered to. -/
  low_alone : ∀ c, ∀ d ∈ ['\u0307', '\u0131', '\u017F'], low c = [d] ↔ c = d
  final_congr : ∀ x x' y y', skeleton low x = skeleton low x' → skeleton low y = skeleton low y' →
    final x y = final x' y'

namespace CaseTable

variable (T : CaseTable)

/-- A character lowered between others. -/
def lowerAt (x y : List Char) (c : Char) : List Char :=
  if c = '\u03A3' then if T.final x y then ['\u03C2'] else ['\u03C3'] else T.low c

/-- Characters lowered that come after others. -/
def lowerFrom : List Char → List Char → List Char
  | _, [] => []
  | x, c :: y => T.lowerAt x y c ++ lowerFrom (x ++ [c]) y

end CaseTable

def Unicode.Follows (U : Unicode) (T : CaseTable) : Prop :=
  ∀ s, U.lower s = String.ofList (T.lowerFrom [] s.toList)

/-! The addresses that sign-up accepts. -/

/-- The characters beyond ASCII that `[A-Z]` matches when case is ignored: a capital I with a
dot, a dotless i, a long s and the Kelvin sign. -/
def unicodeLetters : List Char := ['\u0130', '\u0131', '\u017F', '\u212A']

/-- What `[K]` matches when case is ignored. -/
def kelvins : List Char := ['k', 'K', '\u212A']

/-- The range of an internationalised domain. -/
def International (c : Char) : Prop := 0xA1 ≤ c.toNat ∧ c.toNat ≤ 0xFFFF

instance (c : Char) : Decidable (International c) := inferInstanceAs (Decidable (_ ∧ _))

/-- The table moreover keeps the cased letters of that range together. -/
def CaseTable.KeepsRange (T : CaseTable) : Prop :=
  ∀ c d, International c → c ∉ kelvins → T.low d = T.low c → d ≠ c →
    International d ∧ d ∉ unicodeLetters ∧ isSpace d = false

/-- `EmailField(max_length=254)`. The validator is Django's: it wants an `@`. Up to the last one it
matches ASCII, and after it the range as well, of which it does not tell two characters apart but for
those that match a letter; and those that match the same letter it tells apart nowhere. -/
structure EmailField where
  accepts : String → Prop
  trimmed : ∀ a, accepts a → strip a = a
  hasAt : ∀ a, accepts a → '@' ∈ a.toList
  maxLength : ∀ a, accepts a → a.length ≤ 254
  chars : ∀ a, accepts a → ∀ c ∈ a.toList, c.toNat < 128 ∨ International c
  name : ∀ x c y, accepts (String.ofList (x ++ c :: y)) → '@' ∈ y →
    c.toNat < 128 ∨ c ∈ unicodeLetters
  domain : ∀ x c d y, '@' ∈ x → '@' ∉ y → International c → c ∉ unicodeLetters → International d →
    d ∉ unicodeLetters → isSpace d = false →
      accepts (String.ofList (x ++ c :: y)) → accepts (String.ofList (x ++ d :: y))
  ignoreCase : ∀ x c d y, c ∈ kelvins → d ∈ kelvins →
    accepts (String.ofList (x ++ c :: y)) → accepts (String.ofList (x ++ d :: y))

end Chamneul.Auth
