import Chamneul.Spec.Nicknames
import Mathlib.Data.List.Nodup

/-! The nicknames a new account tries. The last is made of the leading 32 bits of the time in the
identifier, so it is the same for 65.536 seconds. -/

namespace Chamneul.Auth

theorem digitChar_injective : ∀ a < 16, ∀ b < 16, Nat.digitChar a = Nat.digitChar b → a = b := by
  decide

theorem isHexDigit_digitChar : ∀ d < 16, isHexDigit (Nat.digitChar d) = true := by decide

theorem length_hexDigits (width n : ℕ) : (hexDigits width n).length = width := by
  induction width generalizing n with
  | zero => rfl
  | succ width ih => simp [hexDigits, ih]

theorem mem_hexDigits {width n : ℕ} {c : Char} (h : c ∈ hexDigits width n) : isHexDigit c = true := by
  induction width generalizing n with
  | zero => cases h
  | succ width ih =>
    rcases List.mem_append.mp h with h | h
    · exact ih h
    · obtain rfl := List.mem_singleton.mp h
      exact isHexDigit_digitChar _ (Nat.mod_lt _ (by omega))

/-- The leading digits are the digits of a quotient. -/
theorem take_hexDigits (width more n : ℕ) :
    (hexDigits (width + more) n).take width = hexDigits width (n / 16 ^ more) := by
  induction more generalizing n with
  | zero => rw [Nat.add_zero, pow_zero, Nat.div_one, List.take_of_length_le (length_hexDigits _ n).le]
  | succ more ih =>
    rw [← Nat.add_assoc, hexDigits, List.take_append_of_le_length (by simp [length_hexDigits]), ih,
      Nat.div_div_eq_div_mul, pow_succ']

/-- Numbers that fit are told apart by their digits. -/
theorem hexDigits_injective {width n m : ℕ} (hn : n < 16 ^ width) (hm : m < 16 ^ width)
    (h : hexDigits width n = hexDigits width m) : n = m := by
  induction width generalizing n m with
  | zero => omega
  | succ width ih =>
    obtain ⟨hleading, hlast⟩ := List.append_inj h (by simp only [length_hexDigits])
    have hdigit : n % 16 = m % 16 :=
      digitChar_injective _ (Nat.mod_lt _ (by omega)) _ (Nat.mod_lt _ (by omega)) (by simpa using hlast)
    have hquotient : n / 16 = m / 16 := ih (by omega) (by omega) hleading
    omega

theorem Uuid7.window_lt (u : Uuid7) : u.window < 16 ^ 8 := by
  have := u.unixTsMs.isLt
  unfold window
  omega

/-- The first eight digits are those of the window. -/
theorem Uuid7.take_hex (u : Uuid7) : u.hex.toList.take 8 = hexDigits 8 u.window := by
  have hwindow : u.int / 16 ^ 24 = u.window := by
    have := u.randA.isLt
    have := u.randB.isLt
    unfold int window
    omega
  rw [hex, String.toList_ofList, take_hexDigits 8 24, hwindow]

section

variable {k l : NewAccount}

theorem getLast?_candidates (k : NewAccount) :
    k.candidates.getLast? = some ("user_" ++ String.ofList (hexDigits 8 k.uuid.window)) := by
  rw [NewAccount.candidates, NicknameDraws.candidates, List.getLast?_append, ← Uuid7.take_hex]
  rfl

/-- The last nicknames of two calls are the same if the windows of their identifiers are. -/
theorem getLast?_candidates_eq :
    k.candidates.getLast? = l.candidates.getLast? ↔ k.uuid.window = l.uuid.window := by
  refine ⟨fun h => ?_, fun h => by rw [getLast?_candidates, getLast?_candidates, h]⟩
  rw [getLast?_candidates, getLast?_candidates, Option.some.injEq, String.ext_iff] at h
  simp only [String.toList_append, String.toList_ofList, List.append_cancel_left_eq] at h
  exact hexDigits_injective k.uuid.window_lt l.uuid.window_lt h

theorem length_suffix (n : Fin 10000) : ((toString n.val).toList.leftpad 4 '0').length = 4 := by
  have hshort : (toString n.val).length ≤ 4 := (Nat.length_repr_le_iff (by omega)).mpr n.isLt
  rw [List.length_leftpad, String.length_toList]
  omega

/-- The candidates of a base, the base itself apart. -/
theorem mem_candidates {draws : NicknameDraws} {base nickname : String} :
    nickname ∈ draws.candidates base ↔ nickname = base ∨
      (∃ i, nickname = base ++ "_" ++
        String.ofList ((toString (draws.suffixes i).val).toList.leftpad 4 '0')) ∨
      nickname = "user_" ++ draws.hex := by
  simp only [NicknameDraws.candidates, List.mem_append, List.mem_cons, List.mem_ofFn, List.not_mem_nil,
    or_false, or_assoc, eq_comm (a := nickname)]

/-- In the form the underscore is the fifth character, before a suffix it is the fifth from last. -/
theorem not_fallbackForm_suffixed (base : String) (n : Fin 10000) : ¬ FallbackForm
    (base ++ "_" ++ String.ofList ((toString n.val).toList.leftpad 4 '0')) := by
  rintro ⟨-, hlength, hdigits⟩
  have hsuffix := length_suffix n
  simp only [String.toList_append, String.toList_ofList, List.append_assoc] at hlength hdigits
  have hunderscore : "_".toList = ['_'] := rfl
  rw [hunderscore] at hlength hdigits
  have hbase : base.toList.length = 8 := by
    simp only [List.length_drop, List.length_append, List.length_singleton] at hlength
    omega
  refine absurd (List.all_eq_true.mp hdigits '_' ?_) (by decide)
  rw [List.drop_append_of_le_length (by omega)]
  simp

/-- Only the last nickname of a call has the form. -/
theorem getLast?_of_fallbackForm {nickname : String} (hbase : ¬ FallbackForm k.base)
    (h : nickname ∈ k.candidates) (hform : FallbackForm nickname) :
    k.candidates.getLast? = some nickname := by
  obtain rfl | ⟨i, rfl⟩ | rfl := mem_candidates.mp h
  · exact absurd hform hbase
  · exact absurd hform (not_fallbackForm_suffixed _ _)
  · rw [NewAccount.candidates, NicknameDraws.candidates, List.getLast?_append]
    rfl

theorem fallbackForm_getLast? {nickname : String} (h : k.candidates.getLast? = some nickname) :
    FallbackForm nickname := by
  rw [getLast?_candidates, Option.some.injEq] at h
  subst h
  have hdigits : ("user_" ++ String.ofList (hexDigits 8 k.uuid.window)).toList.drop 5 =
      hexDigits 8 k.uuid.window := by
    simp only [String.toList_append, String.toList_ofList]
    rfl
  refine ⟨?_, by rw [hdigits, length_hexDigits],
    List.all_eq_true.mpr fun c hc => mem_hexDigits (hdigits ▸ hc)⟩
  rw [String.toList_append]
  rfl

end

end Chamneul.Auth
