import Chamneul.Spec.AuthServices
import Mathlib.Algebra.Ring.Nat
import Mathlib.Data.Fintype.Defs

/-! The identifiers of `common.uuid7`, and `_create_with_nickname` as a call of its own. -/

namespace Chamneul.Auth

/-- `uuid7`: the milliseconds since 1970, and what is drawn. -/
structure Uuid7 where
  unixTsMs : Fin (2 ^ 48)
  randA : Fin (2 ^ 12)
  randB : Fin (2 ^ 62)
  deriving DecidableEq

/-- The last `width` hexadecimal digits of `n`. -/
def hexDigits : ℕ → ℕ → List Char
  | 0, _ => []
  | width + 1, n => hexDigits width (n / 16) ++ [Nat.digitChar (n % 16)]

namespace Uuid7

/-- `UUID.int`. The version stands after the time, and the variant between what is drawn. -/
def int (u : Uuid7) : ℕ :=
  u.unixTsMs * 2 ^ 80 + 7 * 2 ^ 76 + u.randA * 2 ^ 64 + 2 * 2 ^ 62 + u.randB

/-- `UUID.hex`, which is `"%032x" % self.int`. -/
def hex (u : Uuid7) : String := String.ofList (hexDigits 32 u.int)

/-- The 65.536 seconds in which the identifier was made. -/
def window (u : Uuid7) : ℕ := u.unixTsMs / 2 ^ 16

end Uuid7

/-- The arguments of a call of `_create_with_nickname`, and what it draws. -/
structure NewAccount where
  email : String
  googleSub : String
  base : String
  suffixes : Fin 5 → Fin 10000
  uuid : Uuid7
  deriving DecidableEq

/-- `hex[:8]` is the first eight characters. -/
def NewAccount.draws (k : NewAccount) : NicknameDraws :=
  ⟨k.suffixes, String.ofList (k.uuid.hex.toList.take 8)⟩

def NewAccount.candidates (k : NewAccount) : List String := k.draws.candidates k.base

def isHexDigit (c : Char) : Bool := c.isDigit || decide ('a' ≤ c ∧ c ≤ 'f')

/-- `user_` and eight hexadecimal digits. -/
def FallbackForm (nickname : String) : Prop :=
  nickname.toList.take 5 = "user_".toList ∧ (nickname.toList.drop 5).length = 8 ∧
    (nickname.toList.drop 5).all isHexDigit = true

instance : DecidablePred FallbackForm := fun _ => inferInstanceAs (Decidable (_ ∧ _ ∧ _))

/-- Nothing but calls of `_create_with_nickname`. -/
abbrev creations (S : Settings) : ReadCommitted.System Db Key Write Failure :=
  ⟨NewAccount, fun _ => User,
    fun k => createWithNickname S k.email k.googleSub k.candidates (.integrityError none)⟩

end Chamneul.Auth
