import Chamneul.Proofs.ResetLinks
import Chamneul.Python.Scanner
import Chamneul.Spec.OAuth

/-! What becomes of Google's replies. Two exceptions are turned into the two answers that are meant,
and a reply can raise others. -/

namespace Chamneul.Auth

open ReadCommitted ReadCommitted.Prog Python

/-- The exceptions that the view answers with 502 and with 401. -/
def Exn.Answered : Exn → Prop
  | .oauthUpstreamError _ | .oauthVerifyError _ => True
  | _ => False

def NonEmptyText (value : Value) : Prop := ∃ s, value = .string s ∧ s ≠ []

def IsString (value : Value) : Prop := ∃ s, value = .string s

/-- `exchange_code_for_id_token` returns a token, or raises one of the two. -/
def TokenOutcome : Except Exn Value → Prop
  | .ok idToken => NonEmptyText idToken
  | .error e => e.Answered

namespace OAuth

variable (O : OAuth)

/-- What the claims have to be. -/
structure Accepted (items : List (Text × Value)) : Prop where
  issuer : ∃ iss ∈ issuers, Value.getItem items "iss" = .string (Text.ofString iss)
  audience : Value.getItem items "aud" = .string (Text.ofString O.settings.clientId)
  verified : Value.getItem items "email_verified" = .bool true ∨
    ∃ s, Value.getItem items "email_verified" = .string s ∧ s.lower = Text.ofString "true"
  email : NonEmptyText (Value.getItem items "email")
  sub : NonEmptyText (Value.getItem items "sub")

def ClaimsOutcome : Except Exn Value → Prop
  | .ok claims => ∃ items, claims = .object items ∧ O.Accepted items
  | .error e => e.Answered

/-- The five checks, which do not ask for texts. -/
def PassesChecks (items : List (Text × Value)) : Prop :=
  issuers.any (Value.getItem items "iss").isText = true ∧
    (Value.getItem items "aud").isText O.settings.clientId = true ∧
    O.readsTrue (Value.getItem items "email_verified") = true ∧
    (Value.getItem items "email").truthy = true ∧ (Value.getItem items "sub").truthy = true

end OAuth

/-- A reply is an object, a failure that is expected, or something else. -/
inductive Parsed
  | object (items : List (Text × Value))
  | expected
  | unexpected

namespace OAuth

variable {O : OAuth}

/-- No connection, an error status and a text that is no JSON are expected. -/
def parsed (O : OAuth) : Reply → Parsed
  | .urlError => .expected
  | .readFails _ => .unexpected
  | .body bytes =>
    match loads O.recursionLimit bytes with
    | .ok (.object items) => .object items
    | .error .jsonDecodeError => .expected
    | _ => .unexpected

/-- A reply that is not expected broke off, is in no encoding, is nested too deep, has too long a
number, or is JSON and no object. -/
theorem of_unexpected {reply : Reply} (h : O.parsed reply = .unexpected) :
    (∃ e, reply = .readFails e) ∨ ∃ bytes, reply = .body bytes ∧
      (bytes.decode (detectEncoding bytes) = none ∨
        (∃ text, bytes.decode (detectEncoding bytes) = some text ∧
          (O.recursionLimit < openers text ∨ LongDigits text)) ∨
        ∃ value, loads O.recursionLimit bytes = .ok value ∧ ∀ items, value ≠ .object items) := by
  cases reply with
  | urlError => cases h
  | readFails e => exact Or.inl ⟨e, rfl⟩
  | body bytes =>
    refine Or.inr ⟨bytes, rfl, ?_⟩
    cases hloads : loads O.recursionLimit bytes with
    | ok value =>
      refine Or.inr (Or.inr ⟨value, rfl, ?_⟩)
      rintro items rfl
      rw [parsed, hloads] at h
      cases h
    | error e =>
      rcases loads_error hloads with rfl | ⟨-, hnone⟩ | ⟨text, htext, hraised⟩
      · rw [parsed, hloads] at h
        cases h
      · exact Or.inl hnone
      · exact Or.inr (Or.inl ⟨text, htext, hraised.imp And.right And.right⟩)

/-! `_post_json` and `_get_json`. -/

section

variable {reply : Reply}

theorem read_object (detail : String) {items : List (Text × Value)}
    (h : O.parsed reply = .object items) :
    upstream detail (O.readJson reply) = .ok (.object items) := by
  cases reply with
  | urlError => cases h
  | readFails e => cases h
  | body bytes =>
    rw [parsed] at h
    split at h
    · rename_i items' hloads
      cases h
      rw [readJson, hloads]
      rfl
    · cases h
    · cases h

theorem read_expected (detail : String) (h : O.parsed reply = .expected) :
    upstream detail (O.readJson reply) = .error (.oauthUpstreamError detail) := by
  cases reply with
  | urlError => rfl
  | readFails e => cases h
  | body bytes =>
    rw [parsed] at h
    split at h
    · cases h
    · rename_i hloads
      rw [readJson, hloads]
      rfl
    · cases h

/-- What is not expected escapes, at the latest where a key is asked for. -/
theorem read_unexpected {α : Type} (detail key : String) (h : O.parsed reply = .unexpected)
    (rest : Value → Value → Except Exn α) : ∃ e : Exn, ¬ e.Answered ∧
      (do
        let value ← upstream detail (O.readJson reply)
        let item ← getKey value key
        rest value item) = .error e := by
  cases reply with
  | urlError => cases h
  | readFails e => exact ⟨.read e, id, rfl⟩
  | body bytes =>
    rw [readJson]
    cases hloads : loads O.recursionLimit bytes with
    | ok value =>
      cases value with
      | object items =>
        rw [parsed, hloads] at h
        cases h
      | _ => exact ⟨.attributeError, id, rfl⟩
    | error e =>
      cases e with
      | jsonDecodeError =>
        rw [parsed, hloads] at h
        cases h
      | _ => exact ⟨.json _, id, rfl⟩

end

/-! `exchange_code_for_id_token`. -/

section

variable {code : String}

def tokenReply (O : OAuth) (code : String) : Reply := O.google.token (urlencode (O.tokenRequest code))

theorem exchange_eq (hset : O.settings.isConfigured) : O.exchangeCodeForIdToken code = (do
    let payload ← upstream "token endpoint failed" (O.readJson (O.tokenReply code))
    let idToken ← getKey payload "id_token"
    if idToken.truthy then pure idToken
    else throw (.oauthUpstreamError "token response missing id_token")) :=
  if_pos hset

theorem exchange_unconfigured (hset : ¬ O.settings.isConfigured) :
    O.exchangeCodeForIdToken code = .error .oauthConfigError :=
  if_neg hset

theorem exchange_object (hset : O.settings.isConfigured) {items : List (Text × Value)}
    (h : O.parsed (O.tokenReply code) = .object items) :
    O.exchangeCodeForIdToken code =
      if (Value.getItem items "id_token").truthy then .ok (Value.getItem items "id_token")
      else .error (.oauthUpstreamError "token response missing id_token") := by
  rw [exchange_eq hset, read_object _ h]
  rfl

theorem exchange_expected (hset : O.settings.isConfigured)
    (h : O.parsed (O.tokenReply code) = .expected) :
    O.exchangeCodeForIdToken code = .error (.oauthUpstreamError "token endpoint failed") := by
  rw [exchange_eq hset, read_expected _ h]
  rfl

theorem exchange_unexpected (hset : O.settings.isConfigured)
    (h : O.parsed (O.tokenReply code) = .unexpected) :
    ∃ e : Exn, ¬ e.Answered ∧ O.exchangeCodeForIdToken code = .error e := by
  rw [exchange_eq hset]
  exact read_unexpected _ _ h _

theorem nonEmptyText_iff {value : Value} : NonEmptyText value ↔ value.truthy = true ∧ IsString value := by
  constructor
  · rintro ⟨s, rfl, hne⟩
    exact ⟨by simpa [Value.truthy] using hne, s, rfl⟩
  · rintro ⟨htruthy, s, rfl⟩
    exact ⟨s, rfl, by simpa [Value.truthy] using htruthy⟩

theorem tokenOutcome_iff : TokenOutcome (O.exchangeCodeForIdToken code) ↔
    O.settings.isConfigured ∧ O.parsed (O.tokenReply code) ≠ .unexpected ∧
      ∀ items, O.parsed (O.tokenReply code) = .object items →
        (Value.getItem items "id_token").truthy = true → IsString (Value.getItem items "id_token") := by
  by_cases hset : O.settings.isConfigured
  · cases hparsed : O.parsed (O.tokenReply code) with
    | expected =>
      rw [exchange_expected hset hparsed]
      simp [TokenOutcome, Exn.Answered, hset]
    | unexpected =>
      obtain ⟨e, he, hraised⟩ := exchange_unexpected hset hparsed
      rw [hraised]
      simp [TokenOutcome, he]
    | object items =>
      rw [exchange_object hset hparsed]
      by_cases htruthy : (Value.getItem items "id_token").truthy = true
      · simp [TokenOutcome, nonEmptyText_iff, htruthy, hset]
      · simp [TokenOutcome, Exn.Answered, htruthy, hset]
  · rw [exchange_unconfigured hset]
    simp [TokenOutcome, Exn.Answered, hset]

end

/-! `verify_id_token`. -/

theorem isText_iff {value : Value} {text : String} :
    value.isText text = true ↔ value = .string (Text.ofString text) := by
  cases value <;> simp [Value.isText]

/-- Nothing but `True` and a text prints as "true". -/
theorem readsTrue_iff {value : Value} : O.readsTrue value = true ↔
    value = .bool true ∨ ∃ s, value = .string s ∧ s.lower = Text.ofString "true" := by
  rw [readsTrue, decide_eq_true_eq]
  cases value with
  | null => simp [Printer.str]; decide
  | bool b => cases b <;> simp [Printer.str] <;> decide
  | string s => simp [Printer.str]
  | int n => simpa [Printer.str] using O.printer.lower_repr (.int n)
  | float x => simpa [Printer.str] using O.printer.lower_repr (.float x)
  | array items => simpa [Printer.str] using O.printer.lower_repr (.array items)
  | object items => simpa [Printer.str] using O.printer.lower_repr (.object items)

/-- Only a text with a surrogate in it cannot be sent. -/
theorem encode_str_eq_none {value : Value} : (O.printer.str value).encode = none ↔
    ∃ s, value = .string s ∧ ∃ n, .surrogate n ∈ s := by
  cases value with
  | string s => simp [Printer.str, encode_eq_none]
  | bool b => cases b <;> simp [Printer.str, encode_ofString]
  | _ => simp [Printer.str, encode_ofString]

theorem accepted_iff {items : List (Text × Value)} : O.Accepted items ↔ O.PassesChecks items ∧
    IsString (Value.getItem items "email") ∧ IsString (Value.getItem items "sub") := by
  have hissuer : issuers.any (Value.getItem items "iss").isText = true ↔
      ∃ iss ∈ issuers, Value.getItem items "iss" = .string (Text.ofString iss) := by
    simp only [List.any_eq_true, isText_iff]
  constructor
  · rintro ⟨hiss, haud, hverified, hemail, hsub⟩
    rw [nonEmptyText_iff] at hemail hsub
    exact ⟨⟨hissuer.mpr hiss, isText_iff.mpr haud, readsTrue_iff.mpr hverified, hemail.1, hsub.1⟩,
      hemail.2, hsub.2⟩
  · rintro ⟨⟨hiss, haud, hverified, hemail, hsub⟩, hemailText, hsubText⟩
    exact ⟨hissuer.mp hiss, isText_iff.mp haud, readsTrue_iff.mp hverified,
      nonEmptyText_iff.mpr ⟨hemail, hemailText⟩, nonEmptyText_iff.mpr ⟨hsub, hsubText⟩⟩

section

variable {idToken : Value} {text : String}

def infoReply (O : OAuth) (text : String) : Reply := O.google.tokeninfo (tokeninfoUrl text)

theorem verify_unencodable (h : (O.printer.str idToken).encode = none) :
    O.verifyIdToken idToken = .error .unicodeEncodeError := by
  rw [verifyIdToken, h]
  rfl

theorem verify_expected (h : (O.printer.str idToken).encode = some text)
    (hparsed : O.parsed (O.infoReply text) = .expected) :
    O.verifyIdToken idToken = .error (.oauthUpstreamError "tokeninfo endpoint failed") := by
  rw [verifyIdToken, h]
  dsimp only
  rw [getJson, show O.google.tokeninfo (tokeninfoUrl text) = O.infoReply text from rfl,
    read_expected _ hparsed]
  rfl

theorem verify_unexpected (h : (O.printer.str idToken).encode = some text)
    (hparsed : O.parsed (O.infoReply text) = .unexpected) :
    ∃ e : Exn, ¬ e.Answered ∧ O.verifyIdToken idToken = .error e := by
  rw [verifyIdToken, h]
  exact read_unexpected _ _ hparsed _

theorem getKey_object (items : List (Text × Value)) (key : String) :
    getKey (.object items) key = .ok (Value.getItem items key) := rfl

theorem ok_bind {α β : Type} (a : α) (f : α → Except Exn β) : (Except.ok a >>= f) = f a := rfl

theorem error_bind {α β : Type} (e : Exn) (f : α → Except Exn β) :
    (Except.error e >>= f) = .error e := rfl

/-- Of an object, the checks decide. -/
theorem verify_object (h : (O.printer.str idToken).encode = some text) {items : List (Text × Value)}
    (hparsed : O.parsed (O.infoReply text) = .object items) :
    (O.PassesChecks items ∧ O.verifyIdToken idToken = .ok (.object items)) ∨
      (¬ O.PassesChecks items ∧ ∃ detail, O.verifyIdToken idToken = .error (.oauthVerifyError detail)) := by
  rw [verifyIdToken, h]
  dsimp only
  rw [getJson, show O.google.tokeninfo (tokeninfoUrl text) = O.infoReply text from rfl,
    read_object _ hparsed]
  simp only [getKey_object, ok_bind]
  unfold PassesChecks
  cases hiss : issuers.any (Value.getItem items "iss").isText with
  | false => exact Or.inr ⟨by simp, "id_token issuer mismatch", rfl⟩
  | true =>
    cases haud : (Value.getItem items "aud").isText O.settings.clientId with
    | false => exact Or.inr ⟨by simp, "id_token audience mismatch", rfl⟩
    | true =>
      cases hverified : O.readsTrue (Value.getItem items "email_verified") with
      | false => exact Or.inr ⟨by simp, "email not verified by Google", rfl⟩
      | true =>
        cases hemail : (Value.getItem items "email").truthy with
        | false => exact Or.inr ⟨by simp, "id_token missing email/sub", rfl⟩
        | true =>
          cases hsub : (Value.getItem items "sub").truthy with
          | false => exact Or.inr ⟨by simp, "id_token missing email/sub", rfl⟩
          | true => exact Or.inl ⟨by simp, rfl⟩

theorem claimsOutcome_iff : O.ClaimsOutcome (O.verifyIdToken idToken) ↔
    ∃ text, (O.printer.str idToken).encode = some text ∧ O.parsed (O.infoReply text) ≠ .unexpected ∧
      ∀ items, O.parsed (O.infoReply text) = .object items → O.PassesChecks items →
        IsString (Value.getItem items "email") ∧ IsString (Value.getItem items "sub") := by
  cases hencode : (O.printer.str idToken).encode with
  | none =>
    rw [verify_unencodable hencode]
    simp [ClaimsOutcome, Exn.Answered]
  | some text =>
    simp only [Option.some.injEq, exists_eq_left']
    cases hparsed : O.parsed (O.infoReply text) with
    | expected =>
      rw [verify_expected hencode hparsed]
      simp [ClaimsOutcome, Exn.Answered]
    | unexpected =>
      obtain ⟨e, he, hraised⟩ := verify_unexpected hencode hparsed
      rw [hraised]
      simp [ClaimsOutcome, he]
    | object items =>
      rcases verify_object hencode hparsed with ⟨hpass, hverify⟩ | ⟨hpass, detail, hverify⟩
      · rw [hverify]
        simp [ClaimsOutcome, accepted_iff, hpass]
      · rw [hverify]
        simp [ClaimsOutcome, Exn.Answered, hpass]

theorem verify_answered_iff : (∀ e, O.verifyIdToken idToken = .error e → e.Answered) ↔
    ∃ text, (O.printer.str idToken).encode = some text ∧
      O.parsed (O.infoReply text) ≠ .unexpected := by
  cases hencode : (O.printer.str idToken).encode with
  | none =>
    rw [verify_unencodable hencode]
    simp [Exn.Answered]
  | some text =>
    simp only [Option.some.injEq, exists_eq_left']
    cases hparsed : O.parsed (O.infoReply text) with
    | expected =>
      rw [verify_expected hencode hparsed]
      simp [Exn.Answered]
    | unexpected =>
      obtain ⟨e, he, hraised⟩ := verify_unexpected hencode hparsed
      rw [hraised]
      simp [he]
    | object items =>
      rcases verify_object hencode hparsed with ⟨-, hverify⟩ | ⟨-, detail, hverify⟩
      · rw [hverify]
        simp
      · rw [hverify]
        simp [Exn.Answered]

end

/-! The view. -/

/-- When neither function raises anything else. -/
theorem failures_answered_iff {code : String} : (∀ e, O.googleClaims code = .error e → e.Answered) ↔
    O.settings.isConfigured ∧ O.parsed (O.tokenReply code) ≠ .unexpected ∧
      ∀ items, O.parsed (O.tokenReply code) = .object items →
        (Value.getItem items "id_token").truthy = true →
          ∃ text, (O.printer.str (Value.getItem items "id_token")).encode = some text ∧
            O.parsed (O.infoReply text) ≠ .unexpected := by
  by_cases hset : O.settings.isConfigured
  · cases hparsed : O.parsed (O.tokenReply code) with
    | expected =>
      rw [googleClaims, exchange_expected hset hparsed]
      simp [hset, error_bind, Exn.Answered]
    | unexpected =>
      obtain ⟨e, he, hraised⟩ := exchange_unexpected hset hparsed
      rw [googleClaims, hraised]
      simp [error_bind, he]
    | object items =>
      rw [googleClaims, exchange_object hset hparsed]
      by_cases htruthy : (Value.getItem items "id_token").truthy = true
      · simp only [htruthy, if_true, ok_bind, verify_answered_iff]
        simp [hset, htruthy]
      · simp [hset, htruthy, error_bind, Exn.Answered]
  · rw [googleClaims, exchange_unconfigured hset]
    simp [hset, error_bind, Exn.Answered]

/-- 502 and 401 are the answers to these two. -/
theorem answered_iff {e : Exn} : e.Answered ↔
    ∃ status detail, answerException e = .failed status detail ∧ (status = 502 ∨ status = 401) := by
  cases e <;> simp [Exn.Answered, answerException]

end OAuth

/-- The request gets past the checks of its own, and has a code. -/
structure CallbackRequest.AsksGoogle (request : CallbackRequest) : Prop where
  noError : request.error = ""
  state : request.state ≠ ""
  cookieState : request.cookieState ≠ ""
  same : compareDigest request.state request.cookieState = some true
  code : request.code ≠ ""

section

variable {S : Settings} {O : OAuth} {draws : NicknameDraws} {other : AuthService User}
  {request : CallbackRequest}

theorem get_of_error (h : request.AsksGoogle) {e : Exn} (he : O.googleClaims request.code = .error e) :
    GoogleCallbackView.get S O draws other request = .ret (.ok (answerException e)) := by
  rw [GoogleCallbackView.get, if_neg (not_not.mpr h.noError), if_neg (by simp [h.state, h.cookieState]),
    h.same]
  dsimp only
  rw [if_neg h.code, he]
  rfl

end

/-- Exactly when each of the two functions does what it is to do, and the view answers their
failures with 502 or 401, leaving all as it was. -/
theorem google_replies_settle_iff (O : OAuth) :
    (∀ code, TokenOutcome (O.exchangeCodeForIdToken code) ↔
      O.settings.isConfigured ∧ O.parsed (O.tokenReply code) ≠ .unexpected ∧
        ∀ items, O.parsed (O.tokenReply code) = .object items →
          (Value.getItem items "id_token").truthy = true →
            IsString (Value.getItem items "id_token")) ∧
    (∀ idToken, O.ClaimsOutcome (O.verifyIdToken idToken) ↔
      ∃ text, (O.printer.str idToken).encode = some text ∧ O.parsed (O.infoReply text) ≠ .unexpected ∧
        ∀ items, O.parsed (O.infoReply text) = .object items → O.PassesChecks items →
          IsString (Value.getItem items "email") ∧ IsString (Value.getItem items "sub")) ∧
    ∀ (request : CallbackRequest), request.AsksGoogle →
      ∀ (S : Settings) (draws : NicknameDraws) (other : AuthService User) (draw : ℕ → ℕ) (σ : World Db),
        (∀ e, O.googleClaims request.code = .error e →
          ∃ status detail,
            (GoogleCallbackView.get S O draws other request).exec draw [] σ =
              (.ok (.failed status detail), σ) ∧ (status = 502 ∨ status = 401)) ↔
        O.settings.isConfigured ∧ O.parsed (O.tokenReply request.code) ≠ .unexpected ∧
          ∀ items, O.parsed (O.tokenReply request.code) = .object items →
            (Value.getItem items "id_token").truthy = true →
              ∃ text, (O.printer.str (Value.getItem items "id_token")).encode = some text ∧
                O.parsed (O.infoReply text) ≠ .unexpected := by
  refine ⟨fun code => OAuth.tokenOutcome_iff, fun idToken => OAuth.claimsOutcome_iff, ?_⟩
  intro request hasks S draws other draw σ
  rw [← OAuth.failures_answered_iff]
  refine forall_congr' fun e => imp_congr_right fun he => ?_
  rw [get_of_error hasks he, OAuth.answered_iff]
  simp only [Prog.exec, Prod.mk.injEq, Except.ok.injEq, and_true]

/-- The token endpoint gives one reply, and tokeninfo none. -/
def answering (reply : Reply) : OAuth where
  settings := { clientId := "id", clientSecret := "secret", redirectUri := "", successRedirect := "/" }
  google := { token := fun _ => reply, tokeninfo := fun _ => .urlError }
  printer := { repr := fun _ => "", lower_repr := fun _ => by decide }
  recursionLimit := 1000

def callback : CallbackRequest := { error := "", state := "s", cookieState := "s", code := "c" }

theorem callback_asksGoogle : callback.AsksGoogle :=
  ⟨rfl, by decide, by decide, by decide, by decide⟩

/-- An empty object has no token. -/
theorem google_replies_settle_iff_emptyObject : ∃ status detail,
    (GoogleCallbackView.get asciiSettings (answering (.body [0x7B, 0x7D])) zeroDraws
        (raise .doesNotExist) callback).exec id [] oneUser = (.ok (.failed status detail), oneUser) ∧
      (status = 502 ∨ status = 401) := by
  have hparsed : (answering (.body [0x7B, 0x7D])).parsed (.body [0x7B, 0x7D]) = .object [] := rfl
  have hraised : (answering (.body [0x7B, 0x7D])).googleClaims callback.code =
      .error (.oauthUpstreamError "token response missing id_token") := rfl
  refine ((google_replies_settle_iff (answering (.body [0x7B, 0x7D]))).2.2 callback callback_asksGoogle
    asciiSettings zeroDraws (raise .doesNotExist) id oneUser).mpr ⟨by decide, ?_, ?_⟩ _ hraised
  · intro h
    exact nomatch hparsed.symm.trans h
  · intro items h htruthy
    cases hparsed.symm.trans h
    exact nomatch htruthy

/-- `[]` has no `get`, `FF` is no text, and a read can break off. -/
theorem replies_escape :
    (¬ TokenOutcome ((answering (.body [0x5B, 0x5D])).exchangeCodeForIdToken "c") ∧
      (GoogleCallbackView.get asciiSettings (answering (.body [0x5B, 0x5D])) zeroDraws
        (raise .doesNotExist) callback).exec id [] oneUser = (.ok .unhandled, oneUser)) ∧
    (¬ TokenOutcome ((answering (.body [0xFF])).exchangeCodeForIdToken "c") ∧
      (GoogleCallbackView.get asciiSettings (answering (.body [0xFF])) zeroDraws
        (raise .doesNotExist) callback).exec id [] oneUser = (.ok .unhandled, oneUser)) ∧
    ¬ TokenOutcome ((answering (.readFails .httpException)).exchangeCodeForIdToken "c") ∧
      (GoogleCallbackView.get asciiSettings (answering (.readFails .httpException)) zeroDraws
        (raise .doesNotExist) callback).exec id [] oneUser = (.ok .unhandled, oneUser) :=
  ⟨⟨id, rfl⟩, ⟨id, rfl⟩, id, rfl⟩

end Chamneul.Auth
