import Chamneul.Spec.AuthServices
import Chamneul.Python.Json

/-! `accounts.oauth` and the view of Google's callback (#6). Google is whatever answers the two
requests; Python's own exceptions are told apart as far as an `except` does. -/

namespace Chamneul.Auth

open ReadCommitted ReadCommitted.Prog Python

/-- `GOOGLE_OAUTH_*`. -/
structure OAuthSettings where
  clientId : String
  clientSecret : String
  redirectUri : String
  successRedirect : String

def OAuthSettings.isConfigured (O : OAuthSettings) : Prop := O.clientId ≠ "" ∧ O.clientSecret ≠ ""

instance (O : OAuthSettings) : Decidable O.isConfigured := inferInstanceAs (Decidable (_ ∧ _))

/-- What is raised once the connection is open: an `HTTPException`, such as `IncompleteRead`, or an `OSError` that
is no `URLError`, such as a timeout or a reset connection. -/
inductive ReadError
  | httpException | osError
  deriving DecidableEq

/-- What a request comes to. -/
inductive Reply
  /-- `urlopen` raises a `URLError`: no connection, or a status that is an error. -/
  | urlError
  | readFails (e : ReadError)
  | body (bytes : Bytes)

/-- The token endpoint, which answers what is posted, and the tokeninfo endpoint, which answers
an address. -/
structure Google where
  token : String → Reply
  tokeninfo : String → Reply

/-- The exceptions. What an upstream error says goes on with the text of its cause. -/
inductive Exn
  | urlError
  | read (e : ReadError)
  | json (e : JsonError)
  | unicodeEncodeError
  | attributeError
  | oauthConfigError
  | oauthUpstreamError (detail : String)
  | oauthVerifyError (detail : String)
  deriving DecidableEq

/-- Where the calls are made: the settings, Google, `repr`, and how many containers may be open
in a text that `json.loads` reads. -/
structure OAuth where
  settings : OAuthSettings
  google : Google
  printer : Printer
  recursionLimit : ℕ

/-- `value.get(key)`, which only a `dict` has. -/
def getKey (value : Value) (key : String) : Except Exn Value :=
  match value with
  | .object items => .ok (Value.getItem items key)
  | _ => .error .attributeError

namespace OAuth

variable (O : OAuth)

/-- `json.loads(resp.read())`. -/
def readJson : Reply → Except Exn Value
  | .urlError => .error .urlError
  | .readFails e => .error (.read e)
  | .body bytes => (loads O.recursionLimit bytes).mapError .json

/-- `except (urllib.error.URLError, json.JSONDecodeError)`. -/
def upstream (detail : String) (result : Except Exn Value) : Except Exn Value :=
  match result with
  | .error .urlError | .error (.json .jsonDecodeError) => .error (.oauthUpstreamError detail)
  | result => result

/-- `_post_json` to the token endpoint. -/
def postJson (data : List (String × String)) : Except Exn Value :=
  upstream "token endpoint failed" (O.readJson (O.google.token (urlencode data)))

/-- `_get_json` of an address of the tokeninfo endpoint. -/
def getJson (url : String) : Except Exn Value :=
  upstream "tokeninfo endpoint failed" (O.readJson (O.google.tokeninfo url))

def tokenRequest (code : String) : List (String × String) :=
  [("code", code), ("client_id", O.settings.clientId), ("client_secret", O.settings.clientSecret),
    ("redirect_uri", O.settings.redirectUri), ("grant_type", "authorization_code")]

def exchangeCodeForIdToken (code : String) : Except Exn Value :=
  if O.settings.isConfigured then do
    let payload ← O.postJson (O.tokenRequest code)
    let idToken ← getKey payload "id_token"
    if idToken.truthy then pure idToken
    else throw (.oauthUpstreamError "token response missing id_token")
  else throw .oauthConfigError

/-- `GOOGLE_TOKENINFO_URL` with the query for a token. -/
def tokeninfoUrl (idToken : String) : String :=
  "https://oauth2.googleapis.com/tokeninfo?" ++ urlencode [("id_token", idToken)]

def issuers : List String := ["accounts.google.com", "https://accounts.google.com"]

/-- `str(value).lower() == "true"`. -/
def readsTrue (value : Value) : Bool :=
  decide ((O.printer.str value).lower = Text.ofString "true")

def verifyIdToken (idToken : Value) : Except Exn Value :=
  match (O.printer.str idToken).encode with
  | none => throw .unicodeEncodeError
  | some text => do
    let claims ← O.getJson (tokeninfoUrl text)
    let iss ← getKey claims "iss"
    if issuers.any iss.isText = false then throw (.oauthVerifyError "id_token issuer mismatch")
    let aud ← getKey claims "aud"
    if aud.isText O.settings.clientId = false then
      throw (.oauthVerifyError "id_token audience mismatch")
    let emailVerified ← getKey claims "email_verified"
    if O.readsTrue emailVerified = false then
      throw (.oauthVerifyError "email not verified by Google")
    let email ← getKey claims "email"
    let sub ← getKey claims "sub"
    if email.truthy = false ∨ sub.truthy = false then
      throw (.oauthVerifyError "id_token missing email/sub")
    pure claims

/-- The `try` of the view. -/
def googleClaims (code : String) : Except Exn Value := do
  let idToken ← O.exchangeCodeForIdToken code
  O.verifyIdToken idToken

end OAuth

/-! The view. -/

/-- The query and the cookie; an empty text counts as none. -/
structure CallbackRequest where
  error : String
  state : String
  cookieState : String
  code : String

/-- The redirect, the answer to an `APIException` with its `detail`, or Django's 500. -/
inductive CallbackAnswer
  | redirect (location : String)
  | failed (status : ℕ) (detail : String)
  | unhandled

/-- `secrets.compare_digest`, which raises a `TypeError` if a text is not ASCII. -/
def compareDigest (a b : String) : Option Bool :=
  if a.toList.all (fun c => decide (c.toNat < 128)) ∧ b.toList.all (fun c => decide (c.toNat < 128))
    then some (decide (a = b)) else none

/-- The `except` clauses, which raise `_OAuthUnavailable`, `_AuthFailed` and `_BadGateway`. -/
def answerException : Exn → CallbackAnswer
  | .oauthConfigError => .failed 500 "Google 로그인이 구성되지 않았습니다."
  | .oauthVerifyError _ => .failed 401 "Google 인증 검증에 실패했습니다."
  | .oauthUpstreamError _ => .failed 502 "Google 인증 서버와 통신하지 못했습니다."
  | _ => .unhandled

/-- The text of a claim, as far as the database takes it. -/
def claimText : Value → Option String
  | .string s => s.encode
  | _ => none

/-- `link_or_create_google_user` on the claims. What becomes of claims that are no such texts is
`other`. -/
def linkOrCreateFromClaims (S : Settings) (draws : NicknameDraws) (other : AuthService User)
    (items : List (Text × Value)) : AuthService User :=
  let name := (items.lookup (Text.ofString "name")).getD (.string [])
  match claimText (Value.getItem items "sub"), claimText (Value.getItem items "email"),
    claimText name with
  | some googleSub, some email, some name => linkOrCreateGoogleUser S googleSub email name draws
  | _, _, _ => other

/-- What is left of the view when the claims are accepted. -/
def signInWith (S : Settings) (O : OAuth) (draws : NicknameDraws) (other : AuthService User)
    (claims : Value) : AuthService CallbackAnswer :=
  match claims with
  | .object items =>
    handle
      (do
        let user ← linkOrCreateFromClaims S draws other items
        if user.isActive then do
          let _ ← djangoLogin user
          pure (.redirect O.settings.successRedirect)
        else pure (.failed 401 "Google 인증 검증에 실패했습니다."))
      fun failure =>
        match failure with
        | .conflict detail _ => pure (.failed 409 detail)
        | _ => pure .unhandled
  | _ => pure .unhandled

def GoogleCallbackView.get (S : Settings) (O : OAuth) (draws : NicknameDraws)
    (other : AuthService User) (request : CallbackRequest) : AuthService CallbackAnswer :=
  if request.error ≠ "" then pure (.failed 400 "Google 로그인이 취소되었거나 실패했습니다.")
  else if request.state = "" ∨ request.cookieState = "" then
    pure (.failed 400 "state 검증에 실패했습니다.")
  else match compareDigest request.state request.cookieState with
    | none => pure .unhandled
    | some false => pure (.failed 400 "state 검증에 실패했습니다.")
    | some true =>
      if request.code = "" then pure (.failed 400 "인가 코드가 없습니다.")
      else match O.googleClaims request.code with
        | .error e => pure (answerException e)
        | .ok claims => signInWith S O draws other claims

end Chamneul.Auth
