import Chamneul.Spec.OAuth
import Chamneul.Store.Sessions

/-! The sign-in through Google as the browsers see it: the view that sends one there (#5), the cookie
it keeps, the consent, and the callback (#6). The browsers and Google are modelled here. Some
browsers are honest; the others, and the links that the honest ones follow, are an attacker's. -/

namespace Chamneul.Auth

open ReadCommitted ReadCommitted.Prog

namespace OAuth

variable (O : OAuth)

/-- The query of `build_authorize_url`. -/
def authorizeParams (state : String) : List (String × String) :=
  [("client_id", O.settings.clientId), ("redirect_uri", O.settings.redirectUri),
    ("response_type", "code"), ("scope", "openid email profile"), ("state", state),
    ("access_type", "online"), ("prompt", "select_account")]

def buildAuthorizeUrl (state : String) : Except Exn String :=
  if O.settings.isConfigured then
    .ok ("https://accounts.google.com/o/oauth2/v2/auth?" ++ Python.urlencode (O.authorizeParams state))
  else .error .oauthConfigError

end OAuth

/-- The redirect and the cookie `oauth_state` that it sets, or another answer. -/
inductive AuthorizeAnswer
  | redirect (location cookie : String) (maxAge : ℕ)
  | failed (status : ℕ) (detail : String)
  | unhandled

/-- GET (#5). `state` is what `secrets.token_urlsafe` draws. -/
def GoogleAuthorizeView.get (O : OAuth) (state : String) : AuthorizeAnswer :=
  if O.settings.isConfigured then
    match O.buildAuthorizeUrl state with
    | .ok location => .redirect location state 600
    | .error _ => .unhandled
  else .failed 500 "Google 로그인이 구성되지 않았습니다."

/-- A state that was handed to a browser. -/
structure Opening where
  browser : ℕ
  state : String
  time : ℕ

/-- A consent given in a browser, which Google sends back with the state and a code. -/
structure Consent where
  browser : ℕ
  state : String
  code : String

/-- A callback that a browser has sent, when, and how many states had been handed out and how many
sign-ins answered by then. -/
structure Sent where
  browser : ℕ
  request : CallbackRequest
  time : ℕ
  opened : ℕ
  answered : ℕ

structure Web where
  now : ℕ := 0
  /-- The value of `oauth_state` in a browser, and when it expires. -/
  cookie : ℕ → Option (String × ℕ) := fun _ => none
  openings : List Opening := []
  consents : List Consent := []
  sent : List Sent := []
  /-- The callbacks that have been answered with a sign-in. -/
  signIns : List Sent := []

namespace Web

/-- The cookie a browser sends along, if any. -/
def cookieState (w : Web) (browser : ℕ) : String :=
  match w.cookie browser with
  | some (value, expires) => if w.now < expires then value else ""
  | none => ""

/-- An honest browser sends a callback because Google tells it to after a consent in it, or because
it follows a link by somebody who knows none of the states that were handed to honest browsers. -/
def Prompted (honest : Set ℕ) (w : Web) (browser : ℕ) (request : CallbackRequest) : Prop :=
  (∃ c ∈ w.consents, c.browser = browser ∧ c.state = request.state ∧ c.code = request.code) ∨
    ∀ o ∈ w.openings, o.browser ∈ honest → o.state ≠ request.state

/-- The view may answer so, whatever it finds in the database. -/
def MayAnswer (S : Settings) (O : OAuth) (other : AuthService User) (request : CallbackRequest)
    (answer : CallbackAnswer) : Prop :=
  ∃ draws, Relation.ReflTransGen Next (GoogleCallbackView.get S O draws other request)
    (.ret (.ok answer))

section

variable (S : Settings) (O : OAuth) (other : AuthService User) (honest : Set ℕ)

/-- What happens next. A state is drawn that has not been drawn before. A sign-in deletes the cookie
of its browser, and no other answer of the callback changes anything here. -/
inductive Step (w : Web) : Web → Prop
  | wait (seconds : ℕ) : Step w { w with now := w.now + seconds }
  | authorize (browser : ℕ) (state location value : String) (maxAge : ℕ)
      (hfresh : ∀ o ∈ w.openings, o.state ≠ state)
      (hanswer : GoogleAuthorizeView.get O state = .redirect location value maxAge) :
      Step w { w with
        cookie := Function.update w.cookie browser (some (value, w.now + maxAge))
        openings := w.openings ++ [⟨browser, state, w.now⟩] }
  | consent (c : Consent) : Step w { w with consents := w.consents ++ [c] }
  | send (browser : ℕ) (request : CallbackRequest)
      (h : browser ∈ honest →
        request.cookieState = w.cookieState browser ∧ w.Prompted honest browser request) :
      Step w { w with sent := w.sent ++ [⟨browser, request, w.now, w.openings.length, w.signIns.length⟩] }
  | signIn (s : Sent) (hsent : s ∈ w.sent) (location : String)
      (hanswer : MayAnswer S O other s.request (.redirect location)) :
      Step w { w with
        cookie := Function.update w.cookie s.browser none
        signIns := w.signIns ++ [s] }

def Reached : Web → Prop := Relation.ReflTransGen (Step S O other honest) {}

end

end Web

end Chamneul.Auth
