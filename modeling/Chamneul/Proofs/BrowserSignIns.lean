import Chamneul.Proofs.GoogleReplies
import Chamneul.Spec.GoogleFlow

/-! Nobody is signed in by somebody else's doing. A callback that signs an honest browser in carries
the state of that browser's own last visit to #5, not ten minutes old, and the code of a consent
given in it. -/

namespace Chamneul.Auth

open ReadCommitted ReadCommitted.Prog

/-! The callback. -/

theorem eq_of_compareDigest {a b : String} (h : compareDigest a b = some true) : a = b := by
  unfold compareDigest at h
  split_ifs at h
  simpa using h

section

variable {S : Settings} {O : OAuth} {other : AuthService User} {honest : Set ℕ}

/-- A sign-in has passed the checks of the view. -/
theorem asksGoogle_of_redirect {request : CallbackRequest} {location : String}
    (h : Web.MayAnswer S O other request (.redirect location)) : request.AsksGoogle := by
  obtain ⟨draws, hpath⟩ := h
  unfold GoogleCallbackView.get at hpath
  split_ifs at hpath with herror hempty hcode
  · cases ret_of_next hpath
  · cases ret_of_next hpath
  · -- whatever comes of the comparison, there is no code
    split at hpath <;> cases ret_of_next hpath
  · push Not at herror hempty
    split at hpath
    · cases ret_of_next hpath
    · cases ret_of_next hpath
    · rename_i hsame
      exact ⟨herror, hempty.1, hempty.2, hsame, hcode⟩

theorem authorize_redirects {state location value : String} {maxAge : ℕ}
    (h : GoogleAuthorizeView.get O state = .redirect location value maxAge) :
    value = state ∧ maxAge = 600 := by
  unfold GoogleAuthorizeView.get at h
  split_ifs at h with hconfigured
  rw [OAuth.buildAuthorizeUrl, if_pos hconfigured] at h
  cases h
  exact ⟨rfl, rfl⟩

/-! What holds of every web that is reached. -/

/-- The callback has come of a consent in its browser, and of the last visit to #5 before it: every
other visit of the browser was before that one, or after the callback. -/
def Sent.Own (w : Web) (s : Sent) : Prop :=
  (∃ c ∈ w.consents, c.browser = s.browser ∧ c.state = s.request.state ∧ c.code = s.request.code) ∧
    ∃ (i : ℕ) (o : Opening), w.openings[i]? = some o ∧ o.browser = s.browser ∧ o.state = s.request.state ∧
      i < s.opened ∧ o.time ≤ s.time ∧ s.time < o.time + 600 ∧
      ∀ (j : ℕ) (o' : Opening), w.openings[j]? = some o' → o'.browser = s.browser →
        (j ≤ i ∧ o'.time ≤ o.time) ∨ (s.opened ≤ j ∧ s.time ≤ o'.time)

structure Web.Sound (honest : Set ℕ) (w : Web) : Prop where
  opened : ∀ o ∈ w.openings, o.time ≤ w.now
  cookie : ∀ browser value expires, w.cookie browser = some (value, expires) →
    ∃ (i : ℕ) (o : Opening), w.openings[i]? = some o ∧ o.browser = browser ∧ o.state = value ∧
      expires = o.time + 600 ∧ ∀ (j : ℕ) (o' : Opening), w.openings[j]? = some o' →
        o'.browser = browser → j ≤ i ∧ o'.time ≤ o.time
  sent : ∀ s ∈ w.sent, s.time ≤ w.now ∧ s.opened ≤ w.openings.length ∧ s.answered ≤ w.signIns.length
  own : ∀ s ∈ w.sent, s.browser ∈ honest → s.request.AsksGoogle → s.Own w
  signIn : ∀ s ∈ w.signIns, s ∈ w.sent ∧ s.request.AsksGoogle
  /-- A state that has signed somebody in is not used again. -/
  used : ∀ (i : ℕ) (s : Sent), w.signIns[i]? = some s → s.browser ∈ honest →
    (∀ value expires, w.cookie s.browser = some (value, expires) → value ≠ s.request.state) ∧
      ∀ s' ∈ w.sent, s'.browser = s.browser → i < s'.answered →
        s'.request.cookieState ≠ s.request.state

theorem getElem?_concat_cases {α : Type} {l : List α} {a x : α} {j : ℕ} (h : (l ++ [a])[j]? = some x) :
    l[j]? = some x ∨ j = l.length ∧ x = a := by
  by_cases hj : j < l.length
  · rw [List.getElem?_append_left hj] at h
    exact .inl h
  · rw [List.getElem?_append_right (Nat.le_of_not_lt hj), List.getElem?_singleton] at h
    split_ifs at h with hlast
    exact .inr ⟨by omega, (Option.some.inj h).symm⟩

theorem lt_of_getElem?_some {α : Type} {l : List α} {x : α} {j : ℕ} (h : l[j]? = some x) : j < l.length :=
  (List.getElem?_eq_some_iff.mp h).1

theorem getElem?_concat {α : Type} {l : List α} {a x : α} {j : ℕ} (h : l[j]? = some x) :
    (l ++ [a])[j]? = some x := by
  rw [List.getElem?_append_left (lt_of_getElem?_some h), h]

/-- What a browser keeps after one was set or deleted. -/
theorem update_eq_some {α : Type} {f : ℕ → Option α} {a b : ℕ} {x : Option α} {v : α}
    (h : Function.update f a x b = some v) : (b = a ∧ x = some v) ∨ (b ≠ a ∧ f b = some v) := by
  by_cases hb : b = a
  · subst hb
    rw [Function.update_self] at h
    exact .inl ⟨rfl, h⟩
  · rw [Function.update_of_ne hb] at h
    exact .inr ⟨hb, h⟩

/-- A browser that sends a cookie has it of its own last visit to #5. -/
theorem cookieState_cases {w : Web} (hw : w.Sound honest) (browser : ℕ) :
    w.cookieState browser = "" ∨ ∃ (i : ℕ) (o : Opening), w.openings[i]? = some o ∧
      o.browser = browser ∧ o.state = w.cookieState browser ∧ w.now < o.time + 600 ∧
      ∀ (j : ℕ) (o' : Opening), w.openings[j]? = some o' → o'.browser = browser →
        j ≤ i ∧ o'.time ≤ o.time := by
  unfold Web.cookieState
  cases hcookie : w.cookie browser with
  | none => exact .inl rfl
  | some kept =>
    obtain ⟨value, expires⟩ := kept
    dsimp only
    split_ifs with hage
    · obtain ⟨i, o, ho, hbrowser, hstate, rfl, hlast⟩ := hw.cookie browser value expires hcookie
      exact .inr ⟨i, o, ho, hbrowser, hstate, hage, hlast⟩
    · exact .inl rfl

theorem sound_empty : Web.Sound honest {} where
  opened := by simp
  cookie := by simp
  sent := by simp
  own := by simp
  signIn := by simp
  used := by simp

theorem sound_authorize {w : Web} (hw : w.Sound honest) {browser : ℕ} {state : String}
    (hfresh : ∀ o ∈ w.openings, o.state ≠ state) :
    Web.Sound honest { w with
      cookie := Function.update w.cookie browser (some (state, w.now + 600))
      openings := w.openings ++ [⟨browser, state, w.now⟩] } where
  opened := List.forall_mem_append.mpr ⟨hw.opened, List.forall_mem_singleton.mpr le_rfl⟩
  cookie b value expires hcookie := by
    obtain ⟨rfl, hset⟩ | ⟨hb, hkept⟩ := update_eq_some hcookie
    · -- every other visit was before this one
      cases hset
      refine ⟨w.openings.length, ⟨b, state, w.now⟩, List.getElem?_concat_length, rfl, rfl, rfl, ?_⟩
      intro j o ho _
      obtain ho | ⟨rfl, rfl⟩ := getElem?_concat_cases ho
      · exact ⟨(lt_of_getElem?_some ho).le, hw.opened o (List.mem_of_getElem? ho)⟩
      · exact ⟨le_rfl, le_rfl⟩
    · obtain ⟨i, o, ho, hbrowser, hstate, hexpires, hlast⟩ := hw.cookie b value expires hkept
      refine ⟨i, o, getElem?_concat ho, hbrowser, hstate, hexpires, fun j o' ho' hsame => ?_⟩
      obtain ho' | ⟨-, rfl⟩ := getElem?_concat_cases ho'
      · exact hlast j o' ho' hsame
      · exact absurd hsame.symm hb
  sent s hs := by
    obtain ⟨htime, hopened, hanswered⟩ := hw.sent s hs
    refine ⟨htime, hopened.trans ?_, hanswered⟩
    rw [List.length_append]
    exact Nat.le_add_right _ _
  own s hs hhonest hasks := by
    obtain ⟨hconsent, i, o, ho, hbrowser, hstate, hi, hbefore, hage, hlast⟩ := hw.own s hs hhonest hasks
    refine ⟨hconsent, i, o, getElem?_concat ho, hbrowser, hstate, hi, hbefore, hage, fun j o' ho' hsame => ?_⟩
    obtain ho' | ⟨rfl, rfl⟩ := getElem?_concat_cases ho'
    · exact hlast j o' ho' hsame
    · exact .inr ⟨(hw.sent s hs).2.1, (hw.sent s hs).1⟩
  signIn := hw.signIn
  used i s hs hhonest := by
    refine ⟨fun value expires hcookie => ?_, (hw.used i s hs hhonest).2⟩
    obtain ⟨-, hset⟩ | ⟨-, hkept⟩ := update_eq_some hcookie
    · -- the state of the sign-in is an old one
      obtain ⟨hsent, hasks⟩ := hw.signIn s (List.mem_of_getElem? hs)
      obtain ⟨-, i, o, ho, -, hstate, -⟩ := hw.own s hsent hhonest hasks
      cases hset
      rw [← hstate]
      exact (hfresh o (List.mem_of_getElem? ho)).symm
    · exact (hw.used i s hs hhonest).1 value expires hkept

theorem sound_send {w : Web} (hw : w.Sound honest) {browser : ℕ} {request : CallbackRequest}
    (h : browser ∈ honest →
      request.cookieState = w.cookieState browser ∧ w.Prompted honest browser request) :
    Web.Sound honest
      { w with sent := w.sent ++ [⟨browser, request, w.now, w.openings.length, w.signIns.length⟩] } where
  opened := hw.opened
  cookie := hw.cookie
  sent := List.forall_mem_append.mpr ⟨hw.sent, List.forall_mem_singleton.mpr ⟨le_rfl, le_rfl, le_rfl⟩⟩
  own := by
    refine List.forall_mem_append.mpr ⟨hw.own, List.forall_mem_singleton.mpr ?_⟩
    intro hhonest hasks
    obtain ⟨hcookie, hprompted⟩ := h hhonest
    have hstate : request.state = w.cookieState browser :=
      (eq_of_compareDigest hasks.same).trans hcookie
    obtain hempty | ⟨i, o, ho, hbrowser, hvalue, hage, hlast⟩ := cookieState_cases hw browser
    · exact absurd (hstate.trans hempty) hasks.state
    · have hopened : o.state = request.state := hvalue.trans hstate.symm
      obtain hconsent | hunknown := hprompted
      · exact ⟨hconsent, i, o, ho, hbrowser, hopened, lt_of_getElem?_some ho,
          hw.opened o (List.mem_of_getElem? ho), hage,
          fun j o' ho' hsame => .inl (hlast j o' ho' hsame)⟩
      · -- no link carries a state that an honest browser was handed
        exact absurd hopened (hunknown o (List.mem_of_getElem? ho) (hbrowser.symm ▸ hhonest))
  signIn s hs := ⟨List.mem_append_left _ (hw.signIn s hs).1, (hw.signIn s hs).2⟩
  used i s hs hhonest := by
    refine ⟨(hw.used i s hs hhonest).1, List.forall_mem_append.mpr ⟨(hw.used i s hs hhonest).2, ?_⟩⟩
    refine List.forall_mem_singleton.mpr fun hbrowser _ => ?_
    obtain rfl : browser = s.browser := hbrowser
    change request.cookieState ≠ s.request.state
    rw [(h hhonest).1, Web.cookieState]
    have hasks := (hw.signIn s (List.mem_of_getElem? hs)).2
    cases hcookie : w.cookie s.browser with
    | none => exact hasks.state.symm
    | some kept =>
      dsimp only
      split_ifs
      · exact (hw.used i s hs hhonest).1 kept.1 kept.2 hcookie
      · exact hasks.state.symm

theorem sound_signIn {w : Web} (hw : w.Sound honest) {s : Sent} (hsent : s ∈ w.sent)
    (hasks : s.request.AsksGoogle) :
    Web.Sound honest { w with
      cookie := Function.update w.cookie s.browser none
      signIns := w.signIns ++ [s] } where
  opened := hw.opened
  cookie b value expires hcookie := by
    obtain ⟨-, hset⟩ | ⟨-, hkept⟩ := update_eq_some hcookie
    · cases hset
    · exact hw.cookie b value expires hkept
  sent s' hs' := by
    obtain ⟨htime, hopened, hanswered⟩ := hw.sent s' hs'
    refine ⟨htime, hopened, hanswered.trans ?_⟩
    rw [List.length_append]
    exact Nat.le_add_right _ _
  own := hw.own
  signIn := List.forall_mem_append.mpr ⟨hw.signIn, List.forall_mem_singleton.mpr ⟨hsent, hasks⟩⟩
  used i s₀ hs₀ hhonest := by
    have hcookie : ∀ value expires, Function.update w.cookie s.browser none s₀.browser =
        some (value, expires) → s₀.browser ≠ s.browser ∧ w.cookie s₀.browser = some (value, expires) := by
      intro value expires hcookie
      obtain ⟨-, hset⟩ | hkept := update_eq_some hcookie
      · cases hset
      · exact hkept
    by_cases hi : i < w.signIns.length
    · rw [List.getElem?_append_left hi] at hs₀
      obtain ⟨hkept, hlater⟩ := hw.used i s₀ hs₀ hhonest
      exact ⟨fun value expires h => hkept value expires (hcookie value expires h).2, hlater⟩
    · -- this sign-in: the cookie is gone, and every callback was sent before
      have hi : w.signIns.length ≤ i := Nat.le_of_not_lt hi
      rw [List.getElem?_append_right hi, List.getElem?_singleton] at hs₀
      split_ifs at hs₀
      cases hs₀
      refine ⟨fun value expires h => absurd rfl (hcookie value expires h).1, fun s' hs' _ hlt => ?_⟩
      exact absurd (hw.sent s' hs').2.2 (by omega)

theorem sound_step {w w' : Web} (hw : w.Sound honest) (h : Web.Step S O other honest w w') :
    w'.Sound honest := by
  cases h with
  | wait seconds =>
    exact
      { opened := fun o ho => (hw.opened o ho).trans (Nat.le_add_right _ _)
        cookie := hw.cookie
        sent := fun s hs => ⟨(hw.sent s hs).1.trans (Nat.le_add_right _ _), (hw.sent s hs).2⟩
        own := hw.own
        signIn := hw.signIn
        used := hw.used }
  | authorize browser state location value maxAge hfresh hanswer =>
    obtain ⟨rfl, rfl⟩ := authorize_redirects hanswer
    exact sound_authorize hw hfresh
  | consent c =>
    exact
      { opened := hw.opened
        cookie := hw.cookie
        sent := hw.sent
        own := fun s hs hhonest hasks => by
          obtain ⟨⟨c', hc', hconsent⟩, hopening⟩ := hw.own s hs hhonest hasks
          exact ⟨⟨c', List.mem_append_left _ hc', hconsent⟩, hopening⟩
        signIn := hw.signIn
        used := hw.used }
  | send browser request h => exact sound_send hw h
  | signIn s hsent location hanswer => exact sound_signIn hw hsent (asksGoogle_of_redirect hanswer)

theorem sound_reached {w : Web} (h : Web.Reached S O other honest w) : w.Sound honest := by
  induction h with
  | refl => exact sound_empty
  | tail _ hstep ih => exact sound_step ih hstep

/-- A callback that signs an honest browser in has come of a consent given in that browser, with the
state of its last visit to #5, at most ten minutes before. Another sign-in there with the same state
was on its way by then. -/
theorem browser_sign_ins_own {w : Web} (h : Web.Reached S O other honest w) :
    (∀ s ∈ w.signIns, s.browser ∈ honest → s.Own w) ∧
      ∀ i s, w.signIns[i]? = some s → s.browser ∈ honest → ∀ s' ∈ w.signIns,
        s'.browser = s.browser → s'.request.state = s.request.state → s'.answered ≤ i := by
  have hw := sound_reached h
  refine ⟨fun s hs hhonest => ?_, fun i s hs hhonest s' hs' hbrowser hstate => ?_⟩
  · obtain ⟨hsent, hasks⟩ := hw.signIn s hs
    exact hw.own s hsent hhonest hasks
  · by_contra hlate
    obtain ⟨hsent, hasks⟩ := hw.signIn s' hs'
    refine (hw.used i s hs hhonest).2 s' hsent hbrowser (Nat.lt_of_not_le hlate) ?_
    exact (eq_of_compareDigest hasks.same).symm.trans hstate

end

/-! A sign-in, step by step. -/

def asciiBytes (s : String) : Python.Bytes := s.toList.map fun c => UInt8.ofNat c.toNat

def namingOne : OAuth :=
  { answering .urlError with
    google :=
      { token := fun _ => .body (asciiBytes "\x7b\"id_token\":\"t\"\x7d")
        tokeninfo := fun _ => .body (asciiBytes ("\x7b\"iss\":\"accounts.google.com\",\"aud\":\"id\"," ++
          "\"email_verified\":\"true\",\"email\":\"a@x\",\"sub\":\"1\"\x7d")) } }

def linkedUserOne : World Db :=
  ⟨{ users := Table.empty.insert { id := 1, email := "a@x", nickname := "n", password := ⟨none, 0⟩ }
     identities := Table.empty.insert { id := 2, user := 1, googleSub := "1", email := "a@x" } }, 1⟩

def isRedirect : Except Failure CallbackAnswer → Bool
  | .ok (.redirect _) => true
  | _ => false

theorem callback_mayAnswer : ∃ location,
    Web.MayAnswer asciiSettings namingOne (raise .doesNotExist) callback (.redirect location) := by
  have hredirect : isRedirect ((GoogleCallbackView.get asciiSettings namingOne zeroDraws
      (raise .doesNotExist) callback).exec id [] linkedUserOne).1 = true := by decide +kernel
  have hpath := next_of_exec id (GoogleCallbackView.get asciiSettings namingOne zeroDraws
    (raise .doesNotExist) callback) [] linkedUserOne
  unfold isRedirect at hredirect
  split at hredirect
  · rename_i location hanswer
    rw [hanswer] at hpath
    exact ⟨location, zeroDraws, hpath⟩
  · cases hredirect

def openedOnce : Web where
  cookie := Function.update (fun _ => none) 1 (some ("s", 600))
  openings := [⟨1, "s", 0⟩]

theorem browser_sign_ins_own_once : ∃ w s,
    Web.Reached asciiSettings namingOne (raise .doesNotExist) {1} w ∧ w.signIns = [s] ∧ s.Own w := by
  obtain ⟨location, hanswer⟩ := callback_mayAnswer
  have hopened : Web.Step asciiSettings namingOne (raise .doesNotExist) {1} {} openedOnce :=
    Web.Step.authorize (w := {}) 1 "s" _ "s" 600 (List.forall_mem_nil _) rfl
  have hconsented := (Relation.ReflTransGen.single hopened).tail (.consent ⟨1, "s", "c"⟩)
  have hsent := hconsented.tail (.send 1 callback fun _ =>
    ⟨rfl, .inl ⟨_, List.mem_singleton_self _, rfl, rfl, rfl⟩⟩)
  have hsigned := hsent.tail (.signIn _ (List.mem_singleton_self _) location hanswer)
  exact ⟨_, _, hsigned, rfl, (browser_sign_ins_own hsigned).1 _ (List.mem_singleton_self _) rfl⟩

end Chamneul.Auth
