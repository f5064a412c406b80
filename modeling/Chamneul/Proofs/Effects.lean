import Chamneul.Proofs.Accountability
import Chamneul.Proofs.Atomic
import Chamneul.Store.Outcomes

/-! What an answer tells of the database: a request that is answered with a success has changed it
at one step, and any other has not changed it at all. -/

namespace Chamneul

open ReadCommitted ReadCommitted.Prog Service

def Request.isGet : Request → Bool
  | .me | .roles | .myApplication | .applications .. | .application .. | .concerns .. | .concern ..
  | .assignedConcerns .. | .assignedConcern .. | .allConcerns .. | .anyConcern ..
  | .receivedAdvices .. | .advice .. | .advicesWritten .. | .advices .. | .myFeedbacks ..
  | .feedbacks .. | .feedback .. | .notifications .. | .notification .. => true
  | _ => false

def Arrival.isGet : Arrival → Bool
  | .request _ r => r.isGet
  | _ => false

def Succeeded {β : Type} : Except APIException (Response β) → Prop
  | .ok (.success _ _) => True
  | _ => False

def Arrival.Succeeds : (a : Arrival) → Except APIException a.Res → Prop
  | .request _ _ => Succeeded
  | .closeSelected _ | .softDeleteSelected _ | .restoreSelected _ => Returned

section

variable {α β : Type}

theorem not_succeeded_fail (status : ℕ) (message : String) (details : Option ErrorDetails) :
    (pure (fail status message details) : Service (Response β)).Lands Succeeded := id

theorem lands_isAuthenticated {user : Id} {view : User → Service (Response β)}
    (h : ∀ account, (view account).Lands Succeeded) :
    (isAuthenticated user view).Lands Succeeded := by
  refine .query fun db => ?_
  cases (db.users.get? user).filter (·.isActive) with
  | none => exact not_succeeded_fail _ _ _
  | some account => exact h account

theorem lands_isActiveAdvisor {account : User} {view : Service (Response β)} (h : view.Lands Succeeded) :
    (isActiveAdvisor account view).Lands Succeeded := by
  unfold isActiveAdvisor
  split_ifs
  · exact h
  · exact not_succeeded_fail _ _ _

theorem lands_isAdmin {user : Id} {view : Service (Response β)} (h : view.Lands Succeeded) :
    (isAdmin user view).Lands Succeeded := by
  refine lands_isAuthenticated fun account => ?_
  split_ifs
  · exact h
  · refine .query fun db => ?_
    split_ifs
    · exact h
    · exact not_succeeded_fail _ _ _

theorem lands_isValid {request : Validated α} {view : α → Service (Response β)}
    (h : ∀ data, (view data).Lands Succeeded) : (isValid request view).Lands Succeeded := by
  cases request with
  | ok data => exact h data
  | error errors => exact not_succeeded_fail _ _ _

theorem lands_respond {model : String} {status : ℕ} {view : Service β} (h : view.Lands Returned) :
    (respond model status view).Lands Succeeded := by
  refine h.andThen (fun r hr => ?_) fun r hr => ?_
  · cases r with
    | ok data => trivial
    | error e => cases hr
  · cases r with
    | ok data => exact absurd rfl hr
    | error e => cases e <;> exact id

end

/-- A request that is no `GET` succeeds by its commit. -/
theorem view_lands (icontains : String → String → Bool) (user : Id) (r : Request)
    (hr : r.isGet = false) : (view icontains user r).Lands Succeeded := by
  cases r with
  | updateMe request =>
    refine lands_isAuthenticated fun account => ?_
    have hview : ∀ data, (respond "User" 200 (do
        let updated ← updateProfile user data
        pure (userUpdateResult updated))).Lands Succeeded :=
      fun data => lands_respond ((program_lands (.updateProfile user data)).bind fun _ => concludes_pure _)
    unfold UserUpdate.isValid
    split
    · refine .query fun db => ?_
      split_ifs
      · exact not_succeeded_fail _ _ _
      · exact lands_isValid hview
    · exact lands_isValid hview
  | switchRole request =>
    refine lands_isAuthenticated fun _ => lands_isValid fun data => lands_respond ?_
    exact (program_lands (.setActiveRole user data)).bind fun _ _ => rfl
  | apply request =>
    refine lands_isAuthenticated fun _ => lands_isValid fun data => lands_respond ?_
    exact (program_lands (.createApplication user data)).bind fun _ => concludes_pure _
  | createConcern request =>
    refine lands_isAuthenticated fun _ => lands_isValid fun data => lands_respond ?_
    exact (program_lands (.createConcern user data)).bind fun _ => concludes_pure _
  | editConcern id request =>
    refine lands_isAuthenticated fun _ => lands_isValid fun data => lands_respond ?_
    exact (program_lands (.updateOwnConcern user id data)).bind fun _ => concludes_query _
  | deleteConcern id =>
    exact lands_isAuthenticated fun _ => lands_respond (program_lands (.deleteConcern user id))
  | rate id request =>
    refine lands_isAuthenticated fun _ => lands_isValid fun data => lands_respond ?_
    exact (program_lands (.createFeedback id user data)).bind fun _ => concludes_pure _
  | readNotification id =>
    refine lands_isAuthenticated fun _ => lands_respond ?_
    exact (program_lands (.markRead user id)).bind fun _ => concludes_pure _
  | createAdvice id request =>
    refine lands_isAuthenticated fun _ => lands_isActiveAdvisor (lands_isValid fun data =>
      lands_respond ?_)
    exact (program_lands (.createAdvice id user data.body data.submit)).bind fun _ => concludes_pure _
  | updateAdvice id request =>
    refine lands_isAuthenticated fun _ => lands_isActiveAdvisor (lands_isValid fun data =>
      lands_respond ?_)
    exact (program_lands (.updateAdvice id user data)).bind fun _ => concludes_pure _
  | deleteAdvice id =>
    exact lands_isAuthenticated fun _ => lands_isActiveAdvisor
      (lands_respond (program_lands (.deleteAdvice id user)))
  | reviewApplication id request =>
    refine lands_isAdmin (lands_isValid fun data => lands_respond ?_)
    exact (program_lands (.reviewApplication id user data.status data.rejectReason)).bind
      fun _ => concludes_pure _
  | assign id request =>
    refine lands_isAdmin (lands_isValid fun data => lands_respond ?_)
    exact (program_lands (.assignAdvisor id user data)).bind fun _ => concludes_pure _
  | unassign id assignmentId =>
    exact lands_isAdmin (lands_respond (program_lands (.unassignAdvisor id assignmentId)))
  | reviewAdvice id request =>
    refine lands_isAdmin (lands_isValid fun data => lands_respond ?_)
    exact (program_lands (.reviewAdvice id user data.decision data.reason data.expectedVersion)).bind
      fun _ => concludes_pure _
  | transitionFeedback id request =>
    refine lands_isAdmin (lands_isValid fun data => lands_respond ?_)
    exact (program_lands (.transitionFeedback id user data.status data.memo)).bind fun _ => concludes_pure _
  | grantRole id request =>
    refine lands_isAdmin (lands_isValid fun data => lands_respond ?_)
    exact (program_lands (.grantRole id data.role user data.reason)).bind fun _ _ => rfl
  | revokeRole id role reason =>
    refine lands_isAdmin (lands_respond ?_)
    exact (program_lands (.revokeRole id role user reason)).bind fun _ => concludes_pure _
  | _ => cases hr

theorem serve_lands (icontains : String → String → Bool) (a : Arrival) (ha : a.isGet = false) :
    (serve icontains a).Lands a.Succeeds := by
  cases a with
  | request user r => exact view_lands icontains user r ha
  | closeSelected ids => exact program_lands (.closeSelected ids)
  | softDeleteSelected ids => exact program_lands (.softDeleteSelected ids)
  | restoreSelected ids => exact program_lands (.restoreSelected ids)

/-- A `GET` has no call behind it, and so reads to its end. -/
theorem serve_reads (icontains : String → String → Bool) (a : Arrival) (ha : a.isGet = true) :
    (serve icontains a).Reads := by
  cases a with
  | request user r =>
    refine (view_fronts icontains user r []).reads fun db call hadmits => ?_
    have hnone : r.call? user = none := by cases r <;> first | rfl | cases ha
    exact Option.some_ne_none call (hadmits.1.symm.trans hnone)
  | closeSelected _ | softDeleteSelected _ | restoreSelected _ => cases ha

/-- From its start to its answer, a request has changed the database in one step, and its answer is
a success; or it has not changed it, and is a `GET` or answered with no success. -/
theorem requests_take_effect_once {icontains : String → String → Bool}
    {c c₁ c₂ : Config (api icontains)} {t : ℕ} {a : Arrival} {r : Except APIException a.Res}
    (hstart : c.step (.start t a) = some c₁) (h : Config.Reaches (Config.KeepsCall t) c₁ c₂)
    (hanswer : c₂.answer? t = some ⟨a, r⟩) :
    (a.isGet = false ∧ a.Succeeds r ∧ Config.TakesEffect t c₁ c₂) ∨
      (a.isGet = true ∨ ¬ a.Succeeds r) ∧ Config.Reaches (Config.Spares t) c₁ c₂ := by
  have hslot := (Config.step_start hstart).2
  obtain ⟨w, hanswered⟩ := Config.slot_of_answer? hanswer
  cases ha : a.isGet with
  | true =>
    have hspared := h.spares (P := fun _ p => p.Reads) (fun _ _ _ hn hp => hp.next hn) (fun _ _ hp => hp)
      fun s hs => by
        obtain rfl := Option.some.inj (hslot.symm.trans hs)
        exact serve_reads icontains a ha
    exact .inr ⟨.inl rfl, hspared.1⟩
  | false =>
    have hserve : ∀ s, c₁.slot t = some s → s.prog.Lands (Arrival.Succeeds s.call) := fun s hs => by
      obtain rfl := Option.some.inj (hslot.symm.trans hs)
      exact serve_lands icontains a ha
    have hlands := h.lands hserve
    obtain ⟨hspared, hprog⟩ | ⟨heffect, hprog⟩ := hlands
    · exact .inr ⟨.inr (hprog _ hanswered), hspared⟩
    · exact .inl ⟨rfl, hprog _ hanswered, heffect⟩

def post : Arrival := .request 1 (.createConcern (.ok { concernSummary := "", concernType := .burnout }))

theorem requests_take_effect_once_posted : ∃ c₁ r,
    (Config.idle oneMember).step (.start 0 post) = some c₁ ∧
      memberPosted.answer? 0 = some ⟨post, r⟩ ∧ post.Succeeds r ∧ Config.TakesEffect 0 c₁ memberPosted := by
  have hruns : Config.Reaches (Config.KeepsCall 0)
      ((Config.idle oneMember : Config (api fun _ _ => false)).after [.start 0 post]) memberPosted := by
    have hturn : ∀ (c : Config (api fun _ _ => false)) (uuid : ℕ), Config.KeepsCall 0 c (.run 0 uuid) :=
      fun _ _ _ he => by cases he
    exact ((Config.Reaches.refl.step (hturn _ 0) rfl).step (hturn _ 7) rfl).step (hturn _ 0) rfl
  refine ⟨_, _, rfl, rfl, trivial, ?_⟩
  obtain ⟨-, -, heffect⟩ | ⟨hget | hfails, -⟩ :=
    requests_take_effect_once (a := post) (c := Config.idle oneMember) rfl hruns rfl
  · exact heffect
  · cases hget
  · exact absurd trivial hfails

end Chamneul
