import Chamneul.Abstract.Permissions
import Chamneul.Store.Frontend

/-! The API over the services. A view reads who asks, and then either answers or hands over to the
one call of its request; so a run of the API is a run of the services in which every call was
admitted by the rows its permission check had just read. -/

namespace Chamneul

open ReadCommitted ReadCommitted.Prog Service

def Standing.Shown (seen : List Db) (user : Id) (standing : Standing) : Prop :=
  ∃ db ∈ seen, standing.holds db user

theorem Standing.Shown.later {seen : List Db} {user : Id} {standing : Standing}
    (h : standing.Shown seen user) (db : Db) : standing.Shown (db :: seen) user := by
  obtain ⟨db₁, hseen, hholds⟩ := h
  exact ⟨db₁, List.mem_cons_of_mem db hseen, hholds⟩

theorem admits_of_shown {seen : List Db} {user : Id} {r : Request} {call : Call}
    (h : r.standing.Shown seen user) (hcall : r.call? user = some call) :
    ∃ db ∈ seen, (Arrival.request user r).Admits db call := by
  obtain ⟨db, hseen, hholds⟩ := h
  exact ⟨db, hseen, hcall, hholds⟩

theorem validated_of_ok {α : Type} {request : Validated α} {data : α} {f : α → Call}
    (h : request = .ok data) : request.toOption.map f = some (f data) := by
  rw [h]
  rfl

section

variable {α β γ : Type} {gate : Db → Call → Prop} {seen : List Db}

theorem fronts_isAuthenticated {user : Id} {view : User → Service (Response β)}
    (h : ∀ db account, db.users.get? user = some account → account.isActive = true →
      (view account).Fronts system gate (db :: seen)) :
    (isAuthenticated user view).Fronts system gate seen := by
  refine .query fun db => ?_
  cases hfound : (db.users.get? user).filter (·.isActive) with
  | none => exact .answers trivial
  | some account =>
    obtain ⟨huser, hactive⟩ := Option.filter_eq_some_iff.mp hfound
    exact h db account huser hactive

theorem fronts_member {user : Id} {view : User → Service (Response β)}
    (h : ∀ seen account, Standing.Shown seen user .member →
      (view account).Fronts system gate seen) :
    (isAuthenticated user view).Fronts system gate seen := by
  refine fronts_isAuthenticated fun db account huser hactive => ?_
  refine h _ account ⟨db, List.mem_cons_self, ?_⟩
  rw [Standing.holds, Db.isActiveUser, huser]
  exact hactive

theorem fronts_advisor {user : Id} {view : User → Service (Response β)}
    (h : ∀ seen account, Standing.Shown seen user .advisor →
      (view account).Fronts system gate seen) :
    (isAuthenticated user fun account => isActiveAdvisor account (view account)).Fronts system gate
      seen := by
  refine fronts_isAuthenticated fun db account huser hactive => ?_
  unfold isActiveAdvisor
  split_ifs with hrole
  · exact h _ account ⟨db, List.mem_cons_self, account, huser, hactive, hrole⟩
  · exact .answers trivial

theorem fronts_admin {user : Id} {view : Service (Response β)}
    (h : ∀ seen, Standing.Shown seen user .admin → view.Fronts system gate seen) :
    (isAdmin user view).Fronts system gate seen := by
  refine fronts_isAuthenticated fun db account huser _ => ?_
  split_ifs with hsuper
  · refine h _ ⟨db, List.mem_cons_self, ?_⟩
    rw [Standing.holds, Db.isAdmin, huser]
    simp [hsuper]
  · refine .query fun db' => ?_
    split_ifs with hholds
    · refine h _ ⟨db', List.mem_cons_self, ?_⟩
      rw [Standing.holds, Db.isAdmin, hholds, Bool.or_true]
    · exact .answers trivial

theorem fronts_isValid {request : Validated α} {view : α → Service (Response β)}
    (h : ∀ data, request = .ok data → (view data).Fronts system gate seen) :
    (isValid request view).Fronts system gate seen := by
  cases request with
  | ok data => exact h data rfl
  | error errors => exact .answers trivial

theorem reads_respond {model : String} {status : ℕ} {view : Service β} (h : view.Reads) :
    (respond model status view).Reads :=
  h.andThen fun r => by cases r <;> trivial

theorem reads_read (q : Db → Except APIException α) : (Service.read q).Reads := fun _ => trivial

/-- A view that only reads from here on. -/
theorem fronts_query (q : Db → Response β) :
    (query q : Service (Response β)).Fronts system gate seen :=
  .answers fun _ => trivial

/-- The view answers with what the call returns, or the exception it raises. -/
theorem fronts_call (call : Call) {k : Except APIException call.Res → Service β}
    (hgate : ∃ db ∈ seen, gate db call) (hk : ∀ r, (k r).Reads) :
    ((program call).andThen k).Fronts system gate seen :=
  @Fronts.serves _ _ _ _ _ system gate seen call k hgate hk

/-- The call itself is the view. -/
theorem fronts_respond (call : Call) {model : String} {status : ℕ}
    (hgate : ∃ db ∈ seen, gate db call) :
    (respond model status (program call)).Fronts system gate seen :=
  fronts_call call hgate fun r => by cases r <;> exact trivial

/-- The view makes something of what the call returns. -/
theorem fronts_respond_bind (call : Call) {model : String} {status : ℕ} {f : call.Res → Service β}
    (hgate : ∃ db ∈ seen, gate db call) (hf : ∀ a, (f a).Reads) :
    (respond model status (program call >>= f)).Fronts system gate seen := by
  have hview : respond model status (program call >>= f) =
      (program call).andThen fun r => respond model status (Prog.ret r >>= f) := andThen_assoc _ _ _
  rw [hview]
  exact fronts_call call hgate fun r => reads_respond ((reads_ret r).bind hf)

/-- An action of the staff is its call. -/
theorem fronts_program (call : Call) (hgate : ∃ db ∈ seen, gate db call) :
    (program call).Fronts system gate seen := by
  have h := fronts_call (k := Prog.ret) call hgate fun r => reads_ret r
  rwa [andThen_ret] at h

/-- The nickname is looked up before the other fields are checked. -/
theorem fronts_updateMe {user : Id} {u : UserUpdate}
    {view : ProfileData → Service (Response UserUpdateResult)}
    (h : ∀ seen data, Standing.Shown seen user .member → u.validated = .ok data →
      (view data).Fronts system gate seen) :
    (isAuthenticated user fun _ => u.isValid user view).Fronts system gate seen := by
  refine fronts_member fun seen _ hm => ?_
  unfold UserUpdate.isValid
  split
  · refine .query fun db => ?_
    split_ifs
    · exact .answers trivial
    · exact fronts_isValid fun data hok => h _ data (hm.later db) hok
  · exact fronts_isValid fun data hok => h _ data hm hok

end

/-- Each view asks for the standing of its request, and hands over to its call. -/
theorem view_fronts (icontains : String → String → Bool) (user : Id) (r : Request)
    (seen : List Db) :
    (view icontains user r).Fronts system (Arrival.request user r).Admits seen := by
  cases r with
  -- the views that only read
  | me => exact fronts_isAuthenticated fun _ _ _ _ => .answers fun _ => trivial
  | roles => exact fronts_isAuthenticated fun _ _ _ _ => .answers fun _ _ => trivial
  | myApplication | concerns _ _ | myFeedbacks _ =>
    exact fronts_isAuthenticated fun _ _ _ _ => fronts_query _
  | receivedAdvices _ _ | notifications _ _ =>
    exact fronts_isAuthenticated fun _ _ _ _ => fronts_isValid fun _ _ => fronts_query _
  | concern _ | advice _ =>
    refine fronts_isAuthenticated fun _ _ _ _ => .answers (reads_respond ?_)
    exact (reads_read _).bind fun _ => reads_query _
  | notification _ =>
    refine fronts_isAuthenticated fun _ _ _ _ => .answers (reads_respond ?_)
    refine (reads_query _).bind fun found => ?_
    cases found <;> exact trivial
  | assignedConcerns _ _ => exact fronts_advisor fun _ _ _ => fronts_query _
  | assignedConcern _ =>
    refine fronts_advisor fun _ _ _ => .answers (reads_respond ?_)
    exact (reads_read _).bind fun _ => reads_query _
  | advicesWritten _ _ => exact fronts_advisor fun _ _ _ => fronts_isValid fun _ _ => fronts_query _
  | applications _ _ | allConcerns _ _ => exact fronts_admin fun _ _ => fronts_query _
  | advices _ _ | feedbacks _ _ =>
    exact fronts_admin fun _ _ => fronts_isValid fun _ _ => fronts_query _
  | application _ | feedback _ =>
    refine fronts_admin fun _ _ => .answers (reads_respond ?_)
    exact (reads_read _).bind fun _ => reads_pure _
  | anyConcern _ =>
    refine fronts_admin fun _ _ => .answers (reads_respond ?_)
    exact (reads_read _).bind fun _ => reads_query _
  -- a member's changes
  | updateMe request =>
    refine fronts_updateMe fun _ data hm hok => ?_
    exact fronts_respond_bind (.updateProfile user data) (admits_of_shown hm (validated_of_ok hok))
      fun _ => trivial
  | switchRole request =>
    refine fronts_member fun _ _ hm => fronts_isValid fun data hok => ?_
    exact fronts_respond_bind (.setActiveRole user data) (admits_of_shown hm (validated_of_ok hok)) fun _ _ => trivial
  | apply request =>
    refine fronts_member fun _ _ hm => fronts_isValid fun data hok => ?_
    exact fronts_respond_bind (.createApplication user data) (admits_of_shown hm (validated_of_ok hok)) fun _ => trivial
  | createConcern request =>
    refine fronts_member fun _ _ hm => fronts_isValid fun data hok => ?_
    exact fronts_respond_bind (.createConcern user data) (admits_of_shown hm (validated_of_ok hok)) fun _ => trivial
  | editConcern id request =>
    refine fronts_member fun _ _ hm => fronts_isValid fun data hok => ?_
    exact fronts_respond_bind (.updateOwnConcern user id data) (admits_of_shown hm (validated_of_ok hok))
      fun _ => reads_query _
  | deleteConcern id =>
    exact fronts_member fun _ _ hm => fronts_respond (.deleteConcern user id) (admits_of_shown hm rfl)
  | rate id request =>
    refine fronts_member fun _ _ hm => fronts_isValid fun data hok => ?_
    exact fronts_respond_bind (.createFeedback id user data) (admits_of_shown hm (validated_of_ok hok)) fun _ => trivial
  | readNotification id =>
    refine fronts_member fun _ _ hm => ?_
    exact fronts_respond_bind (.markRead user id) (admits_of_shown hm rfl) fun _ => trivial
  -- an advisor's
  | createAdvice id request =>
    refine fronts_advisor fun _ _ hm => fronts_isValid fun data hok => ?_
    exact fronts_respond_bind (.createAdvice id user data.body data.submit)
      (admits_of_shown hm (validated_of_ok hok)) fun _ => trivial
  | updateAdvice id request =>
    refine fronts_advisor fun _ _ hm => fronts_isValid fun data hok => ?_
    exact fronts_respond_bind (.updateAdvice id user data) (admits_of_shown hm (validated_of_ok hok)) fun _ => trivial
  | deleteAdvice id =>
    exact fronts_advisor fun _ _ hm => fronts_respond (.deleteAdvice id user) (admits_of_shown hm rfl)
  -- an admin's
  | reviewApplication id request =>
    refine fronts_admin fun _ hm => fronts_isValid fun data hok => ?_
    exact fronts_respond_bind (.reviewApplication id user data.status data.rejectReason)
      (admits_of_shown hm (validated_of_ok hok)) fun _ => trivial
  | assign id request =>
    refine fronts_admin fun _ hm => fronts_isValid fun data hok => ?_
    exact fronts_respond_bind (.assignAdvisor id user data) (admits_of_shown hm (validated_of_ok hok)) fun _ => trivial
  | unassign id assignmentId =>
    exact fronts_admin fun _ hm => fronts_respond (.unassignAdvisor id assignmentId) (admits_of_shown hm rfl)
  | reviewAdvice id request =>
    refine fronts_admin fun _ hm => fronts_isValid fun data hok => ?_
    exact fronts_respond_bind
      (.reviewAdvice id user data.decision data.reason data.expectedVersion)
      (admits_of_shown hm (validated_of_ok hok)) fun _ => trivial
  | transitionFeedback id request =>
    refine fronts_admin fun _ hm => fronts_isValid fun data hok => ?_
    exact fronts_respond_bind (.transitionFeedback id user data.status data.memo)
      (admits_of_shown hm (validated_of_ok hok)) fun _ => trivial
  | grantRole id request =>
    refine fronts_admin fun _ hm => fronts_isValid fun data hok => ?_
    exact fronts_respond_bind (.grantRole id data.role user data.reason)
      (admits_of_shown hm (validated_of_ok hok)) fun _ _ => trivial
  | revokeRole id role reason =>
    refine fronts_admin fun _ hm => ?_
    exact fronts_respond_bind (.revokeRole id role user reason) (admits_of_shown hm rfl) fun _ => trivial

theorem serve_fronts (icontains : String → String → Bool) (a : Arrival) (db : Db) :
    (serve icontains a).Fronts system a.Admits [db] := by
  cases a with
  | request user r => exact view_fronts icontains user r [db]
  | closeSelected selected => exact fronts_program (.closeSelected selected) ⟨db, List.mem_cons_self, rfl⟩
  | softDeleteSelected selected => exact fronts_program (.softDeleteSelected selected) ⟨db, List.mem_cons_self, rfl⟩
  | restoreSelected selected => exact fronts_program (.restoreSelected selected) ⟨db, List.mem_cons_self, rfl⟩

section

variable {icontains : String → String → Bool} {σ₀ : World Db} {c : Config (api icontains)}
  {σs : List (World Db)}

theorem services_behind (h : Config.Run (Config.idle σ₀) c σs) :
    ∃ d : Config system, Config.Through (fun db call => ∃ a : Arrival, a.Admits db call)
      (Config.idle σ₀) d σs ∧ Config.Behind Arrival.Admits σs c d :=
  have hidler : ∀ db, ∃ a : Arrival, a.Admits db (.closeSelected []) :=
    fun _ => ⟨.closeSelected [], rfl⟩
  h.behind (serve_fronts icontains) hidler

/-- Every run of the API has a run of the services behind it, through the same worlds and holding
the same locks. A session of the API either has changed nothing yet, or the one call behind it has
made its changes, and a world the run has passed admitted the call. -/
theorem api_refines_services (h : Config.Run (Config.idle σ₀) c σs) :
    ∃ d : Config system, Config.Through (fun db call => ∃ a : Arrival, a.Admits db call)
      (Config.idle σ₀) d σs ∧ d.world = c.world ∧ (∀ k, d.owner k = (c.owner k).map (2 * ·)) ∧
      ∀ t s, c.slot t = some s → s.writes = [] ∨ ∃ s', d.slot (2 * t) = some s' ∧
        s'.writes = s.writes ∧ ∃ σ ∈ σs, s.call.Admits σ.db s'.call := by
  obtain ⟨d, hd, hbehind⟩ := services_behind h
  refine ⟨d, hd, hbehind.world, hbehind.owner, fun t s hslot => ?_⟩
  have hserves := hbehind.slot t
  rw [hslot] at hserves
  generalize hback : d.slot (2 * t) = o at hserves
  cases hserves with
  | asking | answering => exact .inl rfl
  | serving a call q k w hgate => exact .inr ⟨_, rfl, rfl, hgate⟩

end

def oneMember : World Db := ⟨{ users := Table.empty.insert { id := 1, nickname := "" } }, 0⟩

/-- User 1 posts a concern; the row is written and not yet committed. -/
def memberPosting : Config (api fun _ _ => false) :=
  (Config.idle oneMember).after
    [.start 0 (.request 1 (.createConcern (.ok { concernSummary := "", concernType := .burnout }))),
      .run 0 0, .run 0 7]

theorem api_refines_services_posting : ∃ σs, Config.Run (Config.idle oneMember) memberPosting σs ∧
    ∃ d : Config system, Config.Through (fun db call => ∃ a : Arrival, a.Admits db call)
      (Config.idle oneMember) d σs ∧ d.world = memberPosting.world ∧
      ∃ s', d.slot 0 = some s' ∧ s'.writes.length = 1 := by
  obtain ⟨σs, h⟩ := (Config.reachable_after _ _ : Config.Reachable _ memberPosting).through
  obtain ⟨d, hd, hworld, -, hsessions⟩ := api_refines_services h
  refine ⟨σs, h, d, hd, hworld, ?_⟩
  obtain hnone | ⟨s', hslot, hwrites, -⟩ := hsessions 0 _ rfl
  · cases hnone
  · exact ⟨s', hslot, congrArg List.length hwrites⟩

end Chamneul
