import Chamneul.Abstract.Docket
import Chamneul.Proofs.Disciplined
import Chamneul.Proofs.Notices

/-! Every transaction is at most one step of each docket. -/

namespace Chamneul

open ReadCommitted ReadCommitted.Prog Service

def docket (db : Db) (i : Id) : Docket where
  row := db.applications.get? i
  approvals := db.notices .advisorApplicationApproved i
  rejections := db.notices .advisorApplicationRejected i

def TakesUp (db : Db) (call : Call) (i : Id) : Prop :=
  ∃ actor reason row, call = .reviewApplication i actor .reviewing reason ∧
    db.applications.get? i = some row ∧ row.status = .pending

section

variable {e : Env} {db db' : Db} {n : Notification} {i : Id}

theorem docket_same (ha : Same .applications db db') (hn : Same .notifications db db') :
    docket db' i = docket db i := by
  have ha : db'.applications = db.applications := ha
  have hn : db'.notifications = db.notifications := hn
  simp only [docket, Db.notices, ha, hn]

/-- A notice about something else. -/
theorem notices_other {type : NotificationType}
    (h : ¬ (n.type = type ∧ ("application_id", i) ∈ n.payload)) :
    (apply e (.insertNotification n) db).notices type i = db.notices type i :=
  noticesAbout_other h

theorem notices_insert {type : NotificationType} (hfree : db.notifications.get? e.uuid = none)
    (h : n.type = type ∧ ("application_id", i) ∈ n.payload) :
    (apply e (.insertNotification n) db).notices type i = db.notices type i ++ [n.saved e] :=
  noticesAbout_insert hfree h

/-- A notice of no application. -/
theorem docket_other (hn : ("application_id", i) ∉ n.payload) :
    docket (apply e (.insertNotification n) db) i = docket db i := by
  simp only [docket, Docket.mk.injEq]
  exact ⟨rfl, notices_other fun h => hn h.2, notices_other fun h => hn h.2⟩

theorem docket_approved (hfree : db.notifications.get? e.uuid = none) (a : AdvisorApplication)
    (actor : Id) (hi : a.id = i) :
    docket (apply e (.insertNotification (approvedNotification a actor)) db) i =
      { docket db i with
        approvals := (docket db i).approvals ++ [(approvedNotification a actor).saved e] } := by
  simp only [docket, Docket.mk.injEq]
  refine ⟨rfl, notices_insert hfree ⟨rfl, ?_⟩, notices_other fun h => by cases h.1⟩
  simp [approvedNotification, hi]

theorem docket_rejected (hfree : db.notifications.get? e.uuid = none) (a : AdvisorApplication)
    (actor : Id) (reason : String) (hi : a.id = i) :
    docket (apply e (.insertNotification (rejectedNotification a actor reason)) db) i =
      { docket db i with
        rejections := (docket db i).rejections ++ [(rejectedNotification a actor reason).saved e] } := by
  simp only [docket, Docket.mk.injEq]
  refine ⟨rfl, notices_other (fun h => by cases h.1), notices_insert hfree ⟨rfl, ?_⟩⟩
  simp [rejectedNotification, hi]

theorem docket_updateApplication (id : Id) (s : ApplicationSet) :
    docket (apply e (.updateApplication id s) db) i =
      { docket db i with
        row := if i = id then (docket db i).row.map s.apply else (docket db i).row } := by
  simp only [docket, Docket.mk.injEq]
  exact ⟨Table.get?_update _ _ _ _ s.key_apply, rfl, rfl⟩

/-- Reading a notice leaves it where it is. -/
theorem notices_read (id : Id) (t : Time) (type : NotificationType) :
    (apply e (.readNotification id t) db).notices type i =
      (db.notices type i).map fun n => if n.id = id then n.marked t else n :=
  noticesAbout_read id t

/-- What an approval does about the role is nothing to the dockets. -/
theorem docket_roles {w : Pending Write}
    (hw : ∀ p ∈ w, p.2.table = .userRoles ∨ p.2.table = .roleGrants) :
    docket (applyAll w db) i = docket db i ∧ (applyAll w db).notifications = db.notifications := by
  have hother : ∀ t, t ≠ .userRoles → t ≠ .roleGrants → Same t db (applyAll w db) := by
    intro t hu hg
    refine same_applyAll fun p hp he => ?_
    rcases hw p hp with ht | ht
    · exact hu (he.symm.trans ht)
    · exact hg (he.symm.trans ht)
  exact ⟨docket_same (hother _ (by simp) (by simp)) (hother _ (by simp) (by simp)),
    hother .notifications (by simp) (by simp)⟩

/-- The two branches of a review: the status, and the changes it comes with. -/
inductive Reviewed (row : AdvisorApplication) (actor : Id) (reason : String) (e : Env) :
    AdvisorApplicationStatus → Pending Write → Prop
  | takeUp (hs : row.status = .pending) : Reviewed row actor reason e .reviewing
      [(e, .insertNotification (rejectedNotification row actor reason))]
  | reject (hs : row.status = .reviewing) (hr : strip reason ≠ "") : Reviewed row actor reason e
      .rejected [(e, .insertNotification (rejectedNotification row actor reason))]
  | approve (hs : row.status = .reviewing) (w : Pending Write)
      (hw : ∀ p ∈ w, p.2.table = .userRoles ∨ p.2.table = .roleGrants) :
      Reviewed row actor reason e .approved
        (w ++ [(e, .insertNotification (approvedNotification row actor))])

theorem docket_reviewed {row : AdvisorApplication} {actor : Id} {reason : String} {e₁ e₂ : Env}
    {now : Time} {target : AdvisorApplicationStatus} {w : Pending Write}
    (hrow : db.applications.get? row.id = some row) (hfree : db.notifications.get? e₂.uuid = none)
    (hr : Reviewed row actor reason e₂ target w) :
    ∃ e, (docket db i).Step e (docket (applyAll
      ((e₁, .updateApplication row.id (reviewSet row actor target reason now)) :: w) db) i) ∧
      (e = .takeUp ↔ i = row.id ∧ target = .reviewing) := by
  let set := reviewSet row actor target reason now
  let db₁ := apply e₁ (.updateApplication row.id set) db
  have hdb₁ : docket db₁ i = _ := docket_updateApplication row.id set
  have hfree₁ : db₁.notifications.get? e₂.uuid = none := hfree
  by_cases hi : i = row.id
  · subst hi
    have hget : (docket db row.id).row = some row := hrow
    rw [if_pos rfl, hget, Option.map_some] at hdb₁
    cases hr with
    | takeUp hs =>
      have h := docket_rejected hfree₁ row actor reason rfl
      rw [hdb₁] at h
      exact ⟨.takeUp, .to (.takeUp row (some actor) (some now) _ hget hs) h, by simp⟩
    | reject hs hreason =>
      have h := docket_rejected hfree₁ row actor reason rfl
      rw [hdb₁] at h
      exact ⟨.reject, .to (.reject row (some actor) (some now) reason _ hget hs hreason ⟨rfl, rfl⟩) h,
        by simp⟩
    | approve hs w hw =>
      obtain ⟨hsame, hnotes⟩ : docket (applyAll w db₁) row.id = docket db₁ row.id ∧ _ :=
        docket_roles hw
      have hfree₂ : (applyAll w db₁).notifications.get? e₂.uuid = none := by rw [hnotes]; exact hfree₁
      have h := docket_approved hfree₂ row actor rfl
      rw [hsame, hdb₁] at h
      refine ⟨.approve, ?_, by simp⟩
      rw [applyAll_cons, applyAll_append]
      exact .to (.approve row (some actor) (some now) _ hget hs rfl) h
  · rw [if_neg hi] at hdb₁
    refine ⟨.stay, ?_, by simp [hi]⟩
    rw [applyAll_cons]
    cases hr with
    | takeUp _ | reject _ _ =>
      exact .to .stay ((docket_other (by simpa [rejectedNotification] using hi)).trans hdb₁)
    | approve _ w hw =>
      rw [applyAll_append]
      have hother : docket (apply e₂ (.insertNotification (approvedNotification row actor))
          (applyAll w db₁)) i = _ := docket_other (by simpa [approvedNotification] using hi)
      exact .to .stay (hother.trans ((docket_roles hw).1.trans hdb₁))

end

/-- A transaction is at most one step of each docket. -/
theorem docket_step {drift : Db → Db → Prop} {L : Set Key} {w : Pending Write} {db : Db}
    {call : Call} (h : Committed drift L w db call) (i : Id) :
    ∃ e, (docket db i).Step e (docket (applyAll w db) i) ∧ (e = .takeUp ↔ TakesUp db call i) := by
  have hframe {t : TableName} : t ∉ call.tables → Same t db (applyAll w db) := same_of_committed h
  cases call with
  | createApplication applicant displayName =>
    obtain ⟨e, db₁, db₂, -, -, -, hfree, rfl⟩ := h
    let a : AdvisorApplication := { applicant := applicant, displayName := displayName }
    have hget : (apply e (.insertApplication a) db).applications.get? i =
        if e.uuid = i then some (a.saved e) else db.applications.get? i :=
      Table.get?_insert _ _ _ hfree
    by_cases hi : e.uuid = i
    · rw [if_pos hi] at hget
      refine ⟨.file, .to (.file (a.saved e) (hi ▸ hfree) rfl) ?_, by simp [TakesUp]⟩
      simp only [docket, Docket.mk.injEq]
      exact ⟨hget, rfl, rfl⟩
    · rw [if_neg hi] at hget
      refine ⟨.stay, .to .stay ?_, by simp [TakesUp]⟩
      simp only [docket, Docket.mk.injEq]
      exact ⟨hget, rfl, rfl⟩
  | reviewApplication id actor target reason =>
    obtain ⟨row, e₁, e₂, now, effects, -, hrow, htarget, hreason, hfree, rfl, happ, hrej⟩ := h
    obtain rfl : row.id = id := (Table.get?_eq_some.mp hrow).2
    have hr : Reviewed row actor reason e₂ target effects := by
      cases hs : row.status with
      | pending =>
        obtain rfl : target = .reviewing := by simpa [hs, AdvisorApplicationStatus.allowed] using htarget
        rw [hrej (by simp)]
        exact .takeUp hs
      | reviewing =>
        have hcases : target = .approved ∨ target = .rejected := by
          simpa [hs, AdvisorApplicationStatus.allowed] using htarget
        rcases hcases with rfl | rfl
        · obtain ⟨e₃, role, hrole, -, rfl⟩ := happ rfl
          have hw : ∀ p ∈ role ++ [(e₃, Write.insertRoleGrant (approvalGrant row.applicant actor))],
              p.2.table = .userRoles ∨ p.2.table = .roleGrants := by
            cases hrole <;> simp [Write.table]
          have hreviewed : Reviewed row actor reason e₂ .approved _ := .approve hs _ hw
          rwa [List.append_assoc] at hreviewed
        · rw [hrej (by simp)]
          exact .reject hs (hreason rfl)
      | _ => simp [hs, AdvisorApplicationStatus.allowed] at htarget
    obtain ⟨e, hstep, he⟩ := docket_reviewed hrow hfree hr
    refine ⟨e, hstep, he.trans ?_⟩
    constructor
    · rintro ⟨rfl, rfl⟩
      cases hr with
      | takeUp hs => exact ⟨actor, reason, row, rfl, hrow, hs⟩
    · rintro ⟨_, _, _, hcall, -, -⟩
      cases hcall
      exact ⟨rfl, rfl⟩
  | assignAdvisor id actor data =>
    obtain ⟨e₁, e₂, row, transition, -, -, -, -, -, -, -, rfl, htrans⟩ := h
    refine ⟨.stay, ?_, by simp [TakesUp]⟩
    rw [applyAll_append]
    refine .to .stay ((docket_other (by simp [assignmentNotification])).trans ?_)
    cases htrans <;> rfl
  | reviewAdvice id actor decision reason expectedVersion =>
    obtain ⟨e₁, e₂, now, row, concern, transition, -, -, -, -, -, -, -, -, -, -, rfl, htrans⟩ := h
    refine ⟨.stay, ?_, by simp [TakesUp]⟩
    rw [applyAll_append]
    refine .to .stay ((docket_other ?_).trans ?_)
    · cases decision <;> simp [adviceApprovedNotification, adviceRejectedNotification]
    · cases htrans <;> rfl
  | markRead user id =>
    obtain ⟨row, -, -, -, ⟨-, rfl⟩ | ⟨-, e, now, rfl⟩⟩ := h
    · exact ⟨.stay, .stay, by simp [TakesUp]⟩
    · refine ⟨.read, .to (.read (fun n => if n.id = id then n.marked now else n) fun n => ?_) ?_,
        by simp [TakesUp]⟩
      · split_ifs <;> exact ⟨rfl, rfl⟩
      · simp only [applyAll_cons, applyAll_nil, docket, Docket.mk.injEq]
        exact ⟨rfl, notices_read id now _, notices_read id now _⟩
  | _ =>
    refine ⟨.stay, .to .stay (docket_same ?_ ?_), ?_⟩
    · exact hframe (t := .applications) (by simp [Call.tables])
    · exact hframe (t := .notifications) (by simp [Call.tables])
    · simp [TakesUp]

end Chamneul
