import Chamneul.Proofs.Endpoints
import Chamneul.Proofs.Exposure
import Chamneul.Spec.Requests
import Chamneul.Store.RowByRow

/-! An advice that is not approved leaves no trace in what the concern's owner is answered.
Two databases that differ only in such advices are told apart by none of the owner's
requests, nor by any number of them. -/

namespace Chamneul

open ReadCommitted ReadCommitted.Prog Service

def Db.withdrawn (db : Db) (concern : Id) : Prop :=
  ∃ c, db.concerns.get? concern = some c ∧ c.deletedAt ≠ none

/-- An advice in two databases: the same row, or one not by the user whose body, version,
submission, status and review may differ, because it is not approved in either, or its
concern is soft-deleted. -/
def Unreviewed (db : Db) (user : Id) (a b : Advice) : Prop :=
  a = b ∨ a.advisor ≠ user ∧
    (a.id = b.id ∧ a.concern = b.concern ∧ a.advisor = b.advisor ∧ a.createdAt = b.createdAt ∧
      a.updatedAt = b.updatedAt) ∧
    (a.status ≠ .approved ∧ b.status ≠ .approved ∨ db.withdrawn a.concern)

structure AgreeButUnreviewed (user : Id) (db db' : Db) : Prop where
  users : db.users = db'.users
  userRoles : db.userRoles = db'.userRoles
  roleGrants : db.roleGrants = db'.roleGrants
  applications : db.applications = db'.applications
  concerns : db.concerns = db'.concerns
  assignments : db.assignments = db'.assignments
  feedbacks : db.feedbacks = db'.feedbacks
  notifications : db.notifications = db'.notifications
  advices : Table.Related (Unreviewed db user) db.advices db'.advices

variable {db db' : Db} {user : Id}

theorem Unreviewed.id_eq {a b : Advice} (h : Unreviewed db user a b) : a.id = b.id := by
  rcases h with rfl | ⟨-, ⟨hid, -⟩, -⟩
  · rfl
  · exact hid

theorem Unreviewed.concern_eq {a b : Advice} (h : Unreviewed db user a b) : a.concern = b.concern := by
  rcases h with rfl | ⟨-, ⟨-, hconcern, -⟩, -⟩
  · rfl
  · exact hconcern

/-- On a concern that is not soft-deleted the two agree as soon as one is approved. -/
theorem Unreviewed.on_live {a b : Advice} (h : Unreviewed db user a b) (hlive : ¬ db.withdrawn a.concern) :
    (a.status = .approved ↔ b.status = .approved) ∧ (a.status = .approved → a = b) := by
  rcases h with rfl | ⟨-, -, ⟨ha, hb⟩ | hwithdrawn⟩
  · exact ⟨Iff.rfl, fun _ => rfl⟩
  · exact ⟨iff_of_false ha hb, fun h => absurd h ha⟩
  · exact absurd hwithdrawn hlive

theorem Owns.not_withdrawn {c : Concern} (h : Owns db user c) : ¬ db.withdrawn c.id := by
  rintro ⟨d, hd, hdeleted⟩
  obtain rfl : c = d := Option.some.inj (h.get?.symm.trans hd)
  exact hdeleted h.live

/-- The query for approved advices on an own concern finds the same rows. -/
theorem Unreviewed.on_own {c : Concern} (hc : Owns db user c) {a b : Advice}
    (h : Unreviewed db user a b) :
    decide (a.concern = c.id ∧ a.status = .approved) =
        decide (b.concern = c.id ∧ b.status = .approved) ∧
      (decide (a.concern = c.id ∧ a.status = .approved) = true → a = b) := by
  rw [h.concern_eq]
  by_cases hon : b.concern = c.id
  · obtain ⟨hiff, heq⟩ := h.on_live (by rw [h.concern_eq, hon]; exact hc.not_withdrawn)
    simp only [hon, true_and, decide_eq_true_eq]
    exact ⟨decide_eq_decide.mpr hiff, heq⟩
  · simp [hon]

def Db.ownJoined (db : Db) (user : Id) (a : Advice) : Option Concern :=
  (db.concerns.get? a.concern).filter fun c => decide (c.author = user) && c.deletedAt.isNone

/-- The inbox, with the condition on the joined concern among those on the advice. -/
theorem listReceivedAdvices_eq (db : Db) (user : Id) :
    db.listReceivedAdvices user =
      (newestFirst Advice.createdAt (db.advices.rows.filter fun a =>
        (db.ownJoined user a).isSome && decide (a.status = .approved))).filterMap fun a =>
          (db.ownJoined user a).map fun c =>
            ⟨a, c, db.feedbacks.any fun f => decide (f.advice = a.id)⟩ := by
  rw [← List.filter_filter, ← filter_newestFirst]
  refine (filterMap_filter_isSome _ _).symm.trans ?_
  simp only [Option.isSome_map, Db.ownJoined]

namespace AgreeButUnreviewed

variable (h : AgreeButUnreviewed user db db')
include h

theorem isAdmin : db.isAdmin user = db'.isAdmin user := by
  simp only [Db.isAdmin, Db.hasRole, h.users, h.userRoles]

theorem displayNamesByAdvisor (ids : List Id) :
    db.displayNamesByAdvisor ids = db'.displayNamesByAdvisor ids := by
  simp only [Db.displayNamesByAdvisor, h.applications]

theorem displayName (names : List (Id × String)) (advisor : Id) :
    db.displayName names advisor = db'.displayName names advisor := by
  simp only [Db.displayName, Db.nickname, h.users]

/-! The owner's concerns. -/

theorem owns (c : Concern) : Owns db user c ↔ Owns db' user c := by
  constructor <;> rintro ⟨hc, hauthor, hlive⟩
  · exact ⟨h.concerns ▸ hc, hauthor, hlive⟩
  · exact ⟨h.concerns ▸ hc, hauthor, hlive⟩

theorem getOwnConcern (i : Id) : db.getOwnConcern user i = db'.getOwnConcern user i := by
  simp only [Db.getOwnConcern, Db.liveConcern?, h.concerns]

theorem hasApprovedAdvice {c : Concern} (hc : Owns db user c) :
    db.hasApprovedAdvice c.id = db'.hasApprovedAdvice c.id :=
  forall₂_any (S := Unreviewed db user) (fun _ _ hab => (hab.on_own hc).1) h.advices

theorem approvedAdvicesViewData {c : Concern} (hc : Owns db user c) :
    db.approvedAdvicesViewData c.id = db'.approvedAdvicesViewData c.id := by
  have hrows : db.approvedAdvices c.id = db'.approvedAdvices c.id :=
    congrArg (oldestFirst Advice.createdAt)
      (forall₂_filter_eq (S := Unreviewed db user) (fun _ _ hab => hab.on_own hc) h.advices)
  simp only [Db.approvedAdvicesViewData, hrows, h.displayNamesByAdvisor, h.displayName]

theorem concernDetail {c : Concern} (hc : Owns db user c) : concernDetail db c = concernDetail db' c := by
  simp only [Chamneul.concernDetail, h.approvedAdvicesViewData hc]

theorem listMyConcerns : db.listMyConcerns user = db'.listMyConcerns user := by
  unfold Db.listMyConcerns
  rw [← h.concerns]
  refine List.map_congr_left fun c hc => ?_
  obtain ⟨hc, hauthor, hlive⟩ : c ∈ db.concerns.rows ∧ c.author = user ∧ c.deletedAt = none := by
    simpa [mem_newestFirst] using hc
  rw [h.hasApprovedAdvice ⟨hc, hauthor, hlive⟩]

/-! The owner's inbox. -/

theorem listReceivedAdvices : db.listReceivedAdvices user = db'.listReceivedAdvices user := by
  have hrows : (db.advices.rows.filter fun a =>
      (db.ownJoined user a).isSome && decide (a.status = .approved)) =
      db'.advices.rows.filter fun a =>
        (db'.ownJoined user a).isSome && decide (a.status = .approved) := by
    refine forall₂_filter_eq (S := Unreviewed db user) (fun a b hab => ?_) h.advices
    simp only [Db.ownJoined, ← h.concerns, hab.concern_eq]
    cases hjoined : (db.concerns.get? b.concern).filter fun c =>
      decide (c.author = user) && c.deletedAt.isNone with
    | none => simp
    | some c =>
      obtain ⟨hc, hown⟩ := Option.filter_eq_some_iff.mp hjoined
      obtain ⟨hiff, heq⟩ := hab.on_live (by
        rintro ⟨d, hd, hdeleted⟩
        rw [hab.concern_eq, hc] at hd
        obtain rfl := Option.some.inj hd
        simp [hdeleted] at hown)
      simp only [Option.isSome_some, Bool.true_and, decide_eq_true_eq]
      exact ⟨decide_eq_decide.mpr hiff, heq⟩
  rw [listReceivedAdvices_eq, listReceivedAdvices_eq, hrows]
  simp only [Db.ownJoined, h.concerns, h.feedbacks]

/-! One advice, with the concern it joins. -/

theorem adviceAndConcern? (i : Id) :
    Option.Rel (fun x y => Unreviewed db user x.1 y.1 ∧ x.2 = y.2 ∧
      db.concerns.get? x.1.concern = some x.2) (db.adviceAndConcern? i) (db'.adviceAndConcern? i) := by
  have hadvice := h.advices.get? (fun a b hab => hab.id_eq) i
  simp only [Db.adviceAndConcern?, bind, pure]
  generalize db.advices.get? i = x, db'.advices.get? i = y at hadvice
  cases hadvice with
  | none => exact .none
  | @some a b hab =>
    simp only [Option.bind_some, ← h.concerns, ← hab.concern_eq]
    cases hc : db.concerns.get? a.concern with
    | none => exact .none
    | some c => exact .some ⟨hab, rfl, hc⟩

theorem getVisibleAdvice (hadmin : db.isAdmin user = false) (i : Id) :
    db.getVisibleAdvice i user = db'.getVisibleAdvice i user := by
  simp only [Db.getVisibleAdvice, getObjectOr404_toList, ← h.isAdmin, hadmin]
  generalize hx : db.adviceAndConcern? i = x, hy : db'.adviceAndConcern? i = y
  have hfound := h.adviceAndConcern? i
  rw [hx, hy] at hfound
  cases hfound with
  | none => rfl
  | @some x y hxy =>
    obtain ⟨a, c⟩ := x
    obtain ⟨b, d⟩ := y
    obtain ⟨rfl | ⟨hadvisor, hsame, hreview⟩, rfl, hc⟩ := hxy
    · rfl
    · -- the advice is not the user's, and what differs does not reach the owner
      have hb : b.advisor ≠ user := hsame.2.2.1 ▸ hadvisor
      have hhidden : ∀ s, (s = a.status ∨ s = b.status) →
          ¬ (c.author = user ∧ s = .approved ∧ c.deletedAt = none) := by
        rintro s hs ⟨-, rfl, hlive⟩
        rcases hreview with ⟨ha, hb⟩ | ⟨d, hd, hdeleted⟩
        · rcases hs with hs | hs
          · exact ha hs.symm
          · exact hb hs.symm
        · obtain rfl := Option.some.inj (hc.symm.trans hd)
          exact hdeleted hlive
      simp only [Option.elim_some, bind, Except.bind, if_neg hadvisor, if_neg hb,
        if_neg (hhidden _ (.inl rfl)), if_neg (hhidden _ (.inr rfl))]
      rfl

theorem adviceDetail (a : Advice) (viewer : Viewer) :
    adviceDetail db a viewer = adviceDetail db' a viewer := by
  simp only [Chamneul.adviceDetail, h.displayNamesByAdvisor, h.displayName]

theorem listMyNotifications (isRead : Option Bool) (type : Option NotificationType) :
    db.listMyNotifications user isRead type = db'.listMyNotifications user isRead type := by
  simp only [Db.listMyNotifications, h.notifications]

/-! What the owner's requests write leaves them in agreement. -/

theorem insertFeedback (e : Env) (f : Feedback) :
    AgreeButUnreviewed user (apply e (.insertFeedback f) db) (apply e (.insertFeedback f) db') where
  users := h.users
  userRoles := h.userRoles
  roleGrants := h.roleGrants
  applications := h.applications
  concerns := h.concerns
  assignments := h.assignments
  feedbacks := congrArg (·.insert (f.saved e)) h.feedbacks
  notifications := h.notifications
  advices := h.advices

theorem updateConcern (e : Env) (i : Id) {set : ConcernSet} (hset : set.deletedAt = none) :
    AgreeButUnreviewed user (apply e (.updateConcern i set) db) (apply e (.updateConcern i set) db') where
  users := h.users
  userRoles := h.userRoles
  roleGrants := h.roleGrants
  applications := h.applications
  concerns := congrArg (·.update i (set.apply e) (set.key_apply e)) h.concerns
  assignments := h.assignments
  feedbacks := h.feedbacks
  notifications := h.notifications
  advices := by
    refine List.Forall₂.imp (fun a b hab => ?_) h.advices
    refine hab.imp_right (And.imp_right (And.imp_right (Or.imp_right ?_)))
    rintro ⟨c, hc, hdeleted⟩
    refine ⟨if a.concern = i then set.apply e c else c, ?_, ?_⟩
    · change (db.concerns.update i (set.apply e) (set.key_apply e)).get? a.concern = _
      rw [Table.get?_update _ _ _ _ (set.key_apply e), hc]
      split_ifs <;> rfl
    · split_ifs
      · rw [ConcernSet.apply, hset]
        exact hdeleted
      · exact hdeleted

end AgreeButUnreviewed

/-- What the owner's requests keep: agreement, for a user who is no admin. -/
def Unaware (user : Id) (db db' : Db) : Prop :=
  AgreeButUnreviewed user db db' ∧ db.isAdmin user = false

variable {d d' : Db}

theorem Unaware.users (h : Unaware user d d') : d.users.get? user = d'.users.get? user := by
  rw [h.1.users]

theorem updateOwnConcern_alike (h : Unaware user d d') (i : Id) (data : ConcernEdit) :
    Alike (Ends (Unaware user) fun c c' v _ => c = c' ∧ Owns v user c)
      (updateOwnConcern user i data) (updateOwnConcern user i data) (.idle d) (.idle d') := by
  refine Alike.atomic (alike_getForUpdate_bind (S := Eq) ?_ ⟨h, rfl⟩ ?_)
  · simp only [Stand.idle_view, Db.liveConcern?, ← h.1.concerns]
    cases ((d.concerns.get? i).filter fun c => c.deletedAt.isNone).filter
      fun c => decide (c.author = user) with
    | none => exact .none
    | some c => exact .some rfl
  · rintro c _ hfound rfl
    obtain ⟨hc, hlive, hauthor⟩ : d.concerns.get? i = some c ∧ c.deletedAt = none ∧
        c.author = user := by
      simpa [Db.liveConcern?, Option.filter_eq_some_iff] using hfound
    refine alike_query_bind ?_
    simp only [Stand.idle_view, Db.everAssigned, ← h.1.assignments]
    refine alike_raiseIf_bind Iff.rfl ⟨h, rfl⟩ fun _ => ?_
    refine alike_write (fun _ => rfl) ⟨h, rfl⟩ fun e _ => ⟨⟨h.1.updateConcern e _ rfl, h.2⟩, rfl, ?_⟩
    refine ⟨?_, hauthor, hlive⟩
    rw [Stand.idle_view, apply, Table.mem_update]
    exact ⟨c, (Table.get?_eq_some.mp hc).1, by simp⟩

theorem createFeedback_alike (h : Unaware user d d') (i : Id) (data : FeedbackData) :
    Alike (EndsAlike (Unaware user)) (createFeedback i user data) (createFeedback i user data)
      (.idle d) (.idle d') := by
  refine alike_query_bind (alike_getOr_bind (h.1.adviceAndConcern? i) ?_ ?_)
  · exact ⟨d, d', rfl, rfl, h, rfl⟩
  · rintro ⟨a, c⟩ ⟨b, _⟩ - ⟨hab, rfl, hc⟩
    have hraise : ∀ detail, EndsAlike (Unaware user) (.error (.permissionDenied detail))
        (.error (.permissionDenied detail) : Except APIException Feedback) (.idle d) (.idle d') :=
      fun _ => ⟨d, d', rfl, rfl, h, rfl⟩
    refine alike_raiseIf_bind Iff.rfl (hraise _) fun _ => ?_
    refine alike_raiseIf_bind Iff.rfl (hraise _) fun hlive => ?_
    obtain ⟨hiff, heq⟩ := hab.on_live (by
      rintro ⟨e, he, hdeleted⟩
      obtain rfl := Option.some.inj (hc.symm.trans he)
      exact hlive hdeleted)
    refine alike_raiseIf_bind hiff.not (hraise _) fun happroved => ?_
    obtain rfl := heq (by simpa using happroved)
    refine Alike.handle (Alike.atomic (alike_write (fun e => ?_) ⟨h, rfl⟩ fun e _ => ?_)) ?_
    · simp only [violates, Stand.idle_view, h.1.feedbacks]
    · exact ⟨⟨h.1.insertFeedback e _, h.2⟩, rfl⟩
    · exact fun _ _ _ h => alike_ret h rfl

/-- What each request of the owner's is answered does not tell the two databases apart. -/
theorem ownerView_alike (icontains : String → String → Bool) (h : Unaware user d d') :
    (r : OwnerRequest) → Alike (EndsAlike (Unaware user)) (ownerView icontains user r)
      (ownerView icontains user r) (.idle d) (.idle d')
  | .concerns status page => by
    refine alike_isAuthenticated h h.users fun _ => alike_query h ?_
    rw [h.1.listMyConcerns]
  | .concern i => by
    refine alike_isAuthenticated h h.users fun _ => alike_respond (Alike.bind
      (E := fun c c' v _ => c = c' ∧ Owns v user c) (alike_read h ?_) ?_)
    · rw [← h.1.getOwnConcern]
      cases hc : d.getOwnConcern user i with
      | error e => exact rfl
      | ok c => exact ⟨rfl, (getOwnConcern_eq_ok.mp hc).1⟩
    · rintro c _ v v' hv ⟨rfl, hown⟩
      exact alike_query hv (hv.1.concernDetail hown)
  | .editConcern i request => by
    refine alike_isAuthenticated h h.users fun _ => alike_isValid h fun data => alike_respond
      (Alike.bind (updateOwnConcern_alike h i data) ?_)
    rintro c _ v v' hv ⟨rfl, hown⟩
    exact alike_query hv (hv.1.concernDetail hown)
  | .receivedAdvices request page => by
    refine alike_isAuthenticated h h.users fun _ => alike_isValid h fun filters => alike_query h ?_
    rw [h.1.listReceivedAdvices]
    congr 1
    funext rows
    simp only [receivedAdviceItems, h.1.displayNamesByAdvisor, h.1.displayName]
  | .advice i => by
    refine alike_isAuthenticated h h.users fun _ => alike_respond (Alike.bind
      (E := fun x y _ _ => x = y) (alike_read h ?_) ?_)
    · rw [h.1.getVisibleAdvice h.2]
      exact answers_eq.mpr rfl
    · rintro ⟨a, viewer⟩ _ v v' hv rfl
      exact alike_query hv (hv.1.adviceDetail a viewer)
  | .rate i request => by
    refine alike_isAuthenticated h h.users fun _ => alike_isValid h fun data => alike_respond
      (Alike.bind (createFeedback_alike h i data) ?_)
    rintro f _ v v' hv rfl
    exact alike_ret hv rfl
  | .notifications request page => by
    refine alike_isAuthenticated h h.users fun _ => alike_isValid h fun filters => alike_query h ?_
    have hlist := h.1.listMyNotifications filters.isRead filters.type
    have hcount : d.unreadCount user = d'.unreadCount user := by
      rw [Db.unreadCount, Db.unreadCount, h.1.notifications]
    rw [hlist, hcount]

/-- Unreviewed advice leaks nothing to the concern's owner. -/
theorem unreviewed_hidden (icontains : String → String → Bool) (draw : ℕ → ℕ) {user : Id}
    {σ σ' : World Db} (hadmin : σ.db.isAdmin user = false)
    (h : AgreeButUnreviewed user σ.db σ'.db) (hnow : σ.now = σ'.now) (requests : List OwnerRequest) :
    serveAll (ownerView icontains user) draw requests σ =
      serveAll (ownerView icontains user) draw requests σ' :=
  serveAll_eq _ draw (fun r _ _ hd _ => ownerView_alike icontains hd r)
    (servedWhile_true _ draw requests σ) ⟨h, hadmin⟩ hnow

def advised (body : AdviceBody) (status : AdviceStatus) : World Db :=
  ⟨{ users := Table.empty.insert { id := 1, nickname := "가람" }
     concerns := Table.empty.insert
       { author := 1, fields := { concernSummary := "", concernType := .burnout }, status := .assigned }
     advices := Table.empty.insert { concern := 0, advisor := 2, body := body, status := status } }, 0⟩

theorem advised_agree {body body' : AdviceBody} {status status' : AdviceStatus}
    (h : status ≠ .approved) (h' : status' ≠ .approved) :
    AgreeButUnreviewed 1 (advised body status).db (advised body' status').db where
  users := rfl
  userRoles := rfl
  roleGrants := rfl
  applications := rfl
  concerns := rfl
  assignments := rfl
  feedbacks := rfl
  notifications := rfl
  advices := by
    refine List.Forall₂.cons (Or.inr ⟨?_, ⟨rfl, rfl, rfl, rfl, rfl⟩, Or.inl ⟨h, h'⟩⟩) .nil
    exact (by decide : (2 : Id) ≠ 1)

theorem unreviewed_hidden_rewritten :
    serveAll (ownerView (fun _ _ => false) 1) id
        [.concerns none {}, .concern 0, .receivedAdvices (.ok {}) {}, .advice 0, .rate 0 (.ok ⟨5, ""⟩)]
        (advised ⟨"", "", "", false⟩ .pending) =
      serveAll (ownerView (fun _ _ => false) 1) id
        [.concerns none {}, .concern 0, .receivedAdvices (.ok {}) {}, .advice 0, .rate 0 (.ok ⟨5, ""⟩)]
        (advised ⟨"가", "나", "", true⟩ .rejected) :=
  unreviewed_hidden _ id (by decide) (advised_agree (by decide) (by decide)) rfl _

end Chamneul
