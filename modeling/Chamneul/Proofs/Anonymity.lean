import Chamneul.Proofs.ConcernQueue
import Chamneul.Proofs.Endpoints
import Chamneul.Spec.Requests
import Chamneul.Store.RowByRow

/-! Who asked stays unknown to the advisor. Two databases that differ in who the other
people are, and in nothing an advisor's own rows say, are told apart by none of the
advisor's requests, as long as the concern asked about gives no name. -/

namespace Chamneul

open ReadCommitted ReadCommitted.Prog Service

/-! The rows of two databases, up to the people in them. -/

def SameConcern (c d : Concern) : Prop := ∃ author, d = { c with author := author }

def SameApplication (a b : AdvisorApplication) : Prop := ∃ admin, b = { a with reviewedBy := admin }

def SameAssignment (a b : Assignment) : Prop := ∃ admin, b = { a with assignedBy := admin }

def SameAdvice (a b : Advice) : Prop := ∃ admin, b = { a with reviewedBy := admin }

def SameNotification (a b : Notification) : Prop := ∃ actor, b = { a with actorUser := actor }

theorem SameConcern.id_eq {c d : Concern} (h : SameConcern c d) : c.id = d.id := by
  obtain ⟨author, rfl⟩ := h
  rfl

theorem SameAdvice.id_eq {a b : Advice} (h : SameAdvice a b) : a.id = b.id := by
  obtain ⟨admin, rfl⟩ := h
  rfl

theorem SameNotification.id_eq {n m : Notification} (h : SameNotification n m) : n.id = m.id := by
  obtain ⟨actor, rfl⟩ := h
  rfl

def Db.myApplications (db : Db) (advisor : Id) : Table AdvisorApplication :=
  db.applications.restrict fun a => decide (a.applicant = advisor)

def Db.myAssignments (db : Db) (advisor : Id) : Table Assignment :=
  db.assignments.restrict fun a => decide (a.advisor = advisor)

def Db.myAdvices (db : Db) (advisor : Id) : Table Advice :=
  db.advices.restrict fun a => decide (a.advisor = advisor)

def Db.myNotifications (db : Db) (advisor : Id) : Table Notification :=
  db.notifications.restrict fun n => decide (n.recipient = advisor)

/-- Two databases with the same concerns, whoever their authors are, and the same account and
rows of the advisor's, whoever else is named in them. The other people's accounts, roles,
applications, assignments, advices and notifications may be any. -/
structure SameBut (advisor : Id) (db db' : Db) : Prop where
  account : db.users.get? advisor = db'.users.get? advisor
  applications : Table.Related SameApplication (db.myApplications advisor) (db'.myApplications advisor)
  concerns : Table.Related SameConcern db.concerns db'.concerns
  assignments : Table.Related SameAssignment (db.myAssignments advisor) (db'.myAssignments advisor)
  advices : Table.Related SameAdvice (db.myAdvices advisor) (db'.myAdvices advisor)
  notifications :
    Table.Related SameNotification (db.myNotifications advisor) (db'.myNotifications advisor)
  /-- The same advices and versions are there, whosever they are. -/
  adviceIds : ∀ i, (db.advices.get? i).isSome = (db'.advices.get? i).isSome
  versions : ∀ k, (db.histories.get? k).isSome = (db'.histories.get? k).isSome

variable {db db' : Db} {advisor : Id}

theorem forall₂_newestFirst {α β : Type} {S : α → β → Prop} {time : α → Time} {time' : β → Time}
    (ht : ∀ a b, S a b → time a = time' b) {xs : List α} {ys : List β} (h : List.Forall₂ S xs ys) :
    List.Forall₂ S (newestFirst time xs) (newestFirst time' ys) :=
  forall₂_insertionSort (fun a a' b b' hab hab' => by rw [ht a b hab, ht a' b' hab']) h

theorem forall₂_distinctOn {α β κ : Type} [DecidableEq κ] {S : α → β → Prop} {key : α → κ}
    {key' : β → κ} (hk : ∀ a b, S a b → key a = key' b) {xs : List α} {ys : List β}
    (h : List.Forall₂ S xs ys) : List.Forall₂ S (distinctOn key xs) (distinctOn key' ys) := by
  induction h with
  | nil => exact .nil
  | @cons a b xs ys hab h ih =>
    refine .cons hab (forall₂_filter (fun x y hxy => ?_) ih)
    rw [hk x y hxy, hk a b hab]

theorem forall₂_getObjectOr404 {α β : Type} {S : α → β → Prop} {xs : List α} {ys : List β}
    (h : List.Forall₂ S xs ys) : Answers S (getObjectOr404 xs) (getObjectOr404 ys) := by
  cases h with
  | nil => exact rfl
  | cons hab h =>
    cases h with
    | nil => exact hab
    | cons _ _ => exact rfl

/-- Rows that are shown alike are paged alike. -/
theorem paginated_map {α β γ : Type} (q : PageQuery) {rows : List α} {rows' : List β} {f : α → γ}
    {g : β → γ} (h : rows.map f = rows'.map g) :
    paginated q rows (List.map f) = paginated q rows' (List.map g) := by
  have hpage : ∀ {δ : Type} (rows : List δ) (f : δ → γ),
      paginated q rows (List.map f) = paginated q (rows.map f) fun rows => rows := by
    intro δ rows f
    simp only [paginated, paginate, List.length_map]
    cases q.pageNumber (numPages rows.length q.pageSize) with
    | none => rfl
    | some n => simp [List.map_take, List.map_drop]
  rw [hpage, hpage, h]

namespace SameBut

variable (h : SameBut advisor db db')
include h

theorem liveConcern? (i : Id) : Option.Rel SameConcern (db.liveConcern? i) (db'.liveConcern? i) := by
  refine rel_filter (S := SameConcern) ?_ (h.concerns.get? (fun _ _ hcd => hcd.id_eq) i)
  rintro c _ ⟨author, rfl⟩
  rfl

/-! The queue and its detail page. -/

theorem ownAdvices (concern : Id) :
    List.Forall₂ SameAdvice (db.ownAdvices concern advisor) (db'.ownAdvices concern advisor) := by
  have hq : ∀ a : Advice, decide (a.concern = concern ∧ a.advisor = advisor ∧ a.status ≠ .deleted) =
      (decide (a.concern = concern ∧ a.status ≠ .deleted) && decide (a.advisor = advisor)) := by
    intro a
    by_cases hm : a.advisor = advisor <;> simp [hm]
  unfold Db.ownAdvices
  rw [Table.filter_rows _ hq, Table.filter_rows _ hq]
  refine forall₂_newestFirst ?_ (forall₂_filter ?_ h.advices)
  · rintro a _ ⟨admin, rfl⟩
    rfl
  · rintro a _ ⟨admin, rfl⟩
    rfl

theorem myAdviceViewData (concern : Id) :
    db.myAdviceViewData concern advisor = db'.myAdviceViewData concern advisor := by
  refine rel_map_eq (S := SameAdvice) ?_ (forall₂_head? (h.ownAdvices concern))
  rintro a _ ⟨admin, rfl⟩
  rfl

/-- The rows of the queue, with what the joined concern and the assignment say. -/
theorem listAssignedConcerns :
    List.Forall₂ (fun x y => assignedConcernItem x = assignedConcernItem y ∧
      x.concern.status = y.concern.status)
      (db.listAssignedConcerns advisor) (db'.listAssignedConcerns advisor) := by
  have hq : ∀ a : Assignment, (decide (a.advisor = advisor) && a.isActive) =
      (a.isActive && decide (a.advisor = advisor)) := fun a => Bool.and_comm _ _
  unfold Db.listAssignedConcerns
  rw [Table.filter_rows _ hq, Table.filter_rows _ hq]
  refine List.rel_filterMap ?_ (forall₂_newestFirst ?_ (forall₂_filter ?_ h.assignments))
  · rintro a _ ⟨admin, rfl⟩
    have hstatus : ((db.ownAdvices a.concern advisor).head?.map (·.status)) =
        (db'.ownAdvices a.concern advisor).head?.map (·.status) := by
      refine rel_map_eq (S := SameAdvice) ?_ (forall₂_head? (h.ownAdvices a.concern))
      rintro b _ ⟨admin, rfl⟩
      rfl
    refine rel_map (S := SameConcern) ?_
      (h.concerns.get? (fun _ _ hcd => hcd.id_eq) a.concern)
    rintro c _ ⟨author, rfl⟩
    exact ⟨by simp only [assignedConcernItem, hstatus], rfl⟩
  · rintro a _ ⟨admin, rfl⟩
    rfl
  · rintro a _ ⟨admin, rfl⟩
    rfl

theorem getAssignedConcern (i : Id) :
    Answers (fun x y => SameConcern x.1 y.1 ∧ SameAssignment x.2 y.2)
      (db.getAssignedConcern advisor i) (db'.getAssignedConcern advisor i) := by
  have hq : ∀ a : Assignment, (decide (a.advisor = advisor ∧ a.concern = i) && a.isActive) =
      ((decide (a.concern = i) && a.isActive) && decide (a.advisor = advisor)) := by
    intro a
    by_cases hm : a.advisor = advisor <;> simp [hm]
  unfold Db.getAssignedConcern
  rw [Table.filter_rows _ hq, Table.filter_rows _ hq]
  refine forall₂_getObjectOr404 (List.rel_filterMap ?_ (forall₂_filter ?_ h.assignments))
  · rintro a _ ⟨admin, rfl⟩
    exact rel_map (fun c d hcd => ⟨hcd, admin, rfl⟩) (h.liveConcern? a.concern)
  · rintro a _ ⟨admin, rfl⟩
    rfl

/-- The detail page of a concern that gives no name. -/
theorem assignedConcernDetailViewData {c d : Concern} {a b : Assignment} (hcd : SameConcern c d)
    (hab : SameAssignment a b) (hc : c.fields.isAnonymous = true ∨ c.fields.displayAlias ≠ "") :
    db.assignedConcernDetailViewData c a advisor = db'.assignedConcernDetailViewData d b advisor := by
  obtain ⟨author, rfl⟩ := hcd
  obtain ⟨admin, rfl⟩ := hab
  have hname : db.requesterDisplayName c = db'.requesterDisplayName { c with author := author } := by
    unfold Db.requesterDisplayName
    by_cases halias : c.fields.displayAlias = ""
    · simp [halias, hc.resolve_right (fun hne => hne halias)]
    · simp [halias]
  simp only [Db.assignedConcernDetailViewData, hname, h.myAdviceViewData]

/-! The advisor's own advices. -/

theorem displayName : db.displayName (db.displayNamesByAdvisor [advisor]) advisor =
    db'.displayName (db'.displayNamesByAdvisor [advisor]) advisor := by
  have hq : ∀ a : AdvisorApplication, decide (a.applicant ∈ [advisor] ∧ a.status = .approved) =
      (decide (a.status = .approved) && decide (a.applicant = advisor)) := by
    intro a
    by_cases hm : a.applicant = advisor <;> simp [hm]
  have hnames : db.displayNamesByAdvisor [advisor] = db'.displayNamesByAdvisor [advisor] := by
    unfold Db.displayNamesByAdvisor
    rw [Table.filter_rows _ hq, Table.filter_rows _ hq]
    refine forall₂_map_eq (S := SameApplication) ?_ (forall₂_distinctOn ?_
      (forall₂_insertionSort ?_ (forall₂_newestFirst ?_ (forall₂_filter ?_ h.applications))))
    · rintro a _ ⟨admin, rfl⟩
      rfl
    · rintro a _ ⟨admin, rfl⟩
      rfl
    · rintro a b _ _ ⟨admin, rfl⟩ ⟨admin', rfl⟩
      rfl
    · rintro a _ ⟨admin, rfl⟩
      rfl
    · rintro a _ ⟨admin, rfl⟩
      rfl
  rw [Db.displayName, Db.displayName, Db.nickname, Db.nickname, hnames, h.account]

/-- An advice in the two databases: missing, someone else's, or the advisor's own. -/
theorem advice (i : Id) :
    (db.advices.get? i = none ∧ db'.advices.get? i = none) ∨
      (∃ a b, db.advices.get? i = some a ∧ db'.advices.get? i = some b ∧ a.advisor ≠ advisor ∧
        b.advisor ≠ advisor) ∨
      ∃ a b, db.advices.get? i = some a ∧ db'.advices.get? i = some b ∧ a.advisor = advisor ∧
        SameAdvice a b := by
  have hmine := h.advices.get? (fun _ _ hab => hab.id_eq) i
  simp only [Db.myAdvices, Table.get?_restrict] at hmine
  have hids := h.adviceIds i
  cases ha : db.advices.get? i with
  | none =>
    rw [ha] at hids
    exact Or.inl ⟨rfl, by simpa using hids.symm⟩
  | some a =>
    rw [ha] at hids hmine
    obtain ⟨b, hb⟩ := Option.isSome_iff_exists.mp hids.symm
    rw [hb] at hmine
    right
    by_cases hown : a.advisor = advisor
    · right
      simp only [Option.filter_some, hown, decide_true, if_true] at hmine
      refine ⟨a, b, rfl, hb, hown, ?_⟩
      split_ifs at hmine
      · cases hmine
        assumption
      · cases hmine
    · left
      simp only [Option.filter_some, hown, decide_false] at hmine
      refine ⟨a, b, rfl, hb, hown, fun hb' => ?_⟩
      simp only [hb', decide_true, if_true] at hmine
      cases hmine

theorem getVisibleAdvice {i : Id} (hown : ∀ a, db.advices.get? i = some a → a.advisor = advisor) :
    Answers (fun x y => SameAdvice x.1 y.1 ∧ x.1.advisor = advisor ∧ x.2 = y.2)
      (db.getVisibleAdvice i advisor) (db'.getVisibleAdvice i advisor) := by
  unfold Db.getVisibleAdvice
  simp only [getObjectOr404_toList, Db.adviceAndConcern?, bind, pure]
  rcases h.advice i with ⟨ha, hb⟩ | ⟨a, b, ha, -, hother, -⟩ | ⟨a, b, ha, hb, hmine, hab⟩
  · rw [ha, hb]
    exact rfl
  · exact absurd (hown a ha) hother
  · obtain ⟨admin, rfl⟩ := hab
    rw [ha, hb, Option.bind_some, Option.bind_some]
    have hconcern := h.concerns.get? (fun _ _ hcd => hcd.id_eq) a.concern
    generalize db.concerns.get? a.concern = x, db'.concerns.get? a.concern = y at hconcern
    cases hconcern with
    | none => exact rfl
    | some hcd =>
      subst hmine
      simp only [Option.bind_some, Option.elim_some, Except.bind, if_true]
      exact ⟨⟨admin, rfl⟩, rfl, rfl⟩

theorem adviceDetail {a b : Advice} (hab : SameAdvice a b) (hmine : a.advisor = advisor)
    (viewer : Viewer) : adviceDetail db a viewer = adviceDetail db' b viewer := by
  obtain ⟨admin, rfl⟩ := hab
  subst hmine
  simp only [Chamneul.adviceDetail, h.displayName]

theorem listAdvicesWrittenBy :
    List.Forall₂ SameAdvice (db.listAdvicesWrittenBy advisor) (db'.listAdvicesWrittenBy advisor) := by
  refine forall₂_newestFirst ?_ h.advices
  rintro a _ ⟨admin, rfl⟩
  rfl

/-! The advisor's notifications. -/

theorem listMyNotifications (isRead : Option Bool) (type : Option NotificationType) :
    List.Forall₂ SameNotification (db.listMyNotifications advisor isRead type)
      (db'.listMyNotifications advisor isRead type) := by
  refine forall₂_filter ?_ (forall₂_insertionSort ?_ h.notifications)
  · rintro n _ ⟨actor, rfl⟩
    rfl
  · rintro n m _ _ ⟨actor, rfl⟩ ⟨actor', rfl⟩
    rfl

theorem unreadCount : db.unreadCount advisor = db'.unreadCount advisor := by
  have hq : ∀ n : Notification, decide (n.recipient = advisor ∧ n.isRead = false) =
      (decide (n.isRead = false) && decide (n.recipient = advisor)) := by
    intro n
    by_cases hm : n.recipient = advisor <;> simp [hm]
  unfold Db.unreadCount
  rw [Table.filter_rows _ hq, Table.filter_rows _ hq]
  refine (forall₂_filter (S := SameNotification) ?_ h.notifications).length_eq
  rintro n _ ⟨actor, rfl⟩
  rfl

theorem ownNotification? (i : Id) :
    Option.Rel SameNotification (db.ownNotification? advisor i) (db'.ownNotification? advisor i) := by
  have hmine := h.notifications.get? (fun _ _ hnm => hnm.id_eq) i
  rwa [Db.myNotifications, Db.myNotifications, Table.get?_restrict, Table.get?_restrict] at hmine

/-! What the advisor's requests write keeps the two the same. -/

theorem isAssigned (concern : Id) :
    db.isAssigned concern advisor = db'.isAssigned concern advisor := by
  have hq : ∀ a : Assignment, (decide (a.concern = concern ∧ a.advisor = advisor) && a.isActive) =
      ((decide (a.concern = concern) && a.isActive) && decide (a.advisor = advisor)) := by
    intro a
    by_cases hm : a.advisor = advisor <;> simp [hm]
  unfold Db.isAssigned
  rw [Table.any_restrict _ hq, Table.any_restrict _ hq]
  refine forall₂_any (S := SameAssignment) ?_ h.assignments
  rintro a _ ⟨admin, rfl⟩
  rfl

theorem violates_insertAdvice (e : Env) {a : Advice} (ha : a.advisor = advisor) :
    violates db e (.insertAdvice a) = violates db' e (.insertAdvice a) := by
  have hq : ∀ b : Advice,
      decide (b.concern = a.concern ∧ b.advisor = a.advisor ∧ b.status ≠ .deleted) =
        (decide (b.concern = a.concern ∧ b.status ≠ .deleted) && decide (b.advisor = advisor)) := by
    intro b
    by_cases hm : b.advisor = advisor <;> simp [ha, hm]
  simp only [violates, h.adviceIds, Table.any_restrict _ hq]
  refine congrArg (_ || _ && ·) (forall₂_any (S := SameAdvice) ?_ h.advices)
  rintro b _ ⟨admin, rfl⟩
  rfl

theorem insertAdvice (e : Env) {a : Advice} (ha : a.advisor = advisor)
    (hfree : db.advices.get? e.uuid = none) :
    SameBut advisor (apply e (.insertAdvice a) db) (apply e (.insertAdvice a) db') := by
  have hfree' : db'.advices.get? e.uuid = none := by
    have hids := h.adviceIds e.uuid
    rw [hfree] at hids
    simpa using hids.symm
  exact { h with
    advices := h.advices.restrict_insert hfree hfree' (decide_eq_true ha) (decide_eq_true ha)
      ⟨a.reviewedBy, rfl⟩
    adviceIds := Table.isSome_insert h.adviceIds hfree }

theorem updateAdvice (e : Env) (i : Id) (set : AdviceSet) :
    SameBut advisor (apply e (.updateAdvice i set) db) (apply e (.updateAdvice i set) db') := by
  refine { h with
    advices := h.advices.restrict_update (set.key_apply e) (set.key_apply e) (fun _ => rfl)
      (fun _ => rfl) ?_
    adviceIds := fun k => by
      simp only [apply, Table.isSome_update]
      exact h.adviceIds k }
  rintro a _ ⟨admin, rfl⟩
  simp only [Advice.key_eq]
  split_ifs
  · exact ⟨admin, rfl⟩
  · exact ⟨admin, rfl⟩

theorem insertHistory (e : Env) {row : AdviceHistory}
    (hfree : violates db e (.insertHistory row) = false) :
    SameBut advisor (apply e (.insertHistory row) db) (apply e (.insertHistory row) db') := by
  have hkey : db.histories.get? (row.advice, row.version) = none := by
    simpa [violates] using hfree
  exact { h with versions := Table.isSome_insert h.versions hkey }

theorem readNotification (e : Env) (i : Id) (t : Time) :
    SameBut advisor (apply e (.readNotification i t) db) (apply e (.readNotification i t) db') := by
  refine { h with
    notifications := h.notifications.restrict_update (key_marked t) (key_marked t) (fun _ => rfl)
      (fun _ => rfl) ?_ }
  rintro n _ ⟨actor, rfl⟩
  simp only [Notification.key_eq]
  split_ifs
  · exact ⟨actor, rfl⟩
  · exact ⟨actor, rfl⟩

end SameBut

variable {d d' : Db}

/-! The advisor's requests. -/

theorem createAdvice_alike (h : SameBut advisor d d') (i : Id) (body : AdviceBody) (submit : Bool) :
    Alike (EndsAlike (SameBut advisor)) (createAdvice i advisor body submit)
      (createAdvice i advisor body submit) (.idle d) (.idle d') := by
  have hraise : ∀ e, EndsAlike (SameBut advisor) (.error e : Except APIException Advice) (.error e)
      (.idle d) (.idle d') := fun _ => ⟨d, d', rfl, rfl, h, rfl⟩
  refine alike_query_bind (alike_getOr_bind (h.liveConcern? i) (hraise _) ?_)
  rintro c _ - ⟨author, rfl⟩
  refine alike_query_bind ?_
  simp only [Stand.idle_view, h.isAssigned]
  refine alike_raiseIf_bind Iff.rfl (hraise _) fun _ => ?_
  refine Alike.handle (Alike.atomic (alike_write (fun e => ?_) ⟨h, rfl⟩ fun e hv => ?_)) ?_
  · exact h.violates_insertAdvice e rfl
  · have hfree : d.advices.get? e.uuid = none := by
      simp only [violates, Bool.or_eq_false_iff, Option.isSome_eq_false_iff,
        Option.isNone_iff_eq_none] at hv
      exact hv.1
    exact ⟨h.insertAdvice e rfl hfree, rfl⟩
  · exact fun _ _ _ h => alike_ret h rfl

theorem lockOwnAdvice_alike (h : SameBut advisor d d') (i : Id) (allowed : List AdviceStatus) :
    Alike (Ends (fun v v' => v = d ∧ v' = d') fun a b _ _ => SameAdvice a b)
      (lockOwnAdvice i advisor allowed) (lockOwnAdvice i advisor allowed) (.idle d) (.idle d') := by
  have hraise : ∀ e, Ends (fun v v' => v = d ∧ v' = d') (fun a b _ _ => SameAdvice a b)
      (.error e : Except APIException Advice) (.error e) (.idle d) (.idle d') :=
    fun _ => ⟨d, d', rfl, rfl, ⟨rfl, rfl⟩, rfl⟩
  rcases h.advice i with ⟨ha, hb⟩ | ⟨a, b, ha, hb, hna, hnb⟩ | ⟨a, b, ha, hb, hmine, hab⟩
  · refine alike_getForUpdate_bind (S := SameAdvice) ?_ (hraise _) fun a b hfound => ?_
    · simp only [Stand.idle_view, ha, hb]
      exact .none
    · simp only [Stand.idle_view, ha] at hfound
      cases hfound
  · refine alike_getForUpdate_bind (S := fun x y => x.advisor ≠ advisor ∧ y.advisor ≠ advisor) ?_
      (hraise _) fun x y _ hxy => ?_
    · simp only [Stand.idle_view, ha, hb]
      exact .some ⟨hna, hnb⟩
    · exact alike_raiseIf_bind (iff_of_true hxy.1 hxy.2) (hraise _) fun hn => absurd hxy.1 hn
  · refine alike_getForUpdate_bind (S := SameAdvice) ?_ (hraise _) ?_
    · simp only [Stand.idle_view, ha, hb]
      exact .some hab
    · rintro x _ - ⟨admin, rfl⟩
      refine alike_raiseIf_bind Iff.rfl (hraise _) fun _ => ?_
      refine alike_raiseIf_bind Iff.rfl (hraise _) fun _ => ?_
      exact ⟨d, d', rfl, rfl, ⟨rfl, rfl⟩, admin, rfl⟩

theorem violates_updateAdvice (v v' : Db) (e : Env) (i : Id) {set : AdviceSet}
    (hset : set.status = none ∨ set.status = some .deleted) :
    violates v e (.updateAdvice i set) = violates v' e (.updateAdvice i set) := by
  have hfalse : ∀ v : Db, violates v e (.updateAdvice i set) = false := by
    intro v
    simp only [violates]
    rcases hset with hset | hset
    · rw [hset]
      cases v.advices.get? i <;> rfl
    · rw [hset]
      cases v.advices.get? i <;> rfl
  rw [hfalse, hfalse]

theorem updateAdvice_alike (h : SameBut advisor d d') (i : Id) (data : AdviceEdit) :
    Alike (Ends (SameBut advisor) fun a b _ _ => SameAdvice a b) (updateAdvice i advisor data)
      (updateAdvice i advisor data) (.idle d) (.idle d') := by
  refine Alike.atomic ((lockOwnAdvice_alike h i editableStatuses).bind_ends ?_ ?_)
  · rintro e _ _ ⟨rfl, rfl⟩
    exact ⟨h, rfl⟩
  · rintro a _ _ _ ⟨rfl, rfl⟩ ⟨admin, rfl⟩
    refine alike_runIf_bind Iff.rfl (fun _ => ?_) fun _ => ?_
    · refine alike_write_bind (fun e => ?_) ⟨h, rfl⟩ fun e hv => ?_
      · simp only [violates, Stand.idle_view, h.versions]
      · refine alike_write (fun e => violates_updateAdvice _ _ e _ (.inl rfl)) ⟨h, rfl⟩ fun e' _ => ?_
        exact ⟨(h.insertHistory e hv).updateAdvice e' _ _, admin, rfl⟩
    · refine alike_write (fun e => violates_updateAdvice _ _ e _ (.inl rfl)) ⟨h, rfl⟩ fun e _ => ?_
      exact ⟨h.updateAdvice e _ _, admin, rfl⟩

theorem deleteAdvice_alike (h : SameBut advisor d d') (i : Id) :
    Alike (EndsAlike (SameBut advisor)) (deleteAdvice i advisor) (deleteAdvice i advisor) (.idle d)
      (.idle d') := by
  refine Alike.atomic ((lockOwnAdvice_alike h i deletableStatuses).bind_ends ?_ ?_)
  · rintro e _ _ ⟨rfl, rfl⟩
    exact ⟨h, rfl⟩
  · rintro a _ _ _ ⟨rfl, rfl⟩ ⟨admin, rfl⟩
    refine alike_write (fun e => violates_updateAdvice _ _ e _ (.inr rfl)) ⟨h, rfl⟩ fun e _ => ?_
    exact ⟨h.updateAdvice e _ _, rfl⟩

theorem markRead_alike (h : SameBut advisor d d') (i : Id) :
    Alike (Ends (SameBut advisor) fun n m _ _ => SameNotification n m) (markRead advisor i)
      (markRead advisor i) (.idle d) (.idle d') := by
  refine Alike.atomic (alike_getForUpdate_bind (h.ownNotification? i) ⟨h, rfl⟩ ?_)
  rintro n _ - ⟨actor, rfl⟩
  by_cases hread : n.isRead = true
  · rw [if_pos hread, if_pos hread]
    exact ⟨h, actor, rfl⟩
  · rw [if_neg hread, if_neg hread]
    refine alike_time_bind fun t => ?_
    refine alike_write_bind (fun _ => rfl) ⟨h, rfl⟩ fun e _ => ?_
    exact ⟨h.readNotification e _ t, actor, rfl⟩

/-- What a request must be about for its answer to give no name away: #21 a concern that is
anonymous or has an alias, #27 an advice of the advisor's own. -/
def NamesNobody (advisor : Id) (db : Db) : AdvisorRequest → Prop
  | .assignedConcern i => ∀ c, db.concerns.get? i = some c →
      c.fields.isAnonymous = true ∨ c.fields.displayAlias ≠ ""
  | .advice i => ∀ a, db.advices.get? i = some a → a.advisor = advisor
  | _ => True

/-- What each request of the advisor's is answered does not tell the two databases apart. -/
theorem advisorView_alike (h : SameBut advisor d d') :
    (r : AdvisorRequest) → NamesNobody advisor d r → Alike (EndsAlike (SameBut advisor))
      (advisorView advisor r) (advisorView advisor r) (.idle d) (.idle d')
  | .assignedConcerns status page, _ => by
    refine alike_isAuthenticated h h.account fun _ => alike_isActiveAdvisor h (alike_query h ?_)
    refine paginated_map page (forall₂_map_eq (fun _ _ hxy => hxy.1) (forall₂_filter ?_
      h.listAssignedConcerns))
    rintro x y ⟨-, hstatus⟩
    rw [hstatus]
  | .assignedConcern i, hi => by
    refine alike_isAuthenticated h h.account fun _ => alike_isActiveAdvisor h (alike_respond
      (Alike.bind (E := fun x y _ _ => (SameConcern x.1 y.1 ∧ SameAssignment x.2 y.2) ∧
        (x.1.fields.isAnonymous = true ∨ x.1.fields.displayAlias ≠ "")) (alike_read h ?_) ?_))
    · refine (h.getAssignedConcern i).and_left fun x hx => ?_
      obtain ⟨hactive, hid, -⟩ := getAssignedConcern_eq_ok.mp hx
      exact hi x.1 (hid ▸ hactive.concern_id ▸ hactive.concern)
    · rintro ⟨c, a⟩ ⟨c', b⟩ v v' hv ⟨⟨hc, ha⟩, hanonymous⟩
      exact alike_query hv (hv.assignedConcernDetailViewData hc ha hanonymous)
  | .advice i, hi => by
    refine alike_isAuthenticated h h.account fun _ => alike_respond (Alike.bind
      (E := fun x y _ _ => SameAdvice x.1 y.1 ∧ x.1.advisor = advisor ∧ x.2 = y.2)
      (alike_read h (h.getVisibleAdvice hi)) ?_)
    rintro ⟨a, viewer⟩ ⟨b, _⟩ v v' hv ⟨hab, hmine, rfl⟩
    exact alike_query hv (hv.adviceDetail hab hmine viewer)
  | .createAdvice i request, _ => by
    refine alike_isAuthenticated h h.account fun _ => alike_isActiveAdvisor h (alike_isValid h
      fun data => alike_respond (Alike.bind (createAdvice_alike h i _ _) ?_))
    rintro a _ v v' hv rfl
    exact alike_ret hv rfl
  | .updateAdvice i request, _ => by
    refine alike_isAuthenticated h h.account fun _ => alike_isActiveAdvisor h (alike_isValid h
      fun data => alike_respond (Alike.bind (updateAdvice_alike h i data) ?_))
    rintro a _ v v' hv ⟨admin, rfl⟩
    exact alike_ret hv rfl
  | .deleteAdvice i, _ =>
    alike_isAuthenticated h h.account fun _ => alike_isActiveAdvisor h
      (alike_respond (deleteAdvice_alike h i))
  | .advicesWritten request page, _ => by
    refine alike_isAuthenticated h h.account fun _ => alike_isActiveAdvisor h (alike_isValid h
      fun filters => alike_query h (paginated_map page (forall₂_map_eq (S := SameAdvice) ?_
        (forall₂_filter ?_ h.listAdvicesWrittenBy))))
    · rintro a _ ⟨admin, rfl⟩
      rfl
    · rintro a _ ⟨admin, rfl⟩
      rfl
  | .notifications request page, _ => by
    refine alike_isAuthenticated h h.account fun _ => alike_isValid h fun filters => alike_query h ?_
    have hpage : paginated page (d.listMyNotifications advisor filters.isRead filters.type)
        (List.map notificationListItem) =
        paginated page (d'.listMyNotifications advisor filters.isRead filters.type)
          (List.map notificationListItem) := by
      refine paginated_map page (forall₂_map_eq (S := SameNotification) ?_ (h.listMyNotifications _ _))
      rintro n _ ⟨actor, rfl⟩
      rfl
    rw [hpage, h.unreadCount]
  | .notification i, _ => by
    refine alike_isAuthenticated h h.account fun _ => alike_respond (alike_query_bind
      (alike_getOr_bind (h.ownNotification? i) ⟨d, d', rfl, rfl, h, rfl⟩ ?_))
    rintro n _ - ⟨actor, rfl⟩
    exact alike_ret h rfl
  | .readNotification i, _ => by
    refine alike_isAuthenticated h h.account fun _ => alike_respond (Alike.bind
      (markRead_alike h i) ?_)
    rintro n _ v v' hv ⟨actor, rfl⟩
    exact alike_ret hv rfl

/-- An anonymous requester stays anonymous to the advisor. -/
theorem requester_hidden (draw : ℕ → ℕ) {advisor : Id} {σ σ' : World Db}
    (h : SameBut advisor σ.db σ'.db) (hnow : σ.now = σ'.now) {requests : List AdvisorRequest}
    (hrequests : ServedWhile (advisorView advisor) draw (NamesNobody advisor) requests σ) :
    serveAll (advisorView advisor) draw requests σ =
      serveAll (advisorView advisor) draw requests σ' :=
  serveAll_eq _ draw (fun r _ _ hd hr => advisorView_alike hd r hr) hrequests h hnow

/-- An anonymous concern, assigned to advisor 2. -/
def askedBy (author : Id) (nickname : String) : World Db :=
  ⟨{ users := (Table.empty.insert { id := 2, nickname := "조언가", activeRole := .advisor }).insert
       { id := author, nickname := nickname }
     concerns := Table.empty.insert
       { author := author, fields := { concernSummary := "", concernType := .burnout }, status := .assigned }
     assignments := Table.empty.insert
       { concern := 0, advisor := 2, assignedBy := 9, triageDecision := .suitable } }, 0⟩

theorem sameBut_askedBy : SameBut 2 (askedBy 1 "가람").db (askedBy 5 "나래").db where
  account := rfl
  applications := .nil
  concerns := List.Forall₂.cons ⟨5, rfl⟩ .nil
  assignments := List.Forall₂.cons ⟨9, rfl⟩ .nil
  advices := .nil
  notifications := .nil
  adviceIds _ := rfl
  versions _ := rfl

theorem requester_hidden_asked :
    serveAll (advisorView 2) id
        [.assignedConcern 0, .assignedConcerns none {}, .createAdvice 0 (.ok ⟨⟨"", "", "", false⟩, true⟩),
          .advicesWritten (.ok {}) {}, .notifications (.ok {}) {}] (askedBy 1 "가람") =
      serveAll (advisorView 2) id
        [.assignedConcern 0, .assignedConcerns none {}, .createAdvice 0 (.ok ⟨⟨"", "", "", false⟩, true⟩),
          .advicesWritten (.ok {}) {}, .notifications (.ok {}) {}] (askedBy 5 "나래") := by
  refine requester_hidden id sameBut_askedBy rfl
    ⟨fun c hc => Or.inl ?_, trivial, trivial, trivial, trivial, trivial⟩
  cases Option.some.inj hc
  rfl

end Chamneul
