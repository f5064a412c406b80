import Chamneul.Proofs.Queries

/-! What a concern's owner gets to see of its advices. Five services filter for it, each
in its own way; they agree on the approved advices of the owner's live concerns. -/

namespace Chamneul

open ReadCommitted ReadCommitted.Prog Service

/-- A concern of the user's that is not soft-deleted. -/
structure Owns (db : Db) (user : Id) (c : Concern) : Prop where
  concern : c ∈ db.concerns
  author : c.author = user
  live : c.deletedAt = none

def Db.exposed (db : Db) (user : Id) : Set Advice :=
  {a | a ∈ db.advices ∧ a.status = .approved ∧ ∃ c, Owns db user c ∧ c.id = a.concern}

variable {db : Db} {user : Id}

theorem Owns.get? {c : Concern} (h : Owns db user c) : db.concerns.get? c.id = some c :=
  Table.mem_iff_get?.mp h.concern

theorem owns_iff_get? {c : Concern} {i : Id} :
    Owns db user c ∧ c.id = i ↔
      db.concerns.get? i = some c ∧ c.author = user ∧ c.deletedAt = none := by
  rw [Table.get?_eq_some]
  constructor
  · rintro ⟨⟨hc, hauthor, hlive⟩, hid⟩
    exact ⟨⟨hc, hid⟩, hauthor, hlive⟩
  · rintro ⟨⟨hc, hid⟩, hauthor, hlive⟩
    exact ⟨⟨hc, hauthor, hlive⟩, hid⟩

/-- An exposed advice, by the joined row the queries read. -/
theorem mem_exposed {a : Advice} : a ∈ db.exposed user ↔
    a ∈ db.advices ∧ a.status = .approved ∧
      ∃ c, db.concerns.get? a.concern = some c ∧ c.author = user ∧ c.deletedAt = none := by
  simp only [Db.exposed, Set.mem_ofPred_eq, owns_iff_get?]

theorem mem_exposed_on {c : Concern} (h : Owns db user c) {a : Advice} :
    a ∈ db.exposed user ∧ a.concern = c.id ↔
      a ∈ db.advices ∧ a.concern = c.id ∧ a.status = .approved := by
  constructor
  · rintro ⟨⟨ha, happroved, -⟩, hon⟩
    exact ⟨ha, hon, happroved⟩
  · rintro ⟨ha, hon, happroved⟩
    exact ⟨⟨ha, happroved, c, h, hon.symm⟩, hon⟩

/-! The owner's concerns. -/

theorem getOwnConcern_eq_ok {i : Id} {c : Concern} :
    db.getOwnConcern user i = .ok c ↔ Owns db user c ∧ c.id = i := by
  rw [Db.getOwnConcern, getObjectOr404_eq_ok, owns_iff_get?]
  simp [Option.toList_eq_singleton_iff, Db.liveConcern?, Option.filter_eq_some_iff, and_comm, and_assoc]

theorem getOwnConcern_notFound {i : Id} (h : ∀ c, Owns db user c → c.id ≠ i) :
    db.getOwnConcern user i = .error .notFound := by
  cases hfound : (db.liveConcern? i).filter fun c => decide (c.author = user) with
  | none => simp [Db.getOwnConcern, hfound, getObjectOr404]
  | some c =>
    have hown : db.getOwnConcern user i = .ok c := by simp [Db.getOwnConcern, hfound, getObjectOr404]
    obtain ⟨hc, hid⟩ := getOwnConcern_eq_ok.mp hown
    exact absurd hid (h c hc)

theorem hasApprovedAdvice_iff {c : Concern} (h : Owns db user c) :
    db.hasApprovedAdvice c.id = true ↔ ∃ a ∈ db.exposed user, a.concern = c.id := by
  simp only [Db.hasApprovedAdvice, Table.any_iff, decide_eq_true_eq, mem_exposed_on h]

theorem mem_listMyConcerns {c : Concern} {flag : Bool} :
    (c, flag) ∈ db.listMyConcerns user ↔ Owns db user c ∧ flag = db.hasApprovedAdvice c.id := by
  simp only [Db.listMyConcerns, List.mem_map, mem_newestFirst, List.mem_filter, Bool.and_eq_true,
    decide_eq_true_eq, Option.isNone_iff_eq_none, Prod.mk.injEq]
  constructor
  · rintro ⟨c, ⟨hc, hauthor, hlive⟩, rfl, rfl⟩
    exact ⟨⟨hc, hauthor, hlive⟩, rfl⟩
  · rintro ⟨h, rfl⟩
    exact ⟨c, ⟨h.concern, h.author, h.live⟩, rfl, rfl⟩

theorem approvedAdvicesViewData_ids (c : Id) :
    (db.approvedAdvicesViewData c).map (·.adviceId) = (db.approvedAdvices c).map Advice.id := by
  simp [Db.approvedAdvicesViewData, Function.comp_def]

theorem mem_approvedAdvices {c : Id} {a : Advice} :
    a ∈ db.approvedAdvices c ↔ a ∈ db.advices ∧ a.concern = c ∧ a.status = .approved := by
  simp [Db.approvedAdvices, mem_oldestFirst, Table.mem_def]

theorem nodup_approvedAdvices (c : Id) : ((db.approvedAdvices c).map Advice.id).Nodup := by
  refine ((List.perm_insertionSort _ _).map _).nodup_iff.mpr ?_
  exact db.advices.nodup.sublist (List.filter_sublist.map _)

/-! The owner's inbox. -/

theorem mem_listReceivedAdvices {row : Db.ReceivedAdvice} :
    row ∈ db.listReceivedAdvices user ↔
      row.advice ∈ db.exposed user ∧ db.concerns.get? row.advice.concern = some row.concern ∧
        row.isFeedbackSubmitted = db.feedbacks.any fun f => decide (f.advice = row.advice.id) := by
  simp only [Db.listReceivedAdvices, List.mem_filterMap, mem_newestFirst, List.mem_filter,
    Option.map_eq_some_iff, Option.filter_eq_some_iff, Bool.and_eq_true, decide_eq_true_eq,
    Option.isNone_iff_eq_none, mem_exposed]
  constructor
  · rintro ⟨a, ⟨ha, happroved⟩, c, ⟨hc, hauthor, hlive⟩, rfl⟩
    exact ⟨⟨ha, happroved, c, hc, hauthor, hlive⟩, hc, rfl⟩
  · rintro ⟨⟨ha, happroved, c, hc, hauthor, hlive⟩, hrow, hflag⟩
    obtain rfl : c = row.concern := Option.some.inj (hc.symm.trans hrow)
    exact ⟨row.advice, ⟨ha, happroved⟩, row.concern, ⟨hrow, hauthor, hlive⟩, by rw [← hflag]⟩

theorem nodup_listReceivedAdvices : ((db.listReceivedAdvices user).map (·.advice)).Nodup := by
  rw [Db.listReceivedAdvices, List.map_filterMap]
  refine (nodup_newestFirst.mpr ((rows_nodup db.advices).filter _)).filterMap ?_
  intro a b x hx hy
  simp only [Option.mem_def, Option.map_map, Option.map_eq_some_iff, Function.comp] at hx hy
  obtain ⟨c, -, rfl⟩ := hx
  obtain ⟨d, -, hd⟩ := hy
  exact hd.symm

/-! One advice, with the concern it joins. -/

theorem exposed_of_missing {i : Id} (h : db.adviceAndConcern? i = none) {a : Advice}
    (ha : a ∈ db.exposed user) : a.id ≠ i := by
  rintro rfl
  obtain ⟨ha, -, c, hc, -⟩ := mem_exposed.mp ha
  have hfound := adviceAndConcern?_eq_some.mpr ⟨Table.mem_iff_get?.mp ha, hc⟩
  rw [Advice.key_eq, h] at hfound
  cases hfound

theorem exposed_of_found {i : Id} {b : Advice} {c : Concern}
    (h : db.adviceAndConcern? i = some (b, c)) {a : Advice} :
    a ∈ db.exposed user ∧ a.id = i ↔
      a = b ∧ c.author = user ∧ b.status = .approved ∧ c.deletedAt = none := by
  obtain ⟨hb, hc⟩ := adviceAndConcern?_eq_some.mp h
  rw [mem_exposed]
  constructor
  · rintro ⟨⟨ha, happroved, d, hd, hauthor, hlive⟩, hid⟩
    obtain rfl : a = b := Option.some.inj ((Table.get?_eq_some.mpr ⟨ha, hid⟩).symm.trans hb)
    obtain rfl : d = c := Option.some.inj (hd.symm.trans hc)
    exact ⟨rfl, hauthor, happroved, hlive⟩
  · rintro ⟨rfl, hauthor, happroved, hlive⟩
    obtain ⟨ha, hid⟩ := Table.get?_eq_some.mp hb
    exact ⟨⟨ha, happroved, c, hc, hauthor, hlive⟩, hid⟩

theorem getVisibleAdvice_owner {i : Id} {a : Advice} :
    db.getVisibleAdvice i user = .ok (a, .owner) ↔
      (a ∈ db.exposed user ∧ a.id = i) ∧ a.advisor ≠ user ∧ db.isAdmin user = false := by
  rw [Db.getVisibleAdvice, getObjectOr404_toList]
  cases hfound : db.adviceAndConcern? i with
  | none =>
    simp only [Option.elim_none, bind, Except.bind, reduceCtorEq, false_iff]
    rintro ⟨⟨ha, hid⟩, -⟩
    exact exposed_of_missing hfound ha hid
  | some found =>
    obtain ⟨b, c⟩ := found
    simp only [Option.elim_some, bind, Except.bind, pure, Except.pure, throw, throwThe,
      MonadExceptOf.throw, exposed_of_found hfound]
    split_ifs with hmine hadmin hshown
    · simp only [Except.ok.injEq, Prod.mk.injEq, reduceCtorEq, and_false, false_iff]
      rintro ⟨⟨rfl, -⟩, hadvisor, -⟩
      exact hadvisor hmine
    · simp [hadmin]
    · simp only [Except.ok.injEq, Prod.mk.injEq, and_true]
      constructor
      · rintro rfl
        exact ⟨⟨rfl, hshown⟩, hmine, by simpa using hadmin⟩
      · rintro ⟨⟨rfl, -⟩, -⟩
        rfl
    · simp only [false_iff]
      rintro ⟨⟨-, hexposed⟩, -⟩
      exact hshown hexposed

/-! Feedback. -/

/-- What is left of `create_feedback` once its checks are passed. -/
def feedbackInsert (adviceId author : Id) (data : FeedbackData) : Service Feedback :=
  let feedback : Feedback :=
    { advice := adviceId, author := author, score := data.score, content := data.content }
  handle (atomic (write (.insertFeedback feedback) fun e _ => feedback.saved e)) fun _ =>
    raise (.conflict "이미 이 조언에 피드백을 작성했습니다." none)

/-- The call came past its permission checks: neither 404 nor 403 is the answer. -/
def Permitted {α : Type} : Except APIException α → Prop
  | .error .notFound => False
  | .error (.permissionDenied _) => False
  | _ => True

theorem createFeedback_reads (i author : Id) (data : FeedbackData) :
    ∃ n, createFeedback i author data = .select n ∧ ∀ db : Db,
      ((∃ a ∈ db.exposed author, a.id = i) ∧ n db = feedbackInsert i author data) ∨
        ((∀ a ∈ db.exposed author, a.id ≠ i) ∧
          ∃ e, ¬ Permitted (.error e : Except APIException Feedback) ∧ n db = .ret (.error e)) := by
  refine ⟨_, rfl, fun db => ?_⟩
  cases hfound : db.adviceAndConcern? i with
  | none =>
    right
    refine ⟨fun a => exposed_of_missing hfound, .notFound, fun h => h, ?_⟩
    simp [hfound, getOr, raise, Prog.andThen, bind]
  | some found =>
    obtain ⟨b, c⟩ := found
    obtain rfl : b.id = i := (Table.get?_eq_some.mp (adviceAndConcern?_eq_some.mp hfound).1).2
    by_cases hauthor : c.author = author
    · by_cases hlive : c.deletedAt = none
      · by_cases happroved : b.status = .approved
        · left
          refine ⟨⟨b, (exposed_of_found hfound).mpr ⟨rfl, hauthor, happroved, hlive⟩⟩, ?_⟩
          simp [hfound, getOr, hauthor, hlive, happroved, raiseIf, pure, Prog.andThen, bind,
            feedbackInsert]
        · right
          refine ⟨fun a ha hid => happroved ((exposed_of_found hfound).mp ⟨ha, hid⟩).2.2.1,
            .permissionDenied "승인된 조언에만 피드백할 수 있습니다.", fun h => h, ?_⟩
          simp [hfound, getOr, hauthor, hlive, happroved, raiseIf, raise, pure, Prog.andThen, bind]
      · right
        refine ⟨fun a ha hid => hlive ((exposed_of_found hfound).mp ⟨ha, hid⟩).2.2.2,
          .permissionDenied "삭제된 고민의 조언에는 피드백할 수 없습니다.", fun h => h, ?_⟩
        simp [hfound, getOr, hauthor, hlive, raiseIf, raise, pure, Prog.andThen, bind]
    · right
      refine ⟨fun a ha hid => hauthor ((exposed_of_found hfound).mp ⟨ha, hid⟩).2.1,
        .permissionDenied "본인 고민에 달린 조언에만 피드백할 수 있습니다.", fun h => h, ?_⟩
      simp [hfound, getOr, hauthor, raiseIf, raise, pure, Prog.andThen, bind]

theorem permitted_feedbackInsert (draw : ℕ → ℕ) (i author : Id) (data : FeedbackData) (σ : World Db) :
    Permitted ((feedbackInsert i author data).exec draw [] σ).1 := by
  simp only [feedbackInsert, handle, atomic, Service.write, execute, Prog.andThen, exec]
  split_ifs <;> simp [exec, Prog.andThen, raise, pure, Permitted]

/-- Run alone, the call comes past its checks when the advice is exposed to the author. -/
theorem permitted_createFeedback (draw : ℕ → ℕ) (i author : Id) (data : FeedbackData)
    (σ : World Db) : Permitted ((createFeedback i author data).exec draw [] σ).1 ↔
      ∃ a ∈ σ.db.exposed author, a.id = i := by
  obtain ⟨n, hn, hreads⟩ := createFeedback_reads i author data
  rw [hn, exec, World.view_nil]
  rcases hreads σ.db with ⟨hexposed, hrest⟩ | ⟨hnone, e, he, hrest⟩
  · rw [hrest]
    exact iff_of_true (permitted_feedbackInsert draw i author data _) hexposed
  · rw [hrest, exec]
    refine iff_of_false he ?_
    rintro ⟨a, ha, hid⟩
    exact hnone a ha hid

/-! All of them. -/

/-- Every way the services have of showing advices to a concern's owner shows the same. -/
structure ExposesAlike (db : Db) (user : Id) : Prop where
  /-- `list_received_advices`, with no advice twice. -/
  received : ∀ a, a ∈ (db.listReceivedAdvices user).map (·.advice) ↔ a ∈ db.exposed user
  receivedOnce : ((db.listReceivedAdvices user).map (·.advice)).Nodup
  /-- `approved_advices_view_data`, behind `get_own_concern`. -/
  found : ∀ c, Owns db user c → db.getOwnConcern user c.id = .ok c
  shown : ∀ c, Owns db user c → ∀ i, i ∈ (db.approvedAdvicesViewData c.id).map (·.adviceId) ↔
    ∃ a ∈ db.exposed user, a.concern = c.id ∧ a.id = i
  shownOnce : ∀ c, ((db.approvedAdvicesViewData c).map (·.adviceId)).Nodup
  /-- The flag of `list_my_concerns`. -/
  flagged : ∀ c flag, (c, flag) ∈ db.listMyConcerns user ↔
    Owns db user c ∧ (flag = true ↔ ∃ a ∈ db.exposed user, a.concern = c.id)
  /-- A concern that is soft-deleted or someone else's. -/
  notFound : ∀ c ∈ db.concerns, ¬ Owns db user c → db.getOwnConcern user c.id = .error .notFound
  /-- `get_visible_advice`. -/
  visible : ∀ i a, db.getVisibleAdvice i user = .ok (a, .owner) ↔
    (a ∈ db.exposed user ∧ a.id = i) ∧ a.advisor ≠ user ∧ db.isAdmin user = false
  /-- `create_feedback`, whatever the score, the time and the identifier drawn. -/
  rated : ∀ i data draw now,
    Permitted ((createFeedback i user data).exec draw [] ⟨db, now⟩).1 ↔ ∃ a ∈ db.exposed user, a.id = i

theorem exposes_alike (db : Db) (user : Id) : ExposesAlike db user where
  received a := by
    simp only [List.mem_map, mem_listReceivedAdvices]
    constructor
    · rintro ⟨row, ⟨ha, -⟩, rfl⟩
      exact ha
    · intro ha
      obtain ⟨-, -, c, hc, -⟩ := mem_exposed.mp ha
      exact ⟨⟨a, c, db.feedbacks.any fun f => decide (f.advice = a.id)⟩, ⟨ha, hc, rfl⟩, rfl⟩
  receivedOnce := nodup_listReceivedAdvices
  found c h := getOwnConcern_eq_ok.mpr ⟨h, rfl⟩
  shown c h i := by
    rw [approvedAdvicesViewData_ids]
    simp only [List.mem_map, mem_approvedAdvices, ← mem_exposed_on h, and_assoc]
  shownOnce c := by
    rw [approvedAdvicesViewData_ids]
    exact nodup_approvedAdvices c
  flagged c flag := by
    rw [mem_listMyConcerns]
    refine and_congr_right fun h => ?_
    rw [← hasApprovedAdvice_iff h]
    cases flag <;> cases db.hasApprovedAdvice c.id <;> simp
  notFound c hc h := by
    refine getOwnConcern_notFound fun d hd hid => h ?_
    rwa [← db.concerns.eq_of_key hd.concern hc hid]
  visible i a := getVisibleAdvice_owner
  rated i data draw now := permitted_createFeedback draw i user data ⟨db, now⟩

end Chamneul
