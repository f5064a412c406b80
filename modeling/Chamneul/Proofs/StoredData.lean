import Chamneul.Proofs.Origins
import Chamneul.Proofs.Transactions
import Chamneul.Spec.Serializers

/-! The values in the columns that ask something of them, and where they come from: a commit brings
the values its call was given, and blank texts. -/

namespace Chamneul

open ReadCommitted Rest Rest.Form Python

inductive Datum
  | text (o : CharOptions) (s : String)
  | profileImageUrl (url : String)
  | concernTypeSecondary (types : List ConcernType)
  | score (n : ℕ)

namespace Datum

def Fits : Datum → Prop
  | .text o s => o.Fits s
  | .profileImageUrl url => Column.profileImageUrl.Fits url
  | .concernTypeSecondary types => types.length ≤ 2
  | .score n => 1 ≤ n ∧ n ≤ 5

/-- A text and a URL moreover pass their fields as they are. -/
def Passes (F : Fields) : Datum → Prop
  | .text o s => F.Passes o s
  | .profileImageUrl url => F.url Column.profileImageUrl (Rest.text url) = .ok url
  | d => d.Fits

theorem Passes.fits {F : Fields} {d : Datum} (h : d.Passes F) : d.Fits := by
  cases d with
  | text o s => exact Fields.Passes.fits h
  | profileImageUrl url => exact F.url_fits h
  | concernTypeSecondary types | score n => exact h

end Datum

/-! Where they are stored. -/

def User.data (u : User) : List Datum :=
  [.text Column.nickname u.nickname, .text Column.job u.job, .text Column.interest u.interest,
    .profileImageUrl u.profileImageUrl]

def AdvisorApplication.data (a : AdvisorApplication) : List Datum :=
  [.text Column.displayName a.displayName, .text Column.rejectReason a.rejectReason]

def ConcernFields.data (f : ConcernFields) : List Datum :=
  [.text Column.concernSummary f.concernSummary, .concernTypeSecondary f.concernTypeSecondary,
    .text Column.decisionContext f.decisionContext, .text Column.displayAlias f.displayAlias]

def AdviceBody.data (b : AdviceBody) : List Datum :=
  [.text Column.directionalGuidance b.directionalGuidance,
    .text Column.reflectiveQuestions b.reflectiveQuestions,
    .text Column.considerations b.considerations]

def Advice.data (a : Advice) : List Datum := .text Column.rejectReason a.rejectReason :: a.body.data

def Feedback.data (f : Feedback) : List Datum :=
  [.score f.score, .text Column.content f.content, .text Column.memo f.memo]

inductive Db.Stores (db : Db) (d : Datum) : Prop
  | user (u : User) (h : u ∈ db.users) (hd : d ∈ u.data) : Db.Stores db d
  | application (a : AdvisorApplication) (h : a ∈ db.applications) (hd : d ∈ a.data) : Db.Stores db d
  | concern (c : Concern) (h : c ∈ db.concerns) (hd : d ∈ c.fields.data) : Db.Stores db d
  | advice (a : Advice) (h : a ∈ db.advices) (hd : d ∈ a.data) : Db.Stores db d
  | history (y : AdviceHistory) (h : y ∈ db.histories) (hd : d ∈ y.body.data) : Db.Stores db d
  | feedback (f : Feedback) (h : f ∈ db.feedbacks) (hd : d ∈ f.data) : Db.Stores db d

/-! What the changes bring. -/

def UserSet.data (s : UserSet) : List Datum :=
  s.nickname.toList.map (.text Column.nickname) ++ s.job.toList.map (.text Column.job) ++
    s.interest.toList.map (.text Column.interest) ++ s.profileImageUrl.toList.map .profileImageUrl

def Write.data : Write → List Datum
  | .updateUser _ s => s.data
  | .insertApplication a => a.data
  | .updateApplication _ s => [.text Column.rejectReason s.rejectReason]
  | .insertConcern c => c.fields.data
  | .updateConcern _ s => s.fields.toList.flatMap ConcernFields.data
  | .insertAdvice a | .saveAdvice a => a.data
  | .updateAdvice _ s => s.body.toList.flatMap AdviceBody.data
  | .insertHistory h => h.body.data
  | .insertFeedback f => f.data
  | .updateFeedback _ s => s.memo.toList.map (.text Column.memo)
  | _ => []

/-- A value that is set, or the one there was. -/
theorem set_or_kept {α : Type} (value : α → Datum) (set : Option α) (old : α) :
    value (set.getD old) ∈ set.toList.map value ∨ value (set.getD old) = value old := by
  cases set <;> simp

/-- The values of a part that is set whole, or of the one there was. -/
theorem part_set_or_kept {α : Type} {data : α → List Datum} {set : Option α} {old : α} {d : Datum}
    (h : d ∈ data (set.getD old)) : d ∈ data old ∨ d ∈ set.toList.flatMap data := by
  cases set with
  | none => exact .inl h
  | some new => exact .inr (by simpa using h)

theorem user_data_apply {e : Env} {s : UserSet} {u : User} {d : Datum}
    (h : d ∈ (s.apply e u).data) : d ∈ u.data ∨ d ∈ s.data := by
  simp only [User.data, UserSet.apply, UserSet.data, List.mem_cons, List.not_mem_nil, or_false,
    List.mem_append] at h ⊢
  obtain rfl | rfl | rfl | rfl := h
  · rcases set_or_kept (.text Column.nickname) s.nickname u.nickname with h | h <;> simp [h]
  · rcases set_or_kept (.text Column.job) s.job u.job with h | h <;> simp [h]
  · rcases set_or_kept (.text Column.interest) s.interest u.interest with h | h <;> simp [h]
  · rcases set_or_kept .profileImageUrl s.profileImageUrl u.profileImageUrl with h | h <;> simp [h]

/-- After one change, a value is stored because it was, or because the change brings it. -/
theorem stores_apply {e : Env} {x : Write} {db : Db} {d : Datum} (h : (apply e x db).Stores d) :
    db.Stores d ∨ d ∈ x.data := by
  cases h with
  | user u h hd =>
    obtain h | ⟨id, s, u₀, h₀, rfl, rfl⟩ := user_origin h
    · exact .inl (.user u h hd)
    · exact (user_data_apply hd).imp_left (.user u₀ h₀)
  | application a h hd =>
    obtain h | ⟨y, rfl, rfl⟩ | ⟨id, s, a₀, h₀, rfl, rfl⟩ := application_origin h
    · exact .inl (.application a h hd)
    · exact .inr hd
    · obtain rfl | hd := List.mem_cons.mp hd
      · exact .inl (.application a₀ h₀ List.mem_cons_self)
      · exact .inr hd
  | concern c h hd =>
    obtain h | ⟨y, rfl, rfl⟩ | ⟨id, s, c₀, h₀, rfl, rfl⟩ := concern_origin h
    · exact .inl (.concern c h hd)
    · exact .inr hd
    · obtain hd | hd := part_set_or_kept hd
      · exact .inl (.concern c₀ h₀ hd)
      · exact .inr hd
  | advice a h hd =>
    obtain h | ⟨y, rfl, rfl⟩ | ⟨id, s, a₀, h₀, rfl, rfl⟩ | ⟨y, a₀, h₀, rfl, rfl⟩ := advice_origin h
    · exact .inl (.advice a h hd)
    · exact .inr hd
    · obtain rfl | hd := List.mem_cons.mp hd
      · exact .inl (.advice a₀ h₀ List.mem_cons_self)
      · obtain hd | hd := part_set_or_kept hd
        · exact .inl (.advice a₀ h₀ (List.mem_cons_of_mem _ hd))
        · exact .inr hd
    · exact .inr hd
  | history y h hd =>
    obtain h | ⟨z, rfl, rfl⟩ := history_origin h
    · exact .inl (.history y h hd)
    · exact .inr hd
  | feedback f h hd =>
    obtain h | ⟨y, rfl, rfl⟩ | ⟨id, s, f₀, h₀, rfl, rfl⟩ := feedback_origin h
    · exact .inl (.feedback f h hd)
    · exact .inr hd
    · simp only [Feedback.data, FeedbackSet.apply, List.mem_cons, List.not_mem_nil, or_false] at hd
      obtain rfl | rfl | rfl := hd
      · exact .inl (.feedback f₀ h₀ (by simp [Feedback.data]))
      · exact .inl (.feedback f₀ h₀ (by simp [Feedback.data]))
      · obtain h | h := set_or_kept (.text Column.memo) s.memo f₀.memo
        · exact .inr h
        · rw [h]
          exact .inl (.feedback f₀ h₀ (by simp [Feedback.data]))

theorem stores_applyAll {w : Pending Write} {db : Db} {d : Datum} (h : (applyAll w db).Stores d) :
    db.Stores d ∨ ∃ p ∈ w, d ∈ p.2.data :=
  held_of_applyAll (I := fun db : Db => db.Stores d) (fun _ _ happly => stores_apply happly) h

/-! What the calls bring. -/

def AdviceEdit.data (d : AdviceEdit) : List Datum :=
  d.directionalGuidance.toList.map (.text Column.directionalGuidance) ++
    d.reflectiveQuestions.toList.map (.text Column.reflectiveQuestions) ++
    d.considerations.toList.map (.text Column.considerations)

def ConcernEdit.data (d : ConcernEdit) : List Datum :=
  d.concernSummary.toList.map (.text Column.concernSummary) ++
    d.concernTypeSecondary.toList.map .concernTypeSecondary ++
    d.decisionContext.toList.map (.text Column.decisionContext) ++
    d.displayAlias.toList.map (.text Column.displayAlias)

/-- The values a call is given, and the blank texts of a new row. -/
def Call.data : Call → List Datum
  | .updateProfile _ data => data.toSet.data
  | .createApplication _ displayName =>
    [.text Column.displayName displayName, .text Column.rejectReason ""]
  | .reviewApplication _ _ _ reason => [.text Column.rejectReason reason]
  | .createConcern _ fields => fields.data
  | .updateOwnConcern _ _ data => data.data
  | .createAdvice _ _ body _ => .text Column.rejectReason "" :: body.data
  | .updateAdvice _ _ data => data.data
  | .reviewAdvice _ _ _ reason _ => [.text Column.rejectReason reason]
  | .createFeedback _ _ data =>
    [.score data.score, .text Column.content data.content, .text Column.memo ""]
  | .transitionFeedback _ _ _ memo => memo.toList.map (.text Column.memo)
  | _ => []

theorem concern_data_apply {data : ConcernEdit} {f : ConcernFields} {d : Datum}
    (h : d ∈ (data.apply f).data) : d ∈ data.data ∨ d ∈ f.data := by
  simp only [ConcernFields.data, ConcernEdit.apply, ConcernEdit.data, List.mem_cons,
    List.not_mem_nil, or_false, List.mem_append] at h ⊢
  obtain rfl | rfl | rfl | rfl := h
  · rcases set_or_kept (.text Column.concernSummary) data.concernSummary f.concernSummary
      with h | h <;> simp [h]
  · rcases set_or_kept .concernTypeSecondary data.concernTypeSecondary f.concernTypeSecondary
      with h | h <;> simp [h]
  · rcases set_or_kept (.text Column.decisionContext) data.decisionContext f.decisionContext
      with h | h <;> simp [h]
  · rcases set_or_kept (.text Column.displayAlias) data.displayAlias f.displayAlias
      with h | h <;> simp [h]

theorem advice_data_apply {data : AdviceEdit} {b : AdviceBody} {d : Datum}
    (h : d ∈ (data.apply b).data) : d ∈ data.data ∨ d ∈ b.data := by
  simp only [AdviceBody.data, AdviceEdit.apply, AdviceEdit.data, List.mem_cons, List.not_mem_nil,
    or_false, List.mem_append] at h ⊢
  obtain rfl | rfl | rfl := h
  · rcases set_or_kept (.text Column.directionalGuidance) data.directionalGuidance b.directionalGuidance
      with h | h <;> simp [h]
  · rcases set_or_kept (.text Column.reflectiveQuestions) data.reflectiveQuestions b.reflectiveQuestions
      with h | h <;> simp [h]
  · rcases set_or_kept (.text Column.considerations) data.considerations b.considerations
      with h | h <;> simp [h]

theorem RoleGiven.data {drift : Db → Db → Prop} {applicant : Id} {L : Set Key} {db : Db}
    {w : Pending Write} (h : RoleGiven drift applicant L db w) {p : Env × Write} (hp : p ∈ w) :
    p.2.data = [] := by
  cases h with
  | found _ _ _ => cases hp
  | created e _ _ _ =>
    rw [List.mem_singleton.mp hp]
    rfl

/-- What a commit brings was given to its call, or is stored already. -/
theorem data_committed {drift : Db → Db → Prop} {L : Set Key} {w : Pending Write} {db : Db}
    {call : Call} (h : Committed drift L w db call) {p : Env × Write} (hp : p ∈ w) {d : Datum}
    (hd : d ∈ p.2.data) : d ∈ call.data ∨ db.Stores d := by
  cases call with
  | updateProfile user data =>
    obtain ⟨e, -, rfl⟩ := h
    rw [List.mem_singleton.mp hp] at hd
    exact .inl hd
  | createApplication applicant displayName =>
    obtain ⟨e, db₁, db₂, -, -, -, -, rfl⟩ := h
    rw [List.mem_singleton.mp hp] at hd
    exact .inl hd
  | reviewApplication id actor target reason =>
    obtain ⟨row, e₁, e₂, now, effects, -, hget, -, -, -, rfl, happroved, hother⟩ := h
    obtain rfl | hp := List.mem_cons.mp hp
    · -- the reason of the rejection, or the one there was
      obtain rfl := List.mem_singleton.mp hd
      by_cases hrejected : target = .rejected
      · exact .inl (by simp [Call.data, Service.reviewSet, hrejected])
      · refine .inr (.application row (Table.get?_eq_some.mp hget).1 ?_)
        simp [AdvisorApplication.data, Service.reviewSet, hrejected]
    · by_cases ht : target = .approved
      · obtain ⟨e₃, role, hrole, -, rfl⟩ := happroved ht
        obtain hp | hp := List.mem_append.mp hp
        · rw [hrole.data hp] at hd
          cases hd
        · simp only [List.mem_cons, List.not_mem_nil, or_false] at hp
          obtain rfl | rfl := hp <;> cases hd
      · rw [hother ht, List.mem_singleton] at hp
        subst hp
        cases hd
  | createConcern author fields =>
    obtain ⟨e, -, rfl⟩ := h
    rw [List.mem_singleton.mp hp] at hd
    exact .inl hd
  | updateOwnConcern user id data =>
    obtain ⟨e, row, -, hget, -, -, -, -, rfl⟩ := h
    rw [List.mem_singleton.mp hp] at hd
    have hfields : d ∈ (data.apply row.fields).data := by simpa [Write.data] using hd
    exact (concern_data_apply hfields).imp_right (.concern row (Table.get?_eq_some.mp hget).1)
  | createAdvice id advisor body submit =>
    obtain ⟨e, db₁, db₂, row, -, -, -, -, -, rfl⟩ := h
    rw [List.mem_singleton.mp hp] at hd
    exact .inl hd
  | updateAdvice id actor data =>
    obtain ⟨e, row, snapshot, -, hget, -, -, rfl, -, hsnap⟩ := h
    have hrow : ∀ d ∈ row.body.data, db.Stores d := fun d hd =>
      .advice row (Table.get?_eq_some.mp hget).1 (List.mem_cons_of_mem _ hd)
    obtain hp | hp := List.mem_append.mp hp
    · rw [hsnap.eq_of_mem hp] at hd
      exact .inr (hrow d hd)
    · rw [List.mem_singleton.mp hp] at hd
      have hbody : d ∈ (data.apply row.body).data := by simpa [Write.data] using hd
      exact (advice_data_apply hbody).imp_right (hrow d)
  | reviewAdvice id actor decision reason expectedVersion =>
    obtain ⟨e₁, e₂, now, row, concern, transition, -, -, hget, -, -, -, -, -, -, -, rfl, htrans⟩ := h
    have hrow := (Table.get?_eq_some.mp hget).1
    simp only [List.mem_append, List.mem_singleton] at hp
    obtain (rfl | hp) | rfl := hp
    · obtain rfl | hd := List.mem_cons.mp hd
      · cases decision with
        | approved => exact .inr (.advice row hrow List.mem_cons_self)
        | rejected => exact .inl (List.mem_singleton_self _)
      · exact .inr (.advice row hrow (List.mem_cons_of_mem _ hd))
    · rw [htrans.eq_of_mem hp] at hd
      cases hd
    · cases hd
  | createFeedback id author data =>
    obtain ⟨e, db₁, row, concern, -, -, -, -, -, -, rfl⟩ := h
    rw [List.mem_singleton.mp hp] at hd
    exact .inl hd
  | transitionFeedback id actor newStatus memo =>
    obtain ⟨e, now, db₁, row, -, -, -, -, rfl⟩ := h
    rw [List.mem_singleton.mp hp] at hd
    exact .inl hd
  -- the other calls bring nothing
  | setActiveRole user target =>
    obtain ⟨e, -, -, rfl⟩ := h
    rw [List.mem_singleton.mp hp] at hd
    simp [Write.data, UserSet.data] at hd
  | grantRole target role actor reason =>
    obtain ⟨e₁, e₂, -, -, -, -, rfl⟩ := h
    simp only [List.mem_cons, List.not_mem_nil, or_false] at hp
    obtain rfl | rfl := hp <;> cases hd
  | revokeRole target role actor reason =>
    obtain ⟨e₁, e₂, user, row, -, -, -, -, -, -, demotion, rfl, hdem⟩ := h
    simp only [List.mem_append, List.mem_cons, List.not_mem_nil, or_false] at hp
    obtain (rfl | rfl) | hp := hp
    · cases hd
    · cases hd
    · rw [hdem.eq_of_mem hp] at hd
      simp [Write.data, UserSet.data] at hd
  | deleteConcern user id =>
    obtain ⟨e, now, db₁, row, -, -, -, -, rfl⟩ := h
    rw [List.mem_singleton.mp hp] at hd
    cases hd
  | assignAdvisor id actor data =>
    obtain ⟨e₁, e₂, row, transition, -, -, -, -, -, -, -, rfl, htrans⟩ := h
    simp only [List.mem_append, List.mem_singleton] at hp
    obtain (rfl | hp) | rfl := hp
    · cases hd
    · rw [htrans.eq_of_mem hp] at hd
      cases hd
    · cases hd
  | unassignAdvisor id assignmentId =>
    obtain ⟨e₁, now, row, assignment, transition, -, -, -, -, -, rfl, htrans⟩ := h
    obtain rfl | hp := List.mem_cons.mp hp
    · cases hd
    · rw [htrans.eq_of_mem hp] at hd
      cases hd
  | closeSelected ids | softDeleteSelected ids =>
    obtain ⟨now, rows, rfl, -, -⟩ := h
    obtain ⟨r, -, rfl⟩ := List.mem_map.mp hp
    cases hd
  | restoreSelected ids =>
    obtain ⟨rows, rfl, -, -⟩ := h
    obtain ⟨r, -, rfl⟩ := List.mem_map.mp hp
    cases hd
  | deleteAdvice id actor =>
    obtain ⟨e, row, -, -, -, -, rfl⟩ := h
    rw [List.mem_singleton.mp hp] at hd
    cases hd
  | markRead user id =>
    obtain ⟨row, -, -, -, ⟨-, rfl⟩ | ⟨-, e, now, rfl⟩⟩ := h
    · cases hp
    · rw [List.mem_singleton.mp hp] at hd
      cases hd

end Chamneul
