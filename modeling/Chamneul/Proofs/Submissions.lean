import Chamneul.Proofs.ApiRefinement
import Chamneul.Proofs.Disciplined
import Chamneul.Proofs.StoredData
import Chamneul.Spec.Email

/-! What is stored has passed the serializers. Django checks no column when a row is saved, so that
the options of the columns hold of the rows only because every text comes through a serializer. -/

namespace Chamneul

open ReadCommitted Rest Rest.Form Python

section

variable {F : Fields}

def Call.Passes (F : Fields) (call : Call) : Prop := ∀ d ∈ call.data, d.Passes F

theorem passes_blank {o : CharOptions} (ho : o.allowBlank = true) : F.Passes o "" := F.char_blank ho

/-- What an optional field yields, if anything. -/
theorem passes_optional {α : Type} {name : String} {check : Value → Checked α} {value : α → Datum}
    {items : List (Text × Value)} {sent : Option α} (h : optional name check items = .ok sent)
    (hcheck : ∀ v a, check v = .ok a → (value a).Passes F) : ∀ d ∈ sent.toList.map value, d.Passes F := by
  intro d hd
  obtain ⟨-, rfl⟩ | ⟨v, a, -, hv, rfl⟩ := optional_ok.mp h
  · cases hd
  · obtain rfl := List.mem_singleton.mp hd
    exact hcheck v a hv

theorem passes_optional_text {name : String} {o : CharOptions} {items : List (Text × Value)}
    {sent : Option String} (h : optional name (F.char o) items = .ok sent) :
    ∀ d ∈ sent.toList.map (Datum.text o), d.Passes F :=
  passes_optional h fun _ _ hok => Fields.passes_of_ok hok

/-- An optional text that is blank where it is left out. -/
theorem passes_blankable {name : String} {o : CharOptions} (ho : o.allowBlank = true)
    {items : List (Text × Value)} {sent : Option String}
    (h : optional name (F.char o) items = .ok sent) : F.Passes o (sent.getD "") := by
  obtain ⟨-, rfl⟩ | ⟨v, s, -, hv, rfl⟩ := optional_ok.mp h
  · exact passes_blank ho
  · exact Fields.passes_of_ok hv

theorem passes_required {name : String} {o : CharOptions} {items : List (Text × Value)} {s : String}
    (h : required name (F.char o) items = .ok s) : F.Passes o s := by
  obtain ⟨v, -, hv⟩ := required_ok.mp h
  exact Fields.passes_of_ok hv

theorem secondary_fits {v : Value} {types : List ConcernType}
    (h : concernTypeSecondaryField F v = .ok types) : types.length ≤ 2 := by
  unfold concernTypeSecondaryField at h
  cases hlist : listOf true (F.member ConcernType.all ConcernType.value) v with
  | error messages =>
    rw [hlist] at h
    cases h
  | ok found =>
    rw [hlist] at h
    simp only [bind, Except.bind] at h
    split_ifs at h with hlong
    cases h
    omega

theorem score_fits {v : Value} {n : ℕ} (h : scoreField F v = .ok n) : 1 ≤ n ∧ n ≤ 5 := by
  unfold scoreField at h
  cases hint : F.integer (some 1) (some 5) v with
  | error messages =>
    rw [hint] at h
    cases h
  | ok i =>
    rw [hint] at h
    cases h
    have hleast := F.integer_least hint
    have hmost := F.integer_most hint
    omega

/-! What a run of each serializer returns. -/

section

variable {items : List (Text × Value)}

theorem userUpdate_ok {data : Service.ProfileData} :
    UserUpdateSerializer.others F items = .ok data ↔ data.nickname = none ∧
      optional "job" (F.char Column.job) items = .ok data.job ∧
      optional "interest" (F.char Column.interest) items = .ok data.interest ∧
      optional "profile_image_url" (F.url Column.profileImageUrl) items = .ok data.profileImageUrl := by
  cases data
  simp only [UserUpdateSerializer.others, seq_ok, map_ok, existsAndEq, and_assoc, and_true, true_and,
    Service.ProfileData.mk.injEq]
  tauto

theorem applicationCreate_ok {form : AdvisorApplicationForm}
    (h : AdvisorApplicationCreateSerializer F items = .ok form) :
    required "display_name" (F.char Column.displayName) items = .ok form.displayName := by
  simp only [AdvisorApplicationCreateSerializer, seq_ok, map_ok, existsAndEq, and_assoc, and_true] at h
  grind

theorem applicationReview_ok {data : AdvisorApplicationReview}
    (h : AdvisorApplicationReviewSerializer F items = .ok data) :
    ∃ reason, optional "reject_reason" (F.char Column.rejectReason) items = .ok reason ∧
      data.rejectReason = reason.getD "" := by
  simp only [AdvisorApplicationReviewSerializer, seq_ok, map_ok, existsAndEq, and_true] at h
  obtain ⟨reason, _, -, hreason, rfl⟩ := h
  exact ⟨reason, hreason, rfl⟩

theorem concernCreate_ok {fields : ConcernFields} (h : ConcernCreateSerializer F items = .ok fields) :
    required "concern_summary" (F.char Column.concernSummary) items = .ok fields.concernSummary ∧
      ∃ secondary context displayAlias,
        optional "concern_type_secondary" (concernTypeSecondaryField F) items = .ok secondary ∧
        optional "decision_context" (F.char Column.decisionContext) items = .ok context ∧
        optional "display_alias" (F.char Column.displayAlias) items = .ok displayAlias ∧
        fields.concernTypeSecondary = secondary.getD [] ∧
        fields.decisionContext = context.getD "" ∧ fields.displayAlias = displayAlias.getD "" := by
  simp only [ConcernCreateSerializer, seq_ok, map_ok, existsAndEq, and_assoc, and_true] at h
  grind

theorem concernUpdate_ok {data : ConcernEdit} :
    ConcernUpdateSerializer F items = .ok data ↔
      optional "concern_summary" (F.char Column.concernSummary) items = .ok data.concernSummary ∧
      optional "concern_type" (F.member ConcernType.all ConcernType.value) items =
        .ok data.concernType ∧
      optional "concern_type_secondary" (concernTypeSecondaryField F) items =
        .ok data.concernTypeSecondary ∧
      optional "preferred_advisor_lane"
        (F.member [.expert, .senior, .noPreference] PreferredAdvisorLane.value) items =
          .ok data.preferredAdvisorLane ∧
      optional "decision_context" (F.char Column.decisionContext) items = .ok data.decisionContext ∧
      optional "display_alias" (F.char Column.displayAlias) items = .ok data.displayAlias ∧
      optional "is_anonymous" F.boolean items = .ok data.isAnonymous := by
  cases data
  simp only [ConcernUpdateSerializer, seq_ok, map_ok, existsAndEq, and_assoc, and_true, true_and,
    ConcernEdit.mk.injEq]

theorem adviceCreate_ok {data : AdviceCreateData} (h : AdviceCreateSerializer F items = .ok data) :
    required "directional_guidance" (F.char Column.directionalGuidance) items =
        .ok data.body.directionalGuidance ∧
      ∃ questions considerations,
        optional "reflective_questions" (F.char Column.reflectiveQuestions) items = .ok questions ∧
        optional "considerations" (F.char Column.considerations) items = .ok considerations ∧
        data.body.reflectiveQuestions = questions.getD "" ∧
        data.body.considerations = considerations.getD "" := by
  simp only [AdviceCreateSerializer, seq_ok, map_ok, existsAndEq, and_assoc, and_true] at h
  grind

theorem adviceUpdate_ok {data : AdviceEdit} :
    AdviceUpdateSerializer F items = .ok data ↔
      optional "directional_guidance" (F.char Column.directionalGuidance) items =
        .ok data.directionalGuidance ∧
      optional "reflective_questions" (F.char Column.reflectiveQuestions) items =
        .ok data.reflectiveQuestions ∧
      optional "considerations" (F.char Column.considerations) items = .ok data.considerations ∧
      optional "out_of_scope_flag" F.boolean items = .ok data.outOfScopeFlag ∧
      optional "submit" F.boolean items = .ok data.isSubmitted := by
  cases data
  simp only [AdviceUpdateSerializer, seq_ok, map_ok, existsAndEq, and_assoc, and_true, true_and,
    AdviceEdit.mk.injEq]

theorem adviceReview_ok {data : AdviceReviewData} (h : AdviceReviewSerializer F items = .ok data) :
    ∃ reason, optional "reason" (F.char Column.rejectReason) items = .ok reason ∧
      data.reason = reason.getD "" := by
  simp only [AdviceReviewSerializer, seq_ok, map_ok, existsAndEq, and_assoc, and_true] at h
  obtain ⟨_, reason, _, -, hreason, -, rfl⟩ := h
  exact ⟨reason, hreason, rfl⟩

theorem feedbackCreate_ok {data : FeedbackData} (h : FeedbackCreateSerializer F items = .ok data) :
    required "score" (scoreField F) items = .ok data.score ∧
      ∃ content, optional "content" (F.char Column.content) items = .ok content ∧
        data.content = content.getD "" := by
  simp only [FeedbackCreateSerializer, seq_ok, map_ok, existsAndEq, and_true] at h
  obtain ⟨content, _, hscore, hcontent, rfl⟩ := h
  exact ⟨hscore, content, hcontent, rfl⟩

theorem feedbackTransition_ok {data : AdminFeedbackTransition} :
    AdminFeedbackTransitionSerializer F items = .ok data ↔
      required "status" (F.member [.submitted, .reviewed, .archived] FeedbackStatus.value) items =
        .ok data.status ∧
      optional "memo" (F.char Column.memo) items = .ok data.memo := by
  cases data
  simp only [AdminFeedbackTransitionSerializer, seq_ok, map_ok, existsAndEq, and_true, true_and,
    AdminFeedbackTransition.mk.injEq]

end

theorem passes_profile {body : Value} {data : Service.ProfileData}
    (h : (UserUpdateSerializer F body).validated = .ok data) : ∀ d ∈ data.toSet.data, d.Passes F := by
  unfold UserUpdate.validated at h
  split at h
  case h_1 nickname others hnickname hothers =>
    cases h
    obtain ⟨items, rfl, hform⟩ := run_ok.mp hothers
    obtain ⟨-, hjob, hinterest, hurl⟩ := userUpdate_ok.mp hform
    simp only [Service.ProfileData.toSet, UserSet.data, List.forall_mem_append]
    exact ⟨⟨⟨passes_optional_text hnickname, passes_optional_text hjob⟩,
      passes_optional_text hinterest⟩, passes_optional hurl fun _ _ hok => F.url_again hok⟩
  all_goals cases h

theorem passes_application {body : Value} {form : AdvisorApplicationForm}
    (h : (AdvisorApplicationCreateSerializer F).run body = .ok form) :
    F.Passes Column.displayName form.displayName := by
  obtain ⟨items, rfl, hform⟩ := run_ok.mp h
  exact passes_required (applicationCreate_ok hform)

theorem passes_review {body : Value} {data : AdvisorApplicationReview}
    (h : (AdvisorApplicationReviewSerializer F).run body = .ok data) :
    F.Passes Column.rejectReason data.rejectReason := by
  obtain ⟨items, rfl, hform⟩ := run_ok.mp h
  obtain ⟨reason, hreason, hdata⟩ := applicationReview_ok hform
  exact hdata ▸ passes_blankable rfl hreason

theorem passes_concern {body : Value} {fields : ConcernFields}
    (h : (ConcernCreateSerializer F).run body = .ok fields) : ∀ d ∈ fields.data, d.Passes F := by
  obtain ⟨items, rfl, hform⟩ := run_ok.mp h
  obtain ⟨hsummary, secondary, context, displayAlias, hsecondary, hcontext, halias, hs, hc, ha⟩ :=
    concernCreate_ok hform
  have hfits : fields.concernTypeSecondary.length ≤ 2 := by
    rw [hs]
    obtain ⟨-, rfl⟩ | ⟨v, types, -, hv, rfl⟩ := optional_ok.mp hsecondary
    · exact Nat.zero_le 2
    · exact secondary_fits hv
  simp only [ConcernFields.data, List.forall_mem_cons]
  exact ⟨passes_required hsummary, hfits, hc ▸ passes_blankable rfl hcontext,
    ha ▸ passes_blankable rfl halias, List.forall_mem_nil _⟩

theorem passes_concernEdit {body : Value} {data : ConcernEdit}
    (h : (ConcernUpdateSerializer F).run body = .ok data) : ∀ d ∈ data.data, d.Passes F := by
  obtain ⟨items, rfl, hform⟩ := run_ok.mp h
  obtain ⟨hsummary, -, hsecondary, -, hcontext, halias, -⟩ := concernUpdate_ok.mp hform
  simp only [ConcernEdit.data, List.forall_mem_append]
  exact ⟨⟨⟨passes_optional_text hsummary, passes_optional hsecondary fun _ _ hok =>
    secondary_fits hok⟩, passes_optional_text hcontext⟩, passes_optional_text halias⟩

theorem passes_advice {body : Value} {data : AdviceCreateData}
    (h : (AdviceCreateSerializer F).run body = .ok data) : ∀ d ∈ data.body.data, d.Passes F := by
  obtain ⟨items, rfl, hform⟩ := run_ok.mp h
  obtain ⟨hguidance, questions, considerations, hquestions, hconsiderations, hq, hc⟩ :=
    adviceCreate_ok hform
  simp only [AdviceBody.data, List.forall_mem_cons]
  exact ⟨passes_required hguidance, hq ▸ passes_blankable rfl hquestions,
    hc ▸ passes_blankable rfl hconsiderations, List.forall_mem_nil _⟩

theorem passes_adviceEdit {body : Value} {data : AdviceEdit}
    (h : (AdviceUpdateSerializer F).run body = .ok data) : ∀ d ∈ data.data, d.Passes F := by
  obtain ⟨items, rfl, hform⟩ := run_ok.mp h
  obtain ⟨hguidance, hquestions, hconsiderations, -, -⟩ := adviceUpdate_ok.mp hform
  simp only [AdviceEdit.data, List.forall_mem_append]
  exact ⟨⟨passes_optional_text hguidance, passes_optional_text hquestions⟩,
    passes_optional_text hconsiderations⟩

theorem passes_adviceReview {body : Value} {data : AdviceReviewData}
    (h : (AdviceReviewSerializer F).run body = .ok data) :
    F.Passes Column.rejectReason data.reason := by
  obtain ⟨items, rfl, hform⟩ := run_ok.mp h
  obtain ⟨reason, hreason, hdata⟩ := adviceReview_ok hform
  exact hdata ▸ passes_blankable rfl hreason

theorem passes_feedback {body : Value} {data : FeedbackData}
    (h : (FeedbackCreateSerializer F).run body = .ok data) :
    (1 ≤ data.score ∧ data.score ≤ 5) ∧ F.Passes Column.content data.content := by
  obtain ⟨items, rfl, hform⟩ := run_ok.mp h
  obtain ⟨hscore, content, hcontent, hdata⟩ := feedbackCreate_ok hform
  obtain ⟨v, -, hv⟩ := required_ok.mp hscore
  exact ⟨score_fits hv, hdata ▸ passes_blankable rfl hcontent⟩

theorem passes_transition {body : Value} {data : AdminFeedbackTransition}
    (h : (AdminFeedbackTransitionSerializer F).run body = .ok data) :
    ∀ d ∈ data.memo.toList.map (Datum.text Column.memo), d.Passes F := by
  obtain ⟨items, rfl, hform⟩ := run_ok.mp h
  exact passes_optional_text (feedbackTransition_ok.mp hform).2

theorem passes_empty {call : Call} (h : call.data = []) : call.Passes F := by
  rw [Call.Passes, h]
  exact List.forall_mem_nil _

theorem passes_given {α : Type} {request : Validated α} {f : α → Call} {call : Call}
    (h : request.toOption.map f = some call) (hpasses : ∀ data, request = .ok data →
      (f data).Passes F) : call.Passes F := by
  cases request with
  | error errors => cases h
  | ok data =>
    obtain rfl : f data = call := Option.some.inj h
    exact hpasses data rfl

/-- The call behind a body is given values that have passed. -/
theorem passes_sent {user : Id} {endpoint : Endpoint} {body : Value} {call : Call}
    (h : (endpoint.request F body).call? user = some call) : call.Passes F := by
  cases endpoint with
  | updateMe => exact passes_given h fun data hok => passes_profile hok
  | apply =>
    refine passes_given h fun displayName hok => ?_
    cases hform : (AdvisorApplicationCreateSerializer F).run body with
    | error errors =>
      rw [hform] at hok
      cases hok
    | ok form =>
      rw [hform] at hok
      cases hok
      refine List.forall_mem_cons.mpr ⟨passes_application hform, ?_⟩
      exact List.forall_mem_singleton.mpr (passes_blank rfl)
  | reviewApplication id =>
    exact passes_given h fun data hok => List.forall_mem_singleton.mpr (passes_review hok)
  | createConcern => exact passes_given h fun data hok => passes_concern hok
  | editConcern id => exact passes_given h fun data hok => passes_concernEdit hok
  | createAdvice id =>
    refine passes_given h fun data hok => List.forall_mem_cons.mpr ⟨passes_blank rfl, ?_⟩
    exact passes_advice hok
  | updateAdvice id => exact passes_given h fun data hok => passes_adviceEdit hok
  | reviewAdvice id =>
    exact passes_given h fun data hok => List.forall_mem_singleton.mpr (passes_adviceReview hok)
  | rate id =>
    refine passes_given h fun data hok => ?_
    obtain ⟨hscore, hcontent⟩ := passes_feedback hok
    refine List.forall_mem_cons.mpr ⟨hscore, List.forall_mem_cons.mpr ⟨hcontent, ?_⟩⟩
    exact List.forall_mem_singleton.mpr (passes_blank rfl)
  | transitionFeedback id => exact passes_given h fun data hok => passes_transition hok
  -- these calls are given nothing that a column asks something of
  | switchRole | assign id | grantRole id => exact passes_given h fun data _ => passes_empty rfl

/-- Without a body nothing is brought. -/
theorem data_bare {a : Arrival} (ha : a.bare = true) {db : Db} {call : Call}
    (h : a.Admits db call) : call.data = [] := by
  cases a with
  | request user r =>
    obtain ⟨hcall, -⟩ := h
    cases r with
    | updateMe _ | switchRole _ | apply _ | reviewApplication _ _ | createConcern _ | editConcern _ _
    | assign _ _ | createAdvice _ _ | updateAdvice _ _ | reviewAdvice _ _ | rate _ _
    | transitionFeedback _ _ | grantRole _ _ => cases ha
    | deleteConcern _ | unassign _ _ | deleteAdvice _ | readNotification _ | revokeRole _ _ _ =>
      obtain rfl := Option.some.inj hcall
      rfl
    | _ => cases hcall
  | closeSelected ids | softDeleteSelected ids | restoreSelected ids =>
    obtain rfl : call = _ := h
    rfl

/-- The call behind what a client sends is given values that have passed. -/
theorem passes_submitted {s : Submission} {db : Db} {call : Call} (h : (s.arrival F).Admits db call) :
    call.Passes F := by
  cases s with
  | send user endpoint body => exact passes_sent h.1
  | bare a ha => exact passes_empty (data_bare ha h)

theorem site_behind {icontains : String → String → Bool} {σ₀ : World Db}
    {c : Config (site F icontains)} {σs : List (World Db)} (h : Config.Run (Config.idle σ₀) c σs) :
    ∃ d : Config system,
      Config.Through (fun db call => ∃ s : Submission, (s.arrival F).Admits db call)
        (Config.idle σ₀) d σs ∧
      Config.Behind (fun s : Submission => (s.arrival F).Admits) σs c d :=
  have hidler : ∀ db, ∃ s : Submission, (s.arrival F).Admits db (.closeSelected []) :=
    fun _ => ⟨.bare (.closeSelected []) rfl, rfl⟩
  h.behind (fun s : Submission => serve_fronts icontains (s.arrival F)) hidler

/-- In every world that a run passes, a value that is stored passes, if it does at the start. -/
theorem passes_through {icontains : String → String → Bool} {σ₀ : World Db}
    {c : Config (site F icontains)} {σs : List (World Db)} {d : Datum}
    (h₀ : σ₀.db.Stores d → d.Passes F) (h : Config.Run (Config.idle σ₀) c σs) {σ : World Db}
    (hσ : σ ∈ σs) (hd : σ.db.Stores d) : d.Passes F := by
  obtain ⟨back, hback, -⟩ := site_behind h
  suffices hpass : (∀ σ ∈ σs, σ.db.Stores d → d.Passes F) ∧ (back.world.db.Stores d → d.Passes F) from
    hpass.1 σ hσ hd
  refine hback.invariant (I := fun σs db => (∀ σ ∈ σs, σ.db.Stores d → d.Passes F) ∧
    (db.Stores d → d.Passes F)) ⟨List.forall_mem_singleton.mpr h₀, h₀⟩ ?_ ?_
  · rintro σs σ ⟨hpassed, hnow⟩
    exact ⟨List.forall_mem_append.mpr ⟨hpassed, List.forall_mem_singleton.mpr hnow⟩, hnow⟩
  · rintro b σs t s n hb hslot hp ⟨hpassed, hnow⟩
    refine ⟨hpassed, fun hd => ?_⟩
    obtain ⟨σ, -, -, ⟨submission, hadmits⟩, -, -⟩ := hb.admitted hslot
    obtain hstored | ⟨p, hmem, hbrought⟩ := stores_applyAll hd
    · exact hnow hstored
    obtain hgiven | hstored := data_committed (committed_of_slot hb.reaches hslot hp) hmem hbrought
    · exact passes_submitted hadmits d hgiven
    · exact hnow hstored

/-- In every run of the API with its serializers, each value stored in a column passes the field of
the column as it is, and fits the options that nothing else checks, if those at the start do. -/
theorem stored_data_pass {icontains : String → String → Bool} {σ₀ : World Db}
    {c : Config (site F icontains)} {ok : Config (site F icontains) → Event (site F icontains) → Prop}
    (h₀ : ∀ d, σ₀.db.Stores d → d.Passes F) (hr : Config.Reaches ok (Config.idle σ₀) c) {d : Datum}
    (hd : c.world.db.Stores d) : d.Passes F ∧ d.Fits := by
  obtain ⟨σs, h⟩ := hr.through
  have hpass := passes_through (h₀ d) h h.world_mem hd
  exact ⟨hpass, hpass.fits⟩

end

/-! Fields that read no number as a text, nor a text as a number. -/

def plainText (o : CharOptions) (s : String) : Checked String :=
  if s = "" then
    if o.allowBlank then .ok "" else .error (.messages ["This field may not be blank."])
  else if '\x00' ∈ s.toList then .error (.messages ["Null characters are not allowed."])
  else if o.Fits s then .ok s
  else .error (.messages ["Ensure this field has no more or no less characters."])

def plainChar (o : CharOptions) : Value → Checked String
  | .string t =>
    match t.encode with
    | some s => plainText o (strip s)
    | none => .error (.messages ["Surrogate characters are not allowed."])
  | _ => .error (.messages ["Not a valid string."])

theorem plainChar_text (o : CharOptions) (s : String) :
    plainChar o (text s) = plainText o (strip s) := by
  simp only [plainChar, text, encode_ofString]

theorem plainText_ok {o : CharOptions} {s s' : String} (h : plainText o s = .ok s') :
    s' = s ∧ o.Fits s := by
  unfold plainText at h
  split_ifs at h with hblank hallowed hnull hfits
  · cases h
    exact ⟨hblank.symm, by rw [CharOptions.Fits, if_pos hblank]; exact hallowed⟩
  · cases h
    exact ⟨rfl, hfits⟩

theorem plainChar_ok {o : CharOptions} {v : Value} {s : String} (h : plainChar o v = .ok s) :
    ∃ s₀, s = strip s₀ ∧ plainText o (strip s₀) = .ok s := by
  unfold plainChar at h
  split at h
  · split at h
    · exact ⟨_, (plainText_ok h).1, h⟩
    · cases h
  · cases h

def plainInteger (least most : Option ℤ) : Value → Checked ℤ
  | .int n =>
    if (∀ l ∈ least, l ≤ n) ∧ ∀ m ∈ most, n ≤ m then .ok n
    else .error (.messages ["Ensure this value is in its bounds."])
  | _ => .error (.messages ["A valid integer is required."])

def plainBoolean : Value → Checked Bool
  | .bool b => .ok b
  | _ => .error (.messages ["Must be a valid boolean."])

def plainChoice (choices : List String) : Value → Checked String
  | .string t =>
    match t.encode with
    | some c => if c ∈ choices then .ok c else .error (.messages ["\"" ++ c ++ "\" is not a valid choice."])
    | none => .error (.messages ["Not a valid choice."])
  | _ => .error (.messages ["Not a valid choice."])

theorem plainInteger_ok {least most : Option ℤ} {v : Value} {n : ℤ}
    (h : plainInteger least most v = .ok n) : (∀ l ∈ least, l ≤ n) ∧ ∀ m ∈ most, n ≤ m := by
  unfold plainInteger at h
  split at h
  · split_ifs at h with hbounds
    cases h
    exact hbounds
  · cases h

def plainFields : Fields where
  char := plainChar
  url := plainChar
  choice := plainChoice
  integer := plainInteger
  boolean := plainBoolean
  uuid _ := .error (.messages ["Must be a valid UUID."])
  json v := .ok v
  char_blank h := by
    rw [plainChar_text]
    simp [plainText, strip, h]
  char_again h := by
    obtain ⟨s₀, rfl, h⟩ := plainChar_ok h
    rw [plainChar_text, Auth.strip_strip]
    exact h
  char_fits h := by
    obtain ⟨s₀, rfl, h⟩ := plainChar_ok h
    exact (plainText_ok h).2
  url_again h := by
    obtain ⟨s₀, rfl, h⟩ := plainChar_ok h
    rw [plainChar_text, Auth.strip_strip]
    exact h
  url_fits h := by
    obtain ⟨s₀, rfl, h⟩ := plainChar_ok h
    exact (plainText_ok h).2
  choice_self h := by
    simp only [plainChoice, text, encode_ofString, if_pos h]
  integer_least h := (plainInteger_ok h).1 _ rfl
  integer_most h := (plainInteger_ok h).2 _ rfl
  boolean_self _ := rfl

/-- What has been let through can be told, whatever is made of the rest. -/
instance decidableEqOk {ε α : Type} [DecidableEq α] (x : Except ε α) (a : α) : Decidable (x = .ok a) :=
  match x with
  | .ok b => decidable_of_iff (b = a) (by rw [Except.ok.injEq])
  | .error _ => isFalse nofun

/-- The fields decide. -/
instance (d : Datum) : Decidable (d.Passes plainFields) :=
  match d with
  | .text o s => inferInstanceAs (Decidable (plainChar o (text s) = .ok s))
  | .profileImageUrl url =>
    inferInstanceAs (Decidable (plainChar Column.profileImageUrl (text url) = .ok url))
  | .concernTypeSecondary types => inferInstanceAs (Decidable (types.length ≤ 2))
  | .score n => inferInstanceAs (Decidable (1 ≤ n ∧ n ≤ 5))

def namedMember : World Db := ⟨{ users := Table.empty.insert { id := 1, nickname := "다온" } }, 0⟩

/-- User 1 posts a concern, with blanks around what it is about. -/
def concernSent : Config (site plainFields fun _ _ => false) :=
  (Config.idle namedMember).after
    [.start 0 (.send 1 .createConcern (record [("concern_summary", text " stay or go? "),
        ("concern_type", text "burnout")])), .run 0 0, .run 0 7, .run 0 0]

theorem namedMember_passes (d : Datum) (h : namedMember.db.Stores d) : d.Passes plainFields := by
  cases h with
  | user u h hd =>
    obtain rfl : u = { id := 1, nickname := "다온" } := List.mem_singleton.mp h
    have hmember : ∀ d ∈ User.data { id := 1, nickname := "다온" }, d.Passes plainFields := by
      decide +kernel
    exact hmember d hd
  | application _ h _ | concern _ h _ | advice _ h _ | history _ h _ | feedback _ h _ =>
    exact absurd h (Table.not_mem_empty _)

theorem stored_data_pass_sent :
    concernSent.world.db.Stores (.text Column.concernSummary "stay or go?") ∧
      plainFields.Passes Column.concernSummary "stay or go?" := by
  have hsummaries : concernSent.world.db.concerns.rows.map (·.fields.concernSummary) =
      ["stay or go?"] := by decide +kernel
  obtain ⟨row, hrow, hsummary⟩ := List.mem_map.mp (hsummaries ▸ List.mem_singleton_self _)
  have hstored : concernSent.world.db.Stores (.text Column.concernSummary "stay or go?") := by
    refine .concern row hrow ?_
    rw [ConcernFields.data, hsummary]
    exact List.mem_cons_self
  have hr : Config.Reachable (Config.idle namedMember) concernSent := Config.reachable_after _ _
  exact ⟨hstored, (stored_data_pass namedMember_passes hr hstored).1⟩

end Chamneul
