import Chamneul.Proofs.Submissions

/-! What a client has read can be sent back. The detail of a concern (#18) passes the serializer of
its edit (#47) and the detail of an advice (#27) that of #29, which drop what they do not declare;
the edit puts back what was read. -/

namespace Chamneul

open ReadCommitted Rest Rest.Form Python

/-! The enumerations by their stored values. -/

theorem ConcernType.value_injective : Function.Injective ConcernType.value := by
  intro a b h
  cases a <;> cases b <;> first | rfl | exact absurd h (by decide)

theorem ConcernType.mem_all (type : ConcernType) : type ∈ ConcernType.all := by
  cases type <;> decide

theorem PreferredAdvisorLane.value_injective : Function.Injective PreferredAdvisorLane.value := by
  intro a b h
  cases a <;> cases b <;> first | rfl | exact absurd h (by decide)

section

variable {F : Fields} {R : Rendering}

theorem concernType_self (type : ConcernType) :
    F.member ConcernType.all ConcernType.value (text type.value) = .ok type :=
  Fields.member_self ConcernType.value_injective type.mem_all

theorem lane_self (lane : PreferredAdvisorLane) :
    F.member [.expert, .senior, .noPreference] PreferredAdvisorLane.value (text lane.value) =
      .ok lane :=
  Fields.member_self PreferredAdvisorLane.value_injective (by cases lane <;> decide)

theorem secondary_self {types : List ConcernType} (h : types.length ≤ 2) :
    concernTypeSecondaryField F (.array (types.map fun type => text type.value)) = .ok types := by
  have hlist : listOf true (F.member ConcernType.all ConcernType.value)
      (.array (types.map fun type => text type.value)) = .ok types :=
    listOf_self fun type _ => concernType_self type
  rw [concernTypeSecondaryField, hlist]
  simp only [bind, Except.bind, if_neg (Nat.not_lt.mpr h)]
  rfl

/-! What is sent of a record. -/

theorem optional_sent {α : Type} {items : List (String × Value)} {name : String} {v : Value}
    {check : Value → Checked α} {a : α} (hsent : items.lookup name = some v)
    (hcheck : check v = .ok a) :
    optional name check (items.map fun item => (Text.ofString item.1, item.2)) = .ok (some a) :=
  optional_ok.mpr (.inr ⟨v, a, (sent_record items name).trans hsent, hcheck, rfl⟩)

theorem optional_unsent {α : Type} {items : List (String × Value)} {name : String}
    {check : Value → Checked α} (hsent : items.lookup name = none) :
    optional name check (items.map fun item => (Text.ofString item.1, item.2)) = .ok none :=
  optional_ok.mpr (.inl ⟨(sent_record items name).trans hsent, rfl⟩)

/-! The edits that the details make. -/

def ConcernDetail.edit (d : ConcernDetail) : ConcernEdit where
  concernSummary := some d.concernSummary
  concernType := some d.concernType
  concernTypeSecondary := some d.concernTypeSecondary
  preferredAdvisorLane := some d.preferredAdvisorLane
  decisionContext := some d.decisionContext
  isAnonymous := some d.isAnonymous

def AdviceDetail.edit (d : AdviceDetail) : AdviceEdit where
  directionalGuidance := some d.body.directionalGuidance
  reflectiveQuestions := some d.body.reflectiveQuestions
  considerations := some d.body.considerations
  outOfScopeFlag := some d.body.outOfScopeFlag

theorem concernDetail_accepted {d : ConcernDetail}
    (hsummary : F.Passes Column.concernSummary d.concernSummary)
    (hsecondary : d.concernTypeSecondary.length ≤ 2)
    (hcontext : F.Passes Column.decisionContext d.decisionContext) :
    (ConcernUpdateSerializer F).run (ConcernDetailSerializer R d) = .ok d.edit := by
  refine run_ok.mpr ⟨_, rfl, concernUpdate_ok.mpr ?_⟩
  -- the alias is no part of the detail
  exact ⟨optional_sent rfl hsummary, optional_sent rfl (concernType_self _),
    optional_sent rfl (secondary_self hsecondary), optional_sent rfl (lane_self _),
    optional_sent rfl hcontext, optional_unsent rfl, optional_sent rfl (F.boolean_self _)⟩

theorem adviceDetail_accepted {d : AdviceDetail}
    (hguidance : F.Passes Column.directionalGuidance d.body.directionalGuidance)
    (hquestions : F.Passes Column.reflectiveQuestions d.body.reflectiveQuestions)
    (hconsiderations : F.Passes Column.considerations d.body.considerations) :
    (AdviceUpdateSerializer F).run (AdviceDetailSerializer R d) = .ok d.edit := by
  refine run_ok.mpr ⟨_, rfl, adviceUpdate_ok.mpr ?_⟩
  -- `is_submitted` is read, and `submit` is written
  exact ⟨optional_sent rfl hguidance, optional_sent rfl hquestions, optional_sent rfl hconsiderations,
    optional_sent rfl (F.boolean_self _), optional_unsent (by cases d.rejectReason <;> rfl)⟩

/-- Whatever the fields have become, they are again as they were read, but for the alias. -/
theorem ConcernDetail.edit_apply (db : Db) (row : Concern) (f : ConcernFields) :
    (concernDetail db row).edit.apply f = { row.fields with displayAlias := f.displayAlias } := rfl

theorem AdviceDetail.edit_apply (d : AdviceDetail) (b : AdviceBody) : d.edit.apply b = d.body := rfl

theorem AdviceDetail.edit_changes (d : AdviceDetail) (b : AdviceBody) :
    d.edit.changes b = true ↔ b ≠ d.body := by
  rw [← not_iff_not, not_not, Bool.not_eq_true]
  simp only [AdviceEdit.changes, AdviceDetail.edit, Option.any_some, Bool.or_eq_false_iff,
    decide_eq_false_iff_not, not_not]
  constructor
  · rintro ⟨⟨⟨hguidance, hquestions⟩, hconsiderations⟩, hflag⟩
    calc b = ⟨b.directionalGuidance, b.reflectiveQuestions, b.considerations, b.outOfScopeFlag⟩ := rfl
      _ = d.body := by rw [hguidance, hquestions, hconsiderations, hflag]
  · intro h
    rw [h]
    exact ⟨⟨⟨rfl, rfl⟩, rfl⟩, rfl⟩

/-! The runs. -/

variable {icontains : String → String → Bool} {σ₀ : World Db} {c : Config (site F icontains)}
  {σs : List (World Db)}

/-- What a session is about to commit, a call has made that its request goes on to. -/
theorem site_commit (h : Config.Run (Config.idle σ₀) c σs) {t : ℕ}
    {s : Session (site F icontains)} {n} (hslot : c.slot t = some s) (hp : s.prog = .commit n) :
    ∃ L call db, Committed (fun _ _ => True) L s.writes c.world.db call ∧
      (s.call.arrival F).Admits db call := by
  obtain ⟨d, hd, hbehind⟩ := site_behind h
  obtain ⟨s', n', hslot', hp', hwrites, σ, -, hadmits⟩ := hbehind.commit hslot hp
  refine ⟨d.held (2 * t), s'.call, σ.db, ?_, hadmits⟩
  rw [← hwrites, ← hbehind.world]
  exact committed_of_slot hd.reaches hslot' hp'

/-- A concern's detail, sent back as it was read in some world of the run, is accepted. The commit
writes the fields as they were read, and leaves the alias as it is. -/
theorem concern_detail_sent_back (htexts : ∀ o s, σ₀.db.Stores (.text o s) → F.Passes o s)
    (hsecondaries : ∀ types, σ₀.db.Stores (.concernTypeSecondary types) → types.length ≤ 2)
    (h : Config.Run (Config.idle σ₀) c σs) {σ : World Db} (hσ : σ ∈ σs) {row : Concern}
    (hrow : row ∈ σ.db.concerns) :
    (ConcernUpdateSerializer F).run (ConcernDetailSerializer R (concernDetail σ.db row)) =
        .ok (concernDetail σ.db row).edit ∧
      ∀ t s n user id, c.slot t = some s → s.prog = .commit n →
        s.call = .send user (.editConcern id) (ConcernDetailSerializer R (concernDetail σ.db row)) →
        ∃ e now, c.world.db.concerns.get? id = some now ∧ s.writes = [(e, .updateConcern id
          { fields := some { row.fields with displayAlias := now.fields.displayAlias }
            autoNow := true })] := by
  have hpass : ∀ d ∈ row.fields.data, (σ₀.db.Stores d → d.Passes F) → d.Passes F :=
    fun d hd h₀ => passes_through h₀ h hσ (.concern row hrow hd)
  simp only [ConcernFields.data, List.forall_mem_cons] at hpass
  obtain ⟨hsummary, hsecondary, hcontext, -⟩ := hpass
  have haccepted : (ConcernUpdateSerializer F).run
      (ConcernDetailSerializer R (concernDetail σ.db row)) = .ok (concernDetail σ.db row).edit :=
    concernDetail_accepted (hsummary (htexts _ _)) (hsecondary (hsecondaries _)) (hcontext (htexts _ _))
  refine ⟨haccepted, fun t s n user id hslot hp hcall => ?_⟩
  obtain ⟨L, call, db, hcommitted, hadmits⟩ := site_commit h hslot hp
  rw [hcall] at hadmits
  obtain rfl : Call.updateOwnConcern user id (concernDetail σ.db row).edit = call :=
    Option.some.inj ((validated_of_ok haccepted).symm.trans hadmits.1)
  obtain ⟨e, now, -, hnow, -, -, -, -, hwrites⟩ := hcommitted
  rw [ConcernDetail.edit_apply] at hwrites
  exact ⟨e, now, hnow, hwrites⟩

/-- The same of an advice's. Its version counts up, with a row of its history, only if somebody has
changed the text in between, and it stays the draft it is or is not. -/
theorem advice_detail_sent_back (htexts : ∀ o s, σ₀.db.Stores (.text o s) → F.Passes o s)
    (h : Config.Run (Config.idle σ₀) c σs) {σ : World Db} (hσ : σ ∈ σs) {a : Advice}
    (ha : a ∈ σ.db.advices) (viewer : Viewer) :
    (AdviceUpdateSerializer F).run (AdviceDetailSerializer R (adviceDetail σ.db a viewer)) =
        .ok (adviceDetail σ.db a viewer).edit ∧
      ∀ t s n user id, c.slot t = some s → s.prog = .commit n →
        s.call = .send user (.updateAdvice id)
          (AdviceDetailSerializer R (adviceDetail σ.db a viewer)) →
        ∃ e now snapshot, c.world.db.advices.get? id = some now ∧
          s.writes = snapshot ++ [(e, .updateAdvice id
            { body := some a.body
              version := some (if now.body = a.body then now.version else now.version + 1)
              isSubmitted := some now.isSubmitted
              autoNow := true })] ∧
          RanIf (now.body ≠ a.body) (.insertHistory
            { advice := id, version := now.version, body := now.body, editedBy := user }) snapshot := by
  have hpass : ∀ d ∈ a.body.data, (σ₀.db.Stores d → d.Passes F) → d.Passes F :=
    fun d hd h₀ => passes_through h₀ h hσ (.advice a ha (List.mem_cons_of_mem _ hd))
  simp only [AdviceBody.data, List.forall_mem_cons] at hpass
  obtain ⟨hguidance, hquestions, hconsiderations, -⟩ := hpass
  have haccepted : (AdviceUpdateSerializer F).run
      (AdviceDetailSerializer R (adviceDetail σ.db a viewer)) =
        .ok (adviceDetail σ.db a viewer).edit :=
    adviceDetail_accepted (hguidance (htexts _ _)) (hquestions (htexts _ _))
      (hconsiderations (htexts _ _))
  refine ⟨haccepted, fun t s n user id hslot hp hcall => ?_⟩
  obtain ⟨L, call, db, hcommitted, hadmits⟩ := site_commit h hslot hp
  rw [hcall] at hadmits
  obtain rfl : Call.updateAdvice id user (adviceDetail σ.db a viewer).edit = call :=
    Option.some.inj ((validated_of_ok haccepted).symm.trans hadmits.1)
  obtain ⟨e, now, snapshot, -, hnow, -, -, hwrites, -, hsnapshot⟩ := hcommitted
  have hchanges : (adviceDetail σ.db a viewer).edit.changes now.body = true ↔ now.body ≠ a.body :=
    AdviceDetail.edit_changes _ _
  have hversion : (if (adviceDetail σ.db a viewer).edit.changes now.body = true then now.version + 1
      else now.version) = if now.body = a.body then now.version else now.version + 1 := by
    by_cases hsame : now.body = a.body
    · rw [if_neg fun h => hchanges.mp h hsame, if_pos hsame]
    · rw [if_pos (hchanges.mpr hsame), if_neg hsame]
  refine ⟨e, now, snapshot, hnow, ?_, ?_⟩
  · rw [hwrites, hversion, AdviceDetail.edit_apply]
    rfl
  · rwa [propext hchanges] at hsnapshot

end

def plainRendering : Rendering where
  id n := text (toString n)
  time t := text (toString t)

def askedOnce : Concern :=
  { id := 7, author := 1, fields := { concernSummary := "stay or go?", concernType := .burnout }
    createdAt := 2, updatedAt := 2 }

def advisedOnce : Advice :=
  { id := 9, concern := 7, advisor := 2, body := { directionalGuidance := "stay" }
    createdAt := 3, updatedAt := 3 }

def storedOnce : World Db :=
  ⟨{ users := (Table.empty.insert { id := 2, nickname := "가온", activeRole := .advisor }).insert
        { id := 1, nickname := "다온" }
     concerns := Table.empty.insert askedOnce
     advices := Table.empty.insert advisedOnce }, 4⟩

theorem storedOnce_passes (d : Datum) (h : storedOnce.db.Stores d) : d.Passes plainFields := by
  cases h with
  | user u h hd =>
    have husers : ∀ u ∈ storedOnce.db.users.rows, ∀ d ∈ u.data, d.Passes plainFields := by
      decide +kernel
    exact husers u h d hd
  | concern c h hd =>
    obtain rfl : c = askedOnce := List.mem_singleton.mp h
    have hasked : ∀ d ∈ askedOnce.fields.data, d.Passes plainFields := by decide +kernel
    exact hasked d hd
  | advice a h hd =>
    obtain rfl : a = advisedOnce := List.mem_singleton.mp h
    have hadvised : ∀ d ∈ advisedOnce.data, d.Passes plainFields := by decide +kernel
    exact hadvised d hd
  | application _ h _ | history _ h _ | feedback _ h _ => exact absurd h (Table.not_mem_empty _)

/-- The asker sends back what #18 answers. -/
def concernSentBack : Config (site plainFields fun _ _ => false) :=
  (Config.idle storedOnce).after
    [.start 0 (.send 1 (.editConcern 7)
        (ConcernDetailSerializer plainRendering (concernDetail storedOnce.db askedOnce))),
      .run 0 0, .run 0 0, .run 0 0, .run 0 0]

set_option maxRecDepth 2000 in
theorem concern_detail_sent_back_once : ∃ s e, concernSentBack.slot 0 = some s ∧
    s.writes = [(e, .updateConcern 7 { fields := some askedOnce.fields, autoNow := true })] := by
  obtain ⟨σs, h⟩ := (Config.reachable_after _ _ : Config.Reachable _ concernSentBack).through
  have hasked : askedOnce ∈ storedOnce.db.concerns := List.mem_singleton_self _
  obtain ⟨-, hcommit⟩ :=
    concern_detail_sent_back (R := plainRendering) (fun o s => storedOnce_passes (.text o s))
      (fun types => storedOnce_passes (.concernTypeSecondary types)) h h.first_mem hasked
  obtain ⟨e, now, hnow, hwrites⟩ := hcommit 0 _ _ 1 7 rfl rfl rfl
  obtain rfl : askedOnce = now := Option.some.inj hnow
  exact ⟨_, e, rfl, hwrites⟩

/-- The advisor sends back what #27 answers. -/
def adviceSentBack : Config (site plainFields fun _ _ => false) :=
  (Config.idle storedOnce).after
    [.start 0 (.send 2 (.updateAdvice 9)
        (AdviceDetailSerializer plainRendering (adviceDetail storedOnce.db advisedOnce .author))),
      .run 0 0, .run 0 0, .run 0 0]

theorem advice_detail_sent_back_once : ∃ s e, adviceSentBack.slot 0 = some s ∧
    s.writes = [(e, .updateAdvice 9
      { body := some advisedOnce.body, version := some 1, isSubmitted := some true
        autoNow := true })] := by
  obtain ⟨σs, h⟩ := (Config.reachable_after _ _ : Config.Reachable _ adviceSentBack).through
  have hadvised : advisedOnce ∈ storedOnce.db.advices := List.mem_singleton_self _
  obtain ⟨-, hcommit⟩ :=
    advice_detail_sent_back (R := plainRendering) (fun o s => storedOnce_passes (.text o s)) h
      h.first_mem hadvised .author
  obtain ⟨e, now, snapshot, hnow, hwrites, hsnapshot⟩ := hcommit 0 _ _ 2 9 rfl rfl rfl
  obtain rfl : advisedOnce = now := Option.some.inj hnow
  cases hsnapshot with
  | ran e' hc => exact absurd rfl hc
  | skipped hc => exact ⟨_, e, rfl, hwrites⟩

end Chamneul
