import Chamneul.Proofs.Atomic
import Chamneul.Proofs.BoardRefinement

/-! The life of a concern: its status follows its assignments and advices. -/

namespace Chamneul

open ReadCommitted

/-- The status of every concern agrees with its assignments and its advices. An
active assignment is of a concern that exists. -/
structure ConcernsFit (db : Db) : Prop where
  known : ∀ a ∈ db.assignments, a.isActive = true → ∃ c ∈ db.concerns, c.id = a.concern
  submitted : ∀ c ∈ db.concerns, c.status = .submitted →
    ∀ a ∈ db.assignments, a.concern = c.id → a.isActive = false
  assigned : ∀ c ∈ db.concerns, c.status = .assigned →
    ∃ a ∈ db.assignments, a.concern = c.id ∧ a.isActive = true
  answered : ∀ c ∈ db.concerns, c.status = .answered ∨ c.status = .closed →
    ∃ a ∈ db.advices, a.concern = c.id ∧ a.status = .approved

theorem board_status_of_mem {db : Db} {c : Concern} (hc : c ∈ db.concerns) :
    (board db).status c.id = some c.status :=
  board_status (Table.mem_iff_get?.mp hc)

theorem exists_of_board_status {db : Db} {i : Id} {s : ConcernStatus}
    (h : (board db).status i = some s) : ∃ c ∈ db.concerns, c.id = i ∧ c.status = s := by
  obtain ⟨c, hc, hs⟩ := Option.map_eq_some_iff.mp h
  obtain ⟨hm, hi⟩ := Table.get?_eq_some.mp hc
  exact ⟨c, hm, hi, hs⟩

theorem consistent_iff {db : Db} : (board db).Consistent ↔ ConcernsFit db := by
  constructor
  · intro h
    refine ⟨fun a ha hact => ?_, fun c hc hs a ha hac => ?_, fun c hc hs => ?_, fun c hc hs => ?_⟩
    · have hfit := h a.concern
      cases hst : (board db).status a.concern with
      | none =>
        rw [hst] at hfit
        exact absurd (mem_active.mpr ⟨a, ha, rfl, hact⟩) hfit
      | some s =>
        obtain ⟨c, hc, hi, -⟩ := exists_of_board_status hst
        exact ⟨c, hc, hi⟩
    · have hfit := h c.id
      rw [board_status_of_mem hc, hs] at hfit
      by_contra hact
      exact hfit (mem_active.mpr ⟨a, ha, hac, by simpa using hact⟩)
    · have hfit := h c.id
      rw [board_status_of_mem hc, hs] at hfit
      exact mem_active.mp hfit
    · have hfit := h c.id
      rw [board_status_of_mem hc] at hfit
      rcases hs with hs | hs <;> (rw [hs] at hfit; exact mem_approved.mp hfit)
  · intro h i
    cases hst : (board db).status i with
    | none =>
      intro hi
      obtain ⟨a, ha, rfl, hact⟩ := mem_active.mp hi
      obtain ⟨c, hc, hi⟩ := h.known a ha hact
      rw [← hi, board_status_of_mem hc] at hst
      cases hst
    | some s =>
      obtain ⟨c, hc, rfl, rfl⟩ := exists_of_board_status hst
      cases hs : c.status with
      | submitted =>
        intro hi
        obtain ⟨a, ha, hac, hact⟩ := mem_active.mp hi
        rw [h.submitted c hc hs a ha hac] at hact
        cases hact
      | assigned => exact mem_active.mpr (h.assigned c hc hs)
      | answered => exact mem_approved.mpr (h.answered c hc (Or.inl hs))
      | closed => exact mem_approved.mpr (h.answered c hc (Or.inr hs))

/-- No concern is lost, and its status moves only along an edge. -/
def StatusFollows (db db' : Db) : Prop :=
  ∀ c ∈ db.concerns, ∃ c' ∈ db'.concerns, c'.id = c.id ∧
    (c'.status = c.status ∨ c.status.Moves c'.status)

theorem statusFollows_of_follows {db db' : Db} (h : (board db).Follows (board db')) :
    StatusFollows db db' := by
  intro c hc
  obtain ⟨s', hs', hmove⟩ := h c.id c.status (board_status_of_mem hc)
  obtain ⟨c', hc', hi, rfl⟩ := exists_of_board_status hs'
  exact ⟨c', hc', hi, hmove⟩

/-- A committed transaction is one step of the board. -/
theorem board_commits {drift : Db → Db → Prop} {call : Call} {db db' : Db}
    (h : (commits drift call).Commits db db') :
    ∃ e, Board.Step (board db) e (board db') ∧ ∀ c, e = .approve c → Approves db call c := by
  obtain ⟨L, w, σ, rfl, hc, rfl⟩ := h
  exact board_step hc

/-- In every schedule the status of every concern agrees with its assignments and
advices, and each commit moves it along an edge or not at all. -/
theorem concern_lifecycle {σ₀ : World Db} {c : Config system} (h₀ : ConcernsFit σ₀.db)
    (hr : Config.Reachable (Config.idle σ₀) c) :
    ConcernsFit c.world.db ∧
      ∀ e c', c.step e = some c' → StatusFollows c.world.db c'.world.db := by
  constructor
  · refine consistent_iff.mp (discipline.invariant (J := fun db => (board db).Consistent) ?_
      (consistent_iff.mpr h₀) hr)
    intro call db db' hc hb
    obtain ⟨e, hs, -⟩ := board_commits hc
    exact hs.consistent hb
  · intro e c' hs
    refine statusFollows_of_follows ?_
    rcases discipline.step_commits (discipline.holds hr) hs with he | ⟨call, hc⟩
    · rw [he]
      exact Board.Step.stay.follows
    · obtain ⟨e, hs, -⟩ := board_commits hc
      exact hs.follows

def advisorOnly : World Db :=
  ⟨{ userRoles := Table.empty.insert { id := 1, user := 2, role := .advisor } }, 0⟩

theorem concernsFit_advisorOnly : ConcernsFit advisorOnly.db where
  known a ha := absurd ha (Table.not_mem_empty a)
  submitted c hc := absurd hc (Table.not_mem_empty c)
  assigned c hc := absurd hc (Table.not_mem_empty c)
  answered c hc := absurd hc (Table.not_mem_empty c)

def assigning : Config system :=
  (Config.idle advisorOnly).after
    [.start 0 (.createConcern 1 { concernSummary := "", concernType := .burnout }), .run 0 0,
      .run 0 0, .start 1 (.assignAdvisor 0 9 { advisorUserId := 2, triageDecision := .suitable }),
      .run 1 7, .run 1 7, .run 1 7, .run 1 7, .run 1 7, .run 1 7]

theorem concern_lifecycle_assigning : ConcernsFit assigning.world.db ∧
    (assigning.world.db.concerns.get? 0).map (·.status) = some .assigned :=
  ⟨(concern_lifecycle concernsFit_advisorOnly (Config.reachable_after _ _)).1, by decide⟩

def ApprovalsShown (db : Db) : Prop :=
  ∀ a ∈ db.advices, a.status = .approved →
    ∃ c ∈ db.concerns, c.id = a.concern ∧ (c.status = .answered ∨ c.status = .closed)

theorem reflected_iff {db : Db} : (board db).Reflected ↔ ApprovalsShown db := by
  constructor
  · intro h a ha happ
    rcases h a.concern (mem_approved.mpr ⟨a, ha, rfl, happ⟩) with hs | hs
    · obtain ⟨c, hc, hi, hst⟩ := exists_of_board_status hs
      exact ⟨c, hc, hi, Or.inl hst⟩
    · obtain ⟨c, hc, hi, hst⟩ := exists_of_board_status hs
      exact ⟨c, hc, hi, Or.inr hst⟩
  · intro h i hi
    obtain ⟨a, ha, rfl, happ⟩ := mem_approved.mp hi
    obtain ⟨c, hc, hci, hs⟩ := h a ha happ
    rw [← hci, board_status_of_mem hc]
    exact hs.imp (congrArg some) (congrArg some)

def NotWhileSubmitted (db : Db) (call : Call) : Prop :=
  ∀ id concern, Approves db call id → db.concerns.get? id = some concern →
    concern.status ≠ .submitted

/-- Approvals show as long as none goes through on a concern that has been
unassigned back to SUBMITTED. -/
theorem approvals_shown {σ₀ σ : World Db} (h₀ : ApprovalsShown σ₀.db)
    (hr : Serial system NotWhileSubmitted σ₀ σ) : ApprovalsShown σ.db := by
  refine reflected_iff.mp (discipline.serial program_once (J := fun db => (board db).Reflected) ?_ hr
    (reflected_iff.mpr h₀))
  intro call db db' hok hb hc
  obtain ⟨e, hs, happ⟩ := board_commits hc
  refine hs.reflected (fun i hi hsub => ?_) hb
  obtain ⟨concern, hconcern, hst⟩ := Option.map_eq_some_iff.mp hsub
  exact hok i concern (happ i hi) hconcern hst

/-- The advice of an advisor who has been unassigned meanwhile is approved. -/
def lateApproval : List Call :=
  [.createConcern 1 { concernSummary := "", concernType := .burnout },
    .assignAdvisor 0 9 { advisorUserId := 2, triageDecision := .suitable },
    .createAdvice 0 2 { directionalGuidance := "" } true, .unassignAdvisor 0 4,
    .reviewAdvice 10 9 .approved "" 1]

theorem lateApproval_hidden : ApprovalsShown advisorOnly.db ∧
    Serial system (fun _ _ => True) advisorOnly (system.serve id lateApproval advisorOnly) ∧
    ¬ ApprovalsShown (system.serve id lateApproval advisorOnly).db := by
  refine ⟨fun a ha => absurd ha (Table.not_mem_empty a),
    Serial.refl.serve id fun _ _ _ => trivial, fun h => ?_⟩
  have hadvice : ((system.serve id lateApproval advisorOnly).db.advices.get? 10).map
      (fun a => (a.concern, a.status)) = some (0, .approved) := by decide
  have hconcern : ((system.serve id lateApproval advisorOnly).db.concerns.get? 0).map (·.status) =
      some .submitted := by decide
  obtain ⟨a, ha, hac⟩ := Option.map_eq_some_iff.mp hadvice
  obtain ⟨hm, happ⟩ : a.concern = 0 ∧ a.status = .approved := by simpa using hac
  obtain ⟨c, hc, hid, hs⟩ := h a (Table.get?_eq_some.mp ha).1 happ
  have hget := Table.mem_iff_get?.mp hc
  rw [Concern.key_eq, hid, hm] at hget
  rw [hget] at hconcern
  have hsub : c.status = .submitted := by simpa using hconcern
  rcases hs with hs | hs <;> rw [hsub] at hs <;> cases hs

/-- Approved while the advisor is still assigned, the same advice shows. -/
theorem approvals_shown_inTime : ApprovalsShown (system.serve id
    [.reviewAdvice 10 9 .approved "" 1] (system.serve id (lateApproval.take 3) advisorOnly)).db := by
  have hstart : Serial system NotWhileSubmitted advisorOnly
      (system.serve id (lateApproval.take 3) advisorOnly) := by
    refine Serial.refl.serve id fun db call hcall i concern happ _ => ?_
    obtain ⟨_, _, _, _, _, _, rfl, -⟩ := happ
    simp [lateApproval] at hcall
  have hrow : ((system.serve id (lateApproval.take 3) advisorOnly).db.advices.get? 10).map
      (·.concern) = some 0 := by decide
  have hstatus : ((system.serve id (lateApproval.take 3) advisorOnly).db.concerns.get? 0).map
      (·.status) = some .assigned := by decide
  refine approvals_shown (fun a ha => absurd ha (Table.not_mem_empty a)) (hstart.call _ id ?_)
  rintro i concern ⟨_, _, _, _, row, _, hcall, hget, -, -, -, hi, -⟩ hconcern hs
  cases hcall
  rw [hget] at hrow
  obtain rfl : i = 0 := by simpa [← hi] using hrow
  rw [hconcern] at hstatus
  simp [hs] at hstatus

end Chamneul
