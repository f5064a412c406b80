import Chamneul.Proofs.AdviceLifecycle
import Chamneul.Proofs.Queries
import Chamneul.Proofs.RoleRefusals
import Chamneul.Spec.ListApi

/-! The admins' review queue against the guards of a review: an advice is in the queue
exactly when its review goes through. -/

namespace Chamneul

open ReadCommitted ReadCommitted.Prog Service

/-- `advice_concern_advisor_unique_active`. -/
def Db.OneAdviceEach (db : Db) : Prop :=
  ∀ a ∈ db.advices, ∀ b ∈ db.advices, a.concern = b.concern → a.advisor = b.advisor →
    a.status ≠ .deleted → b.status ≠ .deleted → a.id = b.id

/-- Submitted, not yet decided, and its concern is there. -/
structure Db.Reviewable (db : Db) (a : Advice) : Prop where
  submitted : a.isSubmitted = true
  undecided : a.status ∈ reviewableStatuses
  concern : ∃ c, db.concerns.get? a.concern = some c ∧ c.deletedAt = none

theorem mem_listAdvicesForAdminReview {db : Db} {status : Option AdviceStatus} {a : Advice}
    (ha : a ∈ db.advices) : a ∈ db.listAdvicesForAdminReview status ↔
    a.isSubmitted = true ∧ (∃ c, db.concerns.get? a.concern = some c ∧ c.deletedAt = none) ∧
      a.status = status.getD .pending := by
  have ha : a ∈ db.advices.rows := ha
  simp only [Db.listAdvicesForAdminReview, List.mem_filter, mem_newestFirst, ha, true_and,
    Bool.and_eq_true, Option.any_eq_true, Option.isNone_iff_eq_none, decide_eq_true_eq, and_assoc]

theorem reviewable_iff_listed {db : Db} {a : Advice} (ha : a ∈ db.advices) : db.Reviewable a ↔
    a ∈ db.listAdvicesForAdminReview none ∨ a ∈ db.listAdvicesForAdminReview (some .reviewing) := by
  rw [mem_listAdvicesForAdminReview ha, mem_listAdvicesForAdminReview ha]
  constructor
  · intro h
    have hstatus : a.status = .pending ∨ a.status = .reviewing := by
      simpa [reviewableStatuses] using h.undecided
    exact hstatus.imp (⟨h.submitted, h.concern, ·⟩) (⟨h.submitted, h.concern, ·⟩)
  · rintro (⟨hsubmitted, hconcern, hs⟩ | ⟨hsubmitted, hconcern, hs⟩)
    · exact ⟨hsubmitted, by rw [hs]; decide, hconcern⟩
    · exact ⟨hsubmitted, by rw [hs]; decide, hconcern⟩

section

variable {draw : ℕ → ℕ} {σ : World Db} {a : Advice} {c : Concern} {decision : Decision}
  {reason : String}

/-- What is left of `review_advice` when the guards are passed. -/
def reviewEnd (advice : Advice) (concern : Concern) (actor : Id) (decision : Decision)
    (reason : String) : Service (Advice × Concern) := do
  let now ← time
  let advice := reviewed advice actor decision reason now
  write (.saveAdvice advice) fun _ _ => ()
  decisionEffects advice concern actor decision reason
  pure (advice, answered concern decision)

/-- The index lets the advice through: nobody else has its place. -/
theorem saveAdvice_free {db : Db} (hone : db.OneAdviceEach) (ha : a ∈ db.advices)
    (hstatus : a.status ∈ reviewableStatuses) (e : Env) (actor : Id) (now : Time) :
    violates db e (.saveAdvice (reviewed a actor decision reason now)) = false := by
  have hlive : a.status ≠ .deleted := by
    intro hs
    rw [hs] at hstatus
    simp [reviewableStatuses] at hstatus
  simp only [violates, Bool.and_eq_false_iff, Table.any_eq_false_iff, decide_eq_false_iff_not]
  refine Or.inr fun b hb => ?_
  rintro ⟨hid, hconcern, hadvisor, hb'⟩
  exact hid (hone b hb a ha hconcern hadvisor hb' hlive)

theorem insertNotification_free {db : Db} {e : Env} (h : db.notifications.get? e.uuid = none)
    (n : Notification) : violates db e (.insertNotification n) = false := by
  rw [violates, h, Option.isSome_none]

/-- The writes of a decision beyond the advice meet no constraint. -/
theorem decisionEffects_alone {w : Pending Write} {σ' : World Db}
    (hdraw : ∀ now, (σ'.view w).notifications.get? (draw now) = none) (a : Advice) (c : Concern)
    (actor : Id) (decision : Decision) (reason : String) :
    ∃ w' σ'', (decisionEffects a c actor decision reason).alone draw w σ' = (.ok (), w', σ'') := by
  cases decision with
  | approved =>
    by_cases hs : c.status = .assigned
    · let e : Env := ⟨σ'.now, draw σ'.now⟩
      let x : Write := .updateConcern c.id { status := some .answered }
      have hrun : (runIf (c.status = .assigned) (write x fun _ _ => ()) : Service Unit).alone draw w
          σ' = (.ok (), w ++ [(e, x)], σ'.tick) := by
        rw [runIf, if_pos hs]
        exact alone_write rfl _
      have hview : (σ'.tick.view (w ++ [(e, x)])).notifications = (σ'.view w).notifications := by
        rw [World.view, applyAll_append]
        rfl
      rw [decisionEffects, alone_bind_ok hrun]
      exact ⟨_, _, alone_write (insertNotification_free (by rw [hview]; exact hdraw _) _) _⟩
    · have hrun : (runIf (c.status = .assigned) (write (.updateConcern c.id
          { status := some .answered }) fun _ _ => ()) : Service Unit).alone draw w σ' =
          (.ok (), w, σ') := by
        rw [runIf, if_neg hs]
        rfl
      rw [decisionEffects, alone_bind_ok hrun]
      exact ⟨_, _, alone_write (insertNotification_free (hdraw _) _) _⟩
  | rejected => exact ⟨_, _, alone_write (insertNotification_free (hdraw _) _) _⟩

theorem reviewEnd_succeeds (hone : σ.db.OneAdviceEach) (ha : a ∈ σ.db.advices)
    (hstatus : a.status ∈ reviewableStatuses)
    (hdraw : ∀ now, σ.db.notifications.get? (draw now) = none) (c : Concern) (actor : Id)
    (decision : Decision) (reason : String) :
    (reviewEnd a c actor decision reason).Succeeds draw [] σ := by
  have hsave : violates (σ.tick.view []) ⟨σ.tick.now, draw σ.tick.now⟩
      (.saveAdvice (reviewed a actor decision reason σ.now)) = false :=
    saveAdvice_free hone ha hstatus _ _ _
  have htime : (time : Service Time).alone draw [] σ = (.ok σ.now, [], σ.tick) := rfl
  have hdraw' : ∀ now, (σ.tick.tick.view [(⟨σ.tick.now, draw σ.tick.now⟩,
      .saveAdvice (reviewed a actor decision reason σ.now))]).notifications.get? (draw now) = none := hdraw
  obtain ⟨w, σ', heffects⟩ := decisionEffects_alone hdraw' (reviewed a actor decision reason σ.now) c
    actor decision reason
  rw [reviewEnd, succeeds_bind_ok htime, succeeds_bind_ok (alone_write hsave _)]
  exact succeeds_of_alone (alone_bind_ok heffects _)

/-- A review that is alone passes its guards or stops at one. -/
theorem reviewAdvice_guarded (ha : a ∈ σ.db.advices) (actor : Id) (decision : Decision)
    (reason : String) :
    (∃ r, ((reviewAdvice a.id actor decision reason a.version).exec draw [] σ).1 = .ok r) ↔
      (σ.db.Reviewable a ∧ ¬ (decision = .rejected ∧ strip reason = "")) ∧
      ∀ c, σ.db.concerns.get? a.concern = some c →
        (reviewEnd a c actor decision reason).Succeeds draw [] σ.tick.tick := by
  have hrow : σ.db.advices.get? a.id = some a := Table.mem_iff_get?.mp ha
  have hget : (getForUpdate (.advice a.id) fun db => db.advices.get? a.id : Service Advice).alone
      draw [] σ = (.ok a, [], σ.tick) := by
    rw [getForUpdate, lockOr, alone_bind_ok (alone_queryForUpdate ..), World.view_nil, hrow]
    rfl
  rw [exec_succeeds, reviewAdvice, succeeds_atomic, succeeds_bind_ok hget, succeeds_bind_raiseIf,
    succeeds_bind_raiseIf, succeeds_bind_raiseIf, succeeds_bind_raiseIf,
    succeeds_bind_ok (alone_queryForUpdate ..), World.view_nil, World.tick_db]
  cases hc : σ.db.concerns.get? a.concern with
  | none =>
    have hraise : (getOr .doesNotExist (none : Option Concern)).alone draw [] σ.tick.tick =
        (.error .doesNotExist, [], σ.tick.tick) := rfl
    refine iff_of_false (fun h => not_succeeds_bind hraise _ h.2.2.2.2) fun h => ?_
    obtain ⟨c, hc', -⟩ := h.1.1.concern
    rw [hc] at hc'
    cases hc'
  | some c =>
    have hok : (getOr .doesNotExist (some c)).alone draw [] σ.tick.tick =
        (.ok c, [], σ.tick.tick) := rfl
    rw [succeeds_bind_ok hok, succeeds_bind_raiseIf]
    constructor
    · rintro ⟨hsubmitted, hstatus, -, hreason, hlive, hend⟩
      refine ⟨⟨⟨by simpa using hsubmitted, not_not.mp hstatus, c, hc, not_not.mp hlive⟩, hreason⟩, ?_⟩
      intro c' hc'
      obtain rfl := Option.some.inj hc'
      exact hend
    · rintro ⟨⟨⟨hsubmitted, hstatus, c', hc', hlive⟩, hreason⟩, hend⟩
      obtain rfl : c = c' := Option.some.inj (hc.symm.trans hc')
      exact ⟨by simp [hsubmitted], not_not.mpr hstatus, not_not.mpr rfl, hreason,
        not_not.mpr hlive, hend c rfl⟩

theorem reviewAdvice_succeeds (hone : σ.db.OneAdviceEach) (ha : a ∈ σ.db.advices)
    (hdraw : ∀ now, σ.db.notifications.get? (draw now) = none) (actor : Id) (decision : Decision)
    (reason : String) :
    (∃ r, ((reviewAdvice a.id actor decision reason a.version).exec draw [] σ).1 = .ok r) ↔
      σ.db.Reviewable a ∧ ¬ (decision = .rejected ∧ strip reason = "") := by
  rw [reviewAdvice_guarded ha]
  refine and_iff_left_of_imp fun h c _ => ?_
  exact reviewEnd_succeeds (σ := σ.tick.tick) hone ha h.1.undecided hdraw c actor decision reason

end

/-- The reviews of `a` at its version go through exactly when the queue has it. -/
structure QueueMatches (draw : ℕ → ℕ) (σ : World Db) (a : Advice) : Prop where
  byDefault : σ.db.listAdvicesForAdminReview none = σ.db.listAdvicesForAdminReview (some .pending)
  approved : ∀ actor reason, (a ∈ σ.db.listAdvicesForAdminReview none ∨
      a ∈ σ.db.listAdvicesForAdminReview (some .reviewing)) ↔
    ∃ r, ((reviewAdvice a.id actor .approved reason a.version).exec draw [] σ).1 = .ok r
  rejected : ∀ actor reason, strip reason ≠ "" → ((a ∈ σ.db.listAdvicesForAdminReview none ∨
      a ∈ σ.db.listAdvicesForAdminReview (some .reviewing)) ↔
    ∃ r, ((reviewAdvice a.id actor .rejected reason a.version).exec draw [] σ).1 = .ok r)

theorem queueMatches {draw : ℕ → ℕ} {σ : World Db} {a : Advice} (hone : σ.db.OneAdviceEach)
    (ha : a ∈ σ.db.advices) (hdraw : ∀ now, σ.db.notifications.get? (draw now) = none) :
    QueueMatches draw σ a where
  byDefault := rfl
  approved actor reason := by
    rw [← reviewable_iff_listed ha, reviewAdvice_succeeds hone ha hdraw]
    simp
  rejected actor reason hreason := by
    rw [← reviewable_iff_listed ha, reviewAdvice_succeeds hone ha hdraw]
    simp [hreason]

theorem Dossier.Step.not_reviewing {d d' : Dossier} (h : d.Step d')
    (hd : d.row.status ≠ .reviewing) : d'.row.status ≠ .reviewing := by
  cases h with
  | review status _ _ _ _ _ _ hdec =>
    rcases hdec with ⟨rfl, -⟩ | ⟨rfl, -⟩ <;> simp
  | withdraw _ => simp
  | _ => exact hd

/-- No service brings an advice under review. -/
theorem not_reviewing_reachable {σ₀ : World Db} {c : Config system}
    (h₀ : Dossiers (fun d => d.row.status ≠ .reviewing) σ₀.db)
    (hr : Config.Reachable (Config.idle σ₀) c) {a : Advice} (ha : a ∈ c.world.db.advices) :
    a.status ≠ .reviewing := by
  have hall := dossiers_reachable (fun d hn => by rw [hn.status]; simp)
    (fun d d' hs => hs.not_reviewing) h₀ hr
  exact hall.each a.id ⟨a, c.world.db.log a.id⟩
    (dossier_eq_some.mpr ⟨Table.mem_iff_get?.mp ha, rfl⟩)

/-- On every database the queue shows what can be reviewed, and where the services alone have
been at work its default page has all of it. -/
theorem review_queue :
    (∀ (σ : World Db) (draw : ℕ → ℕ), σ.db.OneAdviceEach →
      (∀ now, σ.db.notifications.get? (draw now) = none) →
      ∀ a ∈ σ.db.advices, QueueMatches draw σ a) ∧
    ∀ (σ₀ : World Db) (c : Config system), Dossiers (fun d => d.row.status ≠ .reviewing) σ₀.db →
      Config.Reachable (Config.idle σ₀) c →
      ∀ a ∈ c.world.db.advices, ∀ draw actor decision reason,
        (∃ r, ((reviewAdvice a.id actor decision reason a.version).exec draw [] c.world).1 = .ok r) →
          a ∈ c.world.db.listAdvicesForAdminReview none := by
  refine ⟨fun σ draw hone hdraw a ha => queueMatches hone ha hdraw, ?_⟩
  intro σ₀ c h₀ hr a ha draw actor decision reason hsucceeds
  have hreviewable := ((reviewAdvice_guarded ha actor decision reason).mp hsucceeds).1.1
  have hsettled := not_reviewing_reachable h₀ hr ha
  rcases (reviewable_iff_listed ha).mp hreviewable with h | h
  · exact h
  · exact absurd ((mem_listAdvicesForAdminReview ha).mp h).2.2 hsettled

def submitted : Config system :=
  (Config.idle desk).after
    [.start 0 (.createAdvice 0 2 { directionalGuidance := "a" } true), .run 0 5, .run 0 5, .run 0 5,
      .run 0 5]

/-- It is the one in the queue, and its review goes through. -/
theorem review_queue_submitted :
    ∃ a, submitted.world.db.advices.get? 5 = some a ∧
      QueueMatches (fun _ => 50) submitted.world a ∧
      a ∈ submitted.world.db.listAdvicesForAdminReview none := by
  have hreach : Config.Reachable (Config.idle desk) submitted := Config.reachable_after _ _
  have hversion : (submitted.world.db.advices.get? 5).map (·.version) = some 1 := by decide +kernel
  obtain ⟨a, hget, hversion⟩ := Option.map_eq_some_iff.mp hversion
  obtain ⟨ha, hid : a.id = 5⟩ := Table.get?_eq_some.mp hget
  have hids : ∀ z ∈ submitted.world.db.advices.rows, z.id = 5 := by decide +kernel
  have hone : submitted.world.db.OneAdviceEach :=
    fun x hx y hy _ _ _ _ => (hids x hx).trans (hids y hy).symm
  have hpasses : ((reviewAdvice 5 9 .approved "" 1).exec id [] submitted.world).1.isOk = true := by
    decide +kernel
  refine ⟨a, hget, review_queue.1 _ (fun _ => 50) hone (fun _ => by decide +kernel) a ha,
    review_queue.2 desk submitted (dossiers_desk _) hreach a ha id 9 .approved "" ?_⟩
  rw [hid, hversion]
  cases hout : ((reviewAdvice 5 9 .approved "" 1).exec id [] submitted.world).1 with
  | ok r => exact ⟨r, rfl⟩
  | error e =>
    rw [hout] at hpasses
    cases hpasses

end Chamneul
