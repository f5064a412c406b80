import Chamneul.Proofs.Queries
import Chamneul.Proofs.ConcernLifecycle

/-! The advisor's queue and its detail page. Both start from the advisor's active
assignments; only the detail asks whether the concern is still there. -/

namespace Chamneul

open ReadCommitted

structure ActiveOn (db : Db) (advisor : Id) (a : Assignment) (c : Concern) : Prop where
  assignment : a ∈ db.assignments
  mine : a.advisor = advisor
  active : a.isActive = true
  concern : db.concerns.get? a.concern = some c

theorem ActiveOn.concern_id {db : Db} {advisor : Id} {a : Assignment} {c : Concern}
    (h : ActiveOn db advisor a c) : a.concern = c.id :=
  (Table.get?_eq_some.mp h.concern).2.symm

theorem mem_listAssignedConcerns {db : Db} {advisor : Id} {row : Db.AssignedConcern} :
    row ∈ db.listAssignedConcerns advisor ↔
      ActiveOn db advisor row.assignment row.concern ∧
        row.adviceStatus = (db.ownAdvices row.concern.id advisor).head?.map (·.status) := by
  simp only [Db.listAssignedConcerns, List.mem_filterMap, mem_newestFirst, List.mem_filter,
    Option.map_eq_some_iff, Bool.and_eq_true, decide_eq_true_eq]
  constructor
  · rintro ⟨a, ⟨ha, hmine, hactive⟩, c, hc, rfl⟩
    have h : ActiveOn db advisor a c := ⟨ha, hmine, hactive, hc⟩
    exact ⟨h, by rw [h.concern_id]⟩
  · rintro ⟨h, hstatus⟩
    refine ⟨row.assignment, ⟨h.assignment, h.mine, h.active⟩, row.concern, h.concern, ?_⟩
    rw [h.concern_id, ← hstatus]

theorem ActiveOn.listed {db : Db} {advisor : Id} {a : Assignment} {c : Concern}
    (h : ActiveOn db advisor a c) :
    ∃ row ∈ db.listAssignedConcerns advisor, row.concern = c ∧ row.assignment = a :=
  ⟨⟨a, c, (db.ownAdvices c.id advisor).head?.map (·.status)⟩,
    mem_listAssignedConcerns.mpr ⟨h, rfl⟩, rfl, rfl⟩

/-- The rows `get_assigned_concern` hands to `get_object_or_404`. -/
def assignedRows (db : Db) (advisor concernId : Id) : List (Concern × Assignment) :=
  (db.assignments.rows.filter fun a =>
    decide (a.advisor = advisor ∧ a.concern = concernId) && a.isActive).filterMap fun a =>
      ((db.concerns.get? a.concern).filter fun c => c.deletedAt.isNone).map fun c => (c, a)

theorem mem_assignedRows {db : Db} {advisor concernId : Id} {c : Concern} {a : Assignment} :
    (c, a) ∈ assignedRows db advisor concernId ↔
      ActiveOn db advisor a c ∧ c.id = concernId ∧ c.deletedAt = none := by
  simp only [assignedRows, List.mem_filterMap, List.mem_filter, Option.map_eq_some_iff,
    Option.filter_eq_some_iff, Prod.mk.injEq, Bool.and_eq_true, decide_eq_true_eq,
    Option.isNone_iff_eq_none]
  constructor
  · rintro ⟨a, ⟨ha, ⟨hmine, rfl⟩, hactive⟩, c, ⟨hc, hlive⟩, rfl, rfl⟩
    have h : ActiveOn db advisor a c := ⟨ha, hmine, hactive, hc⟩
    exact ⟨h, h.concern_id.symm, hlive⟩
  · rintro ⟨h, hid, hlive⟩
    exact ⟨a, ⟨h.assignment, ⟨h.mine, h.concern_id.trans hid⟩, h.active⟩, c, ⟨h.concern, hlive⟩,
      rfl, rfl⟩

theorem nodup_assignedRows (db : Db) (advisor concernId : Id) :
    (assignedRows db advisor concernId).Nodup := by
  refine ((rows_nodup db.assignments).filter _).filterMap ?_
  intro a b x hx hy
  simp only [Option.mem_def, Option.map_eq_some_iff] at hx hy
  obtain ⟨c, -, rfl⟩ := hx
  obtain ⟨d, -, hd⟩ := hy
  exact (congrArg Prod.snd hd).symm

theorem getAssignedConcern_eq_ok {db : Db} {advisor concernId : Id} {c : Concern} {a : Assignment} :
    db.getAssignedConcern advisor concernId = .ok (c, a) ↔
      ActiveOn db advisor a c ∧ c.id = concernId ∧ c.deletedAt = none ∧
        ∀ b, ActiveOn db advisor b c → b = a := by
  change getObjectOr404 (assignedRows db advisor concernId) = _ ↔ _
  rw [getObjectOr404_eq_ok, eq_singleton_iff (nodup_assignedRows db advisor concernId),
    mem_assignedRows]
  constructor
  · rintro ⟨⟨h, hid, hlive⟩, hall⟩
    refine ⟨h, hid, hlive, fun b hb => ?_⟩
    exact congrArg Prod.snd (hall (c, b) (mem_assignedRows.mpr ⟨hb, hid, hlive⟩))
  · rintro ⟨h, rfl, hlive, hall⟩
    refine ⟨⟨h, rfl, hlive⟩, ?_⟩
    rintro ⟨d, b⟩ hdb
    obtain ⟨hb, hid, -⟩ := mem_assignedRows.mp hdb
    obtain rfl : c = d := by
      have hd : db.concerns.get? c.id = some d := by
        rw [← hid, ← hb.concern_id]
        exact hb.concern
      exact Option.some.inj (((h.concern_id ▸ h.concern).symm).trans hd)
    rw [hall b hb]

/-- The queue and the detail page show the same concerns, with the same assignment
and advice status, and none that is soft-deleted. -/
structure QueueAgrees (db : Db) (advisor : Id) : Prop where
  listed : ∀ concernId c a, db.getAssignedConcern advisor concernId = .ok (c, a) ↔
    ∃ row ∈ db.listAssignedConcerns advisor, row.concern = c ∧ row.assignment = a ∧ c.id = concernId
  adviceStatus : ∀ row ∈ db.listAssignedConcerns advisor, row.adviceStatus =
    (db.assignedConcernDetailViewData row.concern row.assignment advisor).myAdvice.map (·.status)
  hidden : ∀ c, c.deletedAt ≠ none → (∀ row ∈ db.listAssignedConcerns advisor, row.concern ≠ c) ∧
    ∀ concernId a, db.getAssignedConcern advisor concernId ≠ .ok (c, a)

/-- The queue follows the foreign key past the manager that hides deleted concerns, and
the second condition is what the partial unique index on active assignments keeps. -/
theorem queue_agrees_iff (db : Db) (advisor : Id) :
    QueueAgrees db advisor ↔
      (∀ a c, ActiveOn db advisor a c → c.deletedAt = none) ∧
        ∀ a b c, ActiveOn db advisor a c → ActiveOn db advisor b c → a = b := by
  constructor
  · intro h
    have hdetail : ∀ a c, ActiveOn db advisor a c → db.getAssignedConcern advisor c.id = .ok (c, a) := by
      intro a c ha
      obtain ⟨row, hrow, hc, hassignment⟩ := ha.listed
      exact (h.listed c.id c a).mpr ⟨row, hrow, hc, hassignment, rfl⟩
    refine ⟨fun a c ha => ?_, fun a b c ha hb => ?_⟩
    · exact (getAssignedConcern_eq_ok.mp (hdetail a c ha)).2.2.1
    · exact (getAssignedConcern_eq_ok.mp (hdetail b c hb)).2.2.2 a ha
  · rintro ⟨hlive, hone⟩
    refine ⟨fun concernId c a => ?_, fun row hrow => ?_, fun c hc => ⟨?_, fun concernId a h => ?_⟩⟩
    · rw [getAssignedConcern_eq_ok]
      constructor
      · rintro ⟨h, hid, -⟩
        obtain ⟨row, hrow, hc, hassignment⟩ := h.listed
        exact ⟨row, hrow, hc, hassignment, hid⟩
      · rintro ⟨row, hrow, rfl, rfl, hid⟩
        have h := (mem_listAssignedConcerns.mp hrow).1
        exact ⟨h, hid, hlive _ _ h, fun b hb => hone _ _ _ hb h⟩
    · rw [(mem_listAssignedConcerns.mp hrow).2]
      simp [Db.assignedConcernDetailViewData, Db.myAdviceViewData, Function.comp_def]
    · rintro row hrow rfl
      exact hc (hlive _ _ (mem_listAssignedConcerns.mp hrow).1)
    · exact hc (getAssignedConcern_eq_ok.mp h).2.2.1

def withdrawnAssigned : World Db :=
  system.serve id
    [.createConcern 1 { concernSummary := "", concernType := .burnout },
      .assignAdvisor 0 9 { advisorUserId := 2, triageDecision := .suitable }, .deleteConcern 1 0]
    advisorOnly

theorem withdrawn_still_queued : ¬ QueueAgrees withdrawnAssigned.db 2 := by
  rw [queue_agrees_iff]
  rintro ⟨hlive, -⟩
  have hrow : (withdrawnAssigned.db.listAssignedConcerns 2).any
      (fun row => row.concern.deletedAt.isSome) = true := by decide +kernel
  obtain ⟨row, hrow, hdeleted⟩ := List.any_eq_true.mp hrow
  rw [hlive _ _ (mem_listAssignedConcerns.mp hrow).1] at hdeleted
  cases hdeleted

end Chamneul
