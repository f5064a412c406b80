import Chamneul.Proofs.Transactions

/-! Each concern service commits what `Committed` says of it. -/

namespace Chamneul

open ReadCommitted ReadCommitted.Prog Service

variable {R : Rely Db Key Write} {drift : Db → Db → Prop}

theorem assignAdvisor_spec (hR : R.Locks owns drift) (id actor : Id) (data : AssignData)
    (σ : World Db) :
    wp R (commits drift (.assignAdvisor id actor data)) (assignAdvisor id actor data) ∅ [] σ
      Ended := by
  simp only [assignAdvisor, wp_bind, wp_query, wp_raiseIf, Duty.ofCommit_stage, true_and,
    ended_nil, implies_true]
  intro σ₁ h₁ hadv
  refine wp_transaction ?_
  simp only [wp_bind, wp_raiseIf, wp_lockOr, wp_handle, wp_write, wp_runIf, wp_pure, wp_raise,
    Duty.ofCommit_stage, true_and, implies_true, and_true, returns_ok, returns_error,
    World.view_nil, List.nil_append, List.cons_append, Decidable.not_not]
  intro σ₂ h₂ row hrow hlive hopen σ₃ e₁ he₁ h₃ hv₁
  obtain rfl : row.id = id := (Table.get?_eq_some.mp hrow).2
  have hfresh : σ₃.db.assignments.get? e₁.uuid = none := by
    simp only [violates, Bool.or_eq_false_iff, Option.isSome_eq_false_iff, Option.isNone_iff_eq_none] at hv₁
    exact hv₁.1
  have hadv₂ : σ₁.db.hasRole data.advisorUserId .advisor = true := by simpa using hadv
  refine ⟨fun hsub σ₄ e₂ he₂ h₄ hv₂ σ₅ e₃ he₃ h₅ hv₃ σ₆ h₆ => ?_,
    fun hsub σ₅ e₃ he₃ h₅ hv₃ σ₆ h₆ => ?_⟩
  · have hrow₆ : σ₆.db.concerns.get? row.id = some row := by
      rw [Locks.concern hR h₆ (by simp), Locks.concern hR h₅ (by simp),
        Locks.concern hR h₄ (by simp), Locks.concern hR h₃ (by simp)]
      exact hrow
    have hfresh₆ : σ₆.db.assignments.get? e₁.uuid = none := by
      rw [Locks.assignment hR h₆ (by simp [locks]), Locks.assignment hR h₅ (by simp [locks]),
        Locks.assignment hR h₄ (by simp [locks])]
      exact hfresh
    have hnote : σ₆.db.notifications.get? e₃.uuid = none := by
      rw [Locks.notification hR h₆ (by simp [locks])]
      simpa [violates, World.view, Engine.apply, apply] using hv₃
    have hdrift : drift σ₁.db σ₆.db :=
      Locks.later hR (Locks.later hR (Locks.later hR (Locks.later hR (Locks.seen hR h₂) h₃) h₄) h₅) h₆
    refine ⟨e₁, e₃, row, [(e₂, _)], by simp, hrow₆, hlive, hopen, ⟨_, hdrift, hadv₂⟩, hfresh₆, hnote,
      rfl, .ran e₂ hsub⟩
  · have hrow₆ : σ₆.db.concerns.get? row.id = some row := by
      rw [Locks.concern hR h₆ (by simp), Locks.concern hR h₅ (by simp),
        Locks.concern hR h₃ (by simp)]
      exact hrow
    have hfresh₆ : σ₆.db.assignments.get? e₁.uuid = none := by
      rw [Locks.assignment hR h₆ (by simp [locks]), Locks.assignment hR h₅ (by simp [locks])]
      exact hfresh
    have hnote : σ₆.db.notifications.get? e₃.uuid = none := by
      rw [Locks.notification hR h₆ (by simp [locks])]
      simpa [violates, World.view, Engine.apply, apply] using hv₃
    have hdrift : drift σ₁.db σ₆.db :=
      Locks.later hR (Locks.later hR (Locks.later hR (Locks.seen hR h₂) h₃) h₅) h₆
    refine ⟨e₁, e₃, row, [], by simp, hrow₆, hlive, hopen, ⟨_, hdrift, hadv₂⟩, hfresh₆, hnote, rfl,
      .skipped hsub⟩

theorem createConcern_spec (hR : R.Locks owns drift) (author : Id) (fields : ConcernFields)
    (σ : World Db) :
    wp R (commits drift (.createConcern author fields)) (createConcern author fields) ∅ [] σ
      Ended := by
  refine wp_transaction ?_
  simp only [wp_write, Duty.ofCommit_stage, true_and, implies_true, returns_ok, returns_error,
    World.view_nil, List.nil_append]
  intro σ₁ e _ h₁ hv σ₂ h₂
  refine ⟨e, ?_, rfl⟩
  rw [Locks.concern hR h₂ (by simp [locks])]
  simpa [violates] using hv

theorem updateOwnConcern_spec (hR : R.Locks owns drift) (user id : Id) (data : ConcernEdit)
    (σ : World Db) :
    wp R (commits drift (.updateOwnConcern user id data)) (updateOwnConcern user id data) ∅ [] σ
      Ended := by
  refine wp_transaction ?_
  simp only [wp_bind, wp_raiseIf, wp_lockOr, wp_query, wp_write, Duty.ofCommit_stage,
    true_and, implies_true, and_true, returns_ok, returns_error, World.view_nil, List.nil_append]
  intro σ₁ h₁ row hrow σ₂ h₂ hedit σ₃ e _ h₃ hv σ₄ h₄
  simp only [Option.filter_eq_some_iff, Db.liveConcern?, decide_eq_true_eq, Option.isNone_iff_eq_none] at hrow
  obtain ⟨⟨hrow, hlive⟩, hauthor⟩ := hrow
  obtain rfl : row.id = id := (Table.get?_eq_some.mp hrow).2
  obtain ⟨hstatus, hnever⟩ : row.status = .submitted ∧ σ₂.db.everAssigned row.id = false := by
    simpa [not_or] using hedit
  refine ⟨e, row, by simp, ?_, hlive, hauthor, hstatus, ?_, rfl⟩
  · rw [Locks.concern hR h₄ (by simp), Locks.concern hR h₃ (by simp), Locks.concern hR h₂ (by simp)]
    exact hrow
  · rw [Locks.everAssigned hR h₄ (by simp), Locks.everAssigned hR h₃ (by simp)]
    exact hnever

theorem deleteConcern_spec (hR : R.Locks owns drift) (user id : Id) (σ : World Db) :
    wp R (commits drift (.deleteConcern user id)) (deleteConcern user id) ∅ [] σ Ended := by
  simp only [deleteConcern, getOwnConcernIncludingDeleted, softDeleteConcern, wp_bind, wp_query,
    wp_getOr, wp_raiseIf, wp_time, Duty.ofCommit_stage, true_and, ended_nil, implies_true,
    and_true, World.view_nil]
  intro σ₁ h₁ row hrow hlive σ₂ h₂
  refine wp_transaction ?_
  simp only [wp_write, Duty.ofCommit_stage, true_and, implies_true, returns_ok, returns_error,
    World.view_nil, List.nil_append]
  intro σ₃ e _ h₃ hv σ₄ h₄
  simp only [Option.filter_eq_some_iff, decide_eq_true_eq] at hrow
  obtain ⟨hrow, hauthor⟩ := hrow
  obtain rfl : row.id = id := (Table.get?_eq_some.mp hrow).2
  have hdrift : drift σ₁.db σ₄.db :=
    Locks.later hR (Locks.later hR (Locks.seen hR h₂) h₃) h₄
  exact ⟨e, σ₂.now, σ₁.db, row, hdrift, hrow, hauthor, by simpa using hlive, rfl⟩

/-- Whether a concern is still assigned is read off its own assignments. -/
theorem stillAssigned_deactivate_congr {db db' : Db} {c : Id}
    (h : ∀ a : Assignment, a.concern = c → (a ∈ db'.assignments ↔ a ∈ db.assignments)) (e : Env)
    (id : Id) (t : Time) :
    (apply e (.deactivateAssignment id t) db').stillAssigned c =
      (apply e (.deactivateAssignment id t) db).stillAssigned c := by
  have hc : ∀ a : Assignment,
      (if Keyed.key a = id then a.deactivated t else a).concern = a.concern := by
    intro a
    split_ifs <;> rfl
  rw [Bool.eq_iff_iff]
  simp only [Db.stillAssigned, apply, Table.any_iff, Table.mem_update,
    Bool.and_eq_true, decide_eq_true_eq]
  constructor
  · rintro ⟨_, ⟨a, ha, rfl⟩, hac, hact⟩
    exact ⟨_, ⟨a, (h a (by rw [← hac, hc])).mp ha, rfl⟩, hac, hact⟩
  · rintro ⟨_, ⟨a, ha, rfl⟩, hac, hact⟩
    exact ⟨_, ⟨a, (h a (by rw [← hac, hc])).mpr ha, rfl⟩, hac, hact⟩

theorem unassignAdvisor_spec (hR : R.Locks owns drift) (id assignmentId : Id) (σ : World Db) :
    wp R (commits drift (.unassignAdvisor id assignmentId)) (unassignAdvisor id assignmentId) ∅ [] σ
      Ended := by
  refine wp_transaction ?_
  simp only [wp_bind, wp_raiseIf, wp_lockOr, wp_query, wp_getOr, wp_time, wp_write, wp_runIf,
    Duty.ofCommit_stage, true_and, implies_true, and_true, returns_ok, returns_error,
    World.view_nil, List.nil_append, List.cons_append]
  intro σ₁ h₁ row hrow σ₂ h₂ assignment hasg hactive σ₃ h₃ σ₄ e _ h₄ hv σ₅ h₅
  obtain rfl : row.id = id := (Table.get?_eq_some.mp hrow).2
  simp only [Option.filter_eq_some_iff, decide_eq_true_eq] at hasg
  obtain ⟨hasg, hconcern⟩ := hasg
  obtain rfl : assignment.id = assignmentId := (Table.get?_eq_some.mp hasg).2
  have hrow₅ : σ₅.db.concerns.get? row.id = some row := by
    rw [Locks.concern hR h₅ (by simp), Locks.concern hR h₄ (by simp),
      Locks.concern hR h₃ (by simp), Locks.concern hR h₂ (by simp)]
    exact hrow
  have hmem : assignment ∈ σ₅.db.assignments := by
    rw [Locks.assignments hR h₅ (by simp) hconcern, Locks.assignments hR h₄ (by simp) hconcern,
      Locks.assignments hR h₃ (by simp) hconcern]
    exact (Table.get?_eq_some.mp hasg).1
  refine ⟨fun htrans σ₆ e' _ h₆ hv' σ₇ h₇ => ?_, fun hstay σ₆ h₆ => ?_⟩
  · have hsame : ∀ a : Assignment, a.concern = row.id →
        (a ∈ σ₇.db.assignments ↔ a ∈ σ₅.db.assignments) := by
      intro a ha
      rw [Locks.assignments hR h₇ (by simp) ha, Locks.assignments hR h₆ (by simp) ha]
    have hrow₇ : σ₇.db.concerns.get? row.id = some row := by
      rw [Locks.concern hR h₇ (by simp), Locks.concern hR h₆ (by simp)]
      exact hrow₅
    refine ⟨e, σ₃.now, row, assignment, [(e', _)], by simp, hrow₇,
      Table.mem_iff_get?.mp ((hsame _ hconcern).mpr hmem), hconcern, by simpa using hactive, rfl,
      .ran e' ?_⟩
    rw [stillAssigned_deactivate_congr hsame]
    exact htrans
  · have hsame : ∀ a : Assignment, a.concern = row.id →
        (a ∈ σ₆.db.assignments ↔ a ∈ σ₅.db.assignments) :=
      fun a ha => Locks.assignments hR h₆ (by simp) ha
    have hrow₆ : σ₆.db.concerns.get? row.id = some row := by
      rw [Locks.concern hR h₆ (by simp)]
      exact hrow₅
    refine ⟨e, σ₃.now, row, assignment, [], by simp, hrow₆,
      Table.mem_iff_get?.mp ((hsame _ hconcern).mpr hmem), hconcern, by simpa using hactive, rfl,
      .skipped ?_⟩
    rw [stillAssigned_deactivate_congr hsame]
    exact hstay

/-- The loop of a bulk update: what is written so far, none of it among the rows to go. -/
def Updating (p : Concern → Bool) (set : ConcernSet) (xs : List Concern) (L : Set Key)
    (w : Pending Write) (σ : World Db) : Prop :=
  (xs.map Concern.id).Nodup ∧ ∃ rows : List (Env × Id),
    w = rows.map (fun r => (r.1, Write.updateConcern r.2 set)) ∧ (rows.map Prod.snd).Nodup ∧
    (∀ x ∈ xs, x.id ∉ rows.map Prod.snd) ∧
    ∀ r ∈ rows, Key.concern r.2 ∈ L ∧ ∃ c, σ.db.concerns.get? r.2 = some c ∧ p c = true

theorem Updating.rely (hR : R.Locks owns drift) {p : Concern → Bool} {set : ConcernSet}
    {xs : List Concern} {L : Set Key} {w : Pending Write} {σ σ' : World Db}
    (hu : Updating p set xs L w σ) (h : R L w σ σ') : Updating p set xs L w σ' := by
  obtain ⟨hnodup, rows, hw, hrows, hnew, hdone⟩ := hu
  refine ⟨hnodup, rows, hw, hrows, hnew, fun r hr => ?_⟩
  obtain ⟨hk, c, hc, hp⟩ := hdone r hr
  have hkeep : σ'.db.concerns.get? r.2 = σ.db.concerns.get? r.2 := hR.keeps h hk
  exact ⟨hk, c, hkeep.trans hc, hp⟩

theorem updateWhere_spec (hR : R.Locks owns drift) {C : Set Key → Pending Write → World Db → Prop}
    {p : Concern → Bool} {set : ConcernSet} {x : Concern} {xs : List Concern} {L : Set Key}
    {w : Pending Write} {σ : World Db} (hu : Updating p set (x :: xs) L w σ) :
    wp R (Duty.ofCommit C) (updateWhere p set x.id) L w σ fun r L w σ =>
      match r with
      | .ok _ => Updating p set xs L w σ
      | .error _ => True := by
  simp only [updateWhere, wp_bind, wp_execute, wp_pure, Duty.ofCommit_stage, true_and, implies_true]
  intro σ' uuid h hv
  obtain ⟨hnodup, rows, rfl, hrows, hnew, hdone⟩ := hu.rely hR h
  obtain ⟨hx, hxs⟩ := List.nodup_cons.mp hnodup
  have hview : (σ'.view (rows.map fun r => (r.1, Write.updateConcern r.2 set))).concerns.get? x.id =
      σ'.db.concerns.get? x.id := by
    have hkeep : Guarded.keeps (Key.concern x.id) σ'.db
        (σ'.view (rows.map fun r => (r.1, Write.updateConcern r.2 set))) := by
      refine keeps_applyAll fun q hq => ?_
      obtain ⟨r, hr, rfl⟩ := List.mem_map.mp hq
      simp only [Engine.locks, locks, List.mem_singleton, Key.concern.injEq]
      exact fun he => hnew x (by simp) (List.mem_map.mpr ⟨r, hr, he.symm⟩)
    exact hkeep
  have hfar : ∀ y ∈ xs, y.id ∉ rows.map Prod.snd := fun y hy => hnew y (by simp [hy])
  rw [hview]
  by_cases hp : (σ'.db.concerns.get? x.id).any p = true
  · -- The row still satisfies the condition: it is locked and written.
    obtain ⟨c, hc, hpc⟩ := (Option.any_eq_true _ _).mp hp
    refine ⟨hxs, rows ++ [(⟨σ'.now, uuid⟩, x.id)], by simp [hp], ?_, ?_, ?_⟩
    · rw [List.map_append, List.map_singleton, ← List.concat_eq_append]
      exact hrows.concat (hnew x List.mem_cons_self)
    · intro y hy hm
      rw [List.map_append, List.mem_append, List.map_singleton, List.mem_singleton] at hm
      rcases hm with hm | hm
      · exact hfar y hy hm
      · exact hx (List.mem_map.mpr ⟨y, hy, hm⟩)
    · intro r hr
      rcases List.mem_append.mp hr with hr | hr
      · exact ⟨Or.inl (hdone r hr).1, (hdone r hr).2⟩
      · obtain rfl := List.mem_singleton.mp hr
        exact ⟨Or.inr (by simp [hp, Engine.locks, locks]), c, hc, hpc⟩
  · have hnone : (σ'.db.concerns.get? x.id).any p = false := by simpa using hp
    simp only [hnone, Bool.false_eq_true, if_false, List.flatMap_nil, List.map_nil, List.append_nil,
      List.not_mem_nil, Set.ofPred_false, Set.union_empty]
    exact ⟨hxs, rows, rfl, hrows, hfar, hdone⟩

theorem bulkUpdate_spec (hR : R.Locks owns drift) {C : Set Key → Pending Write → World Db → Prop}
    {p : Concern → Bool} {set : ConcernSet} (hC : ∀ L w σ, BulkUpdate p set L w σ.db → C L w σ)
    (selected : List Id) (σ : World Db) :
    wp R (Duty.ofCommit C) (bulkUpdate selected p set) ∅ [] σ Ended := by
  refine wp_transaction ?_
  simp only [wp_bind, wp_query, wp_pure, Duty.ofCommit_stage, true_and, World.view_nil, returns_ok,
    returns_error]
  intro σ₁ h₁
  have hstart : Updating p set ((σ₁.db.selected selected).filter p) ∅ [] σ₁.tick := by
    refine ⟨?_, [], rfl, List.nodup_nil, by simp, by simp⟩
    exact σ₁.db.concerns.nodup.sublist ((List.filter_sublist.trans List.filter_sublist).map _)
  refine wp_mono ?_ (wp_collect (I := fun _ xs => Updating p set xs) (E := fun _ _ _ _ => True)
    (fun acc x xs L w σ hu => updateWhere_spec hR hu) [] hstart)
  intro r L w σ hr
  cases r with
  | error e => trivial
  | ok ys =>
    intro σ' h
    obtain ⟨-, rows, hw, hrows, -, hdone⟩ := Updating.rely hR hr h
    exact hC L w σ' ⟨rows, hw, hrows, hdone⟩

theorem closeSelected_spec (hR : R.Locks owns drift) (selected : List Id) (σ : World Db) :
    wp R (commits drift (.closeSelected selected)) (closeSelected selected) ∅ [] σ Ended := by
  simp only [closeSelected, wp_bind, wp_time, Duty.ofCommit_stage, true_and]
  intro σ₁ h₁
  refine wp_mono ?_ (bulkUpdate_spec hR (fun L w σ hb => ⟨σ₁.now, hb⟩) selected _)
  intro r L w σ hr
  obtain ⟨rfl, rfl⟩ := hr
  cases r with
  | error e => simp
  | ok n => simp [wp_query]

theorem softDeleteSelected_spec (hR : R.Locks owns drift) (selected : List Id) (σ : World Db) :
    wp R (commits drift (.softDeleteSelected selected)) (softDeleteSelected selected) ∅ [] σ
      Ended := by
  simp only [softDeleteSelected, wp_bind, wp_time, Duty.ofCommit_stage, true_and]
  intro σ₁ h₁
  refine wp_mono ?_ (bulkUpdate_spec hR (fun L w σ hb => ⟨σ₁.now, hb⟩) selected _)
  intro r L w σ hr
  cases r <;> exact hr

theorem restoreSelected_spec (hR : R.Locks owns drift) (selected : List Id) (σ : World Db) :
    wp R (commits drift (.restoreSelected selected)) (restoreSelected selected) ∅ [] σ Ended := by
  simp only [restoreSelected, wp_bind]
  refine wp_mono ?_ (bulkUpdate_spec hR (fun L w σ hb => hb) selected _)
  intro r L w σ hr
  cases r <;> exact hr

end Chamneul
