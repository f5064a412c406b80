import Chamneul.Proofs.Disciplined
import Chamneul.Abstract.Dossier

/-! Every transaction is at most one step of each dossier. -/

namespace Chamneul

open ReadCommitted ReadCommitted.Prog Service

def Db.log (db : Db) (i : Id) (v : ℕ) : Option AdviceBody :=
  (db.histories.get? (i, v)).map (·.body)

def dossier (db : Db) (i : Id) : Option Dossier :=
  (db.advices.get? i).map fun row => ⟨row, db.log i⟩

theorem dossier_eq_some {db : Db} {i : Id} {d : Dossier} :
    dossier db i = some d ↔ db.advices.get? i = some d.row ∧ d.log = db.log i := by
  simp only [dossier, Option.map_eq_some_iff]
  constructor
  · rintro ⟨row, hrow, rfl⟩
    exact ⟨hrow, rfl⟩
  · rintro ⟨hrow, hlog⟩
    exact ⟨d.row, hrow, by rw [← hlog]⟩

theorem dossier_eq_none {db : Db} {i : Id} : dossier db i = none ↔ db.advices.get? i = none := by
  simp [dossier]

/-- What a transaction does to the dossier of advice `i`. -/
inductive DossierChange (db db' : Db) (i : Id) : Prop
  | absent (h : dossier db i = none) (h' : dossier db' i = none) (hlog : db'.log i = db.log i)
  | created (d' : Dossier) (h : dossier db i = none) (h' : dossier db' i = some d')
      (hnew : (∀ v, db.log i v = none) → d'.New)
  | stepped (d d' : Dossier) (h : dossier db i = some d) (h' : dossier db' i = some d')
      (hstep : d.Step d')

theorem DossierChange.same {db db' : Db} {i : Id} (ha : db'.advices.get? i = db.advices.get? i)
    (hl : db'.log i = db.log i) : DossierChange db db' i := by
  have hd : dossier db' i = dossier db i := by rw [dossier, dossier, ha, hl]
  cases h : dossier db i with
  | none => exact .absent h (hd.trans h) hl
  | some d => exact .stepped d d h (hd.trans h) .stay

theorem DossierChange.to {db db₁ db₂ : Db} {i : Id} (h : DossierChange db db₁ i)
    (ha : db₂.advices = db₁.advices) (hh : db₂.histories = db₁.histories) :
    DossierChange db db₂ i := by
  have hlog : db₂.log i = db₁.log i := by funext v; rw [Db.log, hh, Db.log]
  have hd : dossier db₂ i = dossier db₁ i := by rw [dossier, dossier, ha, hlog]
  cases h with
  | absent h h' hl => exact .absent h (hd.trans h') (hlog.trans hl)
  | created d' h h' hnew => exact .created d' h (hd.trans h') hnew
  | stepped d d' h h' hstep => exact .stepped d d' h (hd.trans h') hstep

/-- A row is rewritten and the log left alone. -/
theorem DossierChange.rewritten {db db' : Db} {i : Id} {row row' : Advice}
    (h : db.advices.get? i = some row) (h' : db'.advices.get? i = some row')
    (hl : db'.log i = db.log i) (hstep : Dossier.Step ⟨row, db.log i⟩ ⟨row', db.log i⟩) :
    DossierChange db db' i :=
  .stepped _ _ (dossier_eq_some.mpr ⟨h, rfl⟩) (dossier_eq_some.mpr ⟨h', hl.symm⟩) hstep

theorem any_ne_iff {α : Type} [DecidableEq α] (o : Option α) (b : α) :
    o.any (fun v => decide (b ≠ v)) = true ↔ o.getD b ≠ b := by
  cases o with
  | none => simp
  | some v =>
    rw [Option.any_some, decide_eq_true_eq, Option.getD_some]
    exact ne_comm

theorem AdviceEdit.changes_iff (d : AdviceEdit) (b : AdviceBody) :
    d.changes b = true ↔ d.apply b ≠ b := by
  obtain ⟨g, q, c, o⟩ := b
  simp only [AdviceEdit.changes, AdviceEdit.apply, Bool.or_eq_true, any_ne_iff, ne_eq,
    AdviceBody.mk.injEq]
  tauto

theorem log_insertHistory {db : Db} {e : Env} {h : AdviceHistory}
    (hnew : db.histories.get? (h.advice, h.version) = none) :
    (apply e (.insertHistory h) db).log h.advice =
      Function.update (db.log h.advice) h.version (some h.body) := by
  funext v
  have hfresh : db.histories.get? (Keyed.key (h.saved e)) = none := hnew
  rw [Db.log, apply, Table.get?_insert _ _ _ hfresh]
  by_cases hv : v = h.version
  · subst hv
    simp [AdviceHistory.saved]
  · have hne : Keyed.key (h.saved e) ≠ (h.advice, v) := by
      simpa [AdviceHistory.saved] using fun he => hv he.symm
    rw [if_neg hne, Function.update_of_ne hv, Db.log]

theorem log_insertHistory_of_ne {db : Db} {e : Env} {h : AdviceHistory} {i : Id}
    (hi : i ≠ h.advice) : (apply e (.insertHistory h) db).log i = db.log i := by
  funext v
  have hne : Keyed.key (h.saved e) ≠ (i, v) := by
    simpa [AdviceHistory.saved] using fun he => absurd he.symm hi
  rw [Db.log, apply, Table.get?_insert_of_ne _ _ hne, Db.log]

theorem dossier_createAdvice {db : Db} {e : Env} {r : Advice} (i : Id)
    (hnew : db.advices.get? e.uuid = none) (hr : r.status = .pending ∧ r.version = 1 ∧
      r.reviewedBy = none ∧ r.reviewedAt = none ∧ r.rejectReason = "") :
    DossierChange db (apply e (.insertAdvice r) db) i := by
  have hfresh : db.advices.get? (Keyed.key (r.saved e)) = none := hnew
  by_cases hi : i = e.uuid
  · subst hi
    have hget : (apply e (.insertAdvice r) db).advices.get? e.uuid = some (r.saved e) := by
      rw [apply, Table.get?_insert _ _ _ hfresh]
      exact if_pos rfl
    refine .created ⟨r.saved e, db.log e.uuid⟩ (dossier_eq_none.mpr hnew)
      (dossier_eq_some.mpr ⟨hget, rfl⟩) fun hlog => ?_
    exact ⟨hr.1, hr.2.2, hr.2.1, hlog⟩
  · refine .same ?_ rfl
    have hne : Keyed.key (r.saved e) ≠ i := fun he => hi he.symm
    rw [apply, Table.get?_insert_of_ne _ _ hne]

theorem get?_updateAdvice (db : Db) (e : Env) (id i : Id) (s : AdviceSet) :
    (apply e (.updateAdvice id s) db).advices.get? i =
      if i = id then (db.advices.get? i).map (s.apply e) else db.advices.get? i := by
  rw [apply, Table.get?_update]

/-- One update of an advice that is not its author's: the log stays. -/
theorem dossier_updateAdvice {db : Db} {e : Env} {row : Advice} {s : AdviceSet} (i : Id)
    (hrow : db.advices.get? row.id = some row)
    (hstep : Dossier.Step ⟨row, db.log row.id⟩ ⟨s.apply e row, db.log row.id⟩) :
    DossierChange db (apply e (.updateAdvice row.id s) db) i := by
  by_cases hi : i = row.id
  · subst hi
    refine .rewritten hrow ?_ rfl hstep
    rw [get?_updateAdvice, if_pos rfl, hrow, Option.map_some]
  · refine .same ?_ rfl
    rw [get?_updateAdvice, if_neg hi]

theorem dossier_saveAdvice {db : Db} {e : Env} {row r : Advice} (i : Id)
    (hrow : db.advices.get? row.id = some row) (hid : r.id = row.id)
    (hstep : Dossier.Step ⟨row, db.log row.id⟩ ⟨r.overwritten e row, db.log row.id⟩) :
    DossierChange db (apply e (.saveAdvice r) db) i := by
  by_cases hi : i = row.id
  · subst hi
    refine .rewritten hrow ?_ rfl hstep
    rw [apply, Table.get?_update, if_pos hid.symm, hrow, Option.map_some]
  · refine .same ?_ rfl
    have hne : i ≠ r.id := hid ▸ hi
    rw [apply, Table.get?_update, if_neg hne]

/-- An edit of the body files the old one under the old version first. -/
theorem dossier_edit {db : Db} {e : Env} {row : Advice} {actor : Id} {data : AdviceEdit}
    {snapshot : Pending Write} (i : Id) (hrow : db.advices.get? row.id = some row)
    (ho : Dossier.Open ⟨row, db.log row.id⟩)
    (hnew : data.changes row.body = true → db.histories.get? (row.id, row.version) = none)
    (hsnap : RanIf (data.changes row.body = true) (.insertHistory
      { advice := row.id, version := row.version, body := row.body, editedBy := actor }) snapshot) :
    DossierChange db (applyAll (snapshot ++ [(e, .updateAdvice row.id
      { body := some (data.apply row.body)
        version := some (if data.changes row.body then row.version + 1 else row.version)
        isSubmitted := some (data.isSubmitted.getD row.isSubmitted)
        autoNow := true })]) db) i := by
  cases hsnap with
  | skipped hchg =>
    refine dossier_updateAdvice i hrow ?_
    have hbody : data.apply row.body = row.body := by
      by_contra hne
      exact hchg ((data.changes_iff row.body).mpr hne)
    have hstep := Dossier.Step.touch (data.isSubmitted.getD row.isSubmitted) e.now ho
    simpa [AdviceSet.apply, hbody, hchg] using hstep
  | ran e' hchg =>
    have hne := (data.changes_iff row.body).mp hchg
    let old : AdviceHistory :=
      { advice := row.id, version := row.version, body := row.body, editedBy := actor }
    have hget := get?_updateAdvice (apply e' (.insertHistory old) db) e row.id i
      { body := some (data.apply row.body)
        version := some (if data.changes row.body then row.version + 1 else row.version)
        isSubmitted := some (data.isSubmitted.getD row.isSubmitted)
        autoNow := true }
    by_cases hi : i = row.id
    · subst hi
      have hlog := log_insertHistory (e := e') (h := old) (hnew hchg)
      have hstep := Dossier.Step.revise (data.apply row.body)
        (data.isSubmitted.getD row.isSubmitted) e.now ho hne
      refine .stepped _ _ (dossier_eq_some.mpr ⟨hrow, rfl⟩)
        (dossier_eq_some.mpr ⟨?_, hlog.symm⟩) hstep
      have hkept : (apply e' (.insertHistory old) db).advices.get? row.id = some row := hrow
      rw [if_pos rfl, hkept, Option.map_some] at hget
      refine hget.trans ?_
      simp [AdviceSet.apply, hchg]
    · rw [if_neg hi] at hget
      exact .same hget (log_insertHistory_of_ne hi)

/-- A transaction is at most one step of each dossier. -/
theorem dossier_step {drift : Db → Db → Prop} {L : Set Key} {w : Pending Write} {db : Db}
    {call : Call} (h : Committed drift L w db call) (i : Id) :
    DossierChange db (applyAll w db) i := by
  have hframe {t : TableName} : t ∉ call.tables → Same t db (applyAll w db) := same_of_committed h
  cases call with
  | createAdvice id advisor body submit =>
    obtain ⟨e, db₁, db₂, row, -, -, -, -, hnew, rfl⟩ := h
    exact dossier_createAdvice i hnew ⟨rfl, rfl, rfl, rfl, rfl⟩
  | updateAdvice id actor data =>
    obtain ⟨e, row, snapshot, -, hrow, -, hstatus, rfl, hnew, hsnap⟩ := h
    obtain rfl : row.id = id := (Table.get?_eq_some.mp hrow).2
    have ho : Dossier.Open ⟨row, db.log row.id⟩ := by
      simpa [Dossier.Open, editableStatuses] using hstatus
    exact dossier_edit i hrow ho hnew hsnap
  | deleteAdvice id actor =>
    obtain ⟨e, row, -, hrow, -, hstatus, rfl⟩ := h
    obtain rfl : row.id = id := (Table.get?_eq_some.mp hrow).2
    have hstep : Dossier.Step ⟨row, db.log row.id⟩ _ := .withdraw (by
      simpa [Dossier.Open, deletableStatuses, or_assoc] using hstatus)
    exact dossier_updateAdvice i hrow hstep
  | reviewAdvice id actor decision reason expectedVersion =>
    obtain ⟨e₁, e₂, now, row, concern, transition, -, -, hrow, hsub, hstatus, -, hreason, -, -, -,
      rfl, htrans⟩ := h
    obtain rfl : row.id = id := (Table.get?_eq_some.mp hrow).2
    have ho : Dossier.Open ⟨row, db.log row.id⟩ := by
      simpa [Dossier.Open, reviewableStatuses] using hstatus
    have hdec : Dossier.Decides row.rejectReason (reviewed row actor decision reason now).status
        (reviewed row actor decision reason now).rejectReason := by
      cases decision with
      | approved => exact Or.inl ⟨rfl, rfl⟩
      | rejected => exact Or.inr ⟨rfl, hreason rfl⟩
    have hstep := Dossier.Step.review _ actor now e₁.now _ ho hsub hdec
    have hsave : DossierChange db
        (apply e₁ (.saveAdvice (reviewed row actor decision reason now)) db) i :=
      dossier_saveAdvice i hrow rfl hstep
    cases htrans <;> exact hsave.to rfl rfl
  | _ =>
    refine (DossierChange.same rfl rfl : DossierChange db db i).to ?_ ?_
    · exact hframe (t := .advices) (by simp [Call.tables])
    · exact hframe (t := .histories) (by simp [Call.tables])

end Chamneul
