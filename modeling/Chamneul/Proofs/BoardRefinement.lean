import Chamneul.Proofs.Disciplined
import Chamneul.Abstract.Board

/-! Every transaction is one step of the board. -/

namespace Chamneul

open ReadCommitted ReadCommitted.Prog Service

def board (db : Db) : Board where
  status c := (db.concerns.get? c).map (·.status)
  active := {c | db.stillAssigned c = true}
  approved := {c | ∃ a ∈ db.advices, a.concern = c ∧ a.status = .approved}

theorem board_status {db : Db} {c : Id} {row : Concern} (h : db.concerns.get? c = some row) :
    (board db).status c = some row.status := by
  simp [board, h]

theorem board_congr {db db' : Db} (hc : db'.concerns = db.concerns)
    (ha : db'.assignments = db.assignments) (hd : db'.advices = db.advices) :
    board db' = board db := by
  simp [board, Db.stillAssigned, hc, ha, hd]

theorem mem_active {db : Db} {c : Id} :
    c ∈ (board db).active ↔ ∃ a ∈ db.assignments, a.concern = c ∧ a.isActive = true := by
  simp [board, Db.stillAssigned, Table.any_iff]

theorem mem_approved {db : Db} {c : Id} :
    c ∈ (board db).approved ↔ ∃ a ∈ db.advices, a.concern = c ∧ a.status = .approved := Iff.rfl

/-! What each change does to the board. -/

theorem board_insertConcern {db : Db} {e : Env} {r : Concern} (h : db.concerns.get? e.uuid = none) :
    board (apply e (.insertConcern r) db) =
      { board db with status := (board db).set e.uuid r.status } := by
  have hs : (board (apply e (.insertConcern r) db)).status = (board db).set e.uuid r.status := by
    funext i
    simp only [board, apply, Board.set]
    rw [Table.get?_insert _ _ _ h]
    by_cases hi : i = e.uuid
    · simp [hi, Concern.saved]
    · have hne : ¬ e.uuid = i := fun he => hi he.symm
      simp [Concern.saved, hi, hne]
  rw [← hs]
  rfl

theorem board_updateConcern (db : Db) (e : Env) {id : Id} (s : ConcernSet) {row : Concern}
    (h : db.concerns.get? id = some row) :
    board (apply e (.updateConcern id s) db) =
      { board db with status := (board db).set id (s.status.getD row.status) } := by
  have hs : (board (apply e (.updateConcern id s) db)).status =
      (board db).set id (s.status.getD row.status) := by
    funext i
    simp only [board, apply, Board.set, Table.get?_update]
    by_cases hi : i = id
    · simp [hi, h, ConcernSet.apply]
    · simp [hi]
  rw [← hs]
  rfl

/-- An update that leaves the status out leaves the board alone, row or no row. -/
theorem board_updateConcern_same {db : Db} {e : Env} {id : Id} {s : ConcernSet}
    (hs : s.status = none) : board (apply e (.updateConcern id s) db) = board db := by
  have hst : (board (apply e (.updateConcern id s) db)).status = (board db).status := by
    funext i
    simp only [board, apply, Table.get?_update]
    split_ifs with hi
    · cases h : db.concerns.get? i <;> simp [ConcernSet.apply, hs]
    · rfl
  rw [board, Board.mk.injEq]
  exact ⟨hst, rfl, rfl⟩

theorem board_insertAssignment {db : Db} {e : Env} {r : Assignment}
    (h : db.assignments.get? e.uuid = none) (hr : r.isActive = true) :
    board (apply e (.insertAssignment r) db) =
      { board db with active := insert r.concern (board db).active } := by
  have hs : (board (apply e (.insertAssignment r) db)).active =
      insert r.concern (board db).active := by
    ext c
    have hfresh : db.assignments.get? (Keyed.key (r.saved e)) = none := h
    rw [mem_active, Set.mem_insert_iff, mem_active]
    simp only [apply, Table.mem_insert hfresh]
    constructor
    · rintro ⟨a, ha | rfl, hc, hact⟩
      · exact Or.inr ⟨a, ha, hc, hact⟩
      · exact Or.inl hc.symm
    · rintro (rfl | ⟨a, ha, hc, hact⟩)
      · exact ⟨r.saved e, Or.inr rfl, rfl, hr⟩
      · exact ⟨a, Or.inl ha, hc, hact⟩
  rw [← hs]
  rfl

/-- Only the assignments that stay active count. -/
theorem mem_active_deactivate {db : Db} {e : Env} {id : Id} {t : Time} {c : Id} :
    c ∈ (board (apply e (.deactivateAssignment id t) db)).active ↔
      ∃ a ∈ db.assignments, a.id ≠ id ∧ a.concern = c ∧ a.isActive = true := by
  rw [mem_active]
  simp only [apply, Table.mem_update]
  constructor
  · rintro ⟨_, ⟨a, ha, rfl⟩, hc, hact⟩
    by_cases hid : Keyed.key a = id
    · rw [if_pos hid] at hact
      simp [Assignment.deactivated] at hact
    · rw [if_neg hid] at hc hact
      exact ⟨a, ha, hid, hc, hact⟩
  · rintro ⟨a, ha, hid, hc, hact⟩
    exact ⟨a, ⟨a, ha, by rw [Assignment.key_eq, if_neg hid]⟩, hc, hact⟩

theorem board_deactivate {db : Db} {e : Env} {t : Time} {a : Assignment} (ha : a ∈ db.assignments)
    (hact : a.isActive = true) :
    board (apply e (.deactivateAssignment a.id t) db) =
      { board db with
        active := if (apply e (.deactivateAssignment a.id t) db).stillAssigned a.concern = true
          then (board db).active else (board db).active \ {a.concern} } := by
  have hs : (board (apply e (.deactivateAssignment a.id t) db)).active =
      if (apply e (.deactivateAssignment a.id t) db).stillAssigned a.concern = true
        then (board db).active else (board db).active \ {a.concern} := by
    have hother : ∀ i ≠ a.concern, (i ∈ (board (apply e (.deactivateAssignment a.id t) db)).active ↔
        i ∈ (board db).active) := by
      intro i hi
      rw [mem_active_deactivate, mem_active]
      constructor
      · rintro ⟨b, hb, -, hc, hb'⟩
        exact ⟨b, hb, hc, hb'⟩
      · rintro ⟨b, hb, hc, hb'⟩
        refine ⟨b, hb, fun hid => hi ?_, hc, hb'⟩
        rw [← hc, db.assignments.eq_of_key hb ha hid]
    have hself : a.concern ∈ (board db).active := mem_active.mpr ⟨a, ha, rfl, hact⟩
    ext i
    by_cases hi : i = a.concern
    · subst hi
      split_ifs with h
      · exact iff_of_true h hself
      · exact iff_of_false h (by simp)
    · rw [hother i hi]
      split_ifs with h <;> simp [hi]
  rw [← hs]
  rfl

/-- A new advice is not approved yet. -/
theorem board_insertAdvice {db : Db} {e : Env} {r : Advice} (h : db.advices.get? e.uuid = none)
    (hr : r.status ≠ .approved) : board (apply e (.insertAdvice r) db) = board db := by
  have hs : (board (apply e (.insertAdvice r) db)).approved = (board db).approved := by
    ext c
    have hfresh : db.advices.get? (Keyed.key (r.saved e)) = none := h
    rw [mem_approved, mem_approved]
    simp only [apply, Table.mem_insert hfresh]
    constructor
    · rintro ⟨a, ha | rfl, hc, happ⟩
      · exact ⟨a, ha, hc, happ⟩
      · exact absurd happ hr
    · rintro ⟨a, ha, hc, happ⟩
      exact ⟨a, Or.inl ha, hc, happ⟩
  rw [board, Board.mk.injEq]
  exact ⟨rfl, rfl, hs⟩

/-- Editing or withdrawing an advice that is not approved approves nothing. -/
theorem board_updateAdvice (db : Db) {e : Env} {s : AdviceSet} {row : Advice}
    (hrow : row ∈ db.advices) (hold : row.status ≠ .approved)
    (hnew : (s.apply e row).status ≠ .approved) :
    board (apply e (.updateAdvice row.id s) db) = board db := by
  have hs : (board (apply e (.updateAdvice row.id s) db)).approved = (board db).approved := by
    ext c
    rw [mem_approved, mem_approved]
    simp only [apply, Table.mem_update]
    constructor
    · rintro ⟨_, ⟨a, ha, rfl⟩, hc, happ⟩
      by_cases hid : Keyed.key a = row.id
      · rw [if_pos hid, db.advices.eq_of_key ha hrow hid] at happ
        exact absurd happ hnew
      · rw [if_neg hid] at hc happ
        exact ⟨a, ha, hc, happ⟩
    · rintro ⟨a, ha, hc, happ⟩
      have hid : Keyed.key a ≠ row.id := by
        intro hid
        rw [db.advices.eq_of_key ha hrow hid] at happ
        exact hold happ
      exact ⟨a, ⟨a, ha, by rw [if_neg hid]⟩, hc, happ⟩
  rw [board, Board.mk.injEq]
  exact ⟨rfl, rfl, hs⟩

/-- Saving a reviewed advice approves its concern or nothing. -/
theorem board_saveAdvice {db : Db} {e : Env} {row r : Advice} (hrow : row ∈ db.advices)
    (hid : r.id = row.id) (hconcern : r.concern = row.concern) (hold : row.status ≠ .approved) :
    board (apply e (.saveAdvice r) db) =
      { board db with
        approved := if r.status = .approved then insert row.concern (board db).approved
          else (board db).approved } := by
  have hs : (board (apply e (.saveAdvice r) db)).approved =
      if r.status = .approved then insert row.concern (board db).approved
        else (board db).approved := by
    ext c
    have hmem : c ∈ (board (apply e (.saveAdvice r) db)).approved ↔
        (r.status = .approved ∧ c = row.concern) ∨ c ∈ (board db).approved := by
      rw [mem_approved, mem_approved]
      simp only [apply, Table.mem_update]
      constructor
      · rintro ⟨_, ⟨a, ha, rfl⟩, hc, happ⟩
        by_cases hk : Keyed.key a = r.id
        · rw [if_pos hk] at hc happ
          exact Or.inl ⟨happ, by rw [← hc, ← hconcern]; rfl⟩
        · rw [if_neg hk] at hc happ
          exact Or.inr ⟨a, ha, hc, happ⟩
      · rintro (⟨happ, rfl⟩ | ⟨a, ha, hc, happ⟩)
        · have hk : Keyed.key row = r.id := hid.symm
          exact ⟨_, ⟨row, hrow, rfl⟩, by rw [if_pos hk]; exact hconcern, by rw [if_pos hk]; exact happ⟩
        · have hne : Keyed.key a ≠ r.id := by
            intro hk
            rw [db.advices.eq_of_key ha hrow (hk.trans hid)] at happ
            exact hold happ
          exact ⟨a, ⟨a, ha, by rw [if_neg hne]⟩, hc, happ⟩
    rw [hmem]
    split_ifs with h <;> simp [h]
  rw [← hs]
  rfl

/-- A bulk update gives one status to all its rows. -/
theorem board_bulk {set : ConcernSet} {s : ConcernStatus} (hs : set.status = some s)
    (rows : List (Env × Id)) {db : Db} (hrows : ∀ r ∈ rows, db.concerns.get? r.2 ≠ none) :
    ∃ status, board (applyAll (rows.map fun r => (r.1, Write.updateConcern r.2 set)) db) =
        { board db with status := status } ∧
      (∀ c ∈ rows.map Prod.snd, status c = some s) ∧
      ∀ c, c ∉ rows.map Prod.snd → status c = (board db).status c := by
  induction rows generalizing db with
  | nil => exact ⟨_, rfl, by simp, fun _ _ => rfl⟩
  | cons r rows ih =>
    obtain ⟨row, hrow⟩ := Option.ne_none_iff_exists'.mp (hrows r (by simp))
    have hkept : ∀ q ∈ rows, (apply r.1 (.updateConcern r.2 set) db).concerns.get? q.2 ≠ none := by
      intro q hq
      have := hrows q (by simp [hq])
      simp only [apply, Table.get?_update]
      split_ifs <;> simpa using this
    obtain ⟨status, hb, hin, hout⟩ := ih hkept
    refine ⟨status, ?_, ?_, ?_⟩
    · rw [List.map_cons, applyAll_cons]
      exact hb.trans (by rw [board_updateConcern db _ _ hrow])
    · intro c hc
      by_cases hm : c ∈ rows.map Prod.snd
      · exact hin c hm
      · have hcr : c = r.2 := by simpa [hm] using hc
        rw [hout c hm, board_updateConcern db _ _ hrow, hcr]
        simp [hs]
    · intro c hc
      rw [List.map_cons, List.mem_cons, not_or] at hc
      rw [hout c hc.2, board_updateConcern db _ _ hrow]
      exact Board.set_of_ne _ _ hc.1

/-- A bulk update that sets no status leaves the board alone. -/
theorem board_bulk_same {set : ConcernSet} (hs : set.status = none) (rows : List (Env × Id)) (db : Db) :
    board (applyAll (rows.map fun r => (r.1, Write.updateConcern r.2 set)) db) = board db := by
  induction rows generalizing db with
  | nil => rfl
  | cons r rows ih =>
    rw [List.map_cons, applyAll_cons, ih]
    exact board_updateConcern_same hs

theorem board_assign {db : Db} {e : Env} {r : Assignment} {row : Concern}
    {transition : Pending Write} (hrow : db.concerns.get? r.concern = some row)
    (hnew : db.assignments.get? e.uuid = none) (hact : r.isActive = true)
    (ht : RanIf (row.status = .submitted) (.updateConcern r.concern { status := some .assigned })
      transition) :
    Board.Step (board db) (.assign r.concern)
      (board (applyAll ((e, .insertAssignment r) :: transition) db)) := by
  have hmade := board_insertAssignment hnew hact
  have hstep := Board.Step.assign (b := board db) r.concern row.status (board_status hrow)
  cases ht with
  | ran e' hsub =>
    have hb := board_updateConcern (apply e (.insertAssignment r) db) e'
      { status := some .assigned } hrow
    rw [hmade] at hb
    rw [if_pos hsub] at hstep
    exact hstep.to hb
  | skipped hsub =>
    rw [if_neg hsub, Board.set_same (board_status hrow)] at hstep
    exact hstep.to hmade

theorem board_unassign {db : Db} {e : Env} {t : Time} {a : Assignment} {row : Concern}
    {transition : Pending Write} (hrow : db.concerns.get? a.concern = some row)
    (ha : a ∈ db.assignments) (hact : a.isActive = true)
    (ht : RanIf ((apply e (.deactivateAssignment a.id t) db).stillAssigned a.concern = false ∧
      row.status = .assigned) (.updateConcern a.concern { status := some .submitted }) transition) :
    ∃ ev, (ev = .stay ∨ ev = .unassign a.concern) ∧ Board.Step (board db) ev
      (board (applyAll ((e, .deactivateAssignment a.id t) :: transition) db)) := by
  have hgone := board_deactivate (e := e) (t := t) ha hact
  have hstep := Board.Step.unassign (b := board db) a.concern row.status (board_status hrow)
  cases ht with
  | ran e' hlast =>
    have hb := board_updateConcern (apply e (.deactivateAssignment a.id t) db) e'
      { status := some .submitted } hrow
    refine ⟨.unassign a.concern, Or.inr rfl, ?_⟩
    rw [hgone, if_neg (by simp [hlast.1])] at hb
    rw [if_pos hlast.2] at hstep
    exact hstep.to hb
  | skipped hlast =>
    by_cases hstill : (apply e (.deactivateAssignment a.id t) db).stillAssigned a.concern = true
    · refine ⟨.stay, Or.inl rfl, ?_⟩
      rw [if_pos hstill] at hgone
      exact Board.Step.stay.to hgone
    · refine ⟨.unassign a.concern, Or.inr rfl, ?_⟩
      have hne : row.status ≠ .assigned := fun h => hlast ⟨by simpa using hstill, h⟩
      rw [if_neg hstill] at hgone
      rw [if_neg hne, Board.set_same (board_status hrow)] at hstep
      exact hstep.to hgone

theorem board_review {db : Db} {e : Env} {row r : Advice} {concern : Concern} {decision : Decision}
    {transition : Pending Write} (hconcern : db.concerns.get? row.concern = some concern)
    (hrow : row ∈ db.advices) (hid : r.id = row.id) (hrc : r.concern = row.concern)
    (hold : row.status ≠ .approved) (hr : r.status = .approved ↔ decision = .approved)
    (ht : RanIf (decision = .approved ∧ concern.status = .assigned)
      (.updateConcern row.concern { status := some .answered }) transition) :
    ∃ ev, (ev = .stay ∨ ev = .approve row.concern ∧ decision = .approved) ∧
      Board.Step (board db) ev (board (applyAll ((e, .saveAdvice r) :: transition) db)) := by
  have hsaved := board_saveAdvice (e := e) hrow hid hrc hold
  have hstep := Board.Step.approve (b := board db) row.concern concern.status
    (board_status hconcern)
  cases ht with
  | ran e' hdone =>
    have hb := board_updateConcern (apply e (.saveAdvice r) db) e' { status := some .answered }
      hconcern
    refine ⟨.approve row.concern, Or.inr ⟨rfl, hdone.1⟩, ?_⟩
    rw [hsaved, if_pos (hr.mpr hdone.1)] at hb
    rw [if_pos hdone.2] at hstep
    exact hstep.to hb
  | skipped hdone =>
    by_cases hd : decision = .approved
    · refine ⟨.approve row.concern, Or.inr ⟨rfl, hd⟩, ?_⟩
      have hne : concern.status ≠ .assigned := fun h => hdone ⟨hd, h⟩
      rw [if_pos (hr.mpr hd)] at hsaved
      rw [if_neg hne, Board.set_same (board_status hconcern)] at hstep
      exact hstep.to hsaved
    · refine ⟨.stay, Or.inl rfl, ?_⟩
      rw [if_neg fun h => hd (hr.mp h)] at hsaved
      exact Board.Step.stay.to hsaved

/-- `call` approves an advice on concern `c`: its guards pass on `db`. -/
def Approves (db : Db) (call : Call) (c : Id) : Prop :=
  ∃ id actor reason version row concern, call = .reviewAdvice id actor .approved reason version ∧
    db.advices.get? id = some row ∧ row.isSubmitted = true ∧ row.status ∈ reviewableStatuses ∧
    row.version = version ∧ row.concern = c ∧ db.concerns.get? c = some concern ∧
    concern.deletedAt = none

/-- A transaction is one step of the board, and an approval one of an advice. -/
theorem board_step {drift : Db → Db → Prop} {L : Set Key} {w : Pending Write} {db : Db}
    {call : Call} (h : Committed drift L w db call) :
    ∃ e, Board.Step (board db) e (board (applyAll w db)) ∧
      ∀ c, e = .approve c → Approves db call c := by
  have stay : ∀ {db'}, board db' = board db → ∃ e, Board.Step (board db) e (board db') ∧
      ∀ c, e = .approve c → Approves db call c := by
    intro db' hb
    exact ⟨.stay, by rw [hb]; exact .stay, fun c hc => by cases hc⟩
  have hframe {t : TableName} : t ∉ call.tables → Same t db (applyAll w db) := same_of_committed h
  cases call with
  | createConcern author fields =>
    obtain ⟨e, hnew, rfl⟩ := h
    refine ⟨.file e.uuid, ?_, fun c hc => by cases hc⟩
    have hb : board (applyAll [(e, .insertConcern { author := author, fields := fields })] db) =
        { board db with status := (board db).set e.uuid .submitted } := board_insertConcern hnew
    rw [hb]
    exact .file e.uuid (by simp [board, hnew])
  | updateOwnConcern user id data =>
    obtain ⟨e, row, -, -, -, -, -, -, rfl⟩ := h
    exact stay (board_updateConcern_same rfl)
  | deleteConcern user id =>
    obtain ⟨e, now, db₁, row, -, -, -, -, rfl⟩ := h
    exact stay (board_updateConcern_same rfl)
  | assignAdvisor id actor data =>
    obtain ⟨e₁, e₂, row, transition, -, hrow, -, -, -, hnew, -, rfl, htrans⟩ := h
    refine ⟨.assign id, ?_, fun c hc => by cases hc⟩
    rw [applyAll_append]
    let draft : Assignment :=
      { concern := id, advisor := data.advisorUserId, assignedBy := actor
        triageDecision := data.triageDecision, priority := data.priority }
    exact board_assign (r := draft) hrow hnew rfl htrans
  | unassignAdvisor id assignmentId =>
    obtain ⟨e₁, now, row, a, transition, -, hrow, hget, rfl, hact, rfl, htrans⟩ := h
    obtain ⟨ha, rfl⟩ := Table.get?_eq_some.mp hget
    obtain ⟨ev, hev, hstep⟩ := board_unassign hrow ha hact htrans
    refine ⟨ev, hstep, fun c hc => ?_⟩
    rcases hev with rfl | rfl <;> cases hc
  | closeSelected ids =>
    obtain ⟨now, rows, rfl, -, hrows⟩ := h
    have hanswered : ∀ r ∈ rows, (board db).status r.2 = some .answered := by
      intro r hr
      obtain ⟨-, row, hrow, hp⟩ := hrows r hr
      simp only [Bool.and_eq_true, decide_eq_true_eq] at hp
      rw [board_status hrow, hp.1]
    have hthere : ∀ r ∈ rows, db.concerns.get? r.2 ≠ none := by
      intro r hr
      obtain ⟨-, row, hrow, -⟩ := hrows r hr
      simp [hrow]
    have hset : ({ status := some .closed, updatedAt := some now } : ConcernSet).status =
        some .closed := rfl
    obtain ⟨status, hb, hin, hout⟩ := board_bulk hset rows hthere
    refine ⟨.close {c | c ∈ rows.map Prod.snd}, ?_, fun c hc => by cases hc⟩
    rw [hb]
    refine .close _ (fun c hc => ?_) status hin hout
    obtain ⟨r, hr, rfl⟩ := List.mem_map.mp hc
    exact hanswered r hr
  | softDeleteSelected ids =>
    obtain ⟨now, rows, rfl, -, -⟩ := h
    exact stay (board_bulk_same rfl rows db)
  | restoreSelected ids =>
    obtain ⟨rows, rfl, -, -⟩ := h
    exact stay (board_bulk_same rfl rows db)
  | createAdvice id advisor body submit =>
    obtain ⟨e, db₁, db₂, row, -, -, -, -, hnew, rfl⟩ := h
    exact stay (board_insertAdvice hnew (by simp))
  | updateAdvice id actor data =>
    obtain ⟨e, row, snapshot, -, hrow, -, hstatus, rfl, -, hsnap⟩ := h
    obtain ⟨hm, rfl⟩ := Table.get?_eq_some.mp hrow
    have hold : row.status ≠ .approved := by
      intro h
      simp [editableStatuses, h] at hstatus
    cases hsnap with
    | ran e' _ => exact stay (board_updateAdvice (apply e' (.insertHistory _) db) hm hold hold)
    | skipped _ => exact stay (board_updateAdvice db hm hold hold)
  | deleteAdvice id actor =>
    obtain ⟨e, row, -, hrow, -, hstatus, rfl⟩ := h
    obtain ⟨hm, rfl⟩ := Table.get?_eq_some.mp hrow
    have hold : row.status ≠ .approved := by
      intro h
      simp [deletableStatuses, h] at hstatus
    exact stay (board_updateAdvice db hm hold (by simp [AdviceSet.apply]))
  | reviewAdvice id actor decision reason expectedVersion =>
    obtain ⟨e₁, e₂, now, row, concern, transition, -, -, hrow, hsub, hstatus, hversion, -, hconcern,
      hlive, -, rfl, htrans⟩ := h
    obtain ⟨hm, rfl⟩ := Table.get?_eq_some.mp hrow
    have hold : row.status ≠ .approved := by
      intro h
      simp [reviewableStatuses, h] at hstatus
    have happ : (reviewed row actor decision reason now).status = .approved ↔
        decision = .approved := by
      cases decision <;> simp [reviewed]
    obtain ⟨ev, hev, hstep⟩ := board_review (e := e₁) hconcern hm
      (r := reviewed row actor decision reason now) rfl rfl hold happ htrans
    rw [applyAll_append]
    refine ⟨ev, hstep, fun c hc => ?_⟩
    rcases hev with rfl | ⟨rfl, rfl⟩
    · cases hc
    · cases hc
      exact ⟨row.id, actor, reason, expectedVersion, row, concern, rfl, hrow, hsub, hstatus, hversion,
        rfl, hconcern, hlive⟩
  | _ =>
    exact stay (board_congr (hframe (t := .concerns) (by simp [Call.tables]))
      (hframe (t := .assignments) (by simp [Call.tables]))
      (hframe (t := .advices) (by simp [Call.tables])))

end Chamneul
