import Chamneul.Abstract.Correspondence
import Chamneul.Proofs.DossierRefinement
import Chamneul.Proofs.Notices

/-! Every transaction is at most one step of each assignment with its notices, and of
each advice with those of its review. -/

namespace Chamneul

open ReadCommitted ReadCommitted.Prog Service

def Db.authorOf (db : Db) (concern : Id) : Option Id := (db.concerns.get? concern).map (·.author)

def posting (db : Db) (i : Id) : Posting where
  row := db.assignments.get? i
  notices := db.noticesAbout .assignmentCreated "assignment_id" i

def verdict (db : Db) (i : Id) : Verdict where
  row := db.advices.get? i
  author := (db.advices.get? i).bind fun a => db.authorOf a.concern
  approvals := db.noticesAbout .adviceApproved "advice_id" i
  rejections := db.noticesAbout .adviceRejected "advice_id" i

section

variable {e : Env} {db db' : Db} {i : Id}

theorem posting_eq (ha : db'.assignments.get? i = db.assignments.get? i)
    (hn : db'.noticesAbout .assignmentCreated "assignment_id" i =
      db.noticesAbout .assignmentCreated "assignment_id" i) : posting db' i = posting db i := by
  rw [posting, ha, hn, posting]

theorem verdict_eq (ha : db'.advices.get? i = db.advices.get? i)
    (hc : ∀ k, db'.authorOf k = db.authorOf k)
    (happ : db'.noticesAbout .adviceApproved "advice_id" i = db.noticesAbout .adviceApproved "advice_id" i)
    (hrej : db'.noticesAbout .adviceRejected "advice_id" i =
      db.noticesAbout .adviceRejected "advice_id" i) : verdict db' i = verdict db i := by
  simp only [verdict, ha, hc, happ, hrej]

/-- Nobody but its author ever is. -/
theorem authorOf_updateConcern (id : Id) (s : ConcernSet) (k : Id) :
    (apply e (.updateConcern id s) db).authorOf k = db.authorOf k := by
  rw [Db.authorOf, Db.authorOf, apply, Table.get?_update]
  split_ifs
  · rw [Option.map_map]
    rfl
  · rfl

theorem authorOf_applyAll {w : Pending Write} (h : ∀ p ∈ w, ∀ r, p.2 ≠ .insertConcern r) (k : Id) :
    (applyAll w db).authorOf k = db.authorOf k := by
  refine holds_applyAll (I := fun db' : Db => db'.authorOf k = db.authorOf k) rfl ?_
  rintro ⟨e, x⟩ hp db' hold
  cases x with
  | insertConcern r => exact absurd rfl (h _ hp r)
  | updateConcern id s => exact (authorOf_updateConcern id s k).trans hold
  | _ => exact hold

/-- Only a call that creates a concern gives one an author. -/
theorem authorOf_committed {drift : Db → Db → Prop} {L : Set Key} {w : Pending Write} {call : Call}
    (h : Committed drift L w db call) (hcall : ∀ author fields, call ≠ .createConcern author fields)
    (k : Id) : (applyAll w db).authorOf k = db.authorOf k := by
  refine authorOf_applyAll (fun p hp r hr => ?_) k
  have hwrite := concernWrite_of_committed h hp (by rw [hr]; rfl)
  rw [hr] at hwrite
  cases hwrite with
  | insert _ author fields hcreate => exact hcall author fields hcreate

/-- A call that writes neither advices nor notices about them. -/
theorem verdict_committed {drift : Db → Db → Prop} {L : Set Key} {w : Pending Write} {call : Call}
    (h : Committed drift L w db call) (hcall : ∀ author fields, call ≠ .createConcern author fields)
    (hadvices : .advices ∉ call.tables)
    (happ : ∀ p ∈ w, p.2.notifies .adviceApproved = false)
    (hrej : ∀ p ∈ w, p.2.notifies .adviceRejected = false) :
    verdict (applyAll w db) i = verdict db i := by
  have ha : (applyAll w db).advices = db.advices := same_of_committed h hadvices
  exact verdict_eq (by rw [ha]) (authorOf_committed h hcall) (noticesAbout_applyAll happ)
    (noticesAbout_applyAll hrej)

theorem verdict_createConcern {r : Concern} (hnew : db.concerns.get? e.uuid = none) :
    (verdict db i).Step (verdict (apply e (.insertConcern r) db) i) := by
  cases hrow : db.advices.get? i with
  | none =>
    refine .to .stay ?_
    simp only [verdict, apply, hrow, Option.bind_none]
    rfl
  | some a =>
    have hget : (apply e (.insertConcern r) db).concerns.get? a.concern =
        if e.uuid = a.concern then some (r.saved e) else db.concerns.get? a.concern :=
      Table.get?_insert _ _ _ hnew
    by_cases hc : e.uuid = a.concern
    · have hunknown : (verdict db i).author = none := by
        simp only [verdict, hrow, Option.bind_some, Db.authorOf, ← hc, hnew, Option.map_none]
      refine .to (.know (some r.author) hunknown) ?_
      rw [if_pos hc] at hget
      simp only [verdict, Verdict.mk.injEq]
      refine ⟨rfl, ?_, rfl, rfl⟩
      rw [show (apply e (.insertConcern r) db).advices.get? i = some a from hrow, Option.bind_some,
        Db.authorOf, hget]
      rfl
    · refine .to .stay ?_
      rw [if_neg hc] at hget
      simp only [verdict, Verdict.mk.injEq]
      refine ⟨rfl, ?_, rfl, rfl⟩
      rw [show (apply e (.insertConcern r) db).advices.get? i = some a from hrow, hrow, Option.bind_some,
        Option.bind_some, Db.authorOf, hget, Db.authorOf]

theorem verdict_createAdvice {r : Advice} (hnew : db.advices.get? e.uuid = none)
    (hr : r.status = .pending ∧ r.reviewedBy = none) :
    (verdict db i).Step (verdict (apply e (.insertAdvice r) db) i) := by
  have hget : (apply e (.insertAdvice r) db).advices.get? i =
      if e.uuid = i then some (r.saved e) else db.advices.get? i := Table.get?_insert _ _ _ hnew
  by_cases hi : e.uuid = i
  · subst hi
    refine .to (.write (r.saved e) (db.authorOf r.concern) hnew (Or.inl hr.1) hr.2) ?_
    rw [if_pos rfl] at hget
    simp only [verdict, hget, Option.bind_some]
    rfl
  · rw [if_neg hi] at hget
    exact .to .stay (verdict_eq hget (fun _ => rfl) rfl rfl)

/-- One advice is rewritten, and stays about its concern. -/
theorem verdict_rewritten {id : Id} {row row' : Advice} (hrow : db.advices.get? id = some row)
    (hget : ∀ i, db'.advices.get? i = if i = id then some row' else db.advices.get? i)
    (hconcern : row'.concern = row.concern) (hsame : Same .concerns db db')
    (hnotes : Same .notifications db db') :
    verdict db' i = if i = id then { verdict db i with row := some row' } else verdict db i := by
  have hc : db'.concerns = db.concerns := hsame
  have hauthor : ∀ k, db'.authorOf k = db.authorOf k := fun k => by rw [Db.authorOf, hc, Db.authorOf]
  split_ifs with hi
  · subst hi
    have hrow' : db'.advices.get? i = some row' := by rw [hget, if_pos rfl]
    simp only [verdict, hrow', hrow, Option.bind_some, hauthor, hconcern, noticesAbout_same hnotes]
  · exact verdict_eq (by rw [hget, if_neg hi]) hauthor (noticesAbout_same hnotes)
      (noticesAbout_same hnotes)

/-- The same, where the rewriting is a step of that advice. -/
theorem verdict_updateAdvice {row : Advice} {s : AdviceSet} (hrow : db.advices.get? row.id = some row)
    (hstep : (verdict db row.id).Step { verdict db row.id with row := some (s.apply e row) }) :
    (verdict db i).Step (verdict (apply e (.updateAdvice row.id s) db) i) := by
  have hget : ∀ i, (apply e (.updateAdvice row.id s) db).advices.get? i =
      if i = row.id then some (s.apply e row) else db.advices.get? i := by
    intro i
    rw [get?_updateAdvice]
    split_ifs with hi
    · rw [hi, hrow, Option.map_some]
    · rfl
  rw [verdict_rewritten hrow hget rfl rfl rfl]
  split_ifs with hi
  · subst hi
    exact hstep
  · exact .stay

/-- A notice of a review is about one advice. -/
theorem verdict_notice {n : Notification} {id c : Id} (type : NotificationType)
    (hpayload : n.payload = [("advice_id", id), ("concern_id", c)])
    (hfree : db.notifications.get? e.uuid = none) :
    (apply e (.insertNotification n) db).noticesAbout type "advice_id" i =
      if n.type = type ∧ i = id then db.noticesAbout type "advice_id" i ++ [n.saved e]
      else db.noticesAbout type "advice_id" i := by
  split_ifs with h
  · exact noticesAbout_insert hfree ⟨h.1, by simp [hpayload, h.2]⟩
  · exact noticesAbout_other (by simpa [hpayload] using h)

theorem verdict_noticed {n : Notification} {id c : Id}
    (hpayload : n.payload = [("advice_id", id), ("concern_id", c)])
    (hfree : db.notifications.get? e.uuid = none) :
    verdict (apply e (.insertNotification n) db) i =
      { verdict db i with
        approvals := if n.type = .adviceApproved ∧ i = id then (verdict db i).approvals ++ [n.saved e]
          else (verdict db i).approvals
        rejections := if n.type = .adviceRejected ∧ i = id then (verdict db i).rejections ++ [n.saved e]
          else (verdict db i).rejections } := by
  simp only [verdict, Verdict.mk.injEq]
  exact ⟨rfl, rfl, verdict_notice .adviceApproved hpayload hfree,
    verdict_notice .adviceRejected hpayload hfree⟩

theorem verdict_approved {n : Notification} {id c : Id} (htype : n.type = .adviceApproved)
    (hpayload : n.payload = [("advice_id", id), ("concern_id", c)])
    (hfree : db.notifications.get? e.uuid = none) :
    verdict (apply e (.insertNotification n) db) i =
      if i = id then { verdict db i with approvals := (verdict db i).approvals ++ [n.saved e] }
      else verdict db i := by
  rw [verdict_noticed hpayload hfree, htype]
  by_cases hi : i = id <;> simp [hi]

theorem verdict_rejected {n : Notification} {id c : Id} (htype : n.type = .adviceRejected)
    (hpayload : n.payload = [("advice_id", id), ("concern_id", c)])
    (hfree : db.notifications.get? e.uuid = none) :
    verdict (apply e (.insertNotification n) db) i =
      if i = id then { verdict db i with rejections := (verdict db i).rejections ++ [n.saved e] }
      else verdict db i := by
  rw [verdict_noticed hpayload hfree, htype]
  by_cases hi : i = id <;> simp [hi]

end

theorem sameNotice_marked (n : Notification) (id : Id) (t : Time) :
    SameNotice n (if n.id = id then n.marked t else n) := by
  split_ifs <;> exact ⟨rfl, rfl, rfl⟩

/-- A transaction is at most one step of each assignment with its notices. -/
theorem posting_step {drift : Db → Db → Prop} {L : Set Key} {w : Pending Write} {db : Db}
    {call : Call} (h : Committed drift L w db call) (i : Id) :
    (posting db i).Step (posting (applyAll w db) i) := by
  have hframe {t : TableName} : t ∉ call.tables → Same t db (applyAll w db) := same_of_committed h
  cases call with
  | assignAdvisor id actor data =>
    obtain ⟨e₁, e₂, row, transition, -, -, -, -, -, hnew, hfree, rfl, htrans⟩ := h
    set draft : Assignment :=
      { concern := id, advisor := data.advisorUserId, assignedBy := actor
        triageDecision := data.triageDecision, priority := data.priority }
    let n := assignmentNotification (draft.saved e₁) id actor
    let db₁ := applyAll ([(e₁, .insertAssignment draft)] ++ transition) db
    have hnotes : db₁.notifications = db.notifications := by
      cases htrans <;> rfl
    have hget : db₁.assignments.get? i =
        if e₁.uuid = i then some (draft.saved e₁) else db.assignments.get? i := by
      have hinsert := Table.get?_insert db.assignments (draft.saved e₁) i hnew
      cases htrans <;> exact hinsert
    have hfree₁ : db₁.notifications.get? e₂.uuid = none := by rw [hnotes]; exact hfree
    have hold : db₁.noticesAbout .assignmentCreated "assignment_id" i =
        db.noticesAbout .assignmentCreated "assignment_id" i := noticesAbout_same hnotes
    rw [applyAll_append]
    by_cases hi : e₁.uuid = i
    · subst hi
      refine .to (.assign (draft.saved e₁) (n.saved e₂) hnew ⟨rfl, rfl⟩) ?_
      have hnotice : (apply e₂ (.insertNotification n) db₁).noticesAbout
            .assignmentCreated "assignment_id" e₁.uuid =
          db₁.noticesAbout .assignmentCreated "assignment_id" e₁.uuid ++ [n.saved e₂] :=
        noticesAbout_insert hfree₁ ⟨rfl, by simp [n, assignmentNotification, draft, Assignment.saved]⟩
      rw [if_pos rfl] at hget
      simp only [posting, Posting.mk.injEq]
      exact ⟨hget, hnotice.trans (by rw [hold])⟩
    · rw [if_neg hi] at hget
      refine .to .stay (posting_eq hget (Eq.trans (noticesAbout_other ?_) hold))
      simp [assignmentNotification, Assignment.saved, Ne.symm hi]
  | unassignAdvisor id assignmentId =>
    obtain ⟨e₁, now, row, a, transition, -, -, hrow, -, -, rfl, htrans⟩ := h
    have hget : (applyAll ((e₁, .deactivateAssignment assignmentId now) :: transition) db).assignments.get?
        i = if i = assignmentId then (db.assignments.get? i).map (Assignment.deactivated now)
          else db.assignments.get? i := by
      have hupdate := Table.get?_update db.assignments assignmentId i (Assignment.deactivated now)
        (key_deactivated now)
      cases htrans <;> exact hupdate
    have hnotes : Same .notifications db
        (applyAll ((e₁, .deactivateAssignment assignmentId now) :: transition) db) := by
      cases htrans <;> rfl
    by_cases hi : i = assignmentId
    · rw [if_pos hi] at hget
      refine .to (.release (Assignment.deactivated now) fun a n hn => ⟨hn.1, hn.2⟩) ?_
      simp only [posting, Posting.mk.injEq]
      exact ⟨hget, noticesAbout_same hnotes⟩
    · rw [if_neg hi] at hget
      exact .to .stay (posting_eq hget (noticesAbout_same hnotes))
  | reviewApplication id actor target reason =>
    have hassign : (applyAll w db).assignments = db.assignments :=
      hframe (t := .assignments) (by simp [Call.tables])
    exact .to .stay (posting_eq (by rw [hassign])
      (noticesAbout_applyAll (reviewApplication_notifies h (by simp) (by simp))))
  | reviewAdvice id actor decision reason expectedVersion =>
    have hassign : (applyAll w db).assignments = db.assignments :=
      hframe (t := .assignments) (by simp [Call.tables])
    refine .to .stay (posting_eq (by rw [hassign]) (noticesAbout_applyAll ?_))
    obtain ⟨e₁, e₂, now, row, concern, transition, -, -, -, -, -, -, -, -, -, -, rfl, htrans⟩ := h
    intro p hp
    simp only [List.mem_append, List.mem_singleton] at hp
    obtain (rfl | hp) | rfl := hp
    · rfl
    · exact htrans.notifies rfl p hp
    · cases decision <;> rfl
  | markRead user id =>
    obtain ⟨row, -, -, -, ⟨-, rfl⟩ | ⟨-, e, now, rfl⟩⟩ := h
    · exact .stay
    · refine .to (.read (fun n => if n.id = id then n.marked now else n)
        fun n => sameNotice_marked n id now) ?_
      simp only [applyAll_cons, applyAll_nil, posting, Posting.mk.injEq]
      exact ⟨rfl, noticesAbout_read id now⟩
  | _ =>
    have hassign : (applyAll w db).assignments = db.assignments :=
      hframe (t := .assignments) (by simp [Call.tables])
    refine .to .stay (posting_eq (by rw [hassign]) (noticesAbout_same ?_))
    exact hframe (t := .notifications) (by simp [Call.tables])

/-- The review of an advice: the row it saves and the notice it sends. -/
theorem verdict_review {db : Db} {e₁ e₂ : Env} {row : Advice} {concern : Concern}
    {transition : Pending Write} {c : Prop} {actor : Id} {decision : Decision} {reason : String}
    {now : Time} (i : Id) (hrow : db.advices.get? row.id = some row) (hw : Verdict.Waiting row)
    (hconcern : db.concerns.get? row.concern = some concern)
    (hfree : db.notifications.get? e₂.uuid = none)
    (htrans : RanIf c (.updateConcern row.concern { status := some .answered }) transition) :
    (verdict db i).Step (verdict (applyAll ([(e₁, .saveAdvice (reviewed row actor decision reason now))] ++
      transition ++ [(e₂, .insertNotification (match decision with
        | .approved => adviceApprovedNotification (reviewed row actor decision reason now) concern actor
        | .rejected =>
          adviceRejectedNotification (reviewed row actor decision reason now) concern actor
            reason))]) db) i) := by
  set saved := reviewed row actor decision reason now
  let db₁ := applyAll ([(e₁, .saveAdvice saved)] ++ transition) db
  have hnotes : Same .notifications db db₁ := by
    cases htrans <;> rfl
  have hfree₁ : db₁.notifications.get? e₂.uuid = none := by
    rw [show db₁.notifications = db.notifications from hnotes]
    exact hfree
  have hget : db₁.advices.get? i = if i = row.id then some (saved.overwritten e₁ row)
      else db.advices.get? i := by
    have hsave := Table.get?_update db.advices row.id i (Advice.overwritten e₁ saved)
      (key_overwritten e₁ saved)
    have hupdate : (apply e₁ (.saveAdvice saved) db).advices.get? i =
        if i = row.id then some (saved.overwritten e₁ row) else db.advices.get? i := by
      refine hsave.trans ?_
      split_ifs with hi
      · rw [hi, hrow, Option.map_some]
      · rfl
    cases htrans <;> exact hupdate
  have hauthors : ∀ k, db₁.authorOf k = db.authorOf k := fun k =>
    authorOf_applyAll (by cases htrans <;> simp) k
  have hbase : verdict db₁ i = if i = row.id then
      { verdict db i with row := some (saved.overwritten e₁ row) } else verdict db i := by
    split_ifs with hi
    · subst hi
      rw [if_pos rfl] at hget
      simp only [verdict, hget, hrow, Option.bind_some, hauthors, noticesAbout_same hnotes]
      rfl
    · rw [if_neg hi] at hget
      exact verdict_eq hget hauthors (noticesAbout_same hnotes) (noticesAbout_same hnotes)
  rw [applyAll_append]
  cases decision with
  | approved =>
    have hnotice := verdict_approved (e := e₂) (i := i)
      (n := adviceApprovedNotification saved concern actor) (c := concern.id) rfl rfl hfree₁
    rw [show saved.id = row.id from rfl] at hnotice
    refine .to ?_ hnotice
    rw [hbase]
    by_cases hi : i = row.id
    · subst hi
      have hauthor : (verdict db row.id).author = some concern.author := by
        simp only [verdict, hrow, Option.bind_some, Db.authorOf, hconcern, Option.map_some]
      rw [if_pos rfl, if_pos rfl]
      exact .approve row _ ((adviceApprovedNotification saved concern actor).saved e₂) hrow hw rfl hauthor
    · rw [if_neg hi, if_neg hi]
      exact .stay
  | rejected =>
    have hnotice := verdict_rejected (e := e₂) (i := i)
      (n := adviceRejectedNotification saved concern actor reason) (c := concern.id) rfl rfl hfree₁
    rw [show saved.id = row.id from rfl] at hnotice
    refine .to ?_ hnotice
    rw [hbase]
    by_cases hi : i = row.id
    · subst hi
      rw [if_pos rfl, if_pos rfl]
      exact .reject row _ ((adviceRejectedNotification saved concern actor reason).saved e₂) hrow hw rfl
        (by simp [saved, reviewed, Advice.overwritten]) ⟨rfl, rfl⟩
    · rw [if_neg hi, if_neg hi]
      exact .stay

/-- A transaction is at most one step of each advice with the notices of its review. -/
theorem verdict_step {drift : Db → Db → Prop} {L : Set Key} {w : Pending Write} {db : Db}
    {call : Call} (h : Committed drift L w db call) (i : Id) :
    (verdict db i).Step (verdict (applyAll w db) i) := by
  have hframe {t : TableName} : t ∉ call.tables → Same t db (applyAll w db) := same_of_committed h
  cases call with
  | createConcern author fields =>
    obtain ⟨e, hnew, rfl⟩ := h
    exact verdict_createConcern hnew
  | createAdvice id advisor body submit =>
    obtain ⟨e, db₁, db₂, row, -, -, -, -, hnew, rfl⟩ := h
    exact verdict_createAdvice hnew ⟨rfl, rfl⟩
  | updateAdvice id actor data =>
    obtain ⟨e, row, snapshot, -, hrow, -, hstatus, rfl, -, hsnap⟩ := h
    obtain rfl : row.id = id := (Table.get?_eq_some.mp hrow).2
    have hw : Verdict.Waiting row := by simpa [Verdict.Waiting, editableStatuses] using hstatus
    cases hsnap <;> exact verdict_updateAdvice hrow (.revise row _ hrow hw hw rfl)
  | deleteAdvice id actor =>
    obtain ⟨e, row, -, hrow, -, hstatus, rfl⟩ := h
    obtain rfl : row.id = id := (Table.get?_eq_some.mp hrow).2
    have hw : Verdict.Waiting row ∨ row.status = .rejected := by
      simpa [Verdict.Waiting, deletableStatuses, or_assoc] using hstatus
    exact verdict_updateAdvice hrow (.withdraw row hrow hw)
  | reviewAdvice id actor decision reason expectedVersion =>
    obtain ⟨e₁, e₂, now, row, concern, transition, -, -, hrow, -, hstatus, -, -, hconcern, -, hfree,
      rfl, htrans⟩ := h
    obtain rfl : row.id = id := (Table.get?_eq_some.mp hrow).2
    have hw : Verdict.Waiting row := by simpa [Verdict.Waiting, reviewableStatuses] using hstatus
    exact verdict_review i hrow hw hconcern hfree htrans
  | reviewApplication id actor target reason =>
    exact .to .stay (verdict_committed h (by simp) (by simp [Call.tables])
      (reviewApplication_notifies h (by simp) (by simp))
      (reviewApplication_notifies h (by simp) (by simp)))
  | assignAdvisor id actor data =>
    have hquiet : ∀ type ≠ .assignmentCreated, ∀ p ∈ w, p.2.notifies type = false := by
      intro type htype
      obtain ⟨e₁, e₂, row, transition, -, -, -, -, -, -, -, rfl, htrans⟩ := h
      intro p hp
      simp only [List.mem_append, List.mem_singleton] at hp
      obtain (rfl | hp) | rfl := hp
      · rfl
      · exact htrans.notifies rfl p hp
      · simp [Write.notifies, assignmentNotification, htype.symm]
    exact .to .stay (verdict_committed h (by simp) (by simp [Call.tables]) (hquiet _ (by simp))
      (hquiet _ (by simp)))
  | markRead user id =>
    obtain ⟨row, -, -, -, ⟨-, rfl⟩ | ⟨-, e, now, rfl⟩⟩ := h
    · exact .stay
    · refine .to (.read (fun n => if n.id = id then n.marked now else n)
        fun n => sameNotice_marked n id now) ?_
      simp only [applyAll_cons, applyAll_nil, verdict, Verdict.mk.injEq]
      exact ⟨rfl, rfl, noticesAbout_read id now, noticesAbout_read id now⟩
  | _ =>
    have ha : (applyAll w db).advices = db.advices := hframe (t := .advices) (by simp [Call.tables])
    have hn : Same .notifications db (applyAll w db) :=
      hframe (t := .notifications) (by simp [Call.tables])
    exact .to .stay (verdict_eq (by rw [ha]) (authorOf_committed h (by simp)) (noticesAbout_same hn)
      (noticesAbout_same hn))

end Chamneul
