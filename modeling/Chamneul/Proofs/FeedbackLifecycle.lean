import Chamneul.Proofs.ApplicationLifecycle
import Chamneul.Store.Sessions

/-! The life of a feedback. `transition_feedback` reads, checks against the table of
edges, and saves, and locks nothing: its edge is still there when it saves as long as
no other call on the same feedback commits in between. -/

namespace Chamneul

open ReadCommitted ReadCommitted.Prog Service

/-- The feedback goes along one edge; the way to REVIEWED is signed, the way out is not. -/
inductive Feedback.Moves (actor : Id) (row : Feedback) : Feedback → Prop
  | review (now : Time) (memo : String) (hs : row.status = .submitted) :
      Moves actor row
        { row with
          status := .reviewed
          reviewedBy := some actor
          reviewedAt := some now
          memo := memo }
  | archive (memo : String) (hs : row.status = .reviewed) :
      Moves actor row { row with status := .archived, memo := memo }

def FeedbackStatus.rank : FeedbackStatus → ℕ
  | .submitted => 0
  | .reviewed => 1
  | .archived => 2

theorem FeedbackStatus.rank_injective {s s' : FeedbackStatus} (h : s.rank = s'.rank) : s = s' := by
  cases s <;> cases s' <;> first | rfl | cases h

theorem Feedback.Moves.rank_lt {actor : Id} {row row' : Feedback} (h : Moves actor row row') :
    row.status.rank < row'.status.rank := by
  cases h with
  | review now memo hs => simp [hs, FeedbackStatus.rank]
  | archive memo hs => simp [hs, FeedbackStatus.rank]

/-- The saved columns make a move where the table allows it. -/
theorem moves_of_allowed (actor : Id) {newStatus : FeedbackStatus} {row : Feedback}
    (memo : Option String) (now : Time) (h : newStatus ∈ row.status.allowed) :
    Feedback.Moves actor row ((transitionSet actor newStatus memo now).apply row) ∧
      ((transitionSet actor newStatus memo now).apply row).status = newStatus := by
  refine ⟨?_, rfl⟩
  cases hs : row.status with
  | submitted =>
    obtain rfl : newStatus = .reviewed := by simpa [hs, FeedbackStatus.allowed] using h
    exact .review now (memo.getD row.memo) hs
  | reviewed =>
    obtain rfl : newStatus = .archived := by simpa [hs, FeedbackStatus.allowed] using h
    exact .archive (memo.getD row.memo) hs
  | archived => simp [hs, FeedbackStatus.allowed] at h

/-- A transaction leaves a feedback alone, unless it is a transition of that feedback. -/
theorem feedbacks_committed {drift : Db → Db → Prop} {L : Set Key} {w : Pending Write} {db : Db}
    {call : Call} (h : Committed drift L w db call) {k : Id} {row : Feedback}
    (hrow : db.feedbacks.get? k = some row) :
    (applyAll w db).feedbacks.get? k = some row ∨
      ∃ actor newStatus memo now, call = .transitionFeedback k actor newStatus memo ∧
        (applyAll w db).feedbacks.get? k =
          some ((transitionSet actor newStatus memo now).apply row) := by
  cases call with
  | createFeedback id author data =>
    obtain ⟨e, db₁, advice, concern, -, -, -, -, -, -, rfl⟩ := h
    exact Or.inl (Table.get?_insert_of_some hrow)
  | transitionFeedback id actor newStatus memo =>
    obtain ⟨e, now, db₁, read, -, -, -, -, rfl⟩ := h
    have hget : (applyAll [(e, .updateFeedback id (transitionSet actor newStatus memo now))]
        db).feedbacks.get? k = _ :=
      Table.get?_update _ _ _ _ (transitionSet actor newStatus memo now).key_apply
    rw [hrow, Option.map_some] at hget
    split_ifs at hget with hk
    · exact Or.inr ⟨actor, newStatus, memo, now, by rw [hk], hget⟩
    · exact Or.inl hget
  | _ =>
    left
    have hsame : (applyAll w db).feedbacks = db.feedbacks :=
      same_of_committed h (t := .feedbacks) (by simp [Call.tables])
    rw [hsame]
    exact hrow

/-! What a `transition_feedback` knows. -/

/-- The table allows the status from the committed one. -/
def Allows (id : Id) (newStatus : FeedbackStatus) (db : Db) : Prop :=
  ∃ row, db.feedbacks.get? id = some row ∧ newStatus ∈ row.status.allowed

section

variable (id actor : Id) (newStatus : FeedbackStatus) (memo : Option String)

/-- What is left of `transition_feedback` when the time is read. -/
def transitionSave (feedback : Feedback) (now : Time) : Service Feedback :=
  let set := transitionSet actor newStatus memo now
  atomic (write (.updateFeedback feedback.id set) fun _ _ => set.apply feedback)

/-- What is left of it when the check is passed. -/
def transitionRest (feedback : Feedback) : Service Feedback := do
  let now ← time
  transitionSave actor newStatus memo feedback now

theorem transitionFeedback_reads :
    ∃ n, transitionFeedback id actor newStatus memo = .select n ∧ ∀ db,
      (∃ row, Allows id newStatus db ∧ n db = transitionRest actor newStatus memo row) ∨
        ∃ e, n db = .ret (.error e) := by
  refine ⟨_, rfl, fun db => ?_⟩
  cases hrow : db.feedbacks.get? id with
  | none =>
    right
    exact ⟨.notFound, by simp [hrow, getOr, raise, Prog.andThen, bind]⟩
  | some row =>
    by_cases hallowed : newStatus ∈ row.status.allowed
    · left
      refine ⟨row, ⟨row, hrow, hallowed⟩, ?_⟩
      simp [hrow, getOr, hallowed, raiseIf, pure, Prog.andThen, bind, transitionRest, transitionSave]
    · right
      exact ⟨_, by simp [hrow, getOr, hallowed, raiseIf, raise, pure, Prog.andThen, bind]; rfl⟩

theorem transitionRest_reads (feedback : Feedback) :
    ∃ n, transitionRest actor newStatus memo feedback = .clock n ∧
      ∀ now, n now = transitionSave actor newStatus memo feedback now :=
  ⟨_, rfl, fun _ => rfl⟩

theorem transitionSave_savesLast (feedback : Feedback) (now : Time) :
    (transitionSave actor newStatus memo feedback now).SavesLast :=
  ⟨_, _, rfl, fun _ _ => ⟨⟨_, rfl⟩, ⟨_, rfl⟩⟩⟩

/-- Where a `transition_feedback` stands; once past its check, its edge is there. -/
inductive TransitionKnows (db : Db) : Service Feedback → Pending Write → Prop
  | start : TransitionKnows db (transitionFeedback id actor newStatus memo) []
  | checked (row : Feedback) (h : Allows id newStatus db) :
      TransitionKnows db (transitionRest actor newStatus memo row) []
  | passed (row : Feedback) (now : Time) (p : Service Feedback) (w : Pending Write)
      (h : Saving (Allows id newStatus db) (transitionSave actor newStatus memo row now) p w) :
      TransitionKnows db p w
  | refused (e : APIException) : TransitionKnows db (.ret (.error e)) []

end

section

variable {id actor : Id} {newStatus : FeedbackStatus} {memo : Option String}

theorem TransitionKnows.turn {c c' : Config system} {t uuid : ℕ} {p : Service Feedback}
    {w : Pending Write} (h : TransitionKnows id actor newStatus memo c.world.db p w)
    (ht : Config.Turn c t uuid ⟨.transitionFeedback id actor newStatus memo, p, w⟩ c') :
    ∃ p' w', c'.slot t = some ⟨.transitionFeedback id actor newStatus memo, p', w'⟩ ∧
      TransitionKnows id actor newStatus memo c'.world.db p' w' := by
  cases h with
  | start =>
    obtain ⟨n, hp, hn⟩ := transitionFeedback_reads id actor newStatus memo
    obtain ⟨hworld, hslot⟩ := ht.of_select hp
    refine ⟨_, _, hslot, ?_⟩
    rcases hn c.world.db with ⟨row, hallows, hnext⟩ | ⟨e, hnext⟩
    · rw [World.view_nil, hnext, hworld]
      exact .checked row hallows
    · rw [World.view_nil, hnext]
      exact .refused e
  | checked row hallows =>
    obtain ⟨n, hp, hn⟩ := transitionRest_reads actor newStatus memo row
    obtain ⟨hworld, hslot⟩ := ht.of_clock hp
    refine ⟨_, _, hslot, ?_⟩
    rw [hn, hworld]
    exact .passed row _ _ _ (.passed hallows)
  | passed row now p w h =>
    obtain ⟨p', w', hslot, h'⟩ := Config.Turn.saving (P := Allows id newStatus)
      (transitionSave_savesLast actor newStatus memo row now) h ht
    exact ⟨p', w', hslot, .passed row now p' w' h'⟩
  | refused e => exact (ht.not_ret rfl).elim

/-- About to commit, its edge is there. -/
theorem TransitionKnows.of_commit {db : Db} {p : Service Feedback} {w : Pending Write} {n}
    (h : TransitionKnows id actor newStatus memo db p w) (hp : p = .commit n) :
    Allows id newStatus db := by
  cases h with
  | start =>
    obtain ⟨n', hprog, -⟩ := transitionFeedback_reads id actor newStatus memo
    exact absurd (hp.symm.trans hprog) (by simp)
  | checked row _ =>
    obtain ⟨n', hprog, -⟩ := transitionRest_reads actor newStatus memo row
    exact absurd (hp.symm.trans hprog) (by simp)
  | passed row now p w h => exact h.of_saving (by rw [hp]; rfl)
  | refused e => cases hp

theorem TransitionKnows.keep {db db' : Db} {p : Service Feedback} {w : Pending Write}
    (h : TransitionKnows id actor newStatus memo db p w)
    (hdb : (∃ row, p = transitionRest actor newStatus memo row) ∨ p.saving = true →
      Allows id newStatus db → Allows id newStatus db') :
    TransitionKnows id actor newStatus memo db' p w := by
  cases h with
  | start => exact .start
  | checked row h => exact .checked row (hdb (Or.inl ⟨row, rfl⟩) h)
  | passed row now p w h =>
    exact .passed row now p w (h.keep (transitionSave_savesLast actor newStatus memo row now)
      fun hp => hdb (Or.inr hp))
  | refused e => exact .refused e

end

def TransitionSession (s : Session system) (db : Db) : Prop :=
  match s with
  | ⟨.transitionFeedback id actor newStatus memo, p, w⟩ =>
    TransitionKnows id actor newStatus memo db p w
  | _ => True

/-- The session is past its check of feedback `id` and has not ended. -/
def PastCheck (id : Id) : Session system → Prop
  | ⟨.transitionFeedback i actor newStatus memo, p, _⟩ =>
    i = id ∧ ((∃ row, p = transitionRest actor newStatus memo row) ∨ p.saving = true)
  | _ => False

def Call.transitions (id : Id) : Call → Bool
  | .transitionFeedback i _ _ _ => decide (i = id)
  | _ => false

/-- The step commits a transition of a feedback that another call has checked and has not
saved yet. -/
def Overtakes (c : Config system) (e : Event system) : Prop :=
  ∃ t t' uuid s s' n id, e = .run t' uuid ∧ t ≠ t' ∧ c.slot t = some s ∧ c.slot t' = some s' ∧
    PastCheck id s ∧ s'.call.transitions id = true ∧ s'.prog = .commit n

section

variable {σ₀ : World Db} {c : Config system}

/-- Where nobody overtakes a `transition_feedback`, what its session knows is so. -/
theorem transitionSession_knows
    (hr : Config.Reaches (fun c e => ¬ Overtakes c e) (Config.idle σ₀) c) {t : ℕ} {s : Session system}
    (hs : c.slot t = some s) : TransitionSession s c.world.db := by
  obtain ⟨call, p, w⟩ := s
  cases call with
  | transitionFeedback id actor newStatus memo =>
    refine hr.knows (I := fun p w db => TransitionKnows id actor newStatus memo db p w)
      (fun _ => .start) TransitionKnows.turn ?_ hs
    intro c t t' uuid p w s' n hr' hok hne hslot hslot' hp hknows
    refine hknows.keep fun hphase ⟨row, hrow, hallowed⟩ => ?_
    have hcom := committed_of_slot hr' hslot' hp
    rcases feedbacks_committed hcom hrow with hkept | ⟨actor', status', memo', now, hcall, -⟩
    · exact ⟨row, hkept, hallowed⟩
    · refine absurd ⟨t, t', uuid, _, s', n, id, rfl, hne, hslot, hslot', ⟨rfl, hphase⟩, ?_, hp⟩ hok
      simp [hcall, Call.transitions]
  | _ => trivial

/-- The commit of a transition moves its feedback to the status it asks for. -/
theorem transition_moves (hr : Config.Reaches (fun c e => ¬ Overtakes c e) (Config.idle σ₀) c)
    {t uuid : ℕ} {s : Session system} {n} {c' : Config system} {id actor : Id}
    {newStatus : FeedbackStatus} {memo : Option String} (hslot : c.slot t = some s)
    (hcall : s.call = .transitionFeedback id actor newStatus memo) (hp : s.prog = .commit n)
    (hs : c.step (.run t uuid) = some c') :
    ∃ row row', c.world.db.feedbacks.get? id = some row ∧
      c'.world.db.feedbacks.get? id = some row' ∧ Feedback.Moves actor row row' ∧
      row'.status = newStatus := by
  have hknows := transitionSession_knows hr hslot
  have hcom := committed_of_slot hr hslot hp
  have hworld := ((Config.turn_of_run hslot hs).of_commit hp).1
  obtain ⟨call, p, w⟩ := s
  obtain rfl : call = .transitionFeedback id actor newStatus memo := hcall
  obtain ⟨row, hrow, hallowed⟩ := TransitionKnows.of_commit hknows hp
  obtain ⟨e, now, db₁, read, -, -, -, -, hw⟩ := hcom
  obtain rfl : w = [(e, .updateFeedback id (transitionSet actor newStatus memo now))] := hw
  obtain ⟨hmoves, hstatus⟩ := moves_of_allowed actor memo now hallowed
  refine ⟨row, _, hrow, ?_, hmoves, hstatus⟩
  rw [hworld, World.commit_db]
  simp [Engine.apply, apply, Table.get?_update, hrow]

/-- Every step leaves a feedback alone or is the commit of a transition of it, which moves it. -/
theorem feedback_step (hr : Config.Reaches (fun c e => ¬ Overtakes c e) (Config.idle σ₀) c)
    {e : Event system} {c' : Config system} (hs : c.step e = some c') {id : Id} {row : Feedback}
    (hrow : c.world.db.feedbacks.get? id = some row) :
    ∃ row', c'.world.db.feedbacks.get? id = some row' ∧ (row' = row ∨
      ∃ t uuid s n actor memo, e = .run t uuid ∧ c.slot t = some s ∧ s.prog = .commit n ∧
        s.call = .transitionFeedback id actor row'.status memo ∧ Feedback.Moves actor row row') := by
  rcases Config.step_world hs with hw | ⟨t, uuid, s, n, rfl, hslot, hp, hw⟩
  · exact ⟨row, by rw [hw]; exact hrow, Or.inl rfl⟩
  · have hcom := committed_of_slot hr hslot hp
    rcases feedbacks_committed hcom hrow with hkept | ⟨actor, newStatus, memo, now, hcall, -⟩
    · exact ⟨row, by rw [hw]; exact hkept, Or.inl rfl⟩
    · obtain ⟨row₀, row', hrow₀, hrow', hmoves, hstatus⟩ := transition_moves hr hslot hcall hp hs
      obtain rfl : row₀ = row := Option.some.inj (hrow₀.symm.trans hrow)
      exact ⟨row', hrow', Or.inr ⟨t, uuid, s, n, actor, memo, rfl, hslot, hp, hstatus ▸ hcall, hmoves⟩⟩

/-- Along a run a feedback only moves on, and keeps its reviewer. -/
theorem feedback_run (hr : Config.Reaches (fun c e => ¬ Overtakes c e) (Config.idle σ₀) c)
    {c' : Config system} (hr' : Config.Reaches (fun c e => ¬ Overtakes c e) c c') {id : Id}
    {row : Feedback} (hrow : c.world.db.feedbacks.get? id = some row) :
    ∃ row', c'.world.db.feedbacks.get? id = some row' ∧ row.status.rank ≤ row'.status.rank ∧
      (row.status ≠ .submitted →
        row'.reviewedBy = row.reviewedBy ∧ row'.reviewedAt = row.reviewedAt) := by
  induction hr' with
  | refl => exact ⟨row, hrow, le_rfl, fun _ => ⟨rfl, rfl⟩⟩
  | step hr'' _ hs ih =>
    obtain ⟨row₁, hrow₁, hle₁, hby₁⟩ := ih
    obtain ⟨row₂, hrow₂, rfl | ⟨_, _, _, _, actor, memo, -, -, -, -, hmoves⟩⟩ :=
      feedback_step (hr.trans hr'') hs hrow₁
    · exact ⟨row₂, hrow₂, hle₁, hby₁⟩
    · refine ⟨row₂, hrow₂, hle₁.trans hmoves.rank_lt.le, fun hne => ?_⟩
      cases hmoves with
      | review now memo hsub =>
        -- Whoever has left SUBMITTED does not come back to it.
        have hrank : row.status.rank = FeedbackStatus.submitted.rank := by
          rw [hsub] at hle₁
          exact Nat.le_zero.mp hle₁
        exact absurd (FeedbackStatus.rank_injective hrank) hne
      | archive memo hrev => exact hby₁ hne

/-- A feedback moves one way and is reviewed once, as long as no transition of it commits
between the check of another call and its end: every change is the commit of one call
along one edge of the table, which signs the review and nothing else; a call that
commits makes such a change; and a status that was left does not come back. -/
theorem feedback_one_way (hr : Config.Reaches (fun c e => ¬ Overtakes c e) (Config.idle σ₀) c) :
    (∀ e c' id row, c.step e = some c' → c.world.db.feedbacks.get? id = some row →
      ∃ row', c'.world.db.feedbacks.get? id = some row' ∧ (row' = row ∨
        ∃ t uuid s n actor memo, e = .run t uuid ∧ c.slot t = some s ∧ s.prog = .commit n ∧
          s.call = .transitionFeedback id actor row'.status memo ∧ Feedback.Moves actor row row')) ∧
    (∀ t uuid s n c' id actor newStatus memo, c.slot t = some s → s.prog = .commit n →
      s.call = .transitionFeedback id actor newStatus memo → c.step (.run t uuid) = some c' →
      ∃ row row', c.world.db.feedbacks.get? id = some row ∧
        c'.world.db.feedbacks.get? id = some row' ∧ Feedback.Moves actor row row') ∧
    ∀ c₁ c₂ id row row₁, Config.Reaches (fun c e => ¬ Overtakes c e) c c₁ →
      Config.Reaches (fun c e => ¬ Overtakes c e) c₁ c₂ →
      c.world.db.feedbacks.get? id = some row → c₁.world.db.feedbacks.get? id = some row₁ →
      row₁.status ≠ row.status → ∃ row₂, c₂.world.db.feedbacks.get? id = some row₂ ∧
        row₂.status ≠ row.status ∧ row₂.reviewedBy = row₁.reviewedBy ∧
        row₂.reviewedAt = row₁.reviewedAt := by
  refine ⟨fun e c' id row hs hrow => feedback_step hr hs hrow, ?_, ?_⟩
  · intro t uuid s n c' id actor newStatus memo hslot hp hcall hs
    obtain ⟨row, row', hrow, hrow', hmoves, -⟩ := transition_moves hr hslot hcall hp hs
    exact ⟨row, row', hrow, hrow', hmoves⟩
  · intro c₁ c₂ id row row₁ hr₁ hr₂ hrow hrow₁ hne
    obtain ⟨row₁', hrow₁', hle₁, -⟩ := feedback_run hr hr₁ hrow
    obtain rfl : row₁ = row₁' := Option.some.inj (hrow₁.symm.trans hrow₁')
    obtain ⟨row₂, hrow₂, hle₂, hby⟩ := feedback_run (hr.trans hr₁) hr₂ hrow₁
    have hlt : row.status.rank < row₁.status.rank :=
      lt_of_le_of_ne hle₁ fun h => hne (FeedbackStatus.rank_injective h.symm)
    refine ⟨row₂, hrow₂, fun h => ?_, hby fun h => ?_⟩
    · rw [h] at hle₂
      omega
    · rw [h] at hlt
      exact Nat.not_lt_zero _ hlt

end

/-- A feedback that waits to be reviewed. -/
def awaitingReview : World Db :=
  ⟨{ feedbacks := Table.empty.insert { id := 1, advice := 5, author := 1, score := 3 } }, 0⟩

/-- User 9 reviews and archives it while a review by user 8 is past its check. -/
def archivedMeanwhile : Config system :=
  (Config.idle awaitingReview).after
    [.start 0 (.transitionFeedback 1 8 .reviewed none), .run 0 0,
      .start 1 (.transitionFeedback 1 9 .reviewed none), .run 1 0, .run 1 0, .run 1 0, .run 1 0,
      .start 2 (.transitionFeedback 1 9 .archived none), .run 2 0, .run 2 0, .run 2 0, .run 2 0,
      .run 0 0, .run 0 0]

theorem review_repeated : Config.Reachable (Config.idle awaitingReview) archivedMeanwhile ∧
    archivedMeanwhile.step (.run 0 0) = some (archivedMeanwhile.after [.run 0 0]) ∧
    (archivedMeanwhile.world.db.feedbacks.get? 1).map (fun f => (f.status, f.reviewedBy)) =
      some (.archived, some 9) ∧
    ((archivedMeanwhile.after [.run 0 0]).world.db.feedbacks.get? 1).map
      (fun f => (f.status, f.reviewedBy)) = some (.reviewed, some 8) :=
  ⟨Config.reachable_after _ _, rfl, by decide, by decide⟩

def inTurnAmong (T : List ℕ) (c : Config system) : Event system → Bool
  | .run t _ => T.all fun t' => decide (t' = t) ||
      match c.slot t, c.slot t' with
      | some ⟨.transitionFeedback i _ _ _, _, _⟩, some ⟨.transitionFeedback j _ _ _, p, _⟩ =>
        !(decide (i = j) && match p with
          | .clock _ => true
          | _ => p.saving)
      | _, _ => true
  | _ => true

theorem not_overtakes {T : List ℕ} {c : Config system} {e : Event system} (hT : c.Within T)
    (h : inTurnAmong T c e = true) : ¬ Overtakes c e := by
  rintro ⟨t, t', uuid, s, s', n, id, rfl, hne, hslot, hslot', hpast, hcall, -⟩
  have ht : t ∈ T := hT.mem hslot
  have hturn := List.all_eq_true.mp h t ht
  obtain ⟨call, p, w⟩ := s
  obtain ⟨call', p', w'⟩ := s'
  cases call with
  | transitionFeedback i actor newStatus memo =>
    obtain ⟨rfl, hphase⟩ := hpast
    cases call' with
    | transitionFeedback j actor' newStatus' memo' =>
      obtain rfl : j = i := by simpa [Call.transitions] using hcall
      rcases hphase with ⟨row, rfl⟩ | hsaving
      · obtain ⟨n', hrest, -⟩ := transitionRest_reads actor newStatus memo row
        simp [hslot, hslot', hne, hrest] at hturn
      · simp only [hslot, hslot', hne, decide_false, Bool.false_or, decide_true, Bool.true_and] at hturn
        cases p <;> simp_all [Prog.saving]
    | _ => cases hcall
  | _ => exact hpast.elim

/-- User 8 has reviewed it. -/
def inTurn : Config system :=
  (Config.idle awaitingReview).after
    [.start 0 (.transitionFeedback 1 8 .reviewed none),
      .start 1 (.transitionFeedback 1 9 .archived none), .run 0 0, .run 0 0, .run 0 0, .run 0 0]

theorem feedback_one_way_inTurn : ∃ row,
    (inTurn.after [.run 1 0, .run 1 0, .run 1 0, .run 1 0]).world.db.feedbacks.get? 1 = some row ∧
      row.status ≠ .submitted ∧ row.reviewedBy = some 8 := by
  have hr : Config.Reaches (fun c e => ¬ Overtakes c e) (Config.idle awaitingReview) inTurn :=
    (Config.within_idle [0, 1] _).reaches_after (fun _ _ => not_overtakes) (by decide) (by decide)
  have hr' : Config.Reaches (fun c e => ¬ Overtakes c e) inTurn
      (inTurn.after [.run 1 0, .run 1 0, .run 1 0, .run 1 0]) := by
    refine Config.Within.reaches_after (T := [0, 1]) (fun _ _ => not_overtakes) ?_ (by decide) (by decide)
    exact (Config.within_idle [0, 1] _).after (by decide)
  obtain ⟨row, hrow, hstatus, hby, -⟩ := (feedback_one_way .refl).2.2 inTurn _ 1 _ _ hr hr' rfl rfl
    (by decide)
  exact ⟨row, hrow, hstatus, hby⟩

end Chamneul
