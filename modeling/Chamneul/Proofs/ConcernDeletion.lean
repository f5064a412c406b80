import Chamneul.Proofs.Disciplined
import Chamneul.Store.Answers

/-! Deleting a concern as its author. `deleteConcern` reads the row, checks it and writes
it without a lock, so what it has checked may no longer hold when it writes. -/

namespace Chamneul

open ReadCommitted ReadCommitted.Prog Service

/-! Who writes `deleted_at`. -/

def Write.stamps (id : Id) : Write → Bool
  | .updateConcern k s => decide (k = id) && s.deletedAt.isSome
  | _ => false

theorem concern_apply (e : Env) (x : Write) {db : Db} {id : Id} {row : Concern}
    (h : db.concerns.get? id = some row) :
    ∃ row', (apply e x db).concerns.get? id = some row' ∧ row'.author = row.author ∧
      (x.stamps id = false → row'.deletedAt = row.deletedAt) := by
  rcases get?_concerns_apply e x h with hget | ⟨s, rfl, hget⟩
  · exact ⟨row, hget, rfl, fun _ => rfl⟩
  · refine ⟨s.apply e row, hget, rfl, fun hx => ?_⟩
    have hnone : s.deletedAt = none := by simpa [Write.stamps] using hx
    simp [ConcernSet.apply, hnone]

/-- A concern is never lost, and keeps its author. -/
theorem concern_applyAll (w : Pending Write) {db : Db} {id : Id} {row : Concern}
    (h : db.concerns.get? id = some row) :
    ∃ row', (applyAll w db).concerns.get? id = some row' ∧ row'.author = row.author ∧
      ((∀ p ∈ w, p.2.stamps id = false) → row'.deletedAt = row.deletedAt) := by
  induction w generalizing db row with
  | nil => exact ⟨row, h, rfl, fun _ => rfl⟩
  | cons p w ih =>
    obtain ⟨row₁, h₁, ha₁, hd₁⟩ := concern_apply p.1 p.2 h
    obtain ⟨row₂, h₂, ha₂, hd₂⟩ := ih h₁
    refine ⟨row₂, h₂, ha₂.trans ha₁, fun hw => ?_⟩
    exact (hd₂ fun q hq => hw q (by simp [hq])).trans (hd₁ (hw p (by simp)))

def Call.stamps (id : Id) : Call → Bool
  | .deleteConcern _ k => decide (k = id)
  | .softDeleteSelected _ | .restoreSelected _ => true
  | _ => false

theorem RanIf.stamps {c : Prop} {k : Id} {s : ConcernSet} {w : Pending Write}
    (h : RanIf c (.updateConcern k s) w) (hs : s.deletedAt = none) (id : Id) :
    ∀ p ∈ w, p.2.stamps id = false := by
  cases h with
  | ran e hc => simp [Write.stamps, hs]
  | skipped hc => simp

theorem stamps_of_committed {drift : Db → Db → Prop} {L : Set Key} {w : Pending Write} {db : Db}
    {call : Call} (h : Committed drift L w db call) {id : Id} (hcall : call.stamps id = false) :
    ∀ p ∈ w, p.2.stamps id = false := by
  by_cases htable : .concerns ∈ call.tables
  · cases call with
    | createConcern author fields =>
      obtain ⟨e, -, rfl⟩ := h
      simp [Write.stamps]
    | updateOwnConcern user k data =>
      obtain ⟨e, row, -, -, -, -, -, -, rfl⟩ := h
      simp [Write.stamps]
    | deleteConcern user k =>
      obtain ⟨e, now, db₁, row, -, -, -, -, rfl⟩ := h
      simpa [Write.stamps, Call.stamps] using hcall
    | assignAdvisor k actor data =>
      obtain ⟨e₁, e₂, row, transition, -, -, -, -, -, -, -, rfl, htrans⟩ := h
      have := htrans.stamps rfl id
      simpa [Write.stamps, or_imp, forall_and] using this
    | unassignAdvisor k assignmentId =>
      obtain ⟨e₁, now, row, a, transition, -, -, -, -, -, rfl, htrans⟩ := h
      have := htrans.stamps rfl id
      simpa [Write.stamps, or_imp, forall_and] using this
    | closeSelected ids =>
      obtain ⟨now, rows, rfl, -, -⟩ := h
      intro p hp
      obtain ⟨r, -, rfl⟩ := List.mem_map.mp hp
      simp [Write.stamps]
    | softDeleteSelected ids => cases hcall
    | restoreSelected ids => cases hcall
    | reviewAdvice k actor decision reason expectedVersion =>
      obtain ⟨e₁, e₂, now, row, concern, transition, -, -, -, -, -, -, -, -, -, -, rfl, htrans⟩ := h
      have := htrans.stamps rfl id
      simpa [Write.stamps, or_imp, forall_and] using this
    | _ => simp [Call.tables] at htable
  · intro p hp
    have hne : p.2.table ≠ .concerns := fun ht => htable (ht ▸ table_of_committed h p hp)
    cases hx : p.2 <;> first | rfl | (rw [hx] at hne; exact absurd rfl hne)

/-! What a `delete_concern` knows. -/

def Db.Stamped (db : Db) (id author : Id) (deletedAt : Option Time) : Prop :=
  ∃ row, db.concerns.get? id = some row ∧ row.author = author ∧ row.deletedAt = deletedAt

theorem Db.Stamped.unique {db : Db} {id author author' : Id} {d d' : Option Time}
    (h : db.Stamped id author d) (h' : db.Stamped id author' d') : author = author' ∧ d = d' := by
  obtain ⟨row, hrow, rfl, rfl⟩ := h
  obtain ⟨row', hrow', rfl, rfl⟩ := h'
  obtain rfl : row = row' := Option.some.inj (hrow.symm.trans hrow')
  exact ⟨rfl, rfl⟩

def alreadyDeleted : APIException := .conflict "이미 삭제된 고민입니다." none

/-- What is left of `delete_concern` when the time is read. -/
def deleteSave (concern : Concern) (now : Time) : Service Unit :=
  atomic (write (.updateConcern concern.id { deletedAt := some (some now) }) fun _ _ => ())

/-- What is left of it when the check is passed. -/
def deleteRest (concern : Concern) : Service Unit := do
  let now ← time
  deleteSave concern now

theorem deleteConcern_reads (user id : Id) :
    ∃ n, deleteConcern user id = .select n ∧ ∀ db,
      (∃ row, row.id = id ∧ db.Stamped id user none ∧ n db = deleteRest row) ∨
      (∃ d, db.Stamped id user (some d) ∧ n db = .ret (.error alreadyDeleted)) ∨
      ((∀ d, ¬ db.Stamped id user d) ∧ n db = .ret (.error .notFound)) := by
  refine ⟨_, rfl, fun db => ?_⟩
  cases hrow : (db.concerns.get? id).filter fun c => decide (c.author = user) with
  | none =>
    refine Or.inr (Or.inr ⟨?_, by simp [hrow, getOr, raise, Prog.andThen]⟩)
    rintro d ⟨row, hget, hauthor, -⟩
    simp [hget, hauthor] at hrow
  | some row =>
    obtain ⟨hget, hauthor⟩ := Option.filter_eq_some_iff.mp hrow
    have hauthor : row.author = user := by simpa using hauthor
    cases hdel : row.deletedAt with
    | none =>
      refine Or.inl ⟨row, (Table.get?_eq_some.mp hget).2, ⟨row, hget, hauthor, hdel⟩, ?_⟩
      simp [hrow, hdel, getOr, raiseIf, softDeleteConcern, deleteRest, deleteSave, pure,
        Prog.andThen, bind]
    | some d =>
      refine Or.inr (Or.inl ⟨d, ⟨row, hget, hauthor, hdel⟩, ?_⟩)
      simp [hrow, hdel, getOr, raiseIf, softDeleteConcern, raise, pure, Prog.andThen, bind,
        alreadyDeleted]

def deletion (id : Id) (now : Time) : Write := .updateConcern id { deletedAt := some (some now) }

/-- Where a `delete_concern` stands; once past its check, the concern is live. -/
inductive DeleteKnows (user id : Id) (db : Db) : Service Unit → Pending Write → Prop
  | start : DeleteKnows user id db (deleteConcern user id) []
  | checked (row : Concern) (hid : row.id = id) (h : db.Stamped id user none) :
      DeleteKnows user id db (deleteRest row) []
  | timed (row : Concern) (now : Time) (hid : row.id = id) (h : db.Stamped id user none) :
      DeleteKnows user id db (deleteSave row now) []
  | written (e : Env) (now : Time) (h : db.Stamped id user none) :
      DeleteKnows user id db (.commit (.ret (.ok ()))) [(e, deletion id now)]
  | ended (r : Except APIException Unit) : DeleteKnows user id db (.ret r) []

/-- What one statement of a `delete_concern` does: nothing yet, a refusal that is true
of the rows it reads, or the deletion. -/
inductive DeleteTurn (user id : Id) (db : Db) (p : Service Unit) (w : Pending Write) :
    Service Unit → Db → Prop
  | nothing (p') (hp : ∀ r, p' ≠ .ret r) : DeleteTurn user id db p w p' db
  | already (d : Time) (h : db.Stamped id user (some d)) :
      DeleteTurn user id db p w (.ret (.error alreadyDeleted)) db
  | absent (h : ∀ d, ¬ db.Stamped id user d) : DeleteTurn user id db p w (.ret (.error .notFound)) db
  | deleted (e : Env) (now : Time) (hp : p = .commit (.ret (.ok ()))) (hw : w = [(e, deletion id now)])
      (h : db.Stamped id user none) :
      DeleteTurn user id db p w (.ret (.ok ())) (applyAll [(e, deletion id now)] db)

section

variable {user id : Id}

theorem stamped_deletion {db : Db} (e : Env) (now : Time) (h : db.Stamped id user none) :
    (applyAll [(e, deletion id now)] db).Stamped id user (some now) := by
  obtain ⟨row, hrow, hauthor, -⟩ := h
  refine ⟨ConcernSet.apply e { deletedAt := some (some now) } row, ?_, hauthor, rfl⟩
  simp [Engine.apply, apply, deletion, Table.get?_update, hrow]

theorem DeleteKnows.turn {c c' : Config system} {t uuid : ℕ} {p : Service Unit} {w : Pending Write}
    (h : DeleteKnows user id c.world.db p w)
    (ht : Config.Turn c t uuid ⟨.deleteConcern user id, p, w⟩ c') :
    ∃ p' w', c'.slot t = some ⟨.deleteConcern user id, p', w'⟩ ∧
      DeleteKnows user id c'.world.db p' w' ∧
      DeleteTurn user id c.world.db p w p' c'.world.db := by
  cases h with
  | start =>
    obtain ⟨n, hp, hn⟩ := deleteConcern_reads user id
    obtain ⟨hworld, hslot⟩ := ht.of_select hp
    refine ⟨_, _, hslot, ?_⟩
    rw [hworld, World.view_nil, World.tick_db]
    rcases hn c.world.db with ⟨row, hid, hlive, hnext⟩ | ⟨d, hd, hnext⟩ | ⟨hnone, hnext⟩ <;> rw [hnext]
    · exact ⟨.checked row hid hlive, .nothing _ fun r hr => by cases hr⟩
    · exact ⟨.ended _, .already d hd⟩
    · exact ⟨.ended _, .absent hnone⟩
  | checked row hid hlive =>
    obtain ⟨hworld, hslot⟩ := ht.of_clock rfl
    refine ⟨_, _, hslot, ?_⟩
    rw [hworld, World.tick_db]
    exact ⟨.timed row _ hid hlive, .nothing _ fun r hr => by cases hr⟩
  | timed row now hid hlive =>
    obtain ⟨hworld, hslot⟩ := ht.of_write_ok rfl rfl
    refine ⟨_, _, hslot, ?_⟩
    rw [hworld, World.tick_db]
    obtain rfl := hid
    exact ⟨.written _ now hlive, .nothing _ fun r hr => by cases hr⟩
  | written e now hlive =>
    obtain ⟨hworld, hslot⟩ := ht.of_commit rfl
    refine ⟨_, _, hslot, .ended _, ?_⟩
    rw [hworld, World.commit_db]
    exact .deleted e now rfl rfl hlive
  | ended r => exact (ht.not_ret rfl).elim

end

/-- The check is passed and the deletion not committed. -/
def underway : Service Unit → Bool
  | .clock _ | Prog.write _ _ | .commit _ => true
  | _ => false

/-- The session has found concern `id` live, is to delete it, and has not ended. -/
def Deleting (id : Id) : Session system → Prop
  | ⟨.deleteConcern _ i, p, _⟩ => i = id ∧ underway p = true
  | _ => False

/-- The step commits a deletion of concern `id` while another call that has found it live
has not ended. -/
def DeletesMeanwhile (id : Id) (c : Config system) (e : Event system) : Prop :=
  ∃ t t' uuid s s' n, e = .run t' uuid ∧ t ≠ t' ∧ c.slot t = some s ∧ c.slot t' = some s' ∧
    Deleting id s ∧ s'.call.stamps id = true ∧ s'.prog = .commit n

def Call.sparesDeletions : Call → Bool
  | .softDeleteSelected _ | .restoreSelected _ => false
  | _ => true

/-- Only authors delete concerns, nobody restores them, and no deletion of concern `id`
falls between the check and the end of another. -/
def OneByOne (id : Id) (c : Config system) (e : Event system) : Prop :=
  e.startsOnly Call.sparesDeletions = true ∧ ¬ DeletesMeanwhile id c e

section

variable {user id : Id}

theorem DeleteKnows.keep {db db' : Db} {p : Service Unit} {w : Pending Write}
    (h : DeleteKnows user id db p w)
    (hdb : underway p = true → db.Stamped id user none → db'.Stamped id user none) :
    DeleteKnows user id db' p w := by
  cases h with
  | start => exact .start
  | checked row hid h => exact .checked row hid (hdb rfl h)
  | timed row now hid h => exact .timed row now hid (hdb rfl h)
  | written e now h => exact .written e now (hdb rfl h)
  | ended r => exact .ended r

theorem DeleteKnows.of_commit {db : Db} {p : Service Unit} {w : Pending Write} {n}
    (h : DeleteKnows user id db p w) (hp : p = .commit n) : db.Stamped id user none := by
  cases h with
  | start =>
    obtain ⟨n', hprog, -⟩ := deleteConcern_reads user id
    exact absurd (hp.symm.trans hprog) (by simp)
  | checked row hid h => exact h
  | timed row now hid h => exact h
  | written e now h => exact h
  | ended r => cases hp

end

section

variable {σ₀ : World Db} {c : Config system} {id : Id}

/-- A commit that is no deletion of the concern leaves it as it was stamped. -/
theorem stamped_committed {drift : Db → Db → Prop} {L : Set Key} {w : Pending Write} {db : Db}
    {call : Call} (h : Committed drift L w db call) (hcall : call.stamps id = false) {author : Id}
    {d : Option Time} (hd : db.Stamped id author d) : (applyAll w db).Stamped id author d := by
  obtain ⟨row, hrow, rfl, rfl⟩ := hd
  obtain ⟨row', hrow', hauthor, hstamp⟩ := concern_applyAll w hrow
  exact ⟨row', hrow', hauthor, hstamp (stamps_of_committed h hcall)⟩

/-- Where authors alone delete, whoever writes `deleted_at` is one. -/
theorem deletes_of_stamps (hr : Config.Reaches (OneByOne id) (Config.idle σ₀) c) {t : ℕ}
    {s : Session system} (hslot : c.slot t = some s) (hcall : s.call.stamps id = true) :
    ∃ user p w, s = ⟨.deleteConcern user id, p, w⟩ := by
  have hcalls : s.call.sparesDeletions = true :=
    hr.calls (P := fun call : Call => call.sparesDeletions = true) (fun c t call ho => ho.1) hslot
  obtain ⟨call, p, w⟩ := s
  cases call with
  | deleteConcern user k =>
    obtain rfl : k = id := by simpa [Call.stamps] using hcall
    exact ⟨user, p, w, rfl⟩
  | softDeleteSelected ids => cases hcalls
  | restoreSelected ids => cases hcalls
  | _ => cases hcall

/-- Deleting one by one, what a `delete_concern` has found is so. -/
theorem deleteConcern_knows (hr : Config.Reaches (OneByOne id) (Config.idle σ₀) c) {t : ℕ}
    {user : Id} {p : Service Unit} {w : Pending Write}
    (hs : c.slot t = some ⟨.deleteConcern user id, p, w⟩) :
    DeleteKnows user id c.world.db p w := by
  refine hr.knows (I := fun p w db => DeleteKnows user id db p w) (fun _ => .start) ?_ ?_ hs
  · intro c c' t uuid p w h ht
    obtain ⟨p', w', hslot', hknows, -⟩ := h.turn ht
    exact ⟨p', w', hslot', hknows⟩
  · intro c t t' uuid p w s' n hr' ho hne hslot hslot' hp hknows
    refine hknows.keep fun hunder hlive => ?_
    refine stamped_committed (committed_of_slot hr' hslot' hp) ?_ hlive
    by_contra hstamps
    exact ho.2 ⟨t, t', uuid, _, s', n, rfl, hne, hslot, hslot', ⟨rfl, hunder⟩,
      by simpa using hstamps, hp⟩

/-- What a `delete_concern` of the author answers. -/
def deletionAnswer (author id : Id) : Answer system → Option (Except APIException Unit)
  | ⟨.deleteConcern u i, r⟩ => if u = author ∧ i = id then some r else none
  | _ => none

theorem deletionAnswer_eq_some {author id : Id} {a : Answer system} {r : Except APIException Unit}
    (h : deletionAnswer author id a = some r) : a = ⟨.deleteConcern author id, r⟩ := by
  obtain ⟨call, r'⟩ := a
  cases call with
  | deleteConcern u k =>
    obtain ⟨⟨rfl, rfl⟩, hr⟩ := Option.ite_none_right_eq_some.mp h
    rw [Option.some.inj hr]
  | _ => cases h

/-- One step, as the author's deletions of one concern see it. -/
inductive DeletionStep (author id : Id) (db db' : Db) : List (Except APIException Unit) → Prop
  | other (h : ∀ d, db.Stamped id author d → db'.Stamped id author d) : DeletionStep author id db db' []
  | already (d : Time) (h : db.Stamped id author (some d)) (h' : db'.Stamped id author (some d)) :
      DeletionStep author id db db' [.error alreadyDeleted]
  | deleted (now : Time) (h : db.Stamped id author none) (h' : db'.Stamped id author (some now)) :
      DeletionStep author id db db' [.ok ()]

theorem deletion_step (hr : Config.Reaches (OneByOne id) (Config.idle σ₀) c) {e : Event system}
    {c' : Config system} (hs : c.step e = some c') {author : Id} {d : Option Time}
    (hd : c.world.db.Stamped id author d) :
    DeletionStep author id c.world.db c'.world.db
      ((c'.answer? e.session).toList.filterMap (deletionAnswer author id)) := by
  by_cases hown : ∃ t uuid p w, e = .run t uuid ∧ c.slot t = some ⟨.deleteConcern author id, p, w⟩
  · obtain ⟨t, uuid, p, w, rfl, hslot⟩ := hown
    obtain ⟨p', w', hslot', -, hturn⟩ := (deleteConcern_knows hr hslot).turn (Config.turn_of_run hslot hs)
    rw [Event.session, Config.answer?_of_slot hslot']
    generalize c'.world.db = db' at hturn ⊢
    cases hturn with
    | nothing _ hp =>
      cases p' with
      | ret r => exact absurd rfl (hp r)
      | _ => exact .other fun _ h => h
    | already d h =>
      simpa [Session.answer?, deletionAnswer] using DeletionStep.already d h h
    | absent h => exact absurd hd (h d)
    | deleted e now hp hw h =>
      simpa [Session.answer?, deletionAnswer] using DeletionStep.deleted now h (stamped_deletion e now h)
  · have hnone : (c'.answer? e.session).toList.filterMap (deletionAnswer author id) = [] := by
      rw [List.filterMap_eq_nil_iff]
      rintro ⟨call, r⟩ ha
      obtain ⟨-, hret⟩ | ⟨t, uuid, s, s', rfl, hslot, -, -, -, hcall⟩ :=
          Config.step_answer hs (Option.mem_toList.mp ha)
      · cases call with
        | deleteConcern user k =>
          obtain ⟨n, hselect, -⟩ := deleteConcern_reads user k
          exact absurd (hselect.symm.trans hret) (by simp)
        | _ => rfl
      · obtain ⟨call', p, w⟩ := s
        obtain rfl : call = call' := hcall
        cases call with
        | deleteConcern user k =>
          refine if_neg ?_
          rintro ⟨rfl, rfl⟩
          exact hown ⟨t, uuid, p, w, rfl, hslot⟩
        | _ => rfl
    rw [hnone]
    refine .other fun d hd => Config.step_keeps (I := fun db : Db => db.Stamped id author d) hs hd ?_
    rintro t uuid s n rfl hslot hp
    refine stamped_committed (committed_of_slot hr hslot hp) ?_ hd
    by_contra hstamps
    obtain ⟨user, p, w, rfl⟩ := deletes_of_stamps hr hslot (by simpa using hstamps)
    have hlive := DeleteKnows.of_commit (deleteConcern_knows hr hslot) hp
    obtain rfl := (hlive.unique hd).1
    exact hown ⟨t, uuid, p, w, rfl, hslot⟩

/-- Once deleted, a concern keeps the time of its deletion. -/
theorem stamped_run (hr : Config.Reaches (OneByOne id) (Config.idle σ₀) c) {c' : Config system}
    (hr' : Config.Reaches (OneByOne id) c c') {author : Id} {now : Time}
    (h : c.world.db.Stamped id author (some now)) : c'.world.db.Stamped id author (some now) := by
  induction hr' with
  | refl => exact h
  | @step c₁ c₂ e hr₁ _ hs ih =>
    have hstep := deletion_step (hr.trans hr₁) hs ih
    generalize (c₂.answer? e.session).toList.filterMap (deletionAnswer author id) = as at hstep
    cases hstep with
    | other h => exact h _ ih
    | already d hd hd' =>
      obtain rfl : now = d := Option.some.inj (ih.unique hd).2
      exact hd'
    | deleted now' hlive _ => cases (ih.unique hlive).2

/-- The author's calls that have ended: none while the concern is live; else the first
has deleted it, and the others have been told so. -/
theorem deletion_answers {author : Id} (h₀ : σ₀.db.Stamped id author none) {as : List (Answer system)}
    (has : Config.Answers (OneByOne id) (Config.idle σ₀) c as) :
    (as.filterMap (deletionAnswer author id) = [] ∧ c.world.db.Stamped id author none) ∨
    ∃ k now, as.filterMap (deletionAnswer author id) =
        .ok () :: List.replicate k (.error alreadyDeleted) ∧
      c.world.db.Stamped id author (some now) := by
  induction has with
  | refl => exact Or.inl ⟨rfl, h₀⟩
  | @step c c' e as has ho hs ih =>
    rw [List.filterMap_append]
    have hd : ∃ d, c.world.db.Stamped id author d := by
      obtain ⟨-, h⟩ | ⟨_, now, -, h⟩ := ih
      · exact ⟨_, h⟩
      · exact ⟨_, h⟩
    obtain ⟨d, hd⟩ := hd
    have hstep := deletion_step has.reaches hs hd
    generalize (c'.answer? e.session).toList.filterMap (deletionAnswer author id) = new at hstep
    obtain ⟨hnil, hlive⟩ | ⟨k, now, hcons, hdel⟩ := ih
    · rw [hnil, List.nil_append]
      cases hstep with
      | other h => exact Or.inl ⟨rfl, h _ hlive⟩
      | already d h _ => cases (hlive.unique h).2
      | deleted now _ h => exact Or.inr ⟨0, now, rfl, h⟩
    · rw [hcons, List.cons_append]
      cases hstep with
      | other h => exact Or.inr ⟨k, now, by rw [List.append_nil], h _ hdel⟩
      | already d h h' =>
        obtain rfl : now = d := Option.some.inj (hdel.unique h).2
        exact Or.inr ⟨k + 1, now, by rw [List.replicate_succ'], h'⟩
      | deleted now' h _ => cases (hdel.unique h).2

/-- Where no deletion of a concern falls between the check and the end of another, its
author's calls delete it once: the first to end succeeds and sets `deleted_at`, which
stays as it is, and all others are told that it is deleted already. -/
theorem one_deletion {author : Id} (h₀ : σ₀.db.Stamped id author none) {as : List (Answer system)}
    (has : Config.Answers (OneByOne id) (Config.idle σ₀) c as) :
    ((as.filterMap (deletionAnswer author id) = [] ∧ c.world.db.Stamped id author none) ∨
      ∃ k now, as.filterMap (deletionAnswer author id) =
          .ok () :: List.replicate k (.error alreadyDeleted) ∧
        ∀ c', Config.Reaches (OneByOne id) c c' → c'.world.db.Stamped id author (some now)) ∧
    ∀ e c', OneByOne id c e → c.step e = some c' → c.world.db.Stamped id author none →
      c'.world.db.Stamped id author none ∨
        c'.answer? e.session = some ⟨.deleteConcern author id, .ok ()⟩ := by
  refine ⟨?_, fun e c' ho hs hlive => ?_⟩
  · obtain hnone | ⟨k, now, hcons, hdel⟩ := deletion_answers h₀ has
    · exact Or.inl hnone
    · exact Or.inr ⟨k, now, hcons, fun c' hr' => stamped_run has.reaches hr' hdel⟩
  · have hstep := deletion_step has.reaches hs hlive
    cases hans : (c'.answer? e.session).bind (deletionAnswer author id) with
    | none =>
      have hnil : (c'.answer? e.session).toList.filterMap (deletionAnswer author id) = [] := by
        cases ha : c'.answer? e.session <;> simp_all
      rw [hnil] at hstep
      cases hstep with
      | other h => exact Or.inl (h _ hlive)
    | some r =>
      obtain ⟨a, ha, hr⟩ := Option.bind_eq_some_iff.mp hans
      obtain rfl := deletionAnswer_eq_some hr
      rw [ha, Option.toList_some, List.filterMap_cons_some hr, List.filterMap_nil] at hstep
      cases hstep with
      | already d h _ => cases (hlive.unique h).2
      | deleted now _ _ => exact Or.inr ha

end

def Call.deletes (author id : Id) : Call → Bool
  | .deleteConcern u i => decide (u = author ∧ i = id)
  | _ => false

def ownConcern : World Db :=
  ⟨{ concerns := Table.empty.insert
      { id := 1, author := 1, fields := { concernSummary := "", concernType := .burnout } } }, 0⟩

/-- Both calls find the concern live, and one deletes it. -/
def bothFound : List (Event system) :=
  [.start 0 (.deleteConcern 1 1), .start 1 (.deleteConcern 1 1), .run 0 0, .run 1 0, .run 0 0,
    .run 0 0, .run 0 0]

def bothDelete : List (Event system) := bothFound ++ [.run 1 0, .run 1 0, .run 1 0]

theorem deleted_twice :
    ownConcern.db.Stamped 1 1 none ∧
    Config.Reaches (fun _ e => e.startsOnly (Call.deletes 1 1) = true) (Config.idle ownConcern)
      ((Config.idle ownConcern).after bothDelete) ∧
    ((Config.idle ownConcern).answersAfter bothDelete).filterMap (deletionAnswer 1 1) =
      [.ok (), .ok ()] ∧
    ((Config.idle ownConcern).after bothFound).world.db.Stamped 1 1 (some 4) ∧
    ((Config.idle ownConcern).after bothDelete).world.db.Stamped 1 1 (some 7) := by
  refine ⟨⟨_, rfl, rfl, rfl⟩, ?_, rfl, ⟨_, rfl, rfl, rfl⟩, ⟨_, rfl, rfl, rfl⟩⟩
  exact Config.reaches_after (fun _ _ h => h) (by decide)

/-- No session of `T` but the one that goes on is deleting concern `id`. -/
def oneByOneAmong (T : List ℕ) (id : Id) (c : Config system) : Event system → Bool
  | .start _ call => call.sparesDeletions
  | .run t _ => T.all fun t' => decide (t' = t) || match c.slot t' with
    | some ⟨.deleteConcern _ i, p, _⟩ => !(decide (i = id) && underway p)
    | _ => true
  | .abort _ => true

theorem oneByOne_of_among {T : List ℕ} {id : Id} {c : Config system} {e : Event system}
    (hT : c.Within T) (h : oneByOneAmong T id c e = true) : OneByOne id c e := by
  refine ⟨by cases e <;> first | exact h | rfl, ?_⟩
  rintro ⟨t, t', uuid, s, s', n, rfl, hne, hslot, -, hdeleting, -⟩
  have hturn := List.all_eq_true.mp h t (hT.mem hslot)
  obtain ⟨call, p, w⟩ := s
  cases call with
  | deleteConcern u i =>
    obtain ⟨rfl, hunder⟩ := hdeleting
    simp [hslot, hne, hunder] at hturn
  | _ => exact hdeleting

/-- One call deletes the concern before the other one reads it. -/
def oneDeletes : List (Event system) :=
  [.start 0 (.deleteConcern 1 1), .start 1 (.deleteConcern 1 1), .run 0 0, .run 0 0, .run 0 0,
    .run 0 0, .run 1 0]

theorem one_deletion_oneDeletes :
    ∃ k now, ((Config.idle ownConcern).answersAfter oneDeletes).filterMap (deletionAnswer 1 1) =
        .ok () :: List.replicate k (.error alreadyDeleted) ∧
      ((Config.idle ownConcern).after oneDeletes).world.db.Stamped 1 1 (some now) := by
  have has : Config.Answers (OneByOne 1) (Config.idle ownConcern)
      ((Config.idle ownConcern).after oneDeletes) ((Config.idle ownConcern).answersAfter oneDeletes) :=
    (Config.within_idle [0, 1] ownConcern).answers_after (fun _ _ => oneByOne_of_among) rfl (by decide)
      rfl
  obtain ⟨hnil, -⟩ | ⟨k, now, hcons, hlater⟩ := (one_deletion ⟨_, rfl, rfl, rfl⟩ has).1
  · cases hnil
  · exact ⟨k, now, hcons, hlater _ .refl⟩

end Chamneul
