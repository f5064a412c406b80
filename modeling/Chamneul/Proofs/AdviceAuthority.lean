import Chamneul.Proofs.ConcernLifecycle
import Chamneul.Proofs.Origins
import Chamneul.Store.Sessions

/-! Who gets to write an advice. `create_advice` reads the concern, then the assignment,
and then inserts, and locks neither: what it has read holds when its insert commits as
long as nobody takes it back in between. -/

namespace Chamneul

open ReadCommitted ReadCommitted.Prog Service

def Db.isLive (db : Db) (concern : Id) : Bool := (db.liveConcern? concern).isSome

/-- What is left of `create_advice` when both checks are passed. -/
def adviceInsert (id advisor : Id) (body : AdviceBody) (submit : Bool) : Service Advice :=
  let advice : Advice := { concern := id, advisor := advisor, body := body, isSubmitted := submit }
  handle (atomic (write (.insertAdvice advice) fun e _ => advice.saved e)) fun _ =>
    raise (.conflict "이미 이 고민에 작성한 조언이 있습니다." none)

/-- What is left of it when the concern is found. -/
def assignmentCheck (id advisor : Id) (body : AdviceBody) (submit : Bool) : Service Advice := do
  let assigned ← query fun db => db.isAssigned id advisor
  raiseIf (assigned = false) (.permissionDenied "배정되지 않은 고민입니다.")
  adviceInsert id advisor body submit

section

variable (id advisor : Id) (body : AdviceBody) (submit : Bool)

theorem createAdvice_reads : ∃ n, createAdvice id advisor body submit = .select n ∧ ∀ db,
    (db.isLive id = true ∧ n db = assignmentCheck id advisor body submit) ∨ ∃ e, n db = .ret (.error e) := by
  refine ⟨_, rfl, fun db => ?_⟩
  cases hfound : db.liveConcern? id with
  | none =>
    right
    exact ⟨.notFound, by simp [hfound, getOr, raise, Prog.andThen, bind]⟩
  | some row =>
    left
    have hid : row.id = id := (Table.get?_eq_some.mp (Option.filter_eq_some_iff.mp hfound).1).2
    refine ⟨by rw [Db.isLive, hfound]; rfl, ?_⟩
    simp only [hfound, getOr, pure, Prog.andThen, bind, hid]
    rfl

theorem assignmentCheck_reads : ∃ n, assignmentCheck id advisor body submit = .select n ∧ ∀ db,
    (db.isAssigned id advisor = true ∧ n db = adviceInsert id advisor body submit) ∨
      ∃ e, n db = .ret (.error e) := by
  refine ⟨_, rfl, fun db => ?_⟩
  cases hassigned : db.isAssigned id advisor with
  | false =>
    right
    exact ⟨.permissionDenied "배정되지 않은 고민입니다.", by
      simp [hassigned, raiseIf, raise, Prog.andThen, bind]⟩
  | true =>
    left
    exact ⟨rfl, by simp [hassigned, raiseIf, pure, Prog.andThen, bind]⟩

theorem adviceInsert_savesLast : (adviceInsert id advisor body submit).SavesLast :=
  ⟨_, _, rfl, fun _ _ => ⟨⟨_, rfl⟩, ⟨_, rfl⟩⟩⟩

/-- What a `create_advice` knows of the committed rows at each of its statements. -/
inductive AdviceKnows (db : Db) : Service Advice → Pending Write → Prop
  | start : AdviceKnows db (createAdvice id advisor body submit) []
  | found (hlive : db.isAssigned id advisor = true → db.isLive id = true) :
      AdviceKnows db (assignmentCheck id advisor body submit) []
  | passed (p : Service Advice) (w : Pending Write)
      (h : Saving (db.isLive id = true ∧ db.isAssigned id advisor = true)
        (adviceInsert id advisor body submit) p w) : AdviceKnows db p w

end

section

variable {id advisor : Id} {body : AdviceBody} {submit : Bool}

/-- Each of its own statements adds to it what was read. -/
theorem AdviceKnows.turn {c c' : Config system} {t uuid : ℕ} {p : Service Advice} {w : Pending Write}
    (h : AdviceKnows id advisor body submit c.world.db p w)
    (ht : Config.Turn c t uuid ⟨.createAdvice id advisor body submit, p, w⟩ c') :
    ∃ p' w', c'.slot t = some ⟨.createAdvice id advisor body submit, p', w'⟩ ∧
      AdviceKnows id advisor body submit c'.world.db p' w' := by
  cases h with
  | start =>
    obtain ⟨n, hp, hn⟩ := createAdvice_reads id advisor body submit
    obtain ⟨hworld, hslot⟩ := ht.of_select hp
    refine ⟨_, _, hslot, ?_⟩
    rcases hn c.world.db with ⟨hlive, hnext⟩ | ⟨e, hnext⟩
    · rw [World.view_nil, hnext, hworld]
      exact .found fun _ => hlive
    · rw [World.view_nil, hnext]
      exact .passed _ _ (.returned _ _)
  | found hlive =>
    obtain ⟨n, hp, hn⟩ := assignmentCheck_reads id advisor body submit
    obtain ⟨hworld, hslot⟩ := ht.of_select hp
    refine ⟨_, _, hslot, ?_⟩
    rcases hn c.world.db with ⟨hassigned, hnext⟩ | ⟨e, hnext⟩
    · rw [World.view_nil, hnext, hworld]
      exact .passed _ _ (.passed ⟨hlive hassigned, hassigned⟩)
    · rw [World.view_nil, hnext]
      exact .passed _ _ (.returned _ _)
  | passed p w h =>
    obtain ⟨p', w', hslot, h'⟩ := Config.Turn.saving
      (P := fun db => db.isLive id = true ∧ db.isAssigned id advisor = true)
      (adviceInsert_savesLast id advisor body submit) h ht
    exact ⟨p', w', hslot, .passed p' w' h'⟩

/-- About to commit, it has both checks behind it. -/
theorem AdviceKnows.of_commit {db : Db} {p : Service Advice} {w : Pending Write} {n}
    (h : AdviceKnows id advisor body submit db p w) (hp : p = .commit n) :
    db.isLive id = true ∧ db.isAssigned id advisor = true := by
  cases h with
  | start =>
    obtain ⟨n', hprog, -⟩ := createAdvice_reads id advisor body submit
    exact absurd (hp.symm.trans hprog) (by simp)
  | found _ =>
    obtain ⟨n', hprog, -⟩ := assignmentCheck_reads id advisor body submit
    exact absurd (hp.symm.trans hprog) (by simp)
  | passed p w h => exact h.of_saving (by rw [hp]; rfl)

/-- What it knows stays true where the concern stays alive and its advisor assigned, and where an
advisor is only assigned to a concern that is alive. -/
theorem AdviceKnows.keep {db db' : Db} {p : Service Advice} {w : Pending Write}
    (h : AdviceKnows id advisor body submit db p w)
    (hlive : p = assignmentCheck id advisor body submit ∨ p.saving = true →
      db.isAssigned id advisor = true → db.isLive id = true → db'.isLive id = true)
    (hmade : db.isAssigned id advisor = false → db'.isAssigned id advisor = true → db'.isLive id = true)
    (hassigned : p.saving = true → db.isAssigned id advisor = true → db'.isAssigned id advisor = true) :
    AdviceKnows id advisor body submit db' p w := by
  cases h with
  | start => exact .start
  | found h =>
    refine .found fun hassigned' => ?_
    cases hbefore : db.isAssigned id advisor with
    | false => exact hmade hbefore hassigned'
    | true => exact hlive (Or.inl rfl) hbefore (h hbefore)
  | passed p w h =>
    refine .passed p w (h.keep (adviceInsert_savesLast id advisor body submit) fun hp hP => ?_)
    exact ⟨hlive (Or.inr hp) hP.2 hP.1, hassigned hp hP.2⟩

end

def AdviceSession (s : Session system) (db : Db) : Prop :=
  match s with
  | ⟨.createAdvice id advisor body submit, p, w⟩ => AdviceKnows id advisor body submit db p w
  | _ => True

/-! What takes it back. -/

def Write.deletes (id : Id) : Write → Bool
  | .updateConcern k s => decide (k = id) && s.deletedAt.any (·.isSome)
  | _ => false

def Write.releases (db : Db) (concern advisor : Id) : Write → Bool
  | .deactivateAssignment k _ => (db.assignments.get? k).any fun a =>
      decide (a.concern = concern ∧ a.advisor = advisor)
  | _ => false

/-- The session has found concern `id`, for an advice of `advisor`, and has not ended. -/
def FoundConcern (id advisor : Id) : Session system → Prop
  | ⟨.createAdvice i a body submit, p, _⟩ =>
    i = id ∧ a = advisor ∧ (p = assignmentCheck i a body submit ∨ p.saving = true)
  | _ => False

/-- The session has found its advisor assigned to concern `id` as well. -/
def PassedChecks (id advisor : Id) : Session system → Prop
  | ⟨.createAdvice i a _ _, p, _⟩ => i = id ∧ a = advisor ∧ p.saving = true
  | _ => False

/-- The step commits a deletion of a concern, or the end of an assignment, that a `create_advice` has
already checked and has not acted on yet; a deletion, while the advisor is assigned to the concern. -/
def Undercuts (c : Config system) (e : Event system) : Prop :=
  ∃ t t' uuid s s' n, e = .run t' uuid ∧ c.slot t = some s ∧ c.slot t' = some s' ∧
    s'.prog = .commit n ∧
    ((∃ id advisor, FoundConcern id advisor s ∧ c.world.db.isAssigned id advisor = true ∧
        ∃ p ∈ s'.writes, p.2.deletes id = true) ∨
      ∃ id advisor, PassedChecks id advisor s ∧
        ∃ p ∈ s'.writes, p.2.releases c.world.db id advisor = true)

theorem isLive_apply {e : Env} {x : Write} {db : Db} {id : Id} (hx : x.deletes id = false)
    (h : db.isLive id = true) : (apply e x db).isLive id = true := by
  obtain ⟨row, hrow⟩ := Option.isSome_iff_exists.mp h
  obtain ⟨hget, hlive⟩ := Option.filter_eq_some_iff.mp hrow
  rcases get?_concerns_apply e x hget with hget' | ⟨s, rfl, hget'⟩
  · rw [Db.isLive, Db.liveConcern?, hget', Option.filter_some, if_pos hlive]
    rfl
  · have hset : s.deletedAt.any (·.isSome) = false := by simpa [Write.deletes] using hx
    have hkept : (s.apply e row).deletedAt = none := by
      cases hs : s.deletedAt with
      | none => simpa [ConcernSet.apply, hs] using hlive
      | some d => simpa [ConcernSet.apply, hs] using hset
    rw [Db.isLive, Db.liveConcern?, hget', Option.filter_some, if_pos (by simp [hkept])]
    rfl

theorem isLive_applyAll {w : Pending Write} {db : Db} {id : Id}
    (hw : ∀ p ∈ w, p.2.deletes id = false) (h : db.isLive id = true) :
    (applyAll w db).isLive id = true :=
  holds_applyAll (I := fun db : Db => db.isLive id = true) h
    fun p hp _ hold => isLive_apply (hw p hp) hold

theorem isAssigned_apply {e : Env} {x : Write} {db : Db} {id advisor : Id}
    (hx : x.releases db id advisor = false) (h : db.isAssigned id advisor = true) :
    (apply e x db).isAssigned id advisor = true := by
  obtain ⟨a, ha, hactive⟩ := (Table.any_iff _ _).mp h
  cases x with
  | insertAssignment r => exact (Table.any_iff _ _).mpr ⟨a, Table.mem_insert_of_mem ha, hactive⟩
  | deactivateAssignment k t =>
    refine (Table.any_iff _ _).mpr ⟨a, ?_, hactive⟩
    rw [apply, Table.mem_update]
    refine ⟨a, ha, ?_⟩
    -- The assignment that ends is another one.
    rw [if_neg]
    rintro rfl
    simp only [Bool.and_eq_true, decide_eq_true_eq] at hactive
    have hget : db.assignments.get? (Keyed.key a) = some a := Table.mem_iff_get?.mp ha
    rw [Write.releases, hget] at hx
    simp [hactive.1] at hx
  | _ => exact h

theorem isAssigned_applyAll {w : Pending Write} {db : Db} {id advisor : Id}
    (hw : ∀ p ∈ w, p.2.table ≠ .assignments ∨ ∃ r, p.2 = .insertAssignment r)
    (h : db.isAssigned id advisor = true) : (applyAll w db).isAssigned id advisor = true := by
  refine holds_applyAll (I := fun db : Db => db.isAssigned id advisor = true) h fun p hp db' hold => ?_
  refine isAssigned_apply ?_ hold
  rcases hw p hp with ht | ⟨r, hr⟩
  · cases hx : p.2 <;> first | rfl | (rw [hx] at ht; exact absurd rfl ht)
  · rw [hr]
    rfl

/-- Only the end of an assignment unassigns anybody. -/
theorem isAssigned_committed {drift : Db → Db → Prop} {L : Set Key} {w : Pending Write} {db : Db}
    {call : Call} (h : Committed drift L w db call) {id advisor : Id}
    (hw : ∀ p ∈ w, p.2.releases db id advisor = false) (hassigned : db.isAssigned id advisor = true) :
    (applyAll w db).isAssigned id advisor = true := by
  cases call with
  | assignAdvisor k actor data =>
    obtain ⟨e₁, e₂, row, transition, -, -, -, -, -, -, -, rfl, htrans⟩ := h
    refine isAssigned_applyAll ?_ hassigned
    cases htrans <;> simp [Write.table]
  | unassignAdvisor k assignmentId =>
    obtain ⟨e₁, now, row, a, transition, -, -, -, -, -, rfl, htrans⟩ := h
    have hfirst := isAssigned_apply (e := e₁) (hw _ (List.mem_cons_self ..)) hassigned
    refine isAssigned_applyAll (w := transition) ?_ hfirst
    cases htrans <;> simp [Write.table]
  | _ =>
    have hsame : (applyAll w db).assignments = db.assignments :=
      same_of_committed h (t := .assignments) (by simp [Call.tables])
    rw [Db.isAssigned, hsame]
    exact hassigned

theorem isAssigned_origin {e : Env} {x : Write} {db : Db} {id advisor : Id}
    (h : (apply e x db).isAssigned id advisor = true) :
    db.isAssigned id advisor = true ∨ ∃ r, x = .insertAssignment r ∧ r.concern = id := by
  obtain ⟨a, ha, hactive⟩ := (Table.any_iff _ _).mp h
  obtain hold | ⟨r, rfl, rfl⟩ | ⟨k, t, a₀, -, rfl, rfl⟩ := assignment_origin ha
  · exact .inl ((Table.any_iff _ _).mpr ⟨a, hold, hactive⟩)
  · rw [Bool.and_eq_true, decide_eq_true_eq] at hactive
    exact .inr ⟨r, rfl, hactive.1.1⟩
  · rw [Assignment.deactivated, Bool.and_false] at hactive
    cases hactive

/-- An advisor is assigned to a concern that is alive. -/
theorem isLive_of_assigned {drift : Db → Db → Prop} {L : Set Key} {w : Pending Write} {db : Db}
    {call : Call} (h : Committed drift L w db call) {id advisor : Id}
    (hbefore : db.isAssigned id advisor = false)
    (hafter : (applyAll w db).isAssigned id advisor = true) : (applyAll w db).isLive id = true := by
  obtain hold | ⟨p, hp, r, hx, hr⟩ := held_of_applyAll
    (I := fun db : Db => db.isAssigned id advisor = true) (fun _ _ happly => isAssigned_origin happly) hafter
  · rw [hbefore] at hold
    cases hold
  have htable := table_of_committed h p hp
  rw [hx] at htable
  cases call with
  | assignAdvisor k actor data =>
    obtain ⟨e₁, e₂, row, transition, -, hget, hundeleted, -, -, -, -, rfl, htrans⟩ := h
    have hlive : db.isLive k = true := by
      rw [Db.isLive, Db.liveConcern?, hget, Option.filter_some, if_pos (by rw [hundeleted]; rfl)]
      rfl
    -- the assignment is the first of what is written, and nothing of it deletes
    simp only [List.mem_append, List.mem_singleton] at hp
    obtain (rfl | hp) | rfl := hp
    · cases hx
      obtain rfl : k = id := hr
      refine isLive_applyAll ?_ hlive
      cases htrans <;> simp [Write.deletes]
    · rw [htrans.eq_of_mem hp] at hx
      cases hx
    · cases hx
  | unassignAdvisor k assignmentId =>
    obtain ⟨e₁, now, row, a, transition, -, -, -, -, -, rfl, htrans⟩ := h
    obtain rfl | hp := List.mem_cons.mp hp
    · cases hx
    · rw [htrans.eq_of_mem hp] at hx
      cases hx
  | _ => simp [Write.table, Call.tables] at htable

/-- Where nobody undercuts a `create_advice`, what its session knows is so. -/
theorem adviceSession_knows {σ₀ : World Db} {c : Config system}
    (hr : Config.Reaches (fun c e => ¬ Undercuts c e) (Config.idle σ₀) c) {t : ℕ} {s : Session system}
    (hs : c.slot t = some s) : AdviceSession s c.world.db := by
  obtain ⟨call, p, w⟩ := s
  cases call with
  | createAdvice id advisor body submit =>
    refine hr.knows (I := fun p w db => AdviceKnows id advisor body submit db p w) (fun _ => .start)
      AdviceKnows.turn ?_ hs
    intro c t t' uuid p w s' n hr' hok hne hslot hslot' hp hknows
    have hcom := committed_of_slot hr' hslot' hp
    refine hknows.keep (fun hphase hassigned hlive => ?_) (isLive_of_assigned hcom)
      fun hphase hassigned => ?_
    · refine isLive_applyAll (fun q hq => ?_) hlive
      by_contra hdel
      exact hok ⟨t, t', uuid, _, s', n, rfl, hslot, hslot', hp,
        Or.inl ⟨id, advisor, ⟨rfl, rfl, hphase⟩, hassigned, q, hq, by simpa using hdel⟩⟩
    · refine isAssigned_committed hcom (fun q hq => ?_) hassigned
      by_contra hrel
      exact hok ⟨t, t', uuid, _, s', n, rfl, hslot, hslot', hp,
        Or.inr ⟨id, advisor, ⟨rfl, rfl, hphase⟩, q, hq, by simpa using hrel⟩⟩
  | _ => trivial

/-- An advice is created for a live concern by an advisor assigned to it, as long as no deletion of a
concern that the advisor is assigned to, and no unassignment, commits between what a `create_advice`
reads and its insert. -/
theorem advice_by_assigned {σ₀ : World Db} {c : Config system}
    (hr : Config.Reaches (fun c e => ¬ Undercuts c e) (Config.idle σ₀) c) {t uuid : ℕ}
    {s : Session system} {id advisor : Id} {body : AdviceBody} {submit : Bool} {n} {c' : Config system}
    (hslot : c.slot t = some s) (hcall : s.call = .createAdvice id advisor body submit)
    (hp : s.prog = .commit n) (hs : c.step (.run t uuid) = some c') :
    c'.world.db.isLive id = true ∧ c'.world.db.isAssigned id advisor = true := by
  have hknows := adviceSession_knows hr hslot
  have hcom := committed_of_slot hr hslot hp
  have hworld := ((Config.turn_of_run hslot hs).of_commit hp).1
  obtain ⟨call, p, w⟩ := s
  obtain rfl : call = .createAdvice id advisor body submit := hcall
  have hstands := AdviceKnows.of_commit hknows hp
  -- The insert itself touches neither table.
  have hconcerns : (applyAll w c.world.db).concerns = c.world.db.concerns :=
    same_of_committed hcom (t := .concerns) (by simp [Call.tables])
  have hassignments : (applyAll w c.world.db).assignments = c.world.db.assignments :=
    same_of_committed hcom (t := .assignments) (by simp [Call.tables])
  rw [hworld, World.commit_db, Db.isLive, Db.liveConcern?, hconcerns, Db.isAssigned, hassignments]
  exact hstands

/-- User 2 has passed both checks of a `create_advice`. -/
def checked : Config system :=
  assigning.after [.start 2 (.createAdvice 0 2 { directionalGuidance := "a" } true), .run 2 0, .run 2 0]

def unassignedMeanwhile : Config system :=
  checked.after [.start 3 (.unassignAdvisor 0 7), .run 3 0, .run 3 0, .run 3 0, .run 3 0, .run 3 0,
    .run 3 0, .run 3 0, .run 2 9]

def deletedMeanwhile : Config system :=
  checked.after [.start 3 (.deleteConcern 1 0), .run 3 0, .run 3 0, .run 3 0, .run 3 0, .run 2 9]

theorem advice_by_unassigned :
    (Config.Reachable (Config.idle advisorOnly) unassignedMeanwhile ∧
      unassignedMeanwhile.step (.run 2 0) = some (unassignedMeanwhile.after [.run 2 0]) ∧
      (unassignedMeanwhile.world.db.advices.get? 9).isNone = true ∧
      ((unassignedMeanwhile.after [.run 2 0]).world.db.advices.get? 9).map
        (fun a => (a.concern, a.advisor)) = some (0, 2) ∧
      (unassignedMeanwhile.after [.run 2 0]).world.db.isAssigned 0 2 = false) ∧
    Config.Reachable (Config.idle advisorOnly) deletedMeanwhile ∧
      deletedMeanwhile.step (.run 2 0) = some (deletedMeanwhile.after [.run 2 0]) ∧
      (deletedMeanwhile.world.db.advices.get? 9).isNone = true ∧
      ((deletedMeanwhile.after [.run 2 0]).world.db.advices.get? 9).map
        (fun a => (a.concern, a.advisor)) = some (0, 2) ∧
      (deletedMeanwhile.after [.run 2 0]).world.db.isLive 0 = false := by
  have hchecked : Config.Reachable (Config.idle advisorOnly) checked :=
    (Config.reachable_after _ _).trans (Config.reachable_after _ _)
  exact ⟨⟨hchecked.trans (Config.reachable_after _ _), rfl, by decide, by decide, by decide⟩,
    hchecked.trans (Config.reachable_after _ _), rfl, by decide, by decide, by decide⟩

def Write.gentle : Write → Bool
  | .updateConcern _ s => !s.deletedAt.any (·.isSome)
  | .deactivateAssignment _ _ => false
  | _ => true

theorem Write.not_deletes_of_gentle {x : Write} (hx : x.gentle = true) (id : Id) :
    x.deletes id = false := by
  cases x with
  | updateConcern k s =>
    have hset : s.deletedAt.any (·.isSome) = false := by simpa [Write.gentle] using hx
    rw [Write.deletes, hset, Bool.and_false]
  | _ => rfl

theorem Write.not_releases_of_gentle {x : Write} (hx : x.gentle = true) (db : Db)
    (concern advisor : Id) : x.releases db concern advisor = false := by
  cases x with
  | deactivateAssignment k t => cases hx
  | _ => rfl

def Call.createsAdvice : Call → Bool
  | .createAdvice .. => true
  | _ => false

/-- What is written is gentle, or no session of `T` is creating an advice. -/
def gentlyAmong (T : List ℕ) (c : Config system) : Event system → Bool
  | .run t _ => ((c.slot t).all fun s => s.writes.all fun p => p.2.gentle) ||
      T.all fun t => (c.slot t).all fun s => !s.call.createsAdvice
  | _ => true

theorem not_undercuts {T : List ℕ} {c : Config system} {e : Event system} (hT : c.Within T)
    (h : gentlyAmong T c e = true) : ¬ Undercuts c e := by
  rintro ⟨t, t', uuid, s, s', n, rfl, hslot, hslot', -, hcut⟩
  rw [gentlyAmong, hslot', Option.all_some, Bool.or_eq_true] at h
  rcases h with hgentle | hnone
  · rw [List.all_eq_true] at hgentle
    obtain ⟨id, advisor, -, -, p, hp, hdel⟩ | ⟨id, advisor, -, p, hp, hrel⟩ := hcut
    · rw [Write.not_deletes_of_gentle (hgentle p hp)] at hdel
      cases hdel
    · rw [Write.not_releases_of_gentle (hgentle p hp)] at hrel
      cases hrel
  · have hcreates : s.call.createsAdvice = true := by
      obtain ⟨call, p, w⟩ := s
      obtain ⟨id, advisor, hfound, -⟩ | ⟨id, advisor, hpassed, -⟩ := hcut
      · cases call <;> first | rfl | exact hfound.elim
      · cases call <;> first | rfl | exact hpassed.elim
    have ht : t ∈ T := hT.mem hslot
    have hquiet := List.all_eq_true.mp hnone t ht
    rw [hslot, Option.all_some, hcreates] at hquiet
    cases hquiet

/-- The assignment ended and was made again before the advice is written. -/
def reassigned : Config system :=
  (Config.idle advisorOnly).after
    [.start 0 (.createConcern 1 { concernSummary := "", concernType := .burnout }), .run 0 0,
      .run 0 0, .start 1 (.assignAdvisor 0 9 { advisorUserId := 2, triageDecision := .suitable }),
      .run 1 7, .run 1 7, .run 1 7, .run 1 7, .run 1 7, .run 1 7, .start 2 (.unassignAdvisor 0 7),
      .run 2 0, .run 2 0, .run 2 0, .run 2 0, .run 2 0, .run 2 0, .run 2 0,
      .start 3 (.assignAdvisor 0 9 { advisorUserId := 2, triageDecision := .suitable }), .run 3 8,
      .run 3 8, .run 3 8, .run 3 8, .run 3 8, .run 3 8,
      .start 4 (.createAdvice 0 2 { directionalGuidance := "a" } true), .run 4 0, .run 4 0, .run 4 9]

theorem advice_by_assigned_reassigned :
    (reassigned.after [.run 4 0]).world.db.isLive 0 = true ∧
      (reassigned.after [.run 4 0]).world.db.isAssigned 0 2 = true := by
  have hr : Config.Reaches (fun c e => ¬ Undercuts c e) (Config.idle advisorOnly) reassigned :=
    (Config.within_idle [0, 1, 2, 3, 4] _).reaches_after (fun _ _ => not_undercuts) (by decide)
      (by decide)
  have hslot : reassigned.slot 4 = some ((reassigned.slot 4).get (by rfl)) := rfl
  have hs : reassigned.step (.run 4 0) = some (reassigned.after [.run 4 0]) := rfl
  exact advice_by_assigned hr hslot rfl rfl hs

end Chamneul
