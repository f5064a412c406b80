import Chamneul.Proofs.Atomic
import Chamneul.Proofs.ConcernLifecycle
import Chamneul.Store.Sessions

/-! The text of a concern: its author may edit it until it is first assigned, and
nobody afterwards. -/

namespace Chamneul

open ReadCommitted ReadCommitted.Prog Service

def Write.keepsText : Write → Bool
  | .updateConcern _ s => s.fields.isNone
  | _ => true

theorem text_apply {e : Env} {x : Write} {db : Db} (hx : x.keepsText = true) {k : Id} {row : Concern}
    (h : db.concerns.get? k = some row) :
    ∃ row', (apply e x db).concerns.get? k = some row' ∧ row'.fields = row.fields := by
  rcases get?_concerns_apply e x h with hget | ⟨s, rfl, hget⟩
  · exact ⟨row, hget, rfl⟩
  · have hnone : s.fields = none := by simpa [Write.keepsText] using hx
    exact ⟨s.apply e row, hget, by simp [ConcernSet.apply, hnone]⟩

theorem text_applyAll {w : Pending Write} {db : Db} (hw : ∀ p ∈ w, p.2.keepsText = true) {k : Id}
    {row : Concern} (h : db.concerns.get? k = some row) :
    ∃ row', (applyAll w db).concerns.get? k = some row' ∧ row'.fields = row.fields := by
  refine holds_applyAll (I := fun db : Db => ∃ row', db.concerns.get? k = some row' ∧
    row'.fields = row.fields) ⟨row, h, rfl⟩ ?_
  rintro p hp db' ⟨row₁, h₁, hf₁⟩
  obtain ⟨row₂, h₂, hf₂⟩ := text_apply (e := p.1) (hw p hp) h₁
  exact ⟨row₂, h₂, hf₂.trans hf₁⟩

/-- Only an edit by the author changes a text. -/
theorem keepsText_of_committed {drift : Db → Db → Prop} {L : Set Key} {w : Pending Write} {db : Db}
    {call : Call} (h : Committed drift L w db call) :
    (∃ user id data, call = .updateOwnConcern user id data) ∨ ∀ p ∈ w, p.2.keepsText = true := by
  by_cases hedit : ∃ user id data, call = .updateOwnConcern user id data
  · exact Or.inl hedit
  · refine Or.inr fun p hp => ?_
    have hconcern := concernWrite_of_committed h hp
    cases hx : p.2 with
    | updateConcern id s =>
      rw [hx] at hconcern
      cases hconcern rfl with
      | update _ _ htext =>
        obtain hs | ⟨user, data, hcall⟩ := htext
        · simp [Write.keepsText, hs]
        · exact absurd ⟨user, id, data, hcall⟩ hedit
    | _ => rfl

/-- Assignments are kept for good. -/
theorem everAssigned_apply {e : Env} {x : Write} {db : Db} {k : Id} (h : db.everAssigned k = true) :
    (apply e x db).everAssigned k = true := by
  obtain ⟨a, ha, hc⟩ := Table.any_iff _ _ |>.mp h
  cases x with
  | insertAssignment r => exact (Table.any_iff _ _).mpr ⟨a, Table.mem_insert_of_mem ha, hc⟩
  | deactivateAssignment id t =>
    have hm : (if Keyed.key a = id then a.deactivated t else a) ∈
        (apply e (.deactivateAssignment id t) db).assignments := by
      rw [apply, Table.mem_update]
      exact ⟨a, ha, rfl⟩
    refine (Table.any_iff _ _).mpr ⟨_, hm, ?_⟩
    split_ifs <;> exact hc
  | _ => exact h

theorem everAssigned_applyAll {w : Pending Write} {db : Db} {k : Id} (h : db.everAssigned k = true) :
    (applyAll w db).everAssigned k = true :=
  holds_applyAll (I := fun db : Db => db.everAssigned k = true) h
    fun _ _ _ hold => everAssigned_apply hold

/-- What was not sent is as it was. -/
structure ConcernEdit.Keeps (d : ConcernEdit) (f f' : ConcernFields) : Prop where
  concernSummary : d.concernSummary = none → f'.concernSummary = f.concernSummary
  concernType : d.concernType = none → f'.concernType = f.concernType
  concernTypeSecondary : d.concernTypeSecondary = none →
    f'.concernTypeSecondary = f.concernTypeSecondary
  preferredAdvisorLane : d.preferredAdvisorLane = none →
    f'.preferredAdvisorLane = f.preferredAdvisorLane
  decisionContext : d.decisionContext = none → f'.decisionContext = f.decisionContext
  displayAlias : d.displayAlias = none → f'.displayAlias = f.displayAlias
  isAnonymous : d.isAnonymous = none → f'.isAnonymous = f.isAnonymous

theorem ConcernEdit.keeps_apply (d : ConcernEdit) (f : ConcernFields) : d.Keeps f (d.apply f) := by
  constructor <;> (intro h; simp [ConcernEdit.apply, h])

structure Edited (data : ConcernEdit) (k : Id) (db db' : Db) : Prop where
  row : ∃ row now fields, db.concerns.get? k = some row ∧ data.Keeps row.fields fields ∧
    db'.concerns.get? k = some { row with fields := fields, updatedAt := now }
  others : ∀ i ≠ k, db'.concerns.get? i = db.concerns.get? i
  tables : ∀ t ≠ .concerns, Same t db db'

theorem updateOwnConcern_edits {drift : Db → Db → Prop} {L : Set Key} {w : Pending Write} {db : Db}
    {user k : Id} {data : ConcernEdit} (h : Committed drift L w db (.updateOwnConcern user k data)) :
    Edited data k db (applyAll w db) := by
  have hframe {t : TableName} : t ≠ .concerns → Same t db (applyAll w db) := fun ht =>
    same_of_committed h (by simpa [Call.tables] using ht)
  obtain ⟨e, row, -, hrow, -, -, -, -, rfl⟩ := h
  refine ⟨⟨row, e.now, data.apply row.fields, hrow, data.keeps_apply _, ?_⟩, fun i hi => ?_,
    fun t => hframe⟩
  · simp [Engine.apply, apply, Table.get?_update, hrow, ConcernSet.apply]
  · simp [Engine.apply, apply, Table.get?_update, hi]

/-- Concern `k` has been assigned before, and its text has not changed since. -/
def TextKept (k : Id) (db db' : Db) : Prop :=
  ∀ row, db.concerns.get? k = some row → db.everAssigned k = true →
    db'.everAssigned k = true ∧ ∃ row', db'.concerns.get? k = some row' ∧ row'.fields = row.fields

theorem textKept_commits {drift : Db → Db → Prop} {call : Call} {db db' : Db} {k : Id}
    (hc : (commits drift call).Commits db db') : TextKept k db db' := by
  obtain ⟨L, w, σ, rfl, hcom, rfl⟩ := hc
  intro row hrow hassigned
  refine ⟨everAssigned_applyAll hassigned, ?_⟩
  rcases keepsText_of_committed hcom with ⟨user, id, data, rfl⟩ | hw
  · -- The author's edit found no assignment, so it is of another concern.
    have hcom : Committed drift L w σ.db (.updateOwnConcern user id data) := hcom
    have hne : k ≠ id := by
      rintro rfl
      obtain ⟨e, row', -, -, -, -, -, hnever, -⟩ := hcom
      rw [hassigned] at hnever
      cases hnever
    exact ⟨row, ((updateOwnConcern_edits hcom).others k hne).trans hrow, rfl⟩
  · exact text_applyAll hw hrow

/-- A concern that has been assigned keeps its text for good, whatever becomes of the
assignment; an edit by the author changes what it was sent and `updated_at`, and then it
succeeds; so one that fails has changed nothing. -/
theorem assigned_text_is_final {σ₀ : World Db} {c : Config system}
    (hr : Config.Reachable (Config.idle σ₀) c) :
    (∀ k row, c.world.db.concerns.get? k = some row → c.world.db.everAssigned k = true →
      ∀ c', Config.Reachable c c' →
        ∃ row', c'.world.db.concerns.get? k = some row' ∧ row'.fields = row.fields) ∧
    ∀ t uuid s user k data c', c.slot t = some s → s.call = .updateOwnConcern user k data →
      c.step (.run t uuid) = some c' → c'.world.db = c.world.db ∨
        (Edited data k c.world.db c'.world.db ∧
          ∃ s' a, c'.slot t = some s' ∧ s'.prog = .ret (.ok a)) := by
  refine ⟨fun k row hrow hassigned c' hr' => ?_, fun t uuid s user k data c' hslot hcall hs => ?_⟩
  · have hkept := discipline.history (H := TextKept k) (fun db row h ha => ⟨ha, row, h, rfl⟩) ?_
      (fun _ _ _ hc => textKept_commits hc) hr hr'
    · exact (hkept row hrow hassigned).2
    · intro db db' db'' h h' row hrow ha
      obtain ⟨ha', row', hrow', hf'⟩ := h row hrow ha
      obtain ⟨ha'', row'', hrow'', hf''⟩ := h' row' hrow' ha'
      exact ⟨ha'', row'', hrow'', hf''.trans hf'⟩
  · have hlast : s.prog.CommitsLast := by
      refine hr.progs (P := fun (call : Call) p =>
        (∃ user k data, call = .updateOwnConcern user k data) → p.CommitsLast) ?_
        (fun _ _ _ hn h hc => (h hc).next hn) hslot ⟨user, k, data, hcall⟩
      rintro _ ⟨user, k, data, rfl⟩
      exact Quiet.commitsLast_atomic ((quiet_lockOr _ _).bind fun _ => (quiet_query _).bind
        fun _ => (quiet_raiseIf _ _).bind fun _ => quiet_write _ _)
    rcases Config.step_world hs with hw | ⟨t', uuid', s', n, he, hslot', hp, hw⟩
    · exact Or.inl (by rw [hw, World.tick_db])
    · cases he
      obtain rfl : s = s' := Option.some.inj (hslot.symm.trans hslot')
      have hcom := committed_of_slot hr hslot hp
      rw [hcall] at hcom
      refine Or.inr ⟨hw ▸ updateOwnConcern_edits hcom, ?_⟩
      rw [hp] at hlast
      obtain ⟨a, rfl⟩ := hlast
      exact ⟨⟨s.call, .ret (.ok a), []⟩, a, ((Config.turn_of_run hslot hs).of_commit hp).2, rfl⟩

/-- The author's edit of a concern that nobody has been assigned to yet, about to commit. -/
def rewording : Config system :=
  (Config.idle advisorOnly).after
    [.start 0 (.createConcern 1 { concernSummary := "", concernType := .burnout }), .run 0 0,
      .run 0 0, .start 1 (.updateOwnConcern 1 0 { concernSummary := some "a" }), .run 1 7, .run 1 7,
      .run 1 7]

theorem assigned_text_is_final_assigning :
    (∃ row, assigning.world.db.concerns.get? 0 = some row ∧ ∀ c', Config.Reachable assigning c' →
      ∃ row', c'.world.db.concerns.get? 0 = some row' ∧ row'.fields = row.fields) ∧
    ((rewording.after [.run 1 7]).world.db = rewording.world.db ∨
      (Edited { concernSummary := some "a" } 0 rewording.world.db
          (rewording.after [.run 1 7]).world.db ∧
        ∃ s' a, (rewording.after [.run 1 7]).slot 1 = some s' ∧ s'.prog = .ret (.ok a))) := by
  refine ⟨⟨_, rfl, (assigned_text_is_final (Config.reachable_after _ _)).1 0 _ rfl (by decide)⟩, ?_⟩
  exact (assigned_text_is_final (c := rewording) (Config.reachable_after _ _)).2 1 7 _ 1 0 _ _ rfl rfl
    rfl

end Chamneul
