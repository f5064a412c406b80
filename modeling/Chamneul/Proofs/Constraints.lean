import Chamneul.Proofs.Entries

/-! The unique constraints. The engine looks for a duplicate when a row is written, and the row is
committed later; the lock of the entry makes the answer last until then, whatever else runs. -/

namespace Chamneul

open ReadCommitted ReadCommitted.Prog Service

/-- The unique constraints of the models, beside the primary keys. -/
structure Db.Constrained (db : Db) : Prop where
  nickname : ∀ u ∈ db.users, ∀ v ∈ db.users, u.nickname = v.nickname → u = v
  displayName : ∀ a ∈ db.applications, ∀ b ∈ db.applications, a.status.isActive = true →
    b.status.isActive = true → a.displayName = b.displayName → a = b
  assignment : ∀ a ∈ db.assignments, ∀ b ∈ db.assignments, a.isActive = true → b.isActive = true →
    a.concern = b.concern → a.advisor = b.advisor → a = b
  advice : ∀ a ∈ db.advices, ∀ b ∈ db.advices, a.status ≠ .deleted → b.status ≠ .deleted →
    a.concern = b.concern → a.advisor = b.advisor → a = b
  feedback : ∀ f ∈ db.feedbacks, ∀ g ∈ db.feedbacks, f.advice = g.advice → f = g

theorem constrained_iff {db : Db} :
    db.Constrained ↔ ∀ k i j, db.Holder k i → db.Holder k j → i = j := by
  constructor
  · intro h k i j hi hj
    cases k with
    | nickname name =>
      obtain ⟨u, hu, rfl⟩ := hi
      obtain ⟨v, hv, hname⟩ := hj
      obtain ⟨hmu, rfl⟩ := Table.get?_eq_some.mp hu
      obtain ⟨hmv, rfl⟩ := Table.get?_eq_some.mp hv
      rw [h.nickname u hmu v hmv hname.symm]
    | displayName name =>
      obtain ⟨a, ha, rfl, hactive⟩ := hi
      obtain ⟨b, hb, hname, hactive'⟩ := hj
      obtain ⟨hma, rfl⟩ := Table.get?_eq_some.mp ha
      obtain ⟨hmb, rfl⟩ := Table.get?_eq_some.mp hb
      rw [h.displayName a hma b hmb hactive hactive' hname.symm]
    | assignmentEntry c v =>
      obtain ⟨a, ha, rfl, rfl, hactive⟩ := hi
      obtain ⟨b, hb, hconcern, hadvisor, hactive'⟩ := hj
      obtain ⟨hma, rfl⟩ := Table.get?_eq_some.mp ha
      obtain ⟨hmb, rfl⟩ := Table.get?_eq_some.mp hb
      rw [h.assignment a hma b hmb hactive hactive' hconcern.symm hadvisor.symm]
    | adviceEntry c v =>
      obtain ⟨a, ha, rfl, rfl, hlive⟩ := hi
      obtain ⟨b, hb, hconcern, hadvisor, hlive'⟩ := hj
      obtain ⟨hma, rfl⟩ := Table.get?_eq_some.mp ha
      obtain ⟨hmb, rfl⟩ := Table.get?_eq_some.mp hb
      rw [h.advice a hma b hmb hlive hlive' hconcern.symm hadvisor.symm]
    | feedbackEntry a =>
      obtain ⟨f, hf, rfl⟩ := hi
      obtain ⟨g, hg, hadvice⟩ := hj
      obtain ⟨hmf, rfl⟩ := Table.get?_eq_some.mp hf
      obtain ⟨hmg, rfl⟩ := Table.get?_eq_some.mp hg
      rw [h.feedback f hmf g hmg hadvice.symm]
    | _ => exact hi.elim
  · intro h
    constructor
    · intro u hu v hv hname
      exact Table.eq_of_get? (Table.mem_iff_get?.mp hu) (Table.mem_iff_get?.mp hv)
        (h (.nickname v.nickname) _ _ ⟨u, Table.mem_iff_get?.mp hu, hname⟩
          ⟨v, Table.mem_iff_get?.mp hv, rfl⟩)
    · intro a ha b hb hactive hactive' hname
      exact Table.eq_of_get? (Table.mem_iff_get?.mp ha) (Table.mem_iff_get?.mp hb)
        (h (.displayName b.displayName) _ _ ⟨a, Table.mem_iff_get?.mp ha, hname, hactive⟩
          ⟨b, Table.mem_iff_get?.mp hb, rfl, hactive'⟩)
    · intro a ha b hb hactive hactive' hconcern hadvisor
      exact Table.eq_of_get? (Table.mem_iff_get?.mp ha) (Table.mem_iff_get?.mp hb)
        (h (.assignmentEntry b.concern b.advisor) _ _
          ⟨a, Table.mem_iff_get?.mp ha, hconcern, hadvisor, hactive⟩
          ⟨b, Table.mem_iff_get?.mp hb, rfl, rfl, hactive'⟩)
    · intro a ha b hb hlive hlive' hconcern hadvisor
      exact Table.eq_of_get? (Table.mem_iff_get?.mp ha) (Table.mem_iff_get?.mp hb)
        (h (.adviceEntry b.concern b.advisor) _ _
          ⟨a, Table.mem_iff_get?.mp ha, hconcern, hadvisor, hlive⟩
          ⟨b, Table.mem_iff_get?.mp hb, rfl, rfl, hlive'⟩)
    · intro f hf g hg hadvice
      exact Table.eq_of_get? (Table.mem_iff_get?.mp hf) (Table.mem_iff_get?.mp hg)
        (h (.feedbackEntry g.advice) _ _ ⟨f, Table.mem_iff_get?.mp hf, hadvice⟩
          ⟨g, Table.mem_iff_get?.mp hg, rfl⟩)

/-- The services keep the discipline with the entries among what the locks own. -/
theorem entriesDiscipline : Discipline system ownsEntries
    (fun drift call => Duty.ofCommit fun L w σ =>
      Committed drift L w σ.db call ∧ Entries L w σ.db call) (fun _ => Ended) := by
  refine discipline.withCommit And.left ownsEntries_refl ownsEntries_trans ?_ program_entries
  intro drift call L w σ k hcommitted hentries hk
  refine ⟨owns_of_covered hk (covered_of_committed hcommitted), fun i hi => ?_⟩
  refine (entered_committed hcommitted hi).resolve_right fun ⟨hentry, hentrant⟩ => ?_
  exact hk (hentries.entering k hentry i hentrant).locked

/-- One commit: the row that comes into an entry finds it empty. -/
theorem constrained_committed {drift : Db → Db → Prop} {L : Set Key} {w : Pending Write} {db : Db}
    {call : Call} (hcommitted : Committed drift L w db call) (hentries : Entries L w db call)
    (h : db.Constrained) : (applyAll w db).Constrained := by
  rw [constrained_iff] at h ⊢
  intro k i j hi hj
  obtain hi | ⟨hk, hi⟩ := entered_committed hcommitted hi
  · obtain hj | ⟨hk, hj⟩ := entered_committed hcommitted hj
    · exact h k i j hi hj
    · exact (hentries.entering k hk j hj).alone i hi
  · obtain hj | ⟨-, hj⟩ := entered_committed hcommitted hj
    · exact ((hentries.entering k hk i hi).alone j hj).symm
    · exact Option.some.inj ((Option.mem_def.mp hi).symm.trans (Option.mem_def.mp hj))

theorem constrained_commits {drift : Db → Db → Prop} {call : Call} {db db' : Db}
    (hc : (Duty.ofCommit fun L w (σ : World Db) =>
      Committed drift L w σ.db call ∧ Entries L w σ.db call).Commits db db')
    (h : db.Constrained) : db'.Constrained := by
  obtain ⟨L, w, σ, rfl, ⟨hcommitted, hentries⟩, rfl⟩ := hc
  exact constrained_committed hcommitted hentries h

/-- Whatever runs, no unique constraint is ever broken. -/
theorem constraints_hold {ok : Config system → Event system → Prop} {σ₀ : World Db}
    {c : Config system} (h₀ : σ₀.db.Constrained) (hr : Config.Reaches ok (Config.idle σ₀) c) :
    c.world.db.Constrained :=
  entriesDiscipline.invariant (fun _ _ _ hc h => constrained_commits hc h) h₀ hr

def twoMembers : World Db :=
  ⟨{ users := (Table.empty.insert { id := 1, nickname := "a" }).insert { id := 2, nickname := "b" } }, 0⟩

theorem constrained_twoMembers : twoMembers.db.Constrained where
  nickname u hu v hv hname := by
    have hrows : twoMembers.db.users.rows = [{ id := 1, nickname := "a" }, { id := 2, nickname := "b" }] :=
      rfl
    rw [Table.mem_def, hrows] at hu hv
    simp only [List.mem_cons, List.not_mem_nil, or_false] at hu hv
    obtain rfl | rfl := hu <;> obtain rfl | rfl := hv <;> simp at hname ⊢
  displayName a ha := absurd ha (Table.not_mem_empty a)
  assignment a ha := absurd ha (Table.not_mem_empty a)
  advice a ha := absurd ha (Table.not_mem_empty a)
  feedback f hf := absurd hf (Table.not_mem_empty f)

/-- Both take the same nickname at once; the second to write waits, and is refused. -/
def sameNickname : Config system :=
  (Config.idle twoMembers).after
    [.start 0 (.updateProfile 1 { nickname := some "c" }),
      .start 1 (.updateProfile 2 { nickname := some "c" }), .run 0 0, .run 1 0, .run 0 0, .run 0 0,
      .run 1 0, .run 1 0]

theorem constraints_hold_sameNickname : sameNickname.world.db.Constrained ∧
    (sameNickname.world.db.users.rows.map (·.nickname)) = ["c", "b"] :=
  ⟨constraints_hold constrained_twoMembers (Config.reachable_after _ _), by decide⟩

end Chamneul
