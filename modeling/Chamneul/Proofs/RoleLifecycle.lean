import Chamneul.Proofs.Atomic
import Chamneul.Proofs.RosterRefinement

/-! The life of a role: nobody wears one they do not hold, an administrator always
remains, and, as long as no approval repeats a grant, the trail tells the story. -/

namespace Chamneul

open ReadCommitted ReadCommitted.Prog Service

def ActiveRolesHeld (db : Db) : Prop :=
  ∀ u ∈ db.users, u.activeRole = .advisor → db.hasRole u.id .advisor = true

theorem modest_iff {db : Db} : (roster db).Modest ↔ ActiveRolesHeld db := by
  constructor
  · intro h u hu hrole
    have hget : db.users.get? u.id = some u := Table.mem_iff_get?.mp hu
    exact h u.id (by simp [roster, hget, hrole])
  · intro h i hi
    obtain ⟨u, hu, hrole⟩ := Option.map_eq_some_iff.mp hi
    obtain ⟨hm, rfl⟩ := Table.get?_eq_some.mp hu
    exact h u hm hrole

def Administered (db : Db) : Prop :=
  ∃ u ∈ db.users, u.isActive = true ∧ db.hasRole u.id .admin = true

theorem manned_iff {db : Db} : (roster db).Manned ↔ Administered db := by
  constructor
  · rintro ⟨i, hi, hact⟩
    obtain ⟨u, hu, huact⟩ := (Option.any_eq_true _ _).mp hact
    obtain ⟨hm, rfl⟩ := Table.get?_eq_some.mp hu
    exact ⟨u, hm, huact, hi⟩
  · rintro ⟨u, hu, hact, hrole⟩
    have hget : db.users.get? u.id = some u := Table.mem_iff_get?.mp hu
    exact ⟨u.id, hrole, by simp [roster, Db.isActiveUser, hget, hact]⟩

/-- A committed transaction is one step of the roster. -/
theorem roster_commits {drift : Db → Db → Prop} {call : Call} {db db' : Db}
    (h : (commits drift call).Commits db db') :
    ∃ w e, db' = applyAll w db ∧ RosterStep drift w db call e := by
  obtain ⟨L, w, σ, rfl, hcom, rfl⟩ := h
  obtain ⟨e, he⟩ := roster_step hcom
  exact ⟨w, e, rfl, he⟩

section

variable {σ₀ : World Db} {c : Config system}

/-- What every step of the roster keeps holds in every schedule. -/
theorem roster_reachable {J : Roster → Prop} (hJ : ∀ {r e r'}, Roster.Step r e r' → J r → J r')
    (h₀ : J (roster σ₀.db)) (hr : Config.Reachable (Config.idle σ₀) c) : J (roster c.world.db) := by
  refine discipline.invariant (J := fun db => J (roster db)) ?_ h₀ hr
  intro call db db' hc hdb
  obtain ⟨w, e, rfl, he⟩ := roster_commits hc
  exact hJ he.step hdb

/-- In every schedule nobody has a role active that they do not hold. -/
theorem active_roles_held (h₀ : ActiveRolesHeld σ₀.db) (hr : Config.Reachable (Config.idle σ₀) c) :
    ActiveRolesHeld c.world.db :=
  modest_iff.mp (roster_reachable Roster.Step.modest (modest_iff.mpr h₀) hr)

def advisorAtRest : World Db where
  db :=
    { users := Table.empty.insert { id := 1, nickname := "a" }
      userRoles := Table.empty.insert { id := 11, user := 1, role := .advisor } }
  now := 0

/-- The advisor switches while the role is being revoked. -/
def switching : Config system :=
  (Config.idle advisorAtRest).after
    [.start 0 (.setActiveRole 1 .advisor), .start 1 (.revokeRole 1 .advisor 9 ""), .run 0 0, .run 0 0,
      .run 0 0, .run 0 0, .run 1 0, .run 1 0, .run 1 5, .run 1 0, .run 1 0]

theorem active_roles_held_switching : ActiveRolesHeld switching.world.db ∧
    (switching.world.db.users.get? 1).map (·.activeRole) = some .user ∧
    switching.world.db.hasRole 1 .advisor = false := by
  have h₀ : ActiveRolesHeld advisorAtRest.db := by
    refine Table.forall_mem_insert (fun u hu => absurd hu (Table.not_mem_empty u)) fun hrole => ?_
    cases hrole
  exact ⟨active_roles_held h₀ (Config.reachable_after _ _), by decide⟩

/-- In every schedule an active administrator remains. -/
theorem administrator_remains (h₀ : Administered σ₀.db)
    (hr : Config.Reachable (Config.idle σ₀) c) : Administered c.world.db :=
  manned_iff.mp (roster_reachable Roster.Step.manned (manned_iff.mpr h₀) hr)

/-- Users 1 and 2 are the administrators. -/
def twoAdmins : World Db where
  db :=
    { users := (Table.empty.insert { id := 1, nickname := "a" }).insert { id := 2, nickname := "b" }
      userRoles := (Table.empty.insert { id := 11, user := 1, role := .admin }).insert
        { id := 12, user := 2, role := .admin } }
  now := 0

/-- They revoke each other at once; the database ends one of the sessions. -/
def duel : Config system :=
  (Config.idle twoAdmins).after
    [.start 0 (.revokeRole 1 .admin 2 ""), .start 1 (.revokeRole 2 .admin 1 ""), .run 0 0, .run 1 0,
      .run 0 0, .abort 0, .run 1 0, .run 1 0, .run 1 0, .run 1 0, .run 1 0, .run 1 0, .run 1 5,
      .run 1 0]

theorem administrator_remains_duel : Administered duel.world.db ∧
    duel.world.db.hasRole 1 .admin = true ∧ duel.world.db.hasRole 2 .admin = false := by
  have h₀ : Administered twoAdmins.db :=
    ⟨{ id := 1, nickname := "a" }, Table.mem_insert_of_mem (Table.mem_iff_get?.mpr rfl), rfl, rfl⟩
  exact ⟨administrator_remains h₀ (Config.reachable_after _ _), by decide⟩

end

def NotYetHeld (db : Db) (call : Call) : Prop :=
  ∀ u, Admits db call u → db.hasRole u .advisor = false

/-- What a call that runs alone and meets the condition files is the change it makes. -/
theorem filed_serially {call : Call} {db : Db} (hok : NotYetHeld db call) {w : Pending Write}
    {e : Roster.Event} (he : RosterStep (fun db db' => db' = db) w db call e) (k : Id × Role) :
    Roster.Filed (roster db) (roster (applyAll w db)) k := by
  refine he.step.filed fun g hg => ?_
  obtain ⟨-, hadmit, db₁, rfl, hheld⟩ := he.again g hg
  rw [hok g.user hadmit] at hheld
  cases hheld

/-- The trail of an office tells its story, in the order of its times. -/
structure Recorded (k : Id × Role) (σ : World Db) : Prop where
  tells : (roster σ.db).Tells k
  ordered : (roster σ.db).Ordered k σ.now

theorem Recorded.later {σ σ' : World Db} {k : Id × Role} (hdb : σ'.db = σ.db) (hnow : σ.now ≤ σ'.now)
    (h : Recorded k σ) : Recorded k σ' := by
  obtain ⟨ht, ho, hp⟩ := h
  rw [← hdb] at ht ho hp
  exact ⟨ht, ho, fun g hg => (hp g hg).trans_le hnow⟩

theorem Recorded.serves {call : Call} {σ σ' : World Db} (hok : NotYetHeld σ.db call)
    (hc : (commits (fun db db' => db' = db) call).Serves σ σ') {k : Id × Role} (h : Recorded k σ) :
    Recorded k σ' ∧ Roster.Filed (roster σ.db) (roster σ'.db) k := by
  obtain ⟨L, w, σ₁, hdb₁, hcom, hdb, hnow, hstamp⟩ := hc
  have hcom : Committed (fun db db' => db' = db) L w σ₁.db call := hcom
  rw [hdb₁] at hcom
  obtain ⟨e, he⟩ := roster_step hcom
  have hfiled := filed_serially hok he k
  have hlog := he.step.log k
  rw [← hdb] at hfiled hlog
  refine ⟨⟨hfiled.tells h.tells, hfiled.ordered hnow (fun g hg => ?_) h.ordered⟩, hfiled⟩
  rw [hlog, List.append_cancel_left_eq] at hg
  refine stamped_filed hstamp ?_
  rw [he.filed]
  exact List.mem_of_mem_filter (by rw [hg]; exact List.mem_singleton_self g)

theorem recorded_noAdvisors {σ : World Db} (h : NoAdvisors σ.db) (u : Id) :
    Recorded (u, .advisor) σ := by
  have hlog := h.log u
  have hholds := h.holds u
  refine ⟨?_, ?_, ?_⟩
  · rw [Roster.Tells, hlog, hholds]
    exact ⟨.nil, by simp, by simp⟩
  · simp [hlog]
  · simp [hlog]

/-- From nobody being an advisor, and with no approval of one who is, the events of
each user's ADVISOR role alternate in the order of their times, and each call files
the change it makes. -/
theorem role_trail_alternates {σ₀ σ : World Db} (h₀ : NoAdvisors σ₀.db)
    (hr : Serial system NotYetHeld σ₀ σ) (u : Id) :
    Recorded (u, .advisor) σ ∧ ∀ call draw, NotYetHeld σ.db call →
      Roster.Filed (roster σ.db) (roster ((program call).exec draw [] σ).2.db) (u, .advisor) := by
  have hrec : Recorded (u, .advisor) σ :=
    discipline.serial_timed program_once (fun _ _ => .later)
      (fun call σ σ' hok h hc => (h.serves hok hc).1) hr (recorded_noAdvisors h₀ u)
  refine ⟨hrec, fun call draw hok => ?_⟩
  have hprog := discipline.program (Rely.alone_locks owns_refl) call σ
  rcases (program_once call).exec_serves draw hprog rfl le_rfl (.nil _ _) with he | hc
  · rw [he]
    exact .nothing rfl rfl
  · exact (hrec.serves hok hc).2

def newcomer : World Db := ⟨{ users := Table.empty.insert { id := 1, nickname := "a" } }, 0⟩

theorem noAdvisors_newcomer : NoAdvisors newcomer.db :=
  ⟨fun r hr => absurd hr (Table.not_mem_empty r), fun g hg => absurd hg (Table.not_mem_empty g)⟩

/-- The user applies, is made an advisor directly, and has the application approved. -/
def grantedMeanwhile : List Call :=
  [.createApplication 1 "b", .reviewApplication 2 9 .reviewing "", .grantRole 1 .advisor 9 "",
    .reviewApplication 2 9 .approved ""]

theorem grantedMeanwhile_repeats : NoAdvisors newcomer.db ∧
    Serial system (fun _ _ => True) newcomer (system.serve id grantedMeanwhile newcomer) ∧
    ¬ (roster (system.serve id grantedMeanwhile newcomer).db).Tells (1, .advisor) := by
  refine ⟨noAdvisors_newcomer, Serial.refl.serve id fun _ _ _ => trivial, fun h => ?_⟩
  have hlog : ((roster (system.serve id grantedMeanwhile newcomer).db).log (1, .advisor)).map
      (·.action) = [.grant, .grant] := by decide
  have hturns := h.turns
  rw [hlog] at hturns
  revert hturns
  decide

/-- Approved before anyone makes the applicant an advisor, the trail tells the story. -/
theorem role_trail_alternates_applied : Recorded (1, .advisor) (system.serve id
    [.reviewApplication 2 9 .approved ""] (system.serve id (grantedMeanwhile.take 2) newcomer)) ∧
    ((roster (system.serve id [.reviewApplication 2 9 .approved ""]
      (system.serve id (grantedMeanwhile.take 2) newcomer)).db).log (1, .advisor)).map (·.action) =
        [.grant] := by
  have hstart : Serial system NotYetHeld newcomer
      (system.serve id (grantedMeanwhile.take 2) newcomer) := by
    refine Serial.refl.serve id fun db call hcall u hadmit => ?_
    obtain ⟨_, _, _, _, rfl, -⟩ := hadmit
    simp [grantedMeanwhile] at hcall
  have hnone : (system.serve id (grantedMeanwhile.take 2) newcomer).db.userRoles.rows = [] := by
    decide
  refine ⟨(role_trail_alternates noAdvisors_newcomer (hstart.call _ id fun u _ => ?_) 1).1, by decide⟩
  simp [Db.hasRole, Table.get?, hnone]

end Chamneul
