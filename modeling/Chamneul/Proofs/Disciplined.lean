import Chamneul.Proofs.Footprint
import Chamneul.Proofs.AccountSpecs
import Chamneul.Proofs.AdvisorSpecs
import Chamneul.Proofs.ConcernSpecs
import Chamneul.Proofs.AdviceSpecs
import Chamneul.Proofs.FeedbackSpecs

/-! The services keep the locking discipline: whatever a lock owns is changed only
by a transaction that holds it. -/

namespace Chamneul

open ReadCommitted ReadCommitted.Prog Service

/-- The change holds the lock of the facts it is about. -/
def Owned (L : Set Key) (db : Db) : Write → Prop
  | .insertUserRole r => r.role ≠ .advisor → Key.user r.user ∈ L
  | .deleteUserRole r => Key.user r.user ∈ L
  | .insertAssignment a => Key.concern a.concern ∈ L
  | .deactivateAssignment id _ => ∀ a, db.assignments.get? id = some a → Key.concern a.concern ∈ L
  | .insertHistory h => Key.advice h.advice ∈ L
  | _ => True

theorem owns_user {L : Set Key} {db : Db} {x : Write} (ho : Owned L db x) {u : Id}
    (hk : Key.user u ∉ L) (e : Env) : owns (.user u) db (apply e x db) := by
  cases x with
  | insertUserRole r =>
    refine ⟨fun role hr => ?_, fun hr => ?_⟩
    · obtain ⟨y, hy⟩ := Option.isSome_iff_exists.mp hr
      exact Option.isSome_iff_exists.mpr ⟨y, Table.get?_insert_of_some hy⟩
    · have hne : Keyed.key (r.saved e) ≠ (u, Role.admin) := by
        intro hkey
        simp only [UserRole.key_eq, UserRole.saved, Prod.mk.injEq] at hkey
        exact hk (hkey.1 ▸ ho (by simp [hkey.2]))
      rwa [Db.hasRole, apply, Table.get?_insert_of_ne _ _ hne] at hr
  | deleteUserRole r =>
    refine ⟨fun role hr => ?_, fun hr => ?_⟩
    · obtain ⟨y, hy⟩ := Option.isSome_iff_exists.mp hr
      have hkey := (Table.get?_eq_some.mp hy).2
      simp only [UserRole.key_eq, Prod.mk.injEq] at hkey
      have hne : ¬ (y.id = r.id ∧ y.user = r.user ∧ y.role = r.role) := by
        rintro ⟨-, hu, -⟩
        exact hk (by rw [← hkey.1, hu]; exact ho)
      rw [Db.hasRole, apply, Table.get?_delete, hy, Option.filter_some]
      simp only [hne, decide_false, Bool.not_false, if_true, Option.isSome_some]
    · rw [Db.hasRole, apply, Table.get?_delete] at hr
      obtain ⟨y, hy⟩ := Option.isSome_iff_exists.mp hr
      rw [Db.hasRole, (Option.filter_eq_some_iff.mp hy).1, Option.isSome_some]
  | _ => exact ⟨fun _ h => h, fun h => h⟩

theorem owns_concern {L : Set Key} {db : Db} {x : Write} (ho : Owned L db x) {c : Id}
    (hk : Key.concern c ∉ L) (e : Env) : owns (.concern c) db (apply e x db) := by
  cases x with
  | insertAssignment r =>
    intro a ha
    refine ⟨fun hm => ?_, fun hm => Table.mem_insert_of_mem hm⟩
    rcases Table.mem_of_mem_insert hm with hm | rfl
    · exact hm
    · have hc : Key.concern r.concern ∈ L := ho
      rw [show r.concern = c from ha] at hc
      exact absurd hc hk
  | deactivateAssignment id t =>
    have hne : ∀ a ∈ db.assignments, a.concern = c → a.id ≠ id := by
      intro a ha hc hid
      exact hk (hc ▸ ho a (Table.get?_eq_some.mpr ⟨ha, hid⟩))
    intro a ha
    rw [apply, Table.mem_update]
    constructor
    · rintro ⟨b, hb, rfl⟩
      by_cases hid : Keyed.key b = id
      · rw [if_pos hid] at ha
        exact absurd hid (hne b hb ha)
      · rwa [if_neg hid]
    · exact fun hm => ⟨a, hm, by rw [Assignment.key_eq, if_neg (hne a hm ha)]⟩
  | _ => exact fun _ _ => Iff.rfl

theorem owns_advice {L : Set Key} {db : Db} {x : Write} (ho : Owned L db x) {a : Id}
    (hk : Key.advice a ∉ L) (e : Env) : owns (.advice a) db (apply e x db) := by
  cases x with
  | insertHistory r =>
    intro h ha
    refine ⟨fun hm => ?_, fun hm => Table.mem_insert_of_mem hm⟩
    rcases Table.mem_of_mem_insert hm with hm | rfl
    · exact hm
    · have hc : Key.advice r.advice ∈ L := ho
      rw [show r.advice = a from ha] at hc
      exact absurd hc hk
  | _ => exact fun _ _ => Iff.rfl

def Covered (L : Set Key) : Pending Write → Db → Prop
  | [], _ => True
  | (e, x) :: w, db => Owned L db x ∧ Covered L w (apply e x db)

theorem owns_of_covered {L : Set Key} {k : Key} (hk : k ∉ L) {w : Pending Write} {db : Db}
    (h : Covered L w db) : owns k db (applyAll w db) := by
  induction w generalizing db with
  | nil => exact owns_refl k db
  | cons p w ih =>
    obtain ⟨e, x⟩ := p
    have hx : owns k db (apply e x db) := by
      cases k with
      | user u => exact owns_user h.1 hk e
      | concern c => exact owns_concern h.1 hk e
      | advice a => exact owns_advice h.1 hk e
      | _ => trivial
    exact owns_trans hx (ih h.2)

theorem covered_append {L : Set Key} {w w' : Pending Write} {db : Db} :
    Covered L (w ++ w') db ↔ Covered L w db ∧ Covered L w' (applyAll w db) := by
  induction w generalizing db with
  | nil => simp [Covered]
  | cons p w ih => simp [Covered, ih, and_assoc, Engine.apply]

/-- A change outside the owned facts needs no lock. -/
theorem covered_runIf {L : Set Key} {c : Prop} {x : Write} {w : Pending Write} {db : Db}
    (h : RanIf c x w) (ho : ∀ db, Owned L db x) : Covered L w db := by
  cases h with
  | ran e hc => exact ⟨ho db, trivial⟩
  | skipped hc => trivial

/-- Changes of the other tables need no lock for what the locks own. -/
theorem covered_of_table {L : Set Key} {w : Pending Write} {db : Db}
    (h : ∀ p ∈ w, p.2.table ∉ [TableName.userRoles, .assignments, .histories]) : Covered L w db := by
  induction w generalizing db with
  | nil => trivial
  | cons p w ih =>
    obtain ⟨e, x⟩ := p
    have hx := h (e, x) (by simp)
    refine ⟨?_, ih fun q hq => h q (by simp [hq])⟩
    cases x <;> first | trivial | simp [Write.table] at hx

theorem covered_of_committed {drift : Db → Db → Prop} {L : Set Key} {w : Pending Write} {db : Db}
    {call : Call} (h : Committed drift L w db call) : Covered L w db := by
  have htable := table_of_committed h
  cases call with
  | grantRole target role actor reason =>
    obtain ⟨e₁, e₂, -, hL, -, -, rfl⟩ := h
    exact ⟨fun _ => hL, trivial, trivial⟩
  | revokeRole target role actor reason =>
    obtain ⟨e₁, e₂, user, row, -, hL, -, hrow, -, -, demotion, rfl, hdem⟩ := h
    have hu : row.user = target := congrArg Prod.fst (Table.get?_eq_some.mp hrow).2
    refine covered_append.mpr ⟨⟨?_, trivial, trivial⟩, covered_runIf hdem fun _ => trivial⟩
    rw [Owned, hu]
    exact hL
  | reviewApplication id actor target reason =>
    obtain ⟨row, e₁, e₂, now, effects, -, -, -, -, -, rfl, happ, hrej⟩ := h
    refine ⟨trivial, ?_⟩
    by_cases ht : target = .approved
    · obtain ⟨e₃, role, hrole, -, rfl⟩ := happ ht
      refine covered_append.mpr ⟨?_, trivial, trivial, trivial⟩
      cases hrole with
      | found _ _ _ => trivial
      | created _ _ _ _ => exact ⟨fun hne => absurd rfl hne, trivial⟩
    · rw [hrej ht]
      exact ⟨trivial, trivial⟩
  | assignAdvisor id actor data =>
    obtain ⟨e₁, e₂, row, transition, hL, -, -, -, -, -, -, rfl, htrans⟩ := h
    refine covered_append.mpr ⟨covered_append.mpr ⟨⟨hL, trivial⟩, ?_⟩, trivial, trivial⟩
    exact covered_runIf htrans fun _ => trivial
  | unassignAdvisor id assignmentId =>
    obtain ⟨e₁, now, row, a, transition, hL, -, hget, hc, -, rfl, htrans⟩ := h
    refine ⟨fun b hb => ?_, covered_runIf htrans fun _ => trivial⟩
    obtain rfl : a = b := Option.some.inj (hget.symm.trans hb)
    rw [hc]
    exact hL
  | updateAdvice id actor data =>
    obtain ⟨e, row, snapshot, hL, -, -, -, rfl, -, hsnap⟩ := h
    exact covered_append.mpr ⟨covered_runIf hsnap fun _ => hL, trivial, trivial⟩
  | _ =>
    refine covered_of_table fun p hp => ?_
    have := htable p hp
    revert this
    cases p.2.table <;> simp [Call.tables]

theorem program_spec {R : Rely Db Key Write} {drift : Db → Db → Prop} (hR : R.Locks owns drift)
    (call : Call) (σ : World Db) : wp R (commits drift call) (program call) ∅ [] σ Ended := by
  cases call with
  | setActiveRole user target => exact setActiveRole_spec hR user target σ
  | updateProfile user data => exact updateProfile_spec user data σ
  | grantRole target role actor reason => exact grantRole_spec hR target role actor reason σ
  | revokeRole target role actor reason => exact revokeRole_spec hR target role actor reason σ
  | createApplication applicant displayName => exact createApplication_spec hR applicant displayName σ
  | reviewApplication id actor target reason =>
    exact reviewApplication_spec hR id actor target reason σ
  | createConcern author fields => exact createConcern_spec hR author fields σ
  | updateOwnConcern user id data => exact updateOwnConcern_spec hR user id data σ
  | deleteConcern user id => exact deleteConcern_spec hR user id σ
  | assignAdvisor id actor data => exact assignAdvisor_spec hR id actor data σ
  | unassignAdvisor id assignmentId => exact unassignAdvisor_spec hR id assignmentId σ
  | closeSelected ids => exact closeSelected_spec hR ids σ
  | softDeleteSelected ids => exact softDeleteSelected_spec hR ids σ
  | restoreSelected ids => exact restoreSelected_spec hR ids σ
  | createAdvice id advisor body submit => exact createAdvice_spec hR id advisor body submit σ
  | updateAdvice id actor data => exact updateAdvice_spec hR id actor data σ
  | deleteAdvice id actor => exact deleteAdvice_spec hR id actor σ
  | reviewAdvice id actor decision reason expectedVersion =>
    exact reviewAdvice_spec hR id actor decision reason expectedVersion σ
  | createFeedback id author data => exact createFeedback_spec hR id author data σ
  | transitionFeedback id actor newStatus memo =>
    exact transitionFeedback_spec hR id actor newStatus memo σ
  | markRead user id => exact markRead_spec hR user id σ

/-- Whatever else runs, each service commits what `Committed` says of it. -/
theorem discipline : Discipline system owns commits (fun _ => Ended) where
  refl := owns_refl
  trans := owns_trans
  still _ _ _ _ _ _ h := h
  frame h hk := owns_of_covered hk (covered_of_committed h)
  program hR call σ := program_spec hR call σ

theorem committed_of_slot {ok : Config system → Event system → Prop} {σ₀ : World Db}
    {c : Config system} (hr : Config.Reaches ok (Config.idle σ₀) c) {t : ℕ} {s : Session system} {n}
    (hslot : c.slot t = some s) (hp : s.prog = .commit n) :
    Committed (fun _ _ => True) (c.held t) s.writes c.world.db s.call :=
  (discipline.holds hr).commit discipline.verified hslot hp

end Chamneul
