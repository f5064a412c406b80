import Chamneul.Abstract.Ledger
import Chamneul.Proofs.Drafting
import Chamneul.Store.Sessions

/-! The trail of ADVISOR while grants, revocations and approvals run together. It
agrees with who holds the role, as long as no approval that found the role held
files its grant after the role is gone, or as it is going. -/

namespace Chamneul

open ReadCommitted ReadCommitted.Prog Service

def draft (k : Id × Role) (w : Pending Write) : Option Draft :=
  ((filed w).find? fun g => decide (g.office = k)).map fun g => ⟨g, !(moved w).isEmpty⟩

def ledger (k : Id × Role) (c : Config system) : Ledger where
  roster := roster c.world.db
  drafts t := (c.slot t).bind fun s => draft k s.writes

/-- The session is about to file a grant without having moved the role, and the role
is gone, or another session has its revocation pending. -/
def Overtaken (c : Config system) : Event system → Prop
  | .run t _ => ∃ s stmt n row, c.slot t = some s ∧ s.prog = .write stmt n ∧ moved s.writes = [] ∧
      Write.insertRoleGrant row ∈ stmt (c.world.view s.writes) ∧ row.action = .grant ∧
      (c.world.db.hasRole row.user row.role = false ∨ ∃ t' s', t' ≠ t ∧ c.slot t' = some s' ∧
        ∃ g ∈ filed s'.writes, g.office = row.office ∧ g.action = .revoke)
  | _ => False

/-- A run of grants, revocations and approvals, none of them overtaken. -/
def InTurn (c : Config system) (e : Event system) : Prop :=
  e.startsOnly Call.changesRoles = true ∧ ¬ Overtaken c e

theorem draft_of_step {drift : Db → Db → Prop} {w : Pending Write} {db : Db} {call : Call}
    {e : Roster.Event} (h : RosterStep drift w db call e) (k : Id × Role) : draft k w = e.draft k := by
  unfold draft
  rw [h.filed, h.moved]
  cases e with
  | stay | wear => rfl
  | gain g | lose g | again g =>
    by_cases hk : g.office = k <;>
      simp [Roster.Event.filed, Roster.Event.moved, Roster.Event.draft, hk]

theorem draft_eq_some {k : Id × Role} {w : Pending Write} {d : Draft} (h : draft k w = some d) :
    d.event ∈ filed w ∧ d.event.office = k ∧ (d.moves = false ↔ moved w = []) := by
  obtain ⟨g, hg, rfl⟩ := Option.map_eq_some_iff.mp h
  exact ⟨List.mem_of_find?_eq_some hg, by simpa using List.find?_some hg, by simp⟩

theorem draft_append {k : Id × Role} {w w' : Pending Write} (hf : filed w' = []) (hm : moved w' = []) :
    draft k (w ++ w') = draft k w := by
  rw [draft, draft, filed_append, moved_append, hf, hm, List.append_nil, List.append_nil]

/-- What a draft says of a session that is drafting. -/
theorem Drafting.draft_eq {L : Set Key} {w : Pending Write} {σ : World Db} {ks : ℕ → List Key}
    {k : Id × Role} {d : Draft} (h : Drafting L w σ ks) (hd : draft k w = some d) :
    filed w = [d.event] ∧
      (d.moves = true → moved w = [k] ∧ σ.db.hasRole k.1 k.2 = decide (d.event.action = .revoke)) ∧
      (d.moves = false → moved w = [] ∧ d.event.action = .grant) := by
  obtain ⟨hmem, rfl, hmoves⟩ := draft_eq_some hd
  rcases h with hnil | ⟨-, g, hfiled, hg⟩
  · rw [hnil] at hmem
    cases hmem
  · obtain rfl : d.event = g := by simpa [hfiled] using hmem
    refine ⟨hfiled, fun hm => ?_, fun hm => ?_⟩
    · exact hg.resolve_right fun h => by simp [hmoves.mpr h.1] at hm
    · exact hg.resolve_left fun h => by simp [hmoves.mp hm] at h

/-- Moving a role takes the lock of its entry. -/
theorem entry_of_moved {w : Pending Write} {k : Id × Role} (hk : k ∈ moved w) :
    ∃ p ∈ w, Key.userRoleEntry k.1 k.2 ∈ locks p.1 p.2 := by
  obtain ⟨p, hp, hpk⟩ := List.mem_filterMap.mp hk
  refine ⟨p, hp, ?_⟩
  obtain ⟨e, x⟩ := p
  cases x <;> cases hpk <;> simp [locks]

section

variable {σ₀ : World Db} {c c' : Config system} {k : Id × Role}

theorem ledger_put {σ : World Db} {owner : Key → Option ℕ} {t : ℕ} {s : Option (Session system)} :
    ledger k ⟨σ, owner, c.put t s⟩ =
      { roster := roster σ.db
        drafts := Function.update (ledger k c).drafts t (s.bind fun s => draft k s.writes) } := by
  simp only [ledger, Ledger.mk.injEq, true_and]
  funext t'
  by_cases ht : t' = t
  · subst ht
    simp [Config.put]
  · simp [Config.put, ht]

/-- Everybody in such a run changes roles, and drafts as such. -/
theorem drafting_inTurn (hr : Config.Reaches InTurn (Config.idle σ₀) c) {t : ℕ} {s : Session system}
    (hs : c.slot t = some s) : Drafting (c.held t) s.writes c.world (s.needs c.world) :=
  drafting_of_slot hr hs
    (hr.calls (P := fun call : Call => call.changesRoles = true) (fun _ _ _ ho => ho.1) hs)

/-- A session that moves role `k` has locked it. -/
theorem draft_moves (hr : Config.Reaches InTurn (Config.idle σ₀) c) {t : ℕ} {d : Draft}
    (hd : (ledger k c).drafts t = some d) (hm : d.moves = true) :
    c.owner (.userRoleEntry k.1 k.2) = some t := by
  obtain ⟨s, hs, hd⟩ := Option.bind_eq_some_iff.mp hd
  obtain ⟨hmoved, -⟩ := ((drafting_inTurn hr hs).draft_eq hd).2.1 hm
  obtain ⟨p, hp, hkey⟩ := entry_of_moved (hmoved ▸ List.mem_singleton_self k)
  exact (discipline.holds hr).tidy.locked t s hs p hp _ hkey

/-- What a session writes leaves its draft as it was, or is a fair one. -/
theorem fair_of_written (hr : Config.Reaches InTurn (Config.idle σ₀) c)
    (hr' : Config.Reaches InTurn (Config.idle σ₀) c') {t uuid : ℕ} {s : Session system} {stmt n}
    (hslot : c.slot t = some s) (hp : s.prog = .write stmt n) (hok : ¬ Overtaken c (.run t uuid))
    {w : Pending Write}
    (hw : w = (stmt (c.world.view s.writes)).map ((⟨c.world.now, uuid⟩ : Env), ·))
    {s' : Session system} (hslot' : c'.slot t = some s') (hs' : s'.writes = s.writes ++ w)
    (hdb : c'.world.db = c.world.db) (hothers : ∀ t', t' ≠ t → c'.slot t' = c.slot t')
    {x : Draft} (hx : draft k (s.writes ++ w) = some x) :
    (ledger k c).drafts t = some x ∨ (ledger k c).Fair k c.world.now t x := by
  have hafter := drafting_inTurn hr' hslot'
  rw [hs'] at hafter
  obtain ⟨hfiled, hmoving, hfound⟩ := hafter.draft_eq hx
  rw [hdb] at hmoving
  have hdrafts : (ledger k c).drafts t = draft k s.writes := by simp [ledger, hslot]
  rcases drafting_inTurn hr hslot with hnil | ⟨hks, g, hold, -⟩
  · -- the event is new
    have hmem : x.event ∈ filed w := by
      rw [filed_append, hnil, List.nil_append] at hfiled
      simp [hfiled]
    obtain ⟨p, hpw, row, hprow, hevent⟩ := mem_filed.mp hmem
    subst hw
    obtain ⟨y, hy, rfl⟩ := List.mem_map.mp hpw
    obtain rfl : y = .insertRoleGrant row := hprow
    have hoffice : row.office = k := by
      rw [← (draft_eq_some hx).2.1, ← hevent]
      rfl
    have hdrafts' : (ledger k c').drafts t = some x := by simp [ledger, hslot', hs', hx]
    refine Or.inr ⟨by rw [← hevent]; rfl, fun hm => ⟨(hmoving hm).2, fun t' d' hne hd' => ?_⟩, fun hm => ?_⟩
    · by_contra hm'
      have hd'' : (ledger k c').drafts t' = some d' := by
        simpa only [ledger, hothers t' hne] using hd'
      exact hne (Config.owner_unique (draft_moves hr' hd'' (by simpa using hm'))
        (draft_moves hr' hdrafts' hm))
    · -- otherwise the session is overtaken
      obtain ⟨hnone, hgrant⟩ := hfound hm
      have hfree : moved s.writes = [] := by
        rw [moved_append] at hnone
        exact (List.append_eq_nil_iff.mp hnone).1
      have hrow : row.action = .grant := by
        rw [← hevent] at hgrant
        exact hgrant
      refine ⟨hgrant, ?_, fun t' d' hne hd' hrev => ?_⟩
      · by_contra hlost
        refine hok ⟨s, stmt, n, row, hslot, hp, hfree, hy, hrow, Or.inl ?_⟩
        rw [← hoffice] at hlost
        exact Bool.eq_false_iff.mpr hlost
      · obtain ⟨s', hs', hd'⟩ := Option.bind_eq_some_iff.mp hd'
        obtain ⟨hmem', hk', -⟩ := draft_eq_some hd'
        exact hok ⟨s, stmt, n, row, hslot, hp, hfree, hy, hrow,
          Or.inr ⟨t', s', hne, hs', d'.event, hmem', hk'.trans hoffice.symm, hrev⟩⟩
  · -- the event was there, and nothing is moved after it
    have hnew : filed w = [] := by
      rw [filed_append, hold] at hfiled
      simpa using congrArg List.tail hfiled
    have hstill : moved w = [] := by
      refine List.eq_nil_iff_forall_not_mem.mpr fun k' hk' => ?_
      obtain ⟨p, hpw, hkey⟩ := entry_of_moved hk'
      subst hw
      obtain ⟨y, hy, rfl⟩ := List.mem_map.mp hpw
      refine hks uuid k'.1 k'.2 ?_
      simp only [Session.needs, hp]
      exact List.mem_flatMap.mpr ⟨y, hy, hkey⟩
    exact Or.inl (by rw [hdrafts, ← hx, draft_append hnew hstill])

theorem ledger_step (hr : Config.Reaches InTurn (Config.idle σ₀) c) {e : Event system}
    (hok : InTurn c e) (hs : c.step e = some c') :
    (ledger k c).Step k c.world.now (ledger k c') := by
  have hc := discipline.holds hr
  have hafter := hr.step hok hs
  obtain ⟨t, call, rfl, -, rfl⟩ | ⟨t, uuid, s, rfl, hslot, ht⟩ | ⟨t, s, rfl, -, rfl⟩ :=
    Config.step_cases hs
  · rw [ledger_put]
    exact .draft t none (by simp)
  · have hold : (ledger k c).drafts t = draft k s.writes := by simp [ledger, hslot]
    cases ht with
    | commit n hp =>
      have hcom : Committed (fun _ _ => True) (c.held t) s.writes c.world.db s.call :=
        hc.commit discipline.verified hslot hp
      obtain ⟨e, he⟩ := roster_step hcom
      rw [ledger_put]
      exact .publish t e _ he.step (hold.trans (draft_of_step he k))
    | rollback n hp =>
      rw [ledger_put]
      exact .draft t none (by simp)
    | clock n hp | select n hp | forUpdate rows n hp hf | refused stmt n hp hv =>
      rw [ledger_put]
      exact .draft t _ fun x hx => Or.inl (hold.trans hx)
    | written stmt n hp hf hv =>
      rw [ledger_put]
      refine .draft t _ fun x hx => ?_
      exact fair_of_written hr hafter hslot hp hok.2 rfl (Function.update_self t _ c.slot) rfl rfl
        (fun t' ht' => Function.update_of_ne ht' _ _) hx
  · rw [ledger_put]
    exact .draft t none (by simp)

/-- In every run of grants, revocations and approvals that starts from nobody being an
advisor, a user holds ADVISOR exactly when the latest event says so, as long as no
approval is overtaken. -/
theorem role_trail_agrees (h₀ : NoAdvisors σ₀.db) (hr : Config.Reaches InTurn (Config.idle σ₀) c)
    (u : Id) :
    (c.world.db.hasRole u .advisor = true ↔
      ∃ g, (roster c.world.db).Latest (u, .advisor) g ∧ g.action = .grant) ∧
    ((roster c.world.db).log (u, .advisor) = [] ∨
      ∃ g, (roster c.world.db).Latest (u, .advisor) g) := by
  have hstart : (ledger (u, .advisor) (Config.idle σ₀)).Sound (u, .advisor) σ₀.now := by
    have hlog : (ledger (u, .advisor) (Config.idle σ₀)).roster.log (u, .advisor) = [] := h₀.log u
    have hholds : (ledger (u, .advisor) (Config.idle σ₀)).roster.holds (u, .advisor) = false :=
      h₀.holds u
    constructor
    · exact ⟨fun h => absurd (hholds.symm.trans h) (by simp), fun _ => Or.inl hlog⟩
    · simp [hlog]
    · exact fun t d hd => by cases hd
    · exact fun t d hd => by cases hd
    · exact fun t t' d d' _ hd => by cases hd
    · exact fun t d hd => by cases hd
    · exact fun t d hd => by cases hd
  have hsound : (ledger (u, .advisor) c).Sound (u, .advisor) c.world.now := by
    refine hr.invariant (I := fun c => (ledger (u, .advisor) c).Sound (u, .advisor) c.world.now)
      hstart fun c e c' hr hi hok hs => ?_
    have hnext := (ledger_step (k := (u, .advisor)) hr hok hs).sound hi
    rwa [← Config.step_now hs] at hnext
  exact ⟨hsound.agrees.holds_iff, hsound.agrees.latest⟩

end

def reviewing : World Db where
  db :=
    { users := Table.empty.insert { id := 1, nickname := "a" }
      applications := Table.empty.insert
        { id := 10, applicant := 1, displayName := "b", status := .reviewing } }
  now := 0

theorem noAdvisors_reviewing : NoAdvisors reviewing.db :=
  ⟨fun r hr => absurd hr (Table.not_mem_empty r), fun g hg => absurd hg (Table.not_mem_empty g)⟩

/-- The role is granted, found held by an approval, revoked, and then granted on paper. -/
def overtaking : Config system :=
  (Config.idle reviewing).after
    [.start 0 (.grantRole 1 .advisor 9 ""), .run 0 0, .run 0 0, .run 0 11, .run 0 12, .run 0 0,
      .start 1 (.reviewApplication 10 9 .approved ""), .run 1 0, .run 1 0, .run 1 0, .run 1 0,
      .start 2 (.revokeRole 1 .advisor 9 ""), .run 2 0, .run 2 0, .run 2 13, .run 2 0,
      .run 1 14, .run 1 15, .run 1 0]

theorem overtaking_disagrees : NoAdvisors reviewing.db ∧
    Config.Reaches (fun _ e => e.startsOnly Call.changesRoles = true) (Config.idle reviewing)
      overtaking ∧
    ¬ (overtaking.world.db.hasRole 1 .advisor = true ↔
      ∃ g, (roster overtaking.world.db).Latest (1, .advisor) g ∧ g.action = .grant) := by
  refine ⟨noAdvisors_reviewing, Config.reaches_after (fun _ _ h => h) (by decide), fun h => ?_⟩
  have hlost : overtaking.world.db.hasRole 1 .advisor = false := by decide
  have hlatest : ∃ g ∈ (roster overtaking.world.db).log (1, .advisor),
      (∀ g' ∈ (roster overtaking.world.db).log (1, .advisor), g' ≠ g → g'.actedAt < g.actedAt) ∧
        g.action = .grant := by decide
  obtain ⟨g, hg, hlast, hgrant⟩ := hlatest
  rw [h.mpr ⟨g, ⟨hg, hlast⟩, hgrant⟩] at hlost
  cases hlost

/-- A schedule in turn, checked step by step: roles are moved by whoever files about them. -/
def mindsTurn (c : Config system) : Event system → Bool
  | .start _ call => Call.changesRoles call
  | .run t _ => (c.slot t).all fun s =>
      match s.prog with
      | .write stmt _ => !(moved s.writes).isEmpty || (stmt (c.world.view s.writes)).all fun
        | .insertRoleGrant _ => false
        | _ => true
      | _ => true
  | .abort _ => true

theorem inTurn_of_mindsTurn {c : Config system} {e : Event system} (h : mindsTurn c e = true) :
    InTurn c e := by
  refine ⟨?_, fun ho => ?_⟩
  · cases e with
    | start t call => exact h
    | run | abort => rfl
  · cases e with
    | start | abort => exact ho
    | run t uuid =>
      obtain ⟨s, stmt, n, row, hslot, hp, hfree, hrow, -⟩ := ho
      simp only [mindsTurn, hslot, hp, hfree, Option.all_some, List.isEmpty_nil, Bool.not_true,
        Bool.false_or, List.all_eq_true] at h
      exact absurd (h _ hrow) (by simp)

/-- The role is granted and then revoked, while the application waits. -/
def inOrder : Config system :=
  (Config.idle reviewing).after
    [.start 0 (.grantRole 1 .advisor 9 ""), .run 0 0, .run 0 0, .run 0 11, .run 0 12, .run 0 0,
      .start 2 (.revokeRole 1 .advisor 9 ""), .run 2 0, .run 2 0, .run 2 13, .run 2 0]

theorem role_trail_agrees_inOrder :
    ((inOrder.world.db.hasRole 1 .advisor = true ↔
      ∃ g, (roster inOrder.world.db).Latest (1, .advisor) g ∧ g.action = .grant) ∧
    ((roster inOrder.world.db).log (1, .advisor) = [] ∨
      ∃ g, (roster inOrder.world.db).Latest (1, .advisor) g)) ∧
    ((roster inOrder.world.db).log (1, .advisor)).map (·.action) = [.grant, .revoke] :=
  ⟨role_trail_agrees noAdvisors_reviewing
    (Config.reaches_after (fun _ _ => inTurn_of_mindsTurn) (by decide)) 1, by decide⟩

end Chamneul
