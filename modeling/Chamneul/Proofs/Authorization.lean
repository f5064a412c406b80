import Chamneul.Proofs.ApiRefinement
import Chamneul.Proofs.FeedbackIntegrity

/-! Who changes what. Whatever an API session commits is among the changes the user of its request
may make, judged on the rows it commits on, and the user had the standing when the view looked. -/

namespace Chamneul

open ReadCommitted ReadCommitted.Prog Service

/-- What a call may have read without a lock and still rely on: a concern keeps its author, and an
approved advice stays one that the author may rate. -/
structure Settled (db db' : Db) : Prop where
  author : ∀ id c, db.concerns.get? id = some c →
    ∃ c', db'.concerns.get? id = some c' ∧ c'.author = c.author
  ratable : ∀ id author, db.Ratable id author → db'.Ratable id author

theorem settled_refl (db : Db) : Settled db db :=
  ⟨fun _ c hc => ⟨c, hc, rfl⟩, fun _ _ h => h⟩

theorem Settled.trans {db db' db'' : Db} (h : Settled db db') (h' : Settled db' db'') :
    Settled db db'' := by
  constructor
  · intro id c hc
    obtain ⟨c', hc', hauthor⟩ := h.author id c hc
    obtain ⟨c'', hc'', hauthor'⟩ := h'.author id c' hc'
    exact ⟨c'', hc'', hauthor'.trans hauthor⟩
  · exact fun id author hr => h'.ratable id author (h.ratable id author hr)

theorem settled_committed {drift : Db → Db → Prop} {L : Set Key} {w : Pending Write} {db : Db}
    {call : Call} (h : Committed drift L w db call) : Settled db (applyAll w db) := by
  constructor
  · intro id c hc
    obtain ⟨c', hc', hauthor, -⟩ := concern_applyAll w hc
    exact ⟨c', hc', hauthor⟩
  · exact fun id author hr => ratable_committed h hr

theorem settled_of_slot {ok : Config system → Event system → Prop} {σ₀ : World Db}
    {c : Config system} (hr : Config.Reaches ok (Config.idle σ₀) c) {t : ℕ} {s : Session system} {n}
    (hslot : c.slot t = some s) (hp : s.prog = .commit n) :
    Committed Settled (c.held t) s.writes c.world.db s.call := by
  have hsound := discipline.holds_drifting settled_refl Settled.trans
    (fun _ _ hc => settled_committed hc) hr
  exact hsound.commit (discipline.verified_drifting settled_refl Settled.trans) hslot hp

/-! What a call commits is permitted to the user it is made by. -/

section

variable {L : Set Key} {w : Pending Write} {db : Db} {user : Id}

theorem RanIf.permitted {cond : Prop} {x : Write} {standing : Standing} (h : RanIf cond x w)
    (hx : Permits user standing db x) : ∀ p ∈ w, Permits user standing db p.2 := by
  cases h with
  | ran e _ => simpa using hx
  | skipped _ => simp

theorem RoleGiven.permitted {drift : Db → Db → Prop} {applicant : Id}
    (h : RoleGiven drift applicant L db w) : ∀ p ∈ w, Permits user .admin db p.2 := by
  cases h with
  | found _ _ _ => simp
  | created e _ _ _ =>
    intro p hp
    obtain rfl := List.mem_singleton.mp hp
    exact ⟨rfl, List.mem_cons_self⟩

theorem permitted_member {call : Call} (h : Committed Settled L w db call)
    (hmade : call.madeBy user) (hstanding : call.standing = .member) :
    ∀ p ∈ w, Permits user .member db p.2 := by
  cases call with
  | setActiveRole u target =>
    obtain rfl : u = user := hmade
    obtain ⟨e, -, hheld, rfl⟩ := h
    refine List.forall_mem_singleton.mpr (.inl ⟨rfl, rfl, fun role hrole => ?_⟩)
    obtain rfl := Option.mem_some.mp hrole
    exact hheld
  | updateProfile u data =>
    obtain rfl : u = user := hmade
    obtain ⟨e, -, rfl⟩ := h
    exact List.forall_mem_singleton.mpr (.inl ⟨rfl, rfl, fun role hrole => by cases hrole⟩)
  | createApplication applicant displayName =>
    obtain rfl : applicant = user := hmade
    obtain ⟨e, db₁, db₂, -, -, -, -, rfl⟩ := h
    exact List.forall_mem_singleton.mpr ⟨rfl, rfl, rfl, rfl⟩
  | createConcern author fields =>
    obtain rfl : author = user := hmade
    obtain ⟨e, -, rfl⟩ := h
    exact List.forall_mem_singleton.mpr ⟨rfl, rfl, rfl⟩
  | updateOwnConcern u id data =>
    obtain rfl : u = user := hmade
    obtain ⟨e, row, -, hget, -, hauthor, -, -, rfl⟩ := h
    exact List.forall_mem_singleton.mpr (.inl ⟨rfl, rfl, row, hget, hauthor⟩)
  | deleteConcern u id =>
    obtain rfl : u = user := hmade
    obtain ⟨e, now, db₁, row, hd, hget, hauthor, -, rfl⟩ := h
    obtain ⟨row', hget', hauthor'⟩ := hd.author id row hget
    exact List.forall_mem_singleton.mpr (.inl ⟨rfl, rfl, row', hget', hauthor'.trans hauthor⟩)
  | createFeedback id author data =>
    obtain rfl : author = user := hmade
    obtain ⟨e, db₁, row, concern, hd, hfound, hauthor, -, happroved, -, rfl⟩ := h
    refine List.forall_mem_singleton.mpr ⟨rfl, rfl, rfl, hd.ratable id author ?_⟩
    obtain ⟨hadvice, hconcern⟩ := adviceAndConcern?_eq_some.mp hfound
    exact ⟨row, concern, hadvice, happroved, hconcern, hauthor⟩
  | markRead u id =>
    obtain rfl : u = user := hmade
    obtain ⟨row, -, hget, hrecipient, ⟨-, rfl⟩ | ⟨-, e, now, rfl⟩⟩ := h
    · simp
    · exact List.forall_mem_singleton.mpr ⟨rfl, row, hget, hrecipient⟩
  | _ => cases hstanding

theorem permitted_advisor {call : Call} (h : Committed Settled L w db call)
    (hmade : call.madeBy user) (hstanding : call.standing = .advisor) :
    ∀ p ∈ w, Permits user .advisor db p.2 := by
  cases call with
  | createAdvice id advisor body submit =>
    obtain rfl : advisor = user := hmade
    obtain ⟨e, db₁, db₂, row, -, -, -, -, -, rfl⟩ := h
    exact List.forall_mem_singleton.mpr ⟨rfl, rfl, rfl, rfl⟩
  | updateAdvice id actor data =>
    obtain rfl : actor = user := hmade
    obtain ⟨e, row, snapshot, -, hget, hadvisor, hstatus, rfl, -, hsnap⟩ := h
    have hopen : row.status ≠ .approved := by
      rintro hs
      simp [hs, editableStatuses] at hstatus
    refine List.forall_mem_append.mpr ⟨hsnap.permitted ⟨rfl, rfl, row, hget, hadvisor⟩, ?_⟩
    exact List.forall_mem_singleton.mpr ⟨rfl, ⟨row, hget, hadvisor, hopen⟩, fun _ hs => by cases hs⟩
  | deleteAdvice id actor =>
    obtain rfl : actor = user := hmade
    obtain ⟨e, row, -, hget, hadvisor, hstatus, rfl⟩ := h
    have hopen : row.status ≠ .approved := by
      rintro hs
      simp [hs, deletableStatuses] at hstatus
    refine List.forall_mem_singleton.mpr ⟨rfl, ⟨row, hget, hadvisor, hopen⟩, fun status hs => ?_⟩
    exact (Option.mem_some.mp hs).symm
  | _ => cases hstanding

theorem permitted_admin {call : Call} (h : Committed Settled L w db call)
    (hmade : call.madeBy user) (hstanding : call.standing = .admin) :
    ∀ p ∈ w, Permits user .admin db p.2 := by
  cases call with
  | grantRole target role actor reason =>
    obtain rfl : actor = user := hmade
    obtain ⟨e₁, e₂, hrole, -, -, -, rfl⟩ := h
    exact List.forall_mem_cons.mpr ⟨⟨rfl, hrole⟩, List.forall_mem_singleton.mpr ⟨rfl, rfl⟩⟩
  | revokeRole target role actor reason =>
    obtain rfl : actor = user := hmade
    obtain ⟨e₁, e₂, account, row, hrole, -, -, hget, -, hadmin, demotion, rfl, hdem⟩ := h
    obtain ⟨hmem, hkey⟩ := Table.get?_eq_some.mp hget
    obtain ⟨hu, hr⟩ := Prod.mk.inj hkey
    refine List.forall_mem_append.mpr ⟨List.forall_mem_cons.mpr ⟨⟨rfl, hmem, ?_, ?_⟩, ?_⟩, ?_⟩
    · rw [hr]
      exact hrole
    · intro ha
      rw [hu]
      exact (hadmin (hr.symm.trans ha)).1
    · exact List.forall_mem_singleton.mpr ⟨rfl, rfl⟩
    · exact hdem.permitted (.inr ⟨rfl, rfl, rfl, rfl, rfl, rfl⟩)
  | reviewApplication id actor target reason =>
    obtain rfl : actor = user := hmade
    obtain ⟨row, e₁, e₂, now, effects, -, hget, hallowed, -, -, rfl, happroved, hother⟩ := h
    refine List.forall_mem_cons.mpr ⟨⟨rfl, rfl, row, hget, hallowed⟩, ?_⟩
    by_cases ht : target = .approved
    · obtain ⟨e₃, role, hrole, -, rfl⟩ := happroved ht
      refine List.forall_mem_append.mpr ⟨hrole.permitted, ?_⟩
      exact List.forall_mem_cons.mpr ⟨⟨rfl, rfl⟩, List.forall_mem_singleton.mpr ⟨rfl, rfl⟩⟩
    · rw [hother ht]
      exact List.forall_mem_singleton.mpr ⟨rfl, rfl⟩
  | assignAdvisor id actor data =>
    obtain rfl : actor = user := hmade
    obtain ⟨e₁, e₂, row, transition, -, -, -, -, -, -, -, rfl, htrans⟩ := h
    refine List.forall_mem_append.mpr ⟨List.forall_mem_append.mpr ⟨?_, ?_⟩, ?_⟩
    · exact List.forall_mem_singleton.mpr ⟨rfl, rfl⟩
    · exact htrans.permitted (.inr ⟨rfl, rfl, rfl⟩)
    · exact List.forall_mem_singleton.mpr ⟨rfl, rfl⟩
  | unassignAdvisor id assignmentId =>
    obtain ⟨e₁, now, row, a, transition, -, -, hget, -, hactive, rfl, htrans⟩ := h
    refine List.forall_mem_cons.mpr ⟨⟨rfl, ?_⟩, htrans.permitted (.inr ⟨rfl, rfl, rfl⟩)⟩
    rw [hget]
    exact hactive
  | reviewAdvice id actor decision reason expectedVersion =>
    obtain rfl : actor = user := hmade
    obtain ⟨e₁, e₂, now, row, concern, transition, -, -, hget, -, -, -, -, -, -, -, rfl, htrans⟩ := h
    have hid : row.id = id := (Table.get?_eq_some.mp hget).2
    refine List.forall_mem_append.mpr ⟨List.forall_mem_append.mpr ⟨?_, ?_⟩, ?_⟩
    · refine List.forall_mem_singleton.mpr ⟨rfl, rfl, row, ?_, rfl, rfl, rfl, rfl, rfl⟩
      rw [show (reviewed row actor decision reason now).id = id from hid]
      exact hget
    · exact htrans.permitted (.inr ⟨rfl, rfl, rfl⟩)
    · cases decision <;> exact List.forall_mem_singleton.mpr ⟨rfl, rfl⟩
  | transitionFeedback id actor newStatus memo =>
    obtain rfl : actor = user := hmade
    obtain ⟨e, now, db₁, row, -, -, -, -, rfl⟩ := h
    refine List.forall_mem_singleton.mpr ⟨rfl, fun r hr => ?_⟩
    unfold transitionSet at hr
    split_ifs at hr with hreviewed
    · obtain rfl := Option.mem_some.mp hr
      rfl
    · cases hr
  | _ => cases hstanding

/-- The staff's actions write no text and no owner, and make no new concern. -/
theorem permitted_staff {drift : Db → Db → Prop} {call : Call} (h : Committed drift L w db call)
    (hstanding : call.standing = .staff) :
    ∀ p ∈ w, ∃ id s, p.2 = .updateConcern id s ∧ s.fields = none := by
  have hbulk : ∀ {q : Concern → Bool} {set : ConcernSet}, set.fields = none → BulkUpdate q set L w db →
      ∀ p ∈ w, ∃ id s, p.2 = .updateConcern id s ∧ s.fields = none := by
    rintro q set hset ⟨rows, rfl, -, -⟩ p hp
    obtain ⟨r, -, rfl⟩ := List.mem_map.mp hp
    exact ⟨r.2, set, rfl, hset⟩
  cases call with
  | closeSelected ids | softDeleteSelected ids =>
    obtain ⟨now, hb⟩ := h
    exact hbulk rfl hb
  | restoreSelected ids => exact hbulk rfl h
  | _ => cases hstanding

/-- No request asks for the standing of the staff. -/
theorem Request.standing_ne_staff (r : Request) : r.standing ≠ .staff := by
  cases r <;> simp [Request.standing]

theorem permitted_of_admitted {a : Arrival} {db₀ : Db} {call : Call} (h : Committed Settled L w db call)
    (hadmits : a.Admits db₀ call) : ∀ p ∈ w, a.Permits db p.2 := by
  cases a with
  | request user r =>
    obtain ⟨hstanding, hmade⟩ := Request.standing_of_call? hadmits.1
    show ∀ p ∈ w, Permits user r.standing db p.2
    rw [← hstanding]
    cases hcall : call.standing with
    | member => exact permitted_member h hmade hcall
    | advisor => exact permitted_advisor h hmade hcall
    | admin => exact permitted_admin h hmade hcall
    | staff => exact absurd (hstanding.symm.trans hcall) r.standing_ne_staff
  | closeSelected ids | softDeleteSelected ids | restoreSelected ids =>
    obtain rfl : call = _ := hadmits
    exact permitted_staff h rfl

end

end Chamneul
