import Chamneul.Proofs.Atomic
import Chamneul.Store.Answers

/-! Reading a notification. A row changes once, when it is read, so what the first read
left is what every later one answers. -/

namespace Chamneul

open ReadCommitted ReadCommitted.Prog Service

/-- The change sends a notification, which nobody has read. -/
inductive Write.Sends : Write → Prop
  | mk (n : Notification) (hread : n.isRead = false) (hat : n.readAt = none) :
      Sends (.insertNotification n)

theorem RanIf.sends {c : Prop} {x : Write} {w : Pending Write} (h : RanIf c x w)
    (hx : x.table ≠ .notifications) : ∀ p ∈ w, p.2.table = .notifications → p.2.Sends :=
  fun p hp ht => absurd ((h.table p hp).symm.trans ht) hx

/-- Apart from `mark_read` the services only ever send. -/
theorem sends_of_committed {drift : Db → Db → Prop} {L : Set Key} {w : Pending Write} {db : Db}
    {call : Call} (h : Committed drift L w db call) (hcall : ∀ user id, call ≠ .markRead user id)
    {p : Env × Write} (hp : p ∈ w) (ht : p.2.table = .notifications) : p.2.Sends := by
  have htables : .notifications ∈ call.tables := ht ▸ table_of_committed h p hp
  cases call with
  | reviewApplication id actor target reason =>
    obtain ⟨row, e₁, e₂, now, effects, -, -, -, -, -, rfl, happ, hrej⟩ := h
    obtain rfl | hp := List.mem_cons.mp hp
    · cases ht
    by_cases htarget : target = .approved
    · obtain ⟨e₃, role, hrole, -, rfl⟩ := happ htarget
      simp only [List.mem_append, List.mem_cons, List.not_mem_nil, or_false] at hp
      obtain hp | rfl | rfl := hp
      · cases hrole with
        | found => cases hp
        | created e => rw [List.mem_singleton.mp hp] at ht; cases ht
      · cases ht
      · exact .mk _ rfl rfl
    · rw [hrej htarget, List.mem_singleton] at hp
      exact hp ▸ .mk _ rfl rfl
  | assignAdvisor id actor data =>
    obtain ⟨e₁, e₂, row, transition, -, -, -, -, -, -, -, rfl, htrans⟩ := h
    simp only [List.mem_append, List.mem_singleton] at hp
    obtain (rfl | hp) | rfl := hp
    · cases ht
    · exact htrans.sends (fun h => by cases h) p hp ht
    · exact .mk _ rfl rfl
  | reviewAdvice id actor decision reason expectedVersion =>
    obtain ⟨e₁, e₂, now, row, concern, transition, -, -, -, -, -, -, -, -, -, -, rfl, htrans⟩ := h
    simp only [List.mem_append, List.mem_singleton] at hp
    obtain (rfl | hp) | rfl := hp
    · cases ht
    · exact htrans.sends (fun h => by cases h) p hp ht
    · cases decision <;> exact .mk _ rfl rfl
  | markRead user id => exact absurd rfl (hcall user id)
  | _ => simp [Call.tables] at htables

/-! What a commit does to the notifications. -/

structure OnlySent (db db' : Db) : Prop where
  kept : ∀ n ∈ db.notifications, n ∈ db'.notifications
  new : ∀ n ∈ db'.notifications, n ∈ db.notifications ∨ n.isRead = false ∧ n.readAt = none

theorem OnlySent.refl (db : Db) : OnlySent db db := ⟨fun _ h => h, fun _ h => Or.inl h⟩

theorem OnlySent.of_same {db db' : Db} (h : db'.notifications = db.notifications) :
    OnlySent db db' := by
  constructor <;> intro n hn
  · rwa [h]
  · rw [h] at hn
    exact Or.inl hn

theorem OnlySent.trans {db db' db'' : Db} (h : OnlySent db db') (h' : OnlySent db' db'') :
    OnlySent db db'' where
  kept n hn := h'.kept n (h.kept n hn)
  new n hn := (h'.new n hn).elim (h.new n) Or.inr

theorem onlySent_apply {e : Env} {x : Write} {db : Db} (hx : x.table = .notifications → x.Sends) :
    OnlySent db (apply e x db) := by
  by_cases ht : x.table = .notifications
  · obtain ⟨n, hread, hat⟩ := hx ht
    refine ⟨fun m hm => Table.mem_insert_of_mem hm, fun m hm => ?_⟩
    refine (Table.mem_of_mem_insert hm).imp_right ?_
    rintro rfl
    exact ⟨hread, hat⟩
  · exact .of_same (same_apply (t := .notifications) ht)

theorem onlySent_committed {drift : Db → Db → Prop} {L : Set Key} {w : Pending Write} {db : Db}
    {call : Call} (h : Committed drift L w db call) (hcall : ∀ user id, call ≠ .markRead user id) :
    OnlySent db (applyAll w db) :=
  holds_applyAll (.refl db) fun _ hp _ hold =>
    hold.trans (onlySent_apply fun ht => sends_of_committed h hcall hp ht)

inductive NotificationsStep (call : Call) (db db' : Db) (w : Pending Write) : Prop
  | sent (h : OnlySent db db') (hcall : ∀ user id, call ≠ .markRead user id)
  | again (row : Notification) (hcall : call = .markRead row.recipient row.id)
      (hrow : row ∈ db.notifications) (hread : row.isRead = true) (hw : w = []) (hdb : db' = db)
  | read (row : Notification) (e : Env) (now : Time) (hcall : call = .markRead row.recipient row.id)
      (hrow : row ∈ db.notifications) (hunread : row.isRead = false)
      (hw : w = [(e, .readNotification row.id now)])
      (hrows : db'.notifications = db.notifications.update row.id (Notification.marked now)
        (key_marked now))

theorem notifications_committed {drift : Db → Db → Prop} {L : Set Key} {w : Pending Write} {db : Db}
    {call : Call} (h : Committed drift L w db call) :
    NotificationsStep call db (applyAll w db) w := by
  by_cases hcall : ∃ user id, call = .markRead user id
  · obtain ⟨user, id, rfl⟩ := hcall
    obtain ⟨row, -, hrow, rfl, ⟨hread, rfl⟩ | ⟨hunread, e, now, rfl⟩⟩ := h
    all_goals obtain ⟨hmem, rfl⟩ := Table.get?_eq_some.mp hrow
    · exact .again row rfl hmem hread rfl rfl
    · exact .read row e now rfl hmem hunread rfl rfl
  · have hcall : ∀ user id, call ≠ .markRead user id := fun user id he => hcall ⟨user, id, he⟩
    exact .sent (onlySent_committed h hcall) hcall

/-- A row that was seen stays, but for its being read. -/
def Db.Seen (db : Db) (row : Notification) : Prop :=
  ∃ r ∈ db.notifications, r.id = row.id ∧ (r = row ∨ row.isRead = false ∧ r.isRead = true)

theorem NotificationsStep.kept {call : Call} {db db' : Db} {w : Pending Write}
    (h : NotificationsStep call db db' w) {n : Notification} (hn : n ∈ db.notifications) :
    ∃ n' ∈ db'.notifications, n'.id = n.id ∧ n'.recipient = n.recipient ∧
      (n' = n ∨ n.isRead = false ∧ n'.isRead = true) := by
  cases h with
  | sent h => exact ⟨n, h.kept n hn, rfl, rfl, Or.inl rfl⟩
  | again row hcall hrow hread hw hdb => exact ⟨n, by rwa [hdb], rfl, rfl, Or.inl rfl⟩
  | read row e now hcall hrow hunread hw hrows =>
    by_cases hid : n.id = row.id
    · obtain rfl : n = row := Table.eq_of_key _ hn hrow hid
      exact ⟨n.marked now, by rw [hrows, Table.mem_update]; exact ⟨n, hn, (if_pos rfl).symm⟩,
        rfl, rfl, Or.inr ⟨hunread, rfl⟩⟩
    · exact ⟨n, by rw [hrows, Table.mem_update]; exact ⟨n, hn, (if_neg hid).symm⟩, rfl, rfl,
        Or.inl rfl⟩

theorem NotificationsStep.seen {call : Call} {db db' : Db} {w : Pending Write}
    (h : NotificationsStep call db db' w) {row : Notification} (hrow : db.Seen row) :
    db'.Seen row := by
  obtain ⟨r, hr, hid, hsame⟩ := hrow
  obtain ⟨r', hr', hid', -, hsame'⟩ := h.kept hr
  refine ⟨r', hr', hid'.trans hid, ?_⟩
  rcases hsame' with rfl | ⟨hunread, hread⟩
  · exact hsame
  · rcases hsame with rfl | ⟨_, hread'⟩
    · exact Or.inr ⟨hunread, hread⟩
    · rw [hunread] at hread'
      cases hread'

/-! What a `mark_read` knows. -/

/-- What is left of `mark_read` when the time is read. -/
def markSaveAt (row : Notification) (now : Time) : Service Notification :=
  atomic do
    write (.readNotification row.id now) fun _ _ => ()
    pure (row.marked now)

/-- What is left of it when the row is found unread. -/
def markSave (row : Notification) : Service Notification := .clock (markSaveAt row)

theorem markRead_reads (user id : Id) :
    ∃ rows n, markRead user id = .forUpdate rows n ∧ ∀ db,
      (db.ownNotification? user id = none ∧ n db = .rollback (.ret (.error .notFound))) ∨
      ∃ row ∈ db.notifications, row.id = id ∧ row.recipient = user ∧
        ((row.isRead = true ∧ n db = .commit (.ret (.ok row))) ∨
          row.isRead = false ∧ n db = markSave row) := by
  refine ⟨_, _, rfl, fun db => ?_⟩
  cases hrow : db.ownNotification? user id with
  | none => exact Or.inl ⟨rfl, by simp [hrow, getOr, raise, Prog.andThen]⟩
  | some row =>
    obtain ⟨hget, hmine⟩ := Option.filter_eq_some_iff.mp hrow
    obtain ⟨hmem, hid⟩ := Table.get?_eq_some.mp hget
    refine Or.inr ⟨row, hmem, hid, by simpa using hmine, ?_⟩
    cases hread : row.isRead with
    | true => exact Or.inl ⟨rfl, by simp [hrow, hread, getOr, pure, Prog.andThen, bind]⟩
    | false =>
      refine Or.inr ⟨rfl, ?_⟩
      simp only [hrow, getOr, pure, Prog.andThen, bind, hread]
      rfl

/-- Where a `mark_read` stands; once it has found its row, that row is still there. -/
inductive MarkKnows (user id : Id) (db : Db) : Service Notification → Pending Write → Prop
  | start : MarkKnows user id db (markRead user id) []
  | refused : MarkKnows user id db (.rollback (.ret (.error .notFound))) []
  | again (row : Notification) (hid : row.id = id) (hread : row.isRead = true) (h : db.Seen row) :
      MarkKnows user id db (.commit (.ret (.ok row))) []
  | unread (row : Notification) (hid : row.id = id) (hunread : row.isRead = false) (h : db.Seen row) :
      MarkKnows user id db (markSave row) []
  | timed (row : Notification) (now : Time) (hid : row.id = id) (hunread : row.isRead = false)
      (h : db.Seen row) :
      MarkKnows user id db (markSaveAt row now) []
  | written (row : Notification) (e : Env) (now : Time) (hid : row.id = id)
      (hunread : row.isRead = false) (h : db.Seen row) :
      MarkKnows user id db (.commit (.ret (.ok (row.marked now)))) [(e, .readNotification row.id now)]
  | ended (r : Except APIException Notification) : MarkKnows user id db (.ret r) []

section

variable {user id : Id}

theorem Db.Seen.of_mem {db : Db} {row : Notification} (h : row ∈ db.notifications) : db.Seen row :=
  ⟨row, h, rfl, Or.inl rfl⟩

theorem MarkKnows.turn {c c' : Config system} {t uuid : ℕ} {p : Service Notification}
    {w : Pending Write} (h : MarkKnows user id c.world.db p w)
    (ht : Config.Turn c t uuid ⟨.markRead user id, p, w⟩ c') :
    ∃ p' w', c'.slot t = some ⟨.markRead user id, p', w'⟩ ∧ MarkKnows user id c'.world.db p' w' := by
  cases h with
  | start =>
    obtain ⟨rows, n, hp, hn⟩ := markRead_reads user id
    obtain ⟨hworld, hslot⟩ := ht.of_forUpdate hp
    refine ⟨_, _, hslot, ?_⟩
    rw [hworld, World.view_nil, World.tick_db]
    obtain ⟨-, hnext⟩ | ⟨row, hrow, hid, -, ⟨hread, hnext⟩ | ⟨hunread, hnext⟩⟩ := hn c.world.db <;>
      rw [hnext]
    · exact .refused
    · exact .again row hid hread (.of_mem hrow)
    · exact .unread row hid hunread (.of_mem hrow)
  | refused => exact ⟨_, _, (ht.of_rollback rfl).2, .ended _⟩
  | again row hid hread h => exact ⟨_, _, (ht.of_commit rfl).2, .ended _⟩
  | unread row hid hunread h =>
    obtain ⟨hworld, hslot⟩ := ht.of_clock rfl
    refine ⟨_, _, hslot, ?_⟩
    rw [hworld, World.tick_db]
    exact .timed row _ hid hunread h
  | timed row now hid hunread h =>
    obtain ⟨hworld, hslot⟩ := ht.of_write_ok rfl rfl
    refine ⟨_, _, hslot, ?_⟩
    rw [hworld, World.tick_db]
    exact .written row _ now hid hunread h
  | written row e now hid hunread h => exact ⟨_, _, (ht.of_commit rfl).2, .ended _⟩
  | ended r => exact (ht.not_ret rfl).elim

theorem MarkKnows.keep {db db' : Db} {p : Service Notification} {w : Pending Write}
    (h : MarkKnows user id db p w) (hdb : ∀ row, db.Seen row → db'.Seen row) :
    MarkKnows user id db' p w := by
  cases h with
  | start => exact .start
  | refused => exact .refused
  | again row hid hread h => exact .again row hid hread (hdb row h)
  | unread row hid hunread h => exact .unread row hid hunread (hdb row h)
  | timed row now hid hunread h => exact .timed row now hid hunread (hdb row h)
  | written row e now hid hunread h => exact .written row e now hid hunread (hdb row h)
  | ended r => exact .ended r

variable {σ₀ : World Db} {c : Config system}

theorem markRead_knows (hr : Config.Reachable (Config.idle σ₀) c) {t : ℕ} {p : Service Notification}
    {w : Pending Write} (hs : c.slot t = some ⟨.markRead user id, p, w⟩) :
    MarkKnows user id c.world.db p w := by
  refine hr.knows (I := fun p w db => MarkKnows user id db p w) (fun _ => .start) ?_ ?_ hs
  · exact fun h ht => h.turn ht
  · intro c t t' uuid p w s' n hr' _ _ _ hslot' hp hknows
    exact hknows.keep fun row => (notifications_committed (committed_of_slot hr' hslot' hp)).seen

/-- One step, as the readers of notifications see it. -/
inductive ReadStep (c c' : Config system) (a : Option (Answer system)) : Prop
  | sent (h : OnlySent c.world.db c'.world.db)
      (ha : ∀ user id row, a ≠ some ⟨.markRead user id, .ok row⟩)
  | again (row : Notification) (hrow : row ∈ c.world.db.notifications) (hread : row.isRead = true)
      (ha : a = some ⟨.markRead row.recipient row.id, .ok row⟩) (hdb : c'.world.db = c.world.db)
  | read (row : Notification) (now : Time) (hrow : row ∈ c.world.db.notifications)
      (hunread : row.isRead = false)
      (ha : a = some ⟨.markRead row.recipient row.id, .ok (row.marked now)⟩)
      (hrows : c'.world.db.notifications =
        c.world.db.notifications.update row.id (Notification.marked now) (key_marked now))

/-- A `mark_read` at its commit answers the row as it will stand. -/
theorem markRead_commit (hr : Config.Reachable (Config.idle σ₀) c) {t : ℕ}
    {n : Service Notification} {w : Pending Write}
    (hs : c.slot t = some ⟨.markRead user id, .commit n, w⟩) :
    ∃ row ∈ c.world.db.notifications, row.recipient = user ∧ row.id = id ∧
      ((row.isRead = true ∧ n = .ret (.ok row) ∧ w = []) ∨
        row.isRead = false ∧ ∃ e now, n = .ret (.ok (row.marked now)) ∧
          w = [(e, .readNotification row.id now)]) := by
  have hcom := notifications_committed (committed_of_slot hr hs rfl)
  generalize hp : Prog.commit n = p at hs
  cases markRead_knows hr hs with
  | again row hid hread h =>
    cases hp
    obtain ⟨r, hr', hrid, rfl | ⟨hunread, -⟩⟩ := h
    · cases hcom with
      | sent h hcall => exact absurd rfl (hcall user id)
      | again row' hcall hrow hread' hw hdb =>
        obtain ⟨rfl, rfl⟩ : user = row'.recipient ∧ id = row'.id := by simpa using hcall
        obtain rfl : r = row' := Table.eq_of_key _ hr' hrow hid
        exact ⟨r, hr', rfl, rfl, Or.inl ⟨hread, rfl, rfl⟩⟩
      | read row' e now hcall hrow hunread hw hrows => cases hw
    · rw [hread] at hunread
      cases hunread
  | written row e now hid hunread h =>
    cases hp
    cases hcom with
    | sent h hcall => exact absurd rfl (hcall user id)
    | again row' hcall hrow hread' hw hdb => cases hw
    | read row' e' now' hcall hrow hunread' hw hrows =>
      obtain ⟨rfl, rfl⟩ : user = row'.recipient ∧ id = row'.id := by simpa using hcall
      obtain ⟨r, hr', hrid, hsame⟩ := h
      obtain rfl : r = row' := Table.eq_of_key _ hr' hrow (hrid.trans hid)
      rcases hsame with rfl | ⟨-, hread⟩
      · exact ⟨r, hr', rfl, rfl, Or.inr ⟨hunread, e, now, rfl, rfl⟩⟩
      · rw [hread] at hunread'
        cases hunread'

theorem transacts_markRead (user id : Id) : (markRead user id).Transacts := by
  refine Quiet.transacts_atomic ((quiet_lockOr _ _).bind fun row => ?_)
  cases row.isRead with
  | true => trivial
  | false => exact quiet_time.bind fun now => (quiet_execute _ _ _).bind fun _ => trivial

theorem read_step (hr : Config.Reachable (Config.idle σ₀) c) {e : Event system}
    {c' : Config system} (hs : c.step e = some c') : ReadStep c c' (c'.answer? e.session) := by
  by_cases hmine : ∃ t uuid user id p n w, e = .run t uuid ∧
      c.slot t = some ⟨.markRead user id, p, w⟩ ∧ p = .commit n
  · obtain ⟨t, uuid, user, id, _, n, w, rfl, hslot, rfl⟩ := hmine
    obtain ⟨hworld, hslot'⟩ := (Config.turn_of_run hslot hs).of_commit rfl
    rw [Event.session, Config.answer?_of_slot hslot']
    obtain ⟨row, hrow, rfl, rfl, ⟨hread, rfl, rfl⟩ | ⟨hunread, e, now, rfl, rfl⟩⟩ :=
      markRead_commit hr hslot
    · exact .again row hrow hread rfl (by rw [hworld]; rfl)
    · exact .read row now hrow hunread rfl (by rw [hworld]; rfl)
  · have hanswer : ∀ user id row, c'.answer? e.session ≠ some ⟨.markRead user id, .ok row⟩ := by
      intro user id row ha
      obtain ⟨t, uuid, ⟨call, p, w⟩, n, rfl, hslot, rfl, hp, -⟩ :=
        hr.committed_of_answer hs ha (transacts_markRead user id)
      exact hmine ⟨t, uuid, user, id, p, n, w, rfl, hslot, hp⟩
    refine .sent ?_ hanswer
    refine Config.step_keeps (I := OnlySent c.world.db) hs (.refl _) ?_
    rintro t uuid ⟨call, p, w⟩ n rfl hslot hp
    cases notifications_committed (committed_of_slot hr hslot hp) with
    | sent h hcall => exact h
    | again row hcall hrow hread hw hdb =>
      obtain rfl := hcall
      exact absurd ⟨t, uuid, _, _, p, n, w, rfl, hslot, hp⟩ hmine
    | read row e now hcall hrow hunread hw hrows =>
      obtain rfl := hcall
      exact absurd ⟨t, uuid, _, _, p, n, w, rfl, hslot, hp⟩ hmine

namespace ReadStep

variable {c' : Config system} {a : Option (Answer system)} {n row : Notification}

theorem mem_read {now : Time} (hrow : row ∈ c.world.db.notifications)
    (hrows : c'.world.db.notifications =
      c.world.db.notifications.update row.id (Notification.marked now) (key_marked now)) :
    n ∈ c'.world.db.notifications ↔
      n = row.marked now ∨ n ∈ c.world.db.notifications ∧ n ≠ row := by
  rw [hrows, Table.mem_update]
  constructor
  · rintro ⟨m, hm, rfl⟩
    by_cases hid : m.id = row.id
    · obtain rfl : m = row := Table.eq_of_key _ hm hrow hid
      exact Or.inl (if_pos rfl)
    · have hne : m ≠ row := fun h => hid (congrArg Notification.id h)
      simp only [Notification.key_eq, hid, if_false]
      exact Or.inr ⟨hm, hne⟩
  · rintro (rfl | ⟨hn, hne⟩)
    · exact ⟨row, hrow, (if_pos rfl).symm⟩
    · exact ⟨n, hn, (if_neg fun hid => hne (Table.eq_of_key _ hn hrow hid)).symm⟩

/-- What has been read is there to stay. -/
theorem kept (h : ReadStep c c' a) (hn : n ∈ c.world.db.notifications) (hread : n.isRead = true) :
    n ∈ c'.world.db.notifications := by
  cases h with
  | sent h ha => exact h.kept n hn
  | again row hrow _ ha hdb => rwa [hdb]
  | read row now hrow hunread ha hrows =>
    refine (mem_read hrow hrows).mpr (Or.inr ⟨hn, ?_⟩)
    rintro rfl
    rw [hread] at hunread
    cases hunread

/-- What has been read was so before, or is what the step has answered. -/
theorem of_read (h : ReadStep c c' a) (hn : n ∈ c'.world.db.notifications)
    (hread : n.isRead = true) :
    n ∈ c.world.db.notifications ∨ a = some ⟨.markRead n.recipient n.id, .ok n⟩ := by
  cases h with
  | sent h ha =>
    refine (h.new n hn).imp_right fun hnew => ?_
    rw [hread] at hnew
    cases hnew.1
  | again row hrow _ ha hdb => exact Or.inl (by rwa [hdb] at hn)
  | read row now hrow hunread ha hrows =>
    rcases (mem_read hrow hrows).mp hn with rfl | ⟨hn, -⟩
    · exact Or.inr ha
    · exact Or.inl hn

/-- What is answered is a row of the caller's own. -/
theorem own {user id : Id} (h : ReadStep c c' a) (ha : a = some ⟨.markRead user id, .ok row⟩) :
    (∃ m ∈ c.world.db.notifications, m.recipient = user ∧ m.id = id) ∧
      row ∈ c'.world.db.notifications ∧ row.recipient = user ∧ row.id = id ∧ row.isRead = true := by
  cases h with
  | sent h hnot => exact absurd ha (hnot user id row)
  | again m hm hread hans hdb =>
    cases hans.symm.trans ha
    exact ⟨⟨row, hm, rfl, rfl⟩, by rwa [hdb], rfl, rfl, hread⟩
  | read m now hm hunread hans hrows =>
    cases hans.symm.trans ha
    exact ⟨⟨m, hm, rfl, rfl⟩, (mem_read hm hrows).mpr (Or.inl rfl), rfl, rfl, rfl⟩

end ReadStep

end

/-- Read is what has a time it was read at. -/
def ReadFits (db : Db) : Prop := ∀ n ∈ db.notifications, n.isRead = true ↔ n.readAt.isSome = true

theorem ReadStep.fits {c c' : Config system} {a : Option (Answer system)} (h : ReadStep c c' a)
    (hfits : ReadFits c.world.db) : ReadFits c'.world.db := by
  intro n hn
  cases h with
  | sent h ha =>
    rcases h.new n hn with hn | ⟨hread, hat⟩
    · exact hfits n hn
    · simp [hread, hat]
  | again row hrow _ ha hdb => exact hfits n (by rwa [hdb] at hn)
  | read row now hrow hunread ha hrows =>
    rcases (ReadStep.mem_read hrow hrows).mp hn with rfl | ⟨hn, -⟩
    · exact iff_of_true rfl rfl
    · exact hfits n hn

/-! Counting. -/

def Db.received (db : Db) (user : Id) : List Notification :=
  db.notifications.rows.filter fun n => decide (n.recipient = user)

def Db.readIds (db : Db) (user : Id) : Finset Id :=
  (((db.received user).filter (·.isRead)).map (·.id)).toFinset

def markedId (user : Id) : Answer system → Option Id
  | ⟨.markRead u id, .ok _⟩ => if u = user then some id else none
  | _ => none

def markedIds (user : Id) (as : List (Answer system)) : Finset Id :=
  (as.filterMap (markedId user)).toFinset

theorem mem_readIds {db : Db} {user id : Id} : id ∈ db.readIds user ↔
    ∃ n ∈ db.notifications, n.recipient = user ∧ n.isRead = true ∧ n.id = id := by
  simp [Db.readIds, Db.received, Table.mem_def, and_assoc, and_left_comm]

theorem markedId_eq_some {user id : Id} {a : Answer system} :
    markedId user a = some id ↔ ∃ n, a = ⟨.markRead user id, .ok n⟩ := by
  constructor
  · intro h
    obtain ⟨call, r⟩ := a
    cases call with
    | markRead u i =>
      cases r with
      | ok n =>
        obtain ⟨rfl, hid⟩ := Option.ite_none_right_eq_some.mp h
        exact ⟨n, by rw [Option.some.inj hid]⟩
      | error e => cases h
    | _ => cases h
  · rintro ⟨n, rfl⟩
    exact if_pos rfl

theorem mem_markedIds {user id : Id} {as : List (Answer system)} : id ∈ markedIds user as ↔
    ∃ n, ⟨.markRead user id, .ok n⟩ ∈ as := by
  simp only [markedIds, List.mem_toFinset, List.mem_filterMap, markedId_eq_some]
  constructor
  · rintro ⟨_, ha, n, rfl⟩
    exact ⟨n, ha⟩
  · rintro ⟨n, ha⟩
    exact ⟨_, ha, n, rfl⟩

/-- Each notification is unread or among those read. -/
theorem unreadCount_add (db : Db) (user : Id) :
    db.unreadCount user + (db.readIds user).card = (db.received user).length := by
  have hnodup : (((db.received user).filter (·.isRead)).map (·.id)).Nodup := by
    have hsub : List.Sublist ((db.received user).filter (·.isRead)) db.notifications.rows :=
      List.filter_sublist.trans List.filter_sublist
    exact db.notifications.nodup.sublist (hsub.map _)
  rw [Db.readIds, List.toFinset_card_of_nodup hnodup, List.length_map, Nat.add_comm,
    List.length_eq_length_filter_add (l := db.received user) (·.isRead), Db.unreadCount, Db.received]
  congr 2
  simp [List.filter_filter, and_comm]

/-! Runs. -/

section

variable {σ₀ : World Db} {c : Config system} {as : List (Answer system)}

theorem readFits_reachable (h₀ : ReadFits σ₀.db) (hr : Config.Reachable (Config.idle σ₀) c) :
    ReadFits c.world.db :=
  hr.invariant (I := fun c => ReadFits c.world.db) h₀ fun _ _ _ hr' hfits _ hs =>
    (read_step hr' hs).fits hfits

/-- What has been read stays as the first read left it. -/
theorem read_kept (hr : Config.Reachable (Config.idle σ₀) c) {c' : Config system}
    (hr' : Config.Reachable c c') {n : Notification} (hn : n ∈ c.world.db.notifications)
    (hread : n.isRead = true) : n ∈ c'.world.db.notifications := by
  induction hr' with
  | refl => exact hn
  | step hr'' _ hs ih => exact (read_step (hr.trans hr'') hs).kept ih hread

/-- What a call has answered is what is stored. -/
theorem answer_stored (has : Config.Answers (fun _ _ => True) (Config.idle σ₀) c as) {user id : Id}
    {n : Notification} (hn : ⟨.markRead user id, .ok n⟩ ∈ as) :
    n ∈ c.world.db.notifications ∧ n.recipient = user ∧ n.id = id ∧ n.isRead = true := by
  induction has with
  | refl => cases hn
  | step has' _ hs ih =>
    have hstep := read_step has'.reaches hs
    rcases List.mem_append.mp hn with hn | hn
    · obtain ⟨hmem, huser, hid, hread⟩ := ih hn
      exact ⟨hstep.kept hmem hread, huser, hid, hread⟩
    · exact (hstep.own (Option.mem_toList.mp hn)).2

/-- What is read was read at the start, or its recipient has marked it. -/
theorem read_answered (has : Config.Answers (fun _ _ => True) (Config.idle σ₀) c as)
    {n : Notification} (hn : n ∈ c.world.db.notifications) (hread : n.isRead = true) :
    n ∈ σ₀.db.notifications ∨ ⟨.markRead n.recipient n.id, .ok n⟩ ∈ as := by
  induction has with
  | refl => exact Or.inl hn
  | step has' _ hs ih =>
    rcases (read_step has'.reaches hs).of_read hn hread with hn | ha
    · exact (ih hn).imp_right fun h => List.mem_append_left _ h
    · exact Or.inr (List.mem_append_right _ (Option.mem_toList.mpr ha))

theorem readIds_run (has : Config.Answers (fun _ _ => True) (Config.idle σ₀) c as) (user : Id) :
    c.world.db.readIds user = σ₀.db.readIds user ∪ markedIds user as := by
  ext id
  rw [Finset.mem_union, mem_readIds, mem_readIds, mem_markedIds]
  constructor
  · rintro ⟨n, hn, rfl, hread, rfl⟩
    exact (read_answered has hn hread).imp (fun h => ⟨n, h, rfl, hread, rfl⟩) fun h => ⟨n, h⟩
  · rintro (⟨n, hn, huser, hread, hid⟩ | ⟨n, ha⟩)
    · exact ⟨n, read_kept .refl has.reaches hn hread, huser, hread, hid⟩
    · obtain ⟨hn, huser, hid, hread⟩ := answer_stored has ha
      exact ⟨n, hn, huser, hread, hid⟩

/-- What a run has made of the notifications, `as` being what its calls have answered. -/
structure ReadOnce (σ₀ : World Db) (c : Config system) (as : List (Answer system)) : Prop where
  fits : ReadFits c.world.db
  kept : ∀ c', Config.Reachable c c' → ∀ n ∈ c.world.db.notifications, n.readAt.isSome = true →
    n ∈ c'.world.db.notifications
  others : ∀ e c' s user id, c.step e = some c' → c.slot e.session = some s →
    s.call = .markRead user id → (∀ n ∈ c.world.db.notifications, n.id = id → n.recipient ≠ user) →
      c'.world.db = c.world.db ∧ ∀ n, c'.answer? e.session ≠ some ⟨.markRead user id, .ok n⟩
  recipient : ∀ user id n, ⟨.markRead user id, .ok n⟩ ∈ as → n.recipient = user ∧ n.id = id
  sameTime : ∀ user user' id n n', ⟨.markRead user id, .ok n⟩ ∈ as →
    ⟨.markRead user' id, .ok n'⟩ ∈ as → n.readAt = n'.readAt ∧ n.readAt.isSome = true
  unread : ∀ user, c.world.db.unreadCount user +
    (σ₀.db.readIds user ∪ markedIds user as).card = (c.world.db.received user).length

/-- Whatever reads and sends overlap, a notification is read once. -/
theorem notifications_read_once (h₀ : ReadFits σ₀.db)
    (has : Config.Answers (fun _ _ => True) (Config.idle σ₀) c as) : ReadOnce σ₀ c as := by
  have hfits := readFits_reachable h₀ has.reaches
  constructor
  · exact hfits
  · exact fun c' hr' n hn hat => read_kept has.reaches hr' hn ((hfits n hn).mpr hat)
  · intro e c' s user id hs hslot hcall hother
    have hnot : ∀ n, c'.answer? e.session ≠ some ⟨.markRead user id, .ok n⟩ := by
      intro n ha
      obtain ⟨m, hm, huser, hid⟩ := ((read_step has.reaches hs).own ha).1
      exact hother m hm hid huser
    refine ⟨?_, hnot⟩
    obtain ⟨call, p, w⟩ := s
    obtain rfl : call = .markRead user id := hcall
    rcases has.reaches.unchanged_or_answer hs hslot (transacts_markRead user id) with hdb | ⟨n, ha⟩
    · exact hdb
    · exact absurd ha (hnot n)
  · intro user id n hn
    obtain ⟨-, huser, hid, -⟩ := answer_stored has hn
    exact ⟨huser, hid⟩
  · intro user user' id n n' hn hn'
    obtain ⟨hmem, -, hid, hread⟩ := answer_stored has hn
    obtain ⟨hmem', -, hid', -⟩ := answer_stored has hn'
    obtain rfl : n = n' := c.world.db.notifications.eq_of_key hmem hmem' (hid.trans hid'.symm)
    exact ⟨rfl, (hfits n hmem).mp hread⟩
  · intro user
    rw [← readIds_run has]
    exact unreadCount_add c.world.db user

end

def oneUnread : World Db where
  db :=
    { notifications := Table.empty.insert
        { id := 3, recipient := 1, type := .assignmentCreated, title := "", message := "",
          targetUrl := "", actorUser := none, payload := [] } }
  now := 0

/-- User 1 reads it in two calls that overlap, and user 2 tries to. -/
def readTwice : List (Event system) :=
  [.start 0 (.markRead 1 3), .start 1 (.markRead 1 3), .start 2 (.markRead 2 3), .run 2 0, .run 0 0,
    .run 2 0, .run 0 0, .run 0 0, .run 0 0, .run 1 0, .run 1 0]

theorem notifications_read_once_overlapping :
    ReadOnce oneUnread ((Config.idle oneUnread).after readTwice)
      ((Config.idle oneUnread).answersAfter readTwice) ∧
    ((Config.idle oneUnread).answersAfter readTwice).map (markedId 1) = [none, some 3, some 3] ∧
    ((Config.idle oneUnread).after readTwice).world.db.unreadCount 1 = 0 := by
  have h₀ : ReadFits oneUnread.db := by
    intro n hn
    obtain rfl := List.mem_singleton.mp hn
    exact iff_of_false nofun nofun
  have hany : ∀ (c : Config system) (_ : Event system), c.Within [0, 1, 2] → true = true → True :=
    fun _ _ _ _ => trivial
  have has : Config.Answers (fun _ _ => True) (Config.idle oneUnread)
      ((Config.idle oneUnread).after readTwice) ((Config.idle oneUnread).answersAfter readTwice) :=
    (Config.within_idle [0, 1, 2] oneUnread).answers_after hany (by decide) (Config.passes_true _ _)
      (by decide +kernel)
  exact ⟨notifications_read_once h₀ has, by decide +kernel, by decide +kernel⟩

end Chamneul
