import Chamneul.Store.Serial
import Chamneul.Store.Soundness

/-! A locking discipline. Besides the row itself, a lock can own facts that span
several rows, as long as every transaction that would change such a fact holds
the lock. Programs that trust nothing but their locks are then verified one at a
time, and what each of their transactions keeps holds in every schedule. -/

namespace ReadCommitted

variable {D K W ε : Type} [Engine D K W] [Guarded D]

/-- A rely under which sessions keep what they lock. `owns k` relates databases
that agree on the facts lock `k` owns, and `drift` any two the rely allows. -/
structure Rely.Locks (R : Rely D K W) (owns : K → D → D → Prop) (drift : D → D → Prop) :
    Prop where
  lawful : R.Lawful
  now_le : ∀ {L w σ σ'}, R L w σ σ' → σ.now ≤ σ'.now
  keeps : ∀ {L w σ σ'}, R L w σ σ' → ∀ {k}, k ∈ L → Guarded.keeps k σ.db σ'.db
  owns : ∀ {L w σ σ'}, R L w σ σ' → ∀ {k}, k ∈ L → owns k σ.db σ'.db
  drift_trans : ∀ {db db' db''}, drift db db' → drift db' db'' → drift db db''
  drift : ∀ {L w σ σ'}, R L w σ σ' → drift σ.db σ'.db

/-- The weakest such rely. -/
def Rely.locking (owns : K → D → D → Prop) : Rely D K W := fun L _ σ σ' =>
  σ.now ≤ σ'.now ∧ ∀ k ∈ L, Guarded.keeps k σ.db σ'.db ∧ owns k σ.db σ'.db

/-- The same, where what is not locked changes as `drift` allows. -/
def Rely.drifting (owns : K → D → D → Prop) (drift : D → D → Prop) : Rely D K W := fun L _ σ σ' =>
  σ.now ≤ σ'.now ∧ (∀ k ∈ L, Guarded.keeps k σ.db σ'.db ∧ owns k σ.db σ'.db) ∧ drift σ.db σ'.db

/-- A system whose transactions hold the lock of every fact they change. -/
structure Discipline (S : System D K W ε) (owns : K → D → D → Prop)
    (G : (D → D → Prop) → S.Call → Duty D K W)
    (Q : (call : S.Call) → Post D K W ε (S.Res call)) : Prop where
  refl : ∀ k db, owns k db db
  trans : ∀ {k db db' db''}, owns k db db' → owns k db' db'' → owns k db db''
  still : ∀ call r L w σ σ', Q call r L w σ → Q call r L w σ'
  frame : ∀ {drift call L w σ k}, (G drift call).commit L w σ → k ∉ L →
    owns k σ.db (applyAll w σ.db)
  program : ∀ {R : Rely D K W} {drift}, R.Locks owns drift →
    ∀ call σ, wp R (G drift call) (S.program call) ∅ [] σ (Q call)

theorem Rely.locking_locks {owns : K → D → D → Prop} (hr : ∀ k db, owns k db db)
    (ht : ∀ {k db db' db''}, owns k db db' → owns k db' db'' → owns k db db'') :
    (Rely.locking owns : Rely D K W).Locks owns (fun _ _ => True) where
  lawful :=
    { refl := fun _ _ _ => ⟨le_rfl, fun k _ => ⟨Guarded.refl k _, hr k _⟩⟩
      trans := fun _ _ _ _ _ h h' => ⟨h.1.trans h'.1, fun k hk =>
        ⟨Guarded.trans (h.2 k hk).1 (h'.2 k hk).1, ht (h.2 k hk).2 (h'.2 k hk).2⟩⟩
      tick := fun _ _ _ => ⟨Nat.le_succ _, fun k _ => ⟨Guarded.refl k _, hr k _⟩⟩ }
  now_le h := h.1
  keeps h _ hk := (h.2 _ hk).1
  owns h _ hk := (h.2 _ hk).2
  drift _ := trivial
  drift_trans _ _ := trivial

theorem Rely.drifting_locks {owns : K → D → D → Prop} {drift : D → D → Prop}
    (hr : ∀ k db, owns k db db)
    (ht : ∀ {k db db' db''}, owns k db db' → owns k db' db'' → owns k db db'')
    (hdr : ∀ db, drift db db)
    (hdt : ∀ {db db' db''}, drift db db' → drift db' db'' → drift db db'') :
    (Rely.drifting owns drift : Rely D K W).Locks owns drift where
  lawful :=
    { refl := fun _ _ _ => ⟨le_rfl, fun k _ => ⟨Guarded.refl k _, hr k _⟩, hdr _⟩
      trans := fun _ _ _ _ _ h h' => ⟨h.1.trans h'.1, fun k hk =>
        ⟨Guarded.trans (h.2.1 k hk).1 (h'.2.1 k hk).1, ht (h.2.1 k hk).2 (h'.2.1 k hk).2⟩,
        hdt h.2.2 h'.2.2⟩
      tick := fun _ _ _ => ⟨Nat.le_succ _, fun k _ => ⟨Guarded.refl k _, hr k _⟩, hdr _⟩ }
  now_le h := h.1
  keeps h _ hk := (h.2.1 _ hk).1
  owns h _ hk := (h.2.1 _ hk).2
  drift h := h.2.2
  drift_trans h h' := hdt h h'

theorem Rely.alone_locks {owns : K → D → D → Prop} (hr : ∀ k db, owns k db db) :
    (Rely.alone : Rely D K W).Locks owns (fun db db' => db' = db) where
  lawful := alone_lawful
  now_le h := h.2
  keeps h _ _ := by rw [h.1]; exact Guarded.refl _ _
  owns h _ _ := by rw [h.1]; exact hr _ _
  drift h := h.1
  drift_trans h h' := h'.trans h

variable {S : System D K W ε} {owns : K → D → D → Prop}
  {G : (D → D → Prop) → S.Call → Duty D K W} {Q : (call : S.Call) → Post D K W ε (S.Res call)}

/-- Stages proved on their own are added to a discipline about commits. -/
theorem Discipline.withStage {C : (D → D → Prop) → S.Call → Set K → Pending W → World D → Prop}
    (h : Discipline S owns (fun drift call => Duty.ofCommit (C drift call)) Q)
    {T : S.Call → Set K → Pending W → World D → (ℕ → List K) → Prop}
    (hT : ∀ {R : Rely D K W} {drift}, R.Locks owns drift → ∀ call σ,
      wp R ⟨fun _ _ _ => True, T call⟩ (S.program call) ∅ [] σ fun _ _ _ _ => True) :
    Discipline S owns (fun drift call => ⟨C drift call, T call⟩) Q where
  refl := h.refl
  trans := h.trans
  still := h.still
  frame := h.frame
  program hR call σ := wp_mono (fun _ _ _ _ hq => hq.1) (wp_and (h.program hR call σ) (hT hR call σ))

theorem Rely.Locks.mono {R : Rely D K W} {owns' : K → D → D → Prop} {drift : D → D → Prop}
    (h : R.Locks owns' drift) (hle : ∀ {k db db'}, owns' k db db' → owns k db db') :
    R.Locks owns drift where
  lawful := h.lawful
  now_le := h.now_le
  keeps := h.keeps
  owns hr _ hk := hle (h.owns hr hk)
  drift_trans := h.drift_trans
  drift := h.drift

/-- More facts for the locks to own, and more to say of each commit. -/
theorem Discipline.withCommit {owns' : K → D → D → Prop}
    {C C' : (D → D → Prop) → S.Call → Set K → Pending W → World D → Prop}
    (h : Discipline S owns (fun drift call => Duty.ofCommit (C drift call)) Q)
    (hle : ∀ {k db db'}, owns' k db db' → owns k db db') (hrefl : ∀ k db, owns' k db db)
    (htrans : ∀ {k db db' db''}, owns' k db db' → owns' k db' db'' → owns' k db db'')
    (hframe : ∀ {drift call L w σ k}, C drift call L w σ → C' drift call L w σ → k ∉ L →
      owns' k σ.db (applyAll w σ.db))
    (hC' : ∀ {R : Rely D K W} {drift}, R.Locks owns' drift → ∀ call σ,
      wp R (Duty.ofCommit (C' drift call)) (S.program call) ∅ [] σ fun _ _ _ _ => True) :
    Discipline S owns'
      (fun drift call => Duty.ofCommit fun L w σ => C drift call L w σ ∧ C' drift call L w σ) Q where
  refl := hrefl
  trans := htrans
  still := h.still
  frame hc := hframe hc.1 hc.2
  program hR call σ :=
    wp_mono (fun _ _ _ _ hq => hq.1) (wp_and_commit (h.program (hR.mono hle) call σ) (hC' hR call σ))

namespace Discipline

/-- The duty of a call among others, where anything unlocked may change. -/
abbrev together (G : (D → D → Prop) → S.Call → Duty D K W) : S.Call → Duty D K W :=
  G fun _ _ => True

/-- The duty of a call that runs alone. -/
abbrev serially (G : (D → D → Prop) → S.Call → Duty D K W) : S.Call → Duty D K W :=
  G fun db db' => db' = db

/-- Every session keeps its duty, and what it holds is kept for it. -/
abbrev Holds (owns : K → D → D → Prop) (G : (D → D → Prop) → S.Call → Duty D K W)
    (Q : (call : S.Call) → Post D K W ε (S.Res call)) (c : Config S) : Prop :=
  Sound (Rely.locking owns) (together G) Q c

theorem verified (h : Discipline S owns G Q) :
    Verified S (Rely.locking owns) (together G) Q where
  lawful := (Rely.locking_locks h.refl h.trans).lawful
  stable call r L w σ σ' hQ _ := h.still call r L w σ σ' hQ
  program := h.program (Rely.locking_locks h.refl h.trans)

theorem verified_drifting (h : Discipline S owns G Q) {drift : D → D → Prop} (hdr : ∀ db, drift db db)
    (hdt : ∀ {db db' db''}, drift db db' → drift db' db'' → drift db db'') :
    Verified S (Rely.drifting owns drift) (G drift) Q :=
  have hlocks : (Rely.drifting owns drift : Rely D K W).Locks owns drift :=
    Rely.drifting_locks h.refl h.trans hdr hdt
  { lawful := hlocks.lawful
    stable := fun call r L w σ σ' hQ _ => h.still call r L w σ σ' hQ
    program := h.program hlocks }

theorem compatible (h : Discipline S owns G Q) {c : Config S} (hc : Holds owns G Q c) :
    Compatible (Rely.locking owns) (together G) c := by
  intro t s t' s' ht hs _ hcommit
  refine ⟨Nat.le_succ _, fun k hk => ⟨hc.tidy.keeps ht hs hk, ?_⟩⟩
  exact h.frame hcommit fun hk' => ht (Config.owner_unique hk' hk)

/-- What every transaction of an `ok` call keeps holds in every serial run. -/
theorem serial_timed (h : Discipline S owns G Q) (honce : ∀ call, (S.program call).Once)
    {ok : D → S.Call → Prop} {J : World D → Prop}
    (hlater : ∀ σ σ', σ'.db = σ.db → σ.now ≤ σ'.now → J σ → J σ')
    (hJ : ∀ call σ σ', ok σ.db call → J σ → (serially G call).Serves σ σ' → J σ')
    {σ₀ σ : World D} (hr : Serial S ok σ₀ σ) (hj : J σ₀) : J σ :=
  hr.invariant honce (h.program (Rely.alone_locks h.refl)) hlater hJ hj

/-- The same, of the database alone. -/
theorem serial (h : Discipline S owns G Q) (honce : ∀ call, (S.program call).Once)
    {ok : D → S.Call → Prop} {J : D → Prop}
    (hJ : ∀ call db db', ok db call → J db → (serially G call).Commits db db' → J db')
    {σ₀ σ : World D} (hr : Serial S ok σ₀ σ) (hj : J σ₀.db) : J σ.db := by
  refine h.serial_timed (J := fun σ => J σ.db) honce (fun σ σ' hdb _ hσ => ?_) ?_ hr hj
  · rw [hdb]
    exact hσ
  · exact fun call σ σ' hok hσ hc => hJ call _ _ hok hσ hc.commits

/-- What has been proved of each statement a session comes to holds of the one it is at. -/
theorem stage (h : Discipline S owns G Q) {c : Config S} (hc : Holds owns G Q c) {t : ℕ}
    {s : Session S} (hs : c.slot t = some s) (hp : ∀ r, s.prog ≠ .ret r) :
    (together G s.call).stage (c.held t) s.writes c.world (s.needs c.world) :=
  Sound.stage h.verified hc hs hp

variable [DecidableEq K]

theorem holds (h : Discipline S owns G Q) {ok : Config S → Event S → Prop} {σ₀ : World D}
    {c : Config S} (hr : Config.Reaches ok (Config.idle σ₀) c) : Holds owns G Q c :=
  (Sound.idle σ₀).reaches h.verified (fun _ hc => h.compatible hc) hr

/-- In a run whose commits all drift, every session may rely on it. -/
theorem holds_drifting (h : Discipline S owns G Q) {drift : D → D → Prop} (hdr : ∀ db, drift db db)
    (hdt : ∀ {db db' db''}, drift db db' → drift db' db'' → drift db db'')
    {ok : Config S → Event S → Prop} {σ₀ : World D}
    (hcommit : ∀ {c t s}, Config.Reaches ok (Config.idle σ₀) c → c.slot t = some s →
      (G drift s.call).commit (c.held t) s.writes c.world → drift c.world.db (applyAll s.writes c.world.db))
    {c : Config S} (hr : Config.Reaches ok (Config.idle σ₀) c) :
    Sound (Rely.drifting owns drift) (G drift) Q c := by
  have hver := h.verified_drifting hdr hdt
  refine hr.invariant (Sound.idle σ₀) ?_
  intro c e c' hreach hi _ hs
  refine hi.step hver ?_ hs
  intro t s t' s' ht hslot _ hc
  refine ⟨Nat.le_succ _, fun k hk => ⟨hi.tidy.keeps ht hslot hk, ?_⟩, hcommit hreach hslot hc⟩
  exact h.frame hc fun hk' => ht (Config.owner_unique hk' hk)

/-- A step leaves the committed rows alone or is one whole transaction. -/
theorem step_commits (h : Discipline S owns G Q) {c c' : Config S} {e : Event S}
    (hc : Holds owns G Q c) (hs : c.step e = some c') :
    c'.world.db = c.world.db ∨ ∃ call, (together G call).Commits c.world.db c'.world.db := by
  rcases Config.step_world hs with hw | ⟨t, uuid, s, n, -, hslot, hp, hw⟩
  · exact Or.inl (by rw [hw]; rfl)
  · refine Or.inr ⟨s.call, c.held t, s.writes, c.world, rfl, ?_, by rw [hw]; rfl⟩
    exact hc.commit h.verified hslot hp

/-- What every transaction keeps holds of every state a schedule reaches. -/
theorem invariant (h : Discipline S owns G Q) {J : D → Prop}
    (hJ : ∀ call db db', (together G call).Commits db db' → J db → J db')
    {ok : Config S → Event S → Prop} {σ₀ : World D} {c : Config S} (hj : J σ₀.db)
    (hr : Config.Reaches ok (Config.idle σ₀) c) : J c.world.db := by
  refine hr.invariant (I := fun c => J c.world.db) hj ?_
  intro c e c' hr' hi _ hs
  rcases h.step_commits (h.holds hr') hs with he | ⟨call, hc⟩
  · rw [he]; exact hi
  · exact hJ call _ _ hc hi

/-- What every transaction may do to the database, a whole run may do. -/
theorem history (h : Discipline S owns G Q) {H : D → D → Prop} (hrefl : ∀ db, H db db)
    (htrans : ∀ {db db' db''}, H db db' → H db' db'' → H db db'')
    (hH : ∀ call db db', (together G call).Commits db db' → H db db')
    {ok : Config S → Event S → Prop} {σ₀ : World D} {c c' : Config S}
    (hr : Config.Reaches ok (Config.idle σ₀) c) (hr' : Config.Reaches ok c c') :
    H c.world.db c'.world.db := by
  induction hr' with
  | refl => exact hrefl _
  | step hr'' _ hs ih =>
    rcases h.step_commits (h.holds (hr.trans hr'')) hs with he | ⟨call, hc⟩
    · rw [he]; exact ih
    · exact htrans ih (hH call _ _ hc)

end Discipline

end ReadCommitted
