import Chamneul.Store.Locking
import Chamneul.Store.Traces

/-! A system in front of another. Its programs read, and then hand over at most once to a call of
the system behind, on the rows they have read by then; what follows only reads. So whatever a run of
the front does to the database, a run of the system behind does in the same worlds, and starts
every call after a world that admits it. -/

namespace ReadCommitted

variable {D K W ε α β γ : Type}

namespace Prog

/-- Plain reads and looks at the clock, and nothing else. -/
def Reads : Prog D K W ε α → Prop
  | .ret _ => True
  | .clock n => ∀ t, (n t).Reads
  | .select n => ∀ v, (n v).Reads
  | .commit _ | .rollback _ | .forUpdate _ _ | .write _ _ => False

theorem Reads.andThen {p : Prog D K W ε α} {f : Except ε α → Prog D K W ε β} (h : p.Reads)
    (hf : ∀ r, (f r).Reads) : (p.andThen f).Reads := by
  induction p with
  | ret r => exact hf r
  | clock n ih => exact fun t => ih t (h t)
  | select n ih => exact fun v => ih v (h v)
  | commit n _ | rollback n _ => exact h.elim
  | forUpdate rows n _ => exact h.elim
  | write stmt n _ => exact h.elim

@[simp] theorem reads_ret (r : Except ε α) : (ret r : Prog D K W ε α).Reads := trivial

@[simp] theorem reads_pure (a : α) : (pure a : Prog D K W ε α).Reads := trivial

@[simp] theorem reads_query (q : D → α) : (query q : Prog D K W ε α).Reads := fun _ => trivial

theorem Reads.bind {p : Prog D K W ε α} {f : α → Prog D K W ε β} (h : p.Reads)
    (hf : ∀ a, (f a).Reads) : (p >>= f).Reads :=
  h.andThen fun r => match r with
    | .ok a => hf a
    | .error _ => trivial

theorem andThen_assoc (p : Prog D K W ε α) (f : Except ε α → Prog D K W ε β)
    (g : Except ε β → Prog D K W ε γ) :
    (p.andThen f).andThen g = p.andThen fun r => (f r).andThen g := by
  induction p with
  | ret r => rfl
  | commit n ih | rollback n ih => simp only [Prog.andThen, ih]
  | clock n ih | select n ih => simp only [Prog.andThen, ih]
  | forUpdate rows n ih => simp only [Prog.andThen, ih]
  | write stmt n ih => simp only [Prog.andThen, ih]

@[simp] theorem andThen_ret (p : Prog D K W ε α) : p.andThen ret = p := by
  induction p with
  | ret r => rfl
  | commit n ih | rollback n ih => simp only [Prog.andThen, ih]
  | clock n ih | select n ih => simp only [Prog.andThen, ih]
  | forUpdate rows n ih => simp only [Prog.andThen, ih]
  | write stmt n ih => simp only [Prog.andThen, ih]

/-- Having read `seen`, the program hands over to a call of `S` that one of these admits, or reads
again, or has nothing left but to answer. -/
inductive Fronts (S : System D K W ε) (gate : D → S.Call → Prop) : List D → Prog D K W ε α → Prop
  | answers {seen : List D} {p : Prog D K W ε α} (hp : p.Reads) : Fronts S gate seen p
  | serves {seen : List D} (call : S.Call) (k : Except ε (S.Res call) → Prog D K W ε α)
      (hgate : ∃ db ∈ seen, gate db call) (hk : ∀ r, (k r).Reads) :
      Fronts S gate seen ((S.program call).andThen k)
  | asks {seen : List D} {n : D → Prog D K W ε α} (hn : ∀ db, Fronts S gate (db :: seen) (n db)) :
      Fronts S gate seen (.select n)

theorem Fronts.query {S : System D K W ε} {gate : D → S.Call → Prop} {seen : List D} {q : D → β}
    {f : β → Prog D K W ε α} (h : ∀ db, Fronts S gate (db :: seen) (f (q db))) :
    Fronts S gate seen (Prog.query q >>= f) :=
  .asks h

end Prog

namespace Config

variable {F S : System D K W ε} {gate : F.Call → D → S.Call → Prop}

/-- What stands behind a session of the front, once it has come through the worlds `σs`. -/
inductive Serves (gate : F.Call → D → S.Call → Prop) (σs : List (World D)) :
    Option (Session F) → Option (Session S) → Prop
  | vacant : Serves gate σs none none
  | asking (req : F.Call) (n : D → Prog D K W ε (F.Res req)) (seen : List D)
      (hseen : ∀ db ∈ seen, ∃ σ ∈ σs, σ.db = db)
      (hn : ∀ db, (n db).Fronts S (gate req) (db :: seen)) :
      Serves gate σs (some ⟨req, .select n, []⟩) none
  | answering (req : F.Call) (p : Prog D K W ε (F.Res req)) (hp : p.Reads) :
      Serves gate σs (some ⟨req, p, []⟩) none
  | serving (req : F.Call) (call : S.Call) (q : Prog D K W ε (S.Res call))
      (k : Except ε (S.Res call) → Prog D K W ε (F.Res req)) (w : Pending W)
      (hgate : ∃ σ ∈ σs, gate req σ.db call) (hk : ∀ r, (k r).Reads) :
      Serves gate σs (some ⟨req, q.andThen k, w⟩) (some ⟨call, q, w⟩)

theorem Serves.later {σs : List (World D)} {o : Option (Session F)} {o' : Option (Session S)}
    (h : Serves gate σs o o') (σ : World D) : Serves gate (σs ++ [σ]) o o' := by
  cases h with
  | vacant => exact .vacant
  | asking req n seen hseen hn =>
    refine .asking req n seen (fun db hdb => ?_) hn
    obtain ⟨σ₁, hσ₁, hdb⟩ := hseen db hdb
    exact ⟨σ₁, List.mem_append_left _ hσ₁, hdb⟩
  | answering req p hp => exact .answering req p hp
  | serving req call q k w hgate hk =>
    obtain ⟨σ₁, hσ₁, hgate⟩ := hgate
    exact .serving req call q k w ⟨σ₁, List.mem_append_left _ hσ₁, hgate⟩ hk

/-- `d` does behind the front what `c` does. Session `t` of the front has its call in slot `2 * t`;
the odd slots are for clients that are connected and ask for nothing. -/
structure Behind (gate : F.Call → D → S.Call → Prop) (σs : List (World D)) (c : Config F)
    (d : Config S) : Prop where
  world : d.world = c.world
  owner : ∀ k, d.owner k = (c.owner k).map (2 * ·)
  slot : ∀ t, Serves gate σs (c.slot t) (d.slot (2 * t))
  spare : ∃ n, ∀ m, n ≤ m → d.slot (2 * m + 1) = none

variable {c c' : Config F} {d : Config S} {σs : List (World D)}

theorem Behind.idle (σ : World D) : Behind gate [σ] (idle σ : Config F) (idle σ : Config S) where
  world := rfl
  owner _ := rfl
  slot _ := .vacant
  spare := ⟨0, fun _ _ => rfl⟩

namespace Behind

variable (h : Behind gate σs c d)
include h

theorem later (σ : World D) : Behind gate (σs ++ [σ]) c d :=
  { h with slot := fun t => (h.slot t).later σ }

theorem free (t : ℕ) (k : K) : d.free (2 * t) k = c.free t k := by
  rw [Config.free, Config.free, h.owner k]
  cases c.owner k with
  | none => rfl
  | some t' => exact decide_eq_decide.mpr ⟨Nat.eq_of_mul_eq_mul_left Nat.two_pos, fun ht => by rw [ht]⟩

theorem all_free (t : ℕ) (ks : List K) : ks.all (d.free (2 * t)) = ks.all (c.free t) := by
  rw [show d.free (2 * t) = c.free t from funext (h.free t)]

theorem release (t : ℕ) (k : K) : d.release (2 * t) k = (c.release t k).map (2 * ·) := by
  rw [Config.release, Config.release, h.owner k]
  cases hk : c.owner k with
  | none => rfl
  | some t' =>
    by_cases ht : t' = t
    · simp [ht]
    · have hne : 2 * t' ≠ 2 * t := by omega
      simp [ht, hne]

theorem acquire [DecidableEq K] (t : ℕ) (ks : List K) (k : K) :
    d.acquire (2 * t) ks k = (c.acquire t ks k).map (2 * ·) := by
  rw [Config.acquire, Config.acquire, h.owner k]
  split_ifs <;> rfl

theorem put (t : ℕ) {σ : World D} {own own' : K → Option ℕ} {o : Option (Session F)}
    {o' : Option (Session S)} (hown : ∀ k, own' k = (own k).map (2 * ·))
    (ho : Serves gate σs o o') :
    Behind gate σs ⟨σ, own, c.put t o⟩ ⟨σ, own', d.put (2 * t) o'⟩ where
  world := rfl
  owner := hown
  slot t' := by
    by_cases ht : t' = t
    · subst ht
      simpa [Config.put] using ho
    · have hne : 2 * t' ≠ 2 * t := by omega
      simpa [Config.put, ht, hne] using h.slot t'
  spare := by
    obtain ⟨n, hn⟩ := h.spare
    refine ⟨n, fun m hm => ?_⟩
    have hne : 2 * m + 1 ≠ 2 * t := by omega
    simpa [Config.put, hne] using hn m hm

/-- What the front does by itself costs the system behind the time it takes. -/
theorem pause (idler : S.Call) (t : ℕ) {own : K → Option ℕ} {o : Option (Session F)}
    (hown : ∀ k, d.owner k = (own k).map (2 * ·)) (ho : Serves gate σs o (d.slot (2 * t))) :
    ∃ m, d.slot m = none ∧ Behind gate σs ⟨c.world.tick, own, c.put t o⟩
      ⟨d.world.tick, d.owner, d.put m (some ⟨idler, S.program idler, []⟩)⟩ := by
  obtain ⟨n, hn⟩ := h.spare
  refine ⟨2 * n + 1, hn n le_rfl, ?_⟩
  constructor
  · rw [h.world]
  · exact hown
  · intro t'
    have hne : 2 * t' ≠ 2 * n + 1 := by omega
    by_cases ht : t' = t
    · subst ht
      simpa [Config.put, hne] using ho
    · simpa [Config.put, ht, hne] using h.slot t'
  · refine ⟨n + 1, fun m hm => ?_⟩
    have hne : 2 * m + 1 ≠ 2 * n + 1 := by omega
    exact (Function.update_of_ne hne _ _).trans (hn m (by omega))

/-- A session of the front commits what the session behind it does, for a call admitted before. -/
theorem commit {t : ℕ} {s : Session F} {n : Prog D K W ε (F.Res s.call)} (hslot : c.slot t = some s)
    (hp : s.prog = .commit n) : ∃ s' n', d.slot (2 * t) = some s' ∧ s'.prog = .commit n' ∧
      s'.writes = s.writes ∧ ∃ σ ∈ σs, gate s.call σ.db s'.call := by
  have hserves := h.slot t
  rw [hslot] at hserves
  generalize hback : d.slot (2 * t) = o at hserves
  cases hserves with
  | asking req n seen hseen hn => cases hp
  | answering req p hreads =>
    rw [show p = .commit n from hp] at hreads
    exact hreads.elim
  | serving req call q k w hgate hk =>
    cases q with
    | commit n' => exact ⟨_, n', rfl, rfl, rfl, hgate⟩
    | ret r =>
      have hreads := hk r
      rw [show k r = .commit n from hp] at hreads
      exact hreads.elim
    | _ => cases hp

variable [Engine D K W] [DecidableEq K] {idler : S.Call} (hidler : ∀ db, ∃ req, gate req db idler)
include hidler

/-- The front by itself, as a step behind it. -/
theorem step_pause (hmem : c.world ∈ σs) (t : ℕ) {own : K → Option ℕ} {o : Option (Session F)}
    (hown : ∀ k, d.owner k = (own k).map (2 * ·)) (ho : Serves gate σs o (d.slot (2 * t))) :
    ∃ e d', Admits (fun db call => ∃ req, gate req db call) σs e ∧ d.step e = some d' ∧
      Behind gate σs ⟨c.world.tick, own, c.put t o⟩ d' := by
  obtain ⟨m, hm, hbehind⟩ := h.pause idler t hown ho
  refine ⟨.start m idler, _, ?_, by simp only [Config.step, hm], hbehind⟩
  rintro _ _ ⟨⟩
  exact ⟨c.world, hmem, hidler _⟩

/-- A session of the front that has read `seen` and may hand over now. -/
theorem step_admit (hmem : c.world ∈ σs) {t : ℕ} (req : F.Call) {p : Prog D K W ε (F.Res req)}
    {seen : List D} (hseen : ∀ db ∈ seen, ∃ σ ∈ σs, σ.db = db) (hp : p.Fronts S (gate req) seen)
    (hslot : d.slot (2 * t) = none) :
    ∃ e d', Admits (fun db call => ∃ req, gate req db call) σs e ∧ d.step e = some d' ∧
      Behind gate σs ⟨c.world.tick, c.owner, c.put t (some ⟨req, p, []⟩)⟩ d' := by
  cases hp with
  | answers hp =>
    refine h.step_pause hidler hmem t h.owner ?_
    rw [hslot]
    exact .answering req _ hp
  | serves call k hgate hk =>
    obtain ⟨db, hdb, hgate⟩ := hgate
    obtain ⟨σ, hσ, rfl⟩ := hseen db hdb
    refine ⟨.start (2 * t) call,
      ⟨d.world.tick, d.owner, d.put (2 * t) (some ⟨call, S.program call, []⟩)⟩, ?_, ?_, ?_⟩
    · rintro _ _ ⟨⟩
      exact ⟨σ, hσ, req, hgate⟩
    · simp only [Config.step, hslot]
    · rw [h.world]
      exact h.put t h.owner (.serving req call _ k [] ⟨σ, hσ, hgate⟩ hk)
  | asks hn =>
    refine h.step_pause hidler hmem t h.owner ?_
    rw [hslot]
    exact .asking req _ seen hseen hn

/-- A session of the front that only reads. -/
theorem step_reads (hmem : c.world ∈ σs) {t uuid : ℕ} {req : F.Call} {p : Prog D K W ε (F.Res req)} {w : Pending W}
    (hp : p.Reads) (hnext : ∀ p' : Prog D K W ε (F.Res req), p'.Reads →
      Serves gate σs (some ⟨req, p', w⟩) (d.slot (2 * t)))
    (hs : c.advance t uuid ⟨req, p, w⟩ = some c') :
    ∃ e d', Admits (fun db call => ∃ req, gate req db call) σs e ∧ d.step e = some d' ∧
      Behind gate σs c' d' := by
  cases p with
  | ret r => cases hs
  | clock n =>
    cases hs
    exact h.step_pause hidler hmem t h.owner (hnext _ (hp _))
  | select n =>
    cases hs
    exact h.step_pause hidler hmem t h.owner (hnext _ (hp _))
  | commit n | rollback n => exact hp.elim
  | forUpdate rows n => exact hp.elim
  | write stmt n => exact hp.elim

omit hidler in
/-- A statement of the call behind. -/
theorem step_serves {t uuid : ℕ} {req : F.Call} {call : S.Call} {q : Prog D K W ε (S.Res call)}
    {k : Except ε (S.Res call) → Prog D K W ε (F.Res req)} {w : Pending W}
    (hgate : ∃ σ ∈ σs, gate req σ.db call) (hk : ∀ r, (k r).Reads) (hq : ∀ r, q ≠ .ret r)
    (hs : c.advance t uuid ⟨req, q.andThen k, w⟩ = some c') :
    ∃ d', d.advance (2 * t) uuid ⟨call, q, w⟩ = some d' ∧ Behind gate σs c' d' := by
  have hnext : ∀ {σ own own'} (q' : Prog D K W ε (S.Res call)) (w' : Pending W),
      (∀ k, own' k = (own k).map (2 * ·)) →
      Behind gate σs ⟨σ, own, c.put t (some ⟨req, q'.andThen k, w'⟩)⟩
        ⟨σ, own', d.put (2 * t) (some ⟨call, q', w'⟩)⟩ :=
    fun q' w' hown => h.put t hown (.serving req call q' k w' hgate hk)
  simp only [Config.advance, h.world, h.all_free]
  cases q with
  | ret r => exact absurd rfl (hq r)
  | commit n | rollback n =>
    cases hs
    exact ⟨_, rfl, hnext n [] (h.release t)⟩
  | clock n =>
    cases hs
    exact ⟨_, rfl, hnext (n c.world.now) w h.owner⟩
  | select n =>
    cases hs
    exact ⟨_, rfl, hnext (n (c.world.view w)) w h.owner⟩
  | forUpdate rows n =>
    simp only [Config.advance, Prog.andThen] at hs
    split at hs
    · rename_i hfree
      cases hs
      exact ⟨_, by simp only [hfree, if_true], hnext (n (c.world.view w)) w (h.acquire t _)⟩
    · cases hs
  | write stmt n =>
    simp only [Config.advance, Prog.andThen] at hs
    split at hs
    · rename_i hfree
      split at hs
      · rename_i hviolates
        cases hs
        exact ⟨_, by simp only [hfree, hviolates, if_true], hnext (n _ _ false) w h.owner⟩
      · rename_i hviolates
        cases hs
        exact ⟨_, by simp only [hfree, hviolates, if_true]; rfl, hnext (n _ _ true) _ (h.acquire t _)⟩
    · cases hs

/-- The system behind keeps step with the front. -/
theorem step (hfront : ∀ req db, (F.program req).Fronts S (gate req) [db]) (hd : d.Tidy)
    (hmem : c.world ∈ σs) {e : Event F} (hs : c.step e = some c') :
    ∃ e' d', Admits (fun db call => ∃ req, gate req db call) σs e' ∧ d.step e' = some d' ∧
      Behind gate σs c' d' := by
  obtain ⟨t, req, rfl, hslot, rfl⟩ | ⟨t, uuid, s, rfl, hslot, -⟩ | ⟨t, s, rfl, hslot, rfl⟩ :=
    Config.step_cases hs
  · have hnow : ∀ db ∈ [c.world.db], ∃ σ ∈ σs, σ.db = db := by
      intro db hdb
      exact ⟨c.world, hmem, (List.mem_singleton.mp hdb).symm⟩
    refine h.step_admit hidler hmem req hnow (hfront req _) ?_
    have hserves := h.slot t
    rw [hslot] at hserves
    generalize hback : d.slot (2 * t) = o at hserves ⊢
    cases hserves
    rfl
  · simp only [Config.step, hslot] at hs
    have hserves := h.slot t
    rw [hslot] at hserves
    generalize hback : d.slot (2 * t) = o at hserves
    cases hserves with
    | asking req n seen hseen hn =>
      cases hs
      refine h.step_admit hidler hmem req (fun db hdb => ?_) (hn _) hback
      rcases List.mem_cons.mp hdb with rfl | hdb
      · exact ⟨c.world, hmem, rfl⟩
      · exact hseen db hdb
    | answering req p hp =>
      refine h.step_reads hidler hmem hp (fun p' hp' => ?_) hs
      rw [hback]
      exact .answering req p' hp'
    | serving req call q k w hgate hk =>
      by_cases hq : ∃ r, q = .ret r
      · obtain ⟨r, rfl⟩ := hq
        refine h.step_reads hidler hmem (hk r) (fun p' hp' => ?_) hs
        rw [hback]
        exact .serving req call (.ret r) (fun _ => p') w hgate fun _ => hp'
      · obtain ⟨d', hd', hbehind⟩ := h.step_serves hgate hk (fun r hr => hq ⟨r, hr⟩) hs
        refine ⟨.run (2 * t) uuid, d', admits_run _ _ _ _, ?_, hbehind⟩
        simp only [Config.step, hback]
        exact hd'
  · cases hback : d.slot (2 * t) with
    | none =>
      refine h.step_pause hidler hmem t (fun k => ?_) (hback ▸ .vacant)
      -- nothing stands behind the session yet, so it owns nothing
      have hfree : d.owner k ≠ some (2 * t) := by
        intro hk
        obtain ⟨s', hs'⟩ := hd.owned k _ hk
        rw [hback] at hs'
        cases hs'
      rw [← h.release t k, Config.release, if_neg hfree]
    | some s' =>
      refine ⟨.abort (2 * t), ⟨d.world.tick, d.release (2 * t), d.put (2 * t) none⟩,
        admits_abort _ _ _, by simp only [Config.step, hback], ?_⟩
      rw [h.world]
      exact h.put t (h.release t) .vacant

end Behind

/-- Whatever happens in front happens behind, in the same worlds, and every call there is started
after a world that admits it. -/
theorem Through.behind [Engine D K W] [DecidableEq K]
    (hfront : ∀ req db, (F.program req).Fronts S (gate req) [db]) {idler : S.Call}
    (hidler : ∀ db, ∃ req, gate req db idler) {gate' : D → F.Call → Prop} {σ₀ : World D}
    {c : Config F} {σs : List (World D)} (h : Through gate' (Config.idle σ₀) c σs) :
    ∃ d : Config S, Through (fun db call => ∃ req, gate req db call) (Config.idle σ₀) d σs ∧
      Behind gate σs c d := by
  induction h with
  | refl => exact ⟨_, .refl, .idle σ₀⟩
  | step h _ hs ih =>
    obtain ⟨d, hd, hbehind⟩ := ih
    obtain ⟨e', d', hadmits, hs', hbehind'⟩ :=
      hbehind.step hidler hfront ((Tidy.idle σ₀).reaches hd.reaches) h.world_mem hs
    refine ⟨d', ?_, hbehind'.later _⟩
    rw [← hbehind'.world]
    exact hd.step hadmits hs'

end Config

end ReadCommitted
