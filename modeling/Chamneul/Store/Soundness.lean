import Chamneul.Store.Contract
import Chamneul.Store.Locking

/-! In every schedule of programs that each meet their duty, all of them do. The
invariant of a run is that each session's own proof still covers what is left of
its program; a step of one session is a step of its proof, and for the others an
interference they rely on. -/

namespace ReadCommitted

variable {D K W ε : Type} {S : System D K W ε} [Engine D K W]

/-- Each session's proof covers what is left of its program. -/
structure Sound (R : Rely D K W) (G : S.Call → Duty D K W)
    (Q : (call : S.Call) → Post D K W ε (S.Res call)) (c : Config S) : Prop where
  tidy : c.Tidy
  safe : ∀ t s, c.slot t = some s →
    wp R (G s.call) s.prog (c.held t) s.writes c.world (Q s.call)

/-- The programs of `S` meet their duties under `R`. -/
structure Verified (S : System D K W ε) (R : Rely D K W) (G : S.Call → Duty D K W)
    (Q : (call : S.Call) → Post D K W ε (S.Res call)) : Prop where
  lawful : R.Lawful
  stable : ∀ call, R.Stable (Q call)
  program : ∀ call σ, wp R (G call) (S.program call) ∅ [] σ (Q call)

/-- What one session commits is an interference the others rely on. -/
def Compatible (R : Rely D K W) (G : S.Call → Duty D K W) (c : Config S) : Prop :=
  ∀ t s t' s', t ≠ t' → c.slot t = some s → c.slot t' = some s' →
    (G s.call).commit (c.held t) s.writes c.world →
    R (c.held t') s'.writes c.world (c.world.commit s.writes)

variable {R : Rely D K W} {G : S.Call → Duty D K W}
  {Q : (call : S.Call) → Post D K W ε (S.Res call)}

theorem Sound.idle (σ : World D) : Sound R G Q (Config.idle (S := S) σ) where
  tidy := .idle σ
  safe := by intro t s h; cases h

/-- A session that commits keeps its promise. -/
theorem Sound.commit (hS : Verified S R G Q) {c : Config S} (h : Sound R G Q c) {t : ℕ}
    {s : Session S} (hs : c.slot t = some s) {n} (hp : s.prog = .commit n) :
    (G s.call).commit (c.held t) s.writes c.world := by
  have hw := h.safe t s hs
  rw [hp] at hw
  exact (hw c.world (hS.lawful.refl _ _ _)).2.1

/-- A session that has not ended is at a stage of its duty. -/
theorem Sound.stage (hS : Verified S R G Q) {c : Config S} (h : Sound R G Q c) {t : ℕ}
    {s : Session S} (hs : c.slot t = some s) (hp : ∀ r, s.prog ≠ .ret r) :
    (G s.call).stage (c.held t) s.writes c.world (s.needs c.world) := by
  have hw := h.safe t s hs
  have here := hS.lawful.refl (c.held t) s.writes c.world
  unfold Session.needs
  cases hq : s.prog with
  | ret r => exact absurd hq (hp r)
  | write stmt n =>
    rw [hq] at hw
    exact (hw c.world 0 here).1
  | _ =>
    rw [hq] at hw
    exact (hw c.world here).1

/-- A session that has ended is in its postcondition. -/
theorem Sound.post {c : Config S} (h : Sound R G Q c) {t : ℕ} {s : Session S}
    (hs : c.slot t = some s) {r} (hp : s.prog = .ret r) :
    Q s.call r (c.held t) s.writes c.world := by
  have hw := h.safe t s hs
  rw [hp] at hw
  exact hw

/-- The step of one session, seen by all of them. -/
theorem Sound.update {c : Config S} (hS : Verified S R G Q) (h : Sound R G Q c) {t : ℕ}
    {σ : World D} {owner : K → Option ℕ} {s : Option (Session S)}
    (htidy : (⟨σ, owner, c.put t s⟩ : Config S).Tidy)
    (hr : ∀ t' s', t ≠ t' → c.slot t' = some s' → R (c.held t') s'.writes c.world σ)
    (ho : ∀ t' k, t' ≠ t → (owner k = some t' ↔ c.owner k = some t'))
    (hw : ∀ s', s = some s' →
      wp R (G s'.call) s'.prog {k | owner k = some t} s'.writes σ (Q s'.call)) :
    Sound R G Q (⟨σ, owner, c.put t s⟩ : Config S) where
  tidy := htidy
  safe := by
    intro t' s' hs'
    by_cases ht : t' = t
    · subst ht
      exact hw s' (by simpa [Config.put] using hs')
    · have hs₀ : c.slot t' = some s' := by simpa [Config.put, ht] using hs'
      have hheld : Config.held (⟨σ, owner, c.put t s⟩ : Config S) t' = c.held t' := by
        ext k
        exact ho t' k ht
      rw [hheld]
      exact wp_rely hS.lawful (hS.stable _) (h.safe t' s' hs₀) (hr t' s' (Ne.symm ht) hs₀)

/-- A step that the session goes on from, as `s`. -/
theorem Sound.goesOn {c : Config S} (hS : Verified S R G Q) (h : Sound R G Q c) {t : ℕ} {σ : World D}
    {owner : K → Option ℕ} {s : Session S} (htidy : (⟨σ, owner, c.put t (some s)⟩ : Config S).Tidy)
    (hr : ∀ t' s', t ≠ t' → c.slot t' = some s' → R (c.held t') s'.writes c.world σ)
    (ho : ∀ t' k, t' ≠ t → (owner k = some t' ↔ c.owner k = some t'))
    (hw : wp R (G s.call) s.prog {k | owner k = some t} s.writes σ (Q s.call)) :
    Sound R G Q (⟨σ, owner, c.put t (some s)⟩ : Config S) :=
  h.update hS htidy hr ho fun s' hs' => by
    obtain rfl := Option.some.inj hs'
    exact hw

variable [DecidableEq K]

/-- One statement of one session keeps every session's proof. -/
theorem Sound.step (hS : Verified S R G Q) {c c' : Config S} {e : Event S}
    (h : Sound R G Q c) (hc : Compatible R G c) (hs : c.step e = some c') : Sound R G Q c' := by
  have htick : ∀ t' s', c.slot t' = some s' →
      R (c.held t') s'.writes c.world c.world.tick := fun _ _ _ => hS.lawful.tick _ _ _
  have hrefl : ∀ L w, R L w c.world c.world := fun _ _ => hS.lawful.refl _ _ _
  have htidy := h.tidy.step hs
  obtain ⟨t, call, -, hslot, rfl⟩ | ⟨t, uuid, s, -, hslot, ht⟩ | ⟨t, s, -, hslot, rfl⟩ :=
    Config.step_cases hs
  · have hheld : {k | c.owner k = some t} = (∅ : Set K) := by
      ext k
      simp only [Set.mem_ofPred_eq, Set.mem_empty_iff_false, iff_false]
      intro hk
      obtain ⟨s, hs⟩ := h.tidy.owned k t hk
      rw [hslot] at hs
      cases hs
    refine h.goesOn hS htidy (fun t' s' _ => htick t' s') (fun _ _ _ => Iff.rfl) ?_
    rw [hheld]
    exact hS.program call _
  · have hw := h.safe t s hslot
    cases ht with
    | commit n hp =>
      rw [hp] at hw
      obtain ⟨-, hcommit, hn⟩ := hw _ (hrefl _ _)
      refine h.goesOn hS htidy
        (fun t' s' ht hs' => hc t s t' s' ht hslot hs' hcommit)
        (fun t' k ht => c.release_other ht k) ?_
      rw [c.held_release t]
      exact hn
    | rollback n hp =>
      rw [hp] at hw
      refine h.goesOn hS htidy (fun t' s' _ => htick t' s')
        (fun t' k ht => c.release_other ht k) ?_
      rw [c.held_release t]
      exact (hw _ (hrefl _ _)).2
    | clock n hp =>
      rw [hp] at hw
      refine h.goesOn hS htidy (fun t' s' _ => htick t' s') (fun _ _ _ => Iff.rfl) ?_
      exact (hw _ (hrefl _ _)).2
    | select n hp =>
      rw [hp] at hw
      refine h.goesOn hS htidy (fun t' s' _ => htick t' s') (fun _ _ _ => Iff.rfl) ?_
      exact (hw _ (hrefl _ _)).2
    | forUpdate rows n hp hf =>
      rw [hp] at hw
      refine h.goesOn hS htidy (fun t' s' _ => htick t' s')
        (fun t' k ht => c.acquire_other ht hf k) ?_
      rw [c.held_acquire t]
      exact (hw _ (hrefl _ _)).2
    | refused stmt n hp hv =>
      rw [hp] at hw
      refine h.goesOn hS htidy (fun t' s' _ => htick t' s') (fun _ _ _ => Iff.rfl) ?_
      exact (hw _ uuid (hrefl _ _)).2.1 hv
    | written stmt n hp hf hv =>
      rw [hp] at hw
      refine h.goesOn hS htidy (fun t' s' _ => htick t' s')
        (fun t' k ht => c.acquire_other ht hf k) ?_
      rw [c.held_acquire t]
      exact (hw _ uuid (hrefl _ _)).2.2 hv
  · exact h.update hS htidy (fun t' s' _ => htick t' s')
      (fun t' k ht => c.release_other ht k) (fun _ hn => by cases hn)

/-- Whatever the schedule, every session's proof still holds. -/
theorem Sound.reaches (hS : Verified S R G Q) {ok : Config S → Event S → Prop} {c₀ c : Config S}
    (h : Sound R G Q c₀) (hc : ∀ c, Sound R G Q c → Compatible R G c)
    (hr : Config.Reaches ok c₀ c) : Sound R G Q c := by
  refine hr.invariant h ?_
  intro c e c' _ hi _ hs
  exact hi.step hS (hc c hi) hs

end ReadCommitted
