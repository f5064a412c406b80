import Chamneul.Python.Json

/-! What the scanner leaves and what it raises. It leaves less than there was, so the fuel does not
run out; and it raises nothing but a `JSONDecodeError` on a text that has few containers and short
numbers. -/

namespace Python

/-- The places where a container may be opened. -/
def openers (text : Text) : ℕ := text.countP fun c => decide (c = .char '[' ∨ c = .char '{')

/-- More digits in a row than `int` takes. -/
def LongDigits (text : Text) : Prop :=
  ∃ tail, tail <:+ text ∧ maxStrDigits < (tail.takeWhile isDigit).length

theorem openers_le {rest text : Text} (h : rest <:+ text) : openers rest ≤ openers text :=
  h.sublist.countP_le

theorem LongDigits.mono {rest text : Text} (h : rest <:+ text) (hlong : LongDigits rest) :
    LongDigits text := by
  obtain ⟨tail, htail, hlen⟩ := hlong
  exact ⟨tail, htail.trans h, hlen⟩

/-- What the scan of a text comes to if `depth` containers may be opened. -/
def Fits {α : Type} (depth : ℕ) (text : Text) : Scan α → Prop
  | .ok found => found.2 <:+ text ∧ found.2.length < text.length
  | .error .jsonDecodeError => True
  | .error .recursionError => depth < openers text
  | .error .valueError => LongDigits text
  | .error .unicodeDecodeError => False

section

variable {α β : Type} {depth : ℕ} {text rest : Text}

/-- What fits the end of a text fits the text. -/
theorem Fits.mono {scanned : Scan α} (h : rest <:+ text) (hfits : Fits depth rest scanned) :
    Fits depth text scanned := by
  match scanned with
  | .ok _ => exact ⟨hfits.1.trans h, Nat.lt_of_lt_of_le hfits.2 h.length_le⟩
  | .error .jsonDecodeError => trivial
  | .error .recursionError => exact Nat.lt_of_lt_of_le hfits (openers_le h)
  | .error .valueError => exact LongDigits.mono h hfits
  | .error .unicodeDecodeError => exact hfits

theorem Fits.map {scanned : Scan α} (hfits : Fits depth text scanned) (f : α → β) :
    Fits depth text (scanned.map fun found => (f found.1, found.2)) := by
  match scanned with
  | .ok _ => exact hfits
  | .error .jsonDecodeError => trivial
  | .error .recursionError => exact hfits
  | .error .valueError => exact hfits
  | .error .unicodeDecodeError => exact hfits

theorem skipSpace_suffix (text : Text) : skipSpace text <:+ text := List.dropWhile_suffix _

/-- Behind some space and one character. -/
theorem behind_skipSpace {c : CodePoint} (h : skipSpace text = c :: rest) :
    rest <:+ text ∧ rest.length < text.length := by
  have hsuffix := skipSpace_suffix text
  rw [h] at hsuffix
  exact ⟨(List.suffix_cons c rest).trans hsuffix, hsuffix.length_le⟩

/-- What closes a container comes behind its last piece. -/
theorem Fits.closed {found : α} {value : β} {tail : Text} {c : CodePoint}
    (hpiece : Fits depth text (.ok (found, rest))) (h : skipSpace rest = c :: tail) :
    Fits depth text (.ok (value, tail)) :=
  Fits.mono hpiece.1 (behind_skipSpace h)

/-- An exception that a part raises is passed on. -/
theorem fits_error {e : JsonError} (h : Fits depth text (.error e : Scan α)) :
    Fits depth text (.error e : Scan β) := by
  cases e <;> exact h

/-- What comes behind a piece and a separator fits the text that the piece started. -/
theorem Fits.behind {scanned : Scan β} {found : α} {tail : Text} {c : CodePoint}
    (hpiece : Fits depth text (.ok (found, rest))) (h : skipSpace rest = c :: tail)
    (hfits : Fits depth tail scanned) : Fits depth text scanned :=
  hfits.mono ((behind_skipSpace h).1.trans hpiece.1)

/-! Strings and numbers. -/

theorem fits_scanPieces (text : Text) : Fits depth text (scanPieces text) := by
  fun_induction scanPieces text with
  | case1 => trivial
  | case2 rest => exact ⟨List.suffix_cons _ _, Nat.lt_succ_self _⟩
  | case3 a b c d rest h => trivial
  | case4 a b c d rest unit h ih => exact (ih.map _).mono ⟨[_, _, _, _, _, _], rfl⟩
  | case5 c rest _ h => trivial
  | case6 c rest _ c' h ih => exact (ih.map _).mono ⟨[_, _], rfl⟩
  | case7 => trivial
  | case8 c rest => trivial
  | case9 c rest _ _ _ _ _ ih => exact (ih.map _).mono (List.suffix_cons _ _)

theorem fits_scanString (text : Text) : Fits depth text (scanString text) :=
  (fits_scanPieces text).map _

theorem scanDigits_suffix (text : Text) : (scanDigits text).2 <:+ text := List.dropWhile_suffix _

theorem scanFraction_suffix (text : Text) : (scanFraction text).2 <:+ text := by
  fun_cases scanFraction text with
  | case1 rest h => exact List.suffix_refl _
  | case2 rest h => exact (scanDigits_suffix rest).trans (List.suffix_cons _ _)
  | case3 h => exact List.suffix_refl _

theorem scanSign_suffix (text : Text) : (scanSign text).2 <:+ text := by
  fun_cases scanSign text with
  | case1 rest => exact List.suffix_cons _ _
  | case2 rest => exact List.suffix_cons _ _
  | case3 h => exact List.suffix_refl _

theorem scanExponent_suffix (text : Text) : (scanExponent text).2 <:+ text := by
  unfold scanExponent
  split
  · rename_i c rest
    split_ifs with he
    · dsimp only
      split_ifs with hd
      · exact List.suffix_refl _
      · exact ((scanDigits_suffix _).trans (scanSign_suffix rest)).trans (List.suffix_cons _ _)
    · exact List.suffix_refl _
  · exact List.suffix_refl _

/-- The digits before the point, and what comes behind them. -/
theorem scanWhole_spec (text : Text) : (scanWhole text).1 ++ (scanWhole text).2 = text ∧
    ((scanWhole text).1.length ≤ 1 ∨ (scanWhole text).1 = text.takeWhile isDigit) := by
  fun_cases scanWhole text with
  | case1 rest => exact ⟨rfl, Or.inl (Nat.le_refl 1)⟩
  | case2 h => exact ⟨List.takeWhile_append_dropWhile, Or.inr rfl⟩

theorem fits_scanUnsigned (negative : Bool) (text : Text) :
    Fits depth text (scanUnsigned negative text) := by
  obtain ⟨happend, hdigits⟩ := scanWhole_spec text
  have hrest : (scanExponent (scanFraction (scanWhole text).2).2).2 <:+ (scanWhole text).2 :=
    (scanExponent_suffix _).trans (scanFraction_suffix _)
  have hwhole : (scanWhole text).2 <:+ text := ⟨_, happend⟩
  have hleft : (scanWhole text).1 ≠ [] →
      (scanExponent (scanFraction (scanWhole text).2).2).2 <:+ text ∧
        (scanExponent (scanFraction (scanWhole text).2).2).2.length < text.length := by
    intro hne
    have hlen := congrArg List.length happend
    have hpos := List.length_pos_iff.mpr hne
    have hle := hrest.length_le
    rw [List.length_append] at hlen
    exact ⟨hrest.trans hwhole, by omega⟩
  unfold scanUnsigned
  dsimp only
  split_ifs with hne hint hlong
  · trivial
  · refine ⟨text, List.suffix_refl _, ?_⟩
    rcases hdigits with hone | hall
    · have : (1 : ℕ) ≤ maxStrDigits := by decide
      omega
    · rwa [← hall]
  · exact hleft hne
  · exact hleft hne

theorem fits_scanNumber (text : Text) : Fits depth text (scanNumber text) := by
  fun_cases scanNumber text with
  | case1 rest => exact (fits_scanUnsigned true rest).mono (List.suffix_cons _ _)
  | case2 h => exact fits_scanUnsigned false text

theorem fits_scanAtom (text : Text) : Fits depth text (scanAtom text) := by
  unfold scanAtom
  split
  · rename_i word value hfind
    have hprefix : Text.ofString word <+: text := by simpa using List.find?_some hfind
    have hnonempty : ∀ constant ∈ constants, constant.1.length ≠ 0 := by simp [constants]
    have hword : word.length ≠ 0 := hnonempty _ (List.mem_of_find?_eq_some hfind)
    have hle := hprefix.length_le
    rw [Text.ofString, List.length_map, String.length_toList] at hle
    refine ⟨List.drop_suffix _ _, ?_⟩
    rw [List.length_drop]
    omega
  · exact fits_scanNumber text

/-! Values. -/

/-- The container that is opened counts. -/
theorem Fits.opened {c : CodePoint} {scanned : Scan α} (hc : c = .char '[' ∨ c = .char '{')
    (hfits : Fits depth rest scanned) : Fits (depth + 1) (c :: rest) scanned := by
  match scanned with
  | .ok _ => exact ⟨hfits.1.trans (List.suffix_cons _ _), Nat.lt_succ_of_lt hfits.2⟩
  | .error .jsonDecodeError => trivial
  | .error .recursionError =>
    have hcount : openers (c :: rest) = openers rest + 1 := by
      rw [openers, List.countP_cons_of_pos (by simpa using hc), openers]
    change depth + 1 < openers (c :: rest)
    have : depth < openers rest := hfits
    omega
  | .error .valueError => exact LongDigits.mono (List.suffix_cons _ _) hfits
  | .error .unicodeDecodeError => exact hfits

theorem fits_full {c : CodePoint} (hc : c = .char '[' ∨ c = .char '{') :
    Fits 0 (c :: rest) (.error .recursionError : Scan α) := by
  change 0 < openers (c :: rest)
  rw [openers, List.countP_cons_of_pos (by simpa using hc)]
  exact Nat.succ_pos _

/-! One step of the three functions, from what holds with less fuel. -/

section

variable {fuel : ℕ}

theorem fits_scanOnce (hitems : ∀ depth items text, Fits depth text (scanItems fuel depth items text))
    (hmembers : ∀ depth items text, Fits depth text (scanMembers fuel depth items text))
    (depth : ℕ) (text : Text) : Fits depth text (scanOnce (fuel + 1) depth text) := by
  rw [scanOnce.eq_def]
  dsimp only
  split
  · exact ((fits_scanString _).map _).mono (List.suffix_cons _ _)
  · split
    · exact fits_full (Or.inr rfl)
    · refine Fits.opened (Or.inr rfl) ?_
      split
      · rename_i h
        exact behind_skipSpace h
      · exact (hmembers _ _ _).mono (skipSpace_suffix _)
  · split
    · exact fits_full (Or.inl rfl)
    · refine Fits.opened (Or.inl rfl) ?_
      split
      · rename_i h
        exact behind_skipSpace h
      · exact (hitems _ _ _).mono (skipSpace_suffix _)
  · exact fits_scanAtom _

theorem fits_scanItems (honce : ∀ depth text, Fits depth text (scanOnce fuel depth text))
    (hitems : ∀ depth items text, Fits depth text (scanItems fuel depth items text))
    (depth : ℕ) (items : List Value) (text : Text) :
    Fits depth text (scanItems (fuel + 1) depth items text) := by
  rw [scanItems.eq_def]
  dsimp only
  have hvalue := honce depth text
  split
  · rename_i e h
    rw [h] at hvalue
    exact fits_error hvalue
  · rename_i value rest h
    rw [h] at hvalue
    split
    · rename_i h
      exact hvalue.closed h
    · rename_i h
      exact hvalue.behind h ((hitems _ _ _).mono (skipSpace_suffix _))
    · trivial

theorem fits_scanMembers (honce : ∀ depth text, Fits depth text (scanOnce fuel depth text))
    (hmembers : ∀ depth items text, Fits depth text (scanMembers fuel depth items text))
    (depth : ℕ) (items : List (Text × Value)) (text : Text) :
    Fits depth text (scanMembers (fuel + 1) depth items text) := by
  rw [scanMembers.eq_def]
  dsimp only
  split
  · rename_i rest
    refine Fits.mono (List.suffix_cons (.char '"') rest) ?_
    have hkey : Fits depth rest (scanString rest) := fits_scanString rest
    split
    · rename_i e h
      rw [h] at hkey
      exact fits_error hkey
    · rename_i key rest' h
      rw [h] at hkey
      split
      · rename_i tail hcolon
        refine hkey.behind hcolon ?_
        have hvalue := (honce depth (skipSpace tail)).mono (skipSpace_suffix tail)
        split
        · rename_i e h
          rw [h] at hvalue
          exact fits_error hvalue
        · rename_i value rest h
          rw [h] at hvalue
          split
          · rename_i h
            exact hvalue.closed h
          · rename_i h
            exact hvalue.behind h ((hmembers _ _ _).mono (skipSpace_suffix _))
          · trivial
      · trivial
  · trivial

/-- By induction on the fuel. -/
theorem fits_scan (fuel : ℕ) :
    (∀ depth text, Fits depth text (scanOnce fuel depth text)) ∧
    (∀ depth items text, Fits depth text (scanItems fuel depth items text)) ∧
    ∀ depth items text, Fits depth text (scanMembers fuel depth items text) := by
  induction fuel with
  | zero => exact ⟨fun _ _ => trivial, fun _ _ _ => trivial, fun _ _ _ => trivial⟩
  | succ fuel ih =>
    obtain ⟨honce, hitems, hmembers⟩ := ih
    exact ⟨fits_scanOnce hitems hmembers, fits_scanItems honce hitems, fits_scanMembers honce hmembers⟩

/-- More fuel changes nothing for a value, the items and the members of a text that `fuel` is
enough for. The items start with a value that may be all of the text. -/
structure EnoughFuel (fuel : ℕ) : Prop where
  once : ∀ fuel' depth text, 2 * text.length + 1 ≤ fuel → fuel ≤ fuel' →
    scanOnce fuel' depth text = scanOnce fuel depth text
  items : ∀ fuel' depth items text, 2 * text.length + 2 ≤ fuel → fuel ≤ fuel' →
    scanItems fuel' depth items text = scanItems fuel depth items text
  members : ∀ fuel' depth items text, 2 * text.length + 2 ≤ fuel → fuel ≤ fuel' →
    scanMembers fuel' depth items text = scanMembers fuel depth items text

theorem EnoughFuel.once_succ (h : EnoughFuel fuel) {fuel' depth : ℕ} {text : Text}
    (henough : 2 * text.length + 1 ≤ fuel + 1) (hle : fuel ≤ fuel') :
    scanOnce (fuel' + 1) depth text = scanOnce (fuel + 1) depth text := by
  rw [scanOnce.eq_def, scanOnce.eq_def (fuel + 1)]
  dsimp only
  split
  · rfl
  · rename_i rest
    have hlen := (skipSpace_suffix rest).length_le
    rw [List.length_cons] at henough
    cases depth with
    | zero => rfl
    | succ depth =>
      dsimp only
      split
      · rfl
      · exact h.members _ _ _ _ (by omega) hle
  · rename_i rest
    have hlen := (skipSpace_suffix rest).length_le
    rw [List.length_cons] at henough
    cases depth with
    | zero => rfl
    | succ depth =>
      dsimp only
      split
      · rfl
      · exact h.items _ _ _ _ (by omega) hle
  · rfl

theorem EnoughFuel.items_succ (h : EnoughFuel fuel) {fuel' depth : ℕ} {items : List Value} {text : Text}
    (henough : 2 * text.length + 2 ≤ fuel + 1) (hle : fuel ≤ fuel') :
    scanItems (fuel' + 1) depth items text = scanItems (fuel + 1) depth items text := by
  have hvalue := (fits_scan fuel).1 depth text
  rw [scanItems.eq_def, scanItems.eq_def (fuel + 1)]
  dsimp only
  rw [h.once fuel' depth text (by omega) hle]
  split
  · rfl
  · rename_i value rest hscan
    rw [hscan] at hvalue
    split
    · rfl
    · rename_i tail hcomma
      have hclosed : Fits depth text (.ok (value, tail)) := hvalue.closed hcomma
      have hshorter : tail.length < text.length := hclosed.2
      have hlen := (skipSpace_suffix tail).length_le
      exact h.items _ _ _ _ (by omega) hle
    · rfl

theorem EnoughFuel.members_succ (h : EnoughFuel fuel) {fuel' depth : ℕ} {items : List (Text × Value)}
    {text : Text} (henough : 2 * text.length + 2 ≤ fuel + 1) (hle : fuel ≤ fuel') :
    scanMembers (fuel' + 1) depth items text = scanMembers (fuel + 1) depth items text := by
  rw [scanMembers.eq_def, scanMembers.eq_def (fuel + 1)]
  dsimp only
  split
  · rename_i rest
    rw [List.length_cons] at henough
    have hkey : Fits depth rest (scanString rest) := fits_scanString rest
    split
    · rfl
    · rename_i key rest' hscan
      rw [hscan] at hkey
      split
      · rename_i tail hcolon
        have hclosed : Fits depth rest (.ok (key, tail)) := hkey.closed hcolon
        have hshorter : tail.length < rest.length := hclosed.2
        have hspace := (skipSpace_suffix tail).length_le
        have hvalue := (fits_scan fuel).1 depth (skipSpace tail)
        rw [h.once fuel' depth (skipSpace tail) (by omega) hle]
        split
        · rfl
        · rename_i value rest hscan
          rw [hscan] at hvalue
          split
          · rfl
          · rename_i tail' hcomma
            have hclosed : Fits depth (skipSpace tail) (.ok (value, tail')) := hvalue.closed hcomma
            have hshorter : tail'.length < (skipSpace tail).length := hclosed.2
            have hlen := (skipSpace_suffix tail').length_le
            exact h.members _ _ _ _ (by omega) hle
          · rfl
      · rfl
  · rfl

/-- What is left gets shorter, so twice the length is enough. -/
theorem enoughFuel (fuel : ℕ) : EnoughFuel fuel := by
  induction fuel with
  | zero => exact ⟨fun _ _ _ h => by omega, fun _ _ _ _ h => by omega, fun _ _ _ _ h => by omega⟩
  | succ fuel ih =>
    have hpos {fuel' : ℕ} (hle : fuel + 1 ≤ fuel') : ∃ n, fuel' = n + 1 ∧ fuel ≤ n :=
      ⟨fuel' - 1, by omega, by omega⟩
    refine ⟨fun fuel' depth text henough hle => ?_, fun fuel' depth items text henough hle => ?_,
      fun fuel' depth items text henough hle => ?_⟩
    all_goals obtain ⟨fuel', rfl, hfuel⟩ := hpos hle
    · exact ih.once_succ henough hfuel
    · exact ih.items_succ henough hfuel
    · exact ih.members_succ henough hfuel

end

/-- `decodeText` has fuel enough: more of it would change nothing. -/
theorem decodeText_fuel {fuel : ℕ} (recursionLimit : ℕ)
    (henough : 2 * (skipSpace text).length + 1 ≤ fuel) :
    scanOnce fuel recursionLimit (skipSpace text) =
      scanOnce (2 * (skipSpace text).length + 1) recursionLimit (skipSpace text) :=
  (enoughFuel _).once fuel recursionLimit (skipSpace text) (Nat.le_refl _) henough

/-- What `json.loads` raises, and on which bytes. -/
theorem loads_error {recursionLimit : ℕ} {bytes : Bytes} {e : JsonError}
    (h : loads recursionLimit bytes = .error e) :
    e = .jsonDecodeError ∨
      (e = .unicodeDecodeError ∧ bytes.decode (detectEncoding bytes) = none) ∨
      ∃ text, bytes.decode (detectEncoding bytes) = some text ∧
        (e = .recursionError ∧ recursionLimit < openers text ∨ e = .valueError ∧ LongDigits text) := by
  unfold loads at h
  split at h
  · rename_i hdecode
    exact Or.inr (Or.inl ⟨(Except.error.inj h).symm, hdecode⟩)
  · rename_i text hdecode
    unfold decodeText at h
    have hfits := (((fits_scan (2 * (skipSpace text).length + 1)).1 recursionLimit
      (skipSpace text)).mono (skipSpace_suffix text))
    split at h
    · rename_i e' hscan
      rw [hscan] at hfits
      cases h
      cases e with
      | unicodeDecodeError => exact hfits.elim
      | jsonDecodeError => exact Or.inl rfl
      | recursionError => exact Or.inr (Or.inr ⟨text, hdecode, Or.inl ⟨rfl, hfits⟩⟩)
      | valueError => exact Or.inr (Or.inr ⟨text, hdecode, Or.inr ⟨rfl, hfits⟩⟩)
    · split_ifs at h
      exact Or.inl (Except.error.inj h).symm

end

end Python
