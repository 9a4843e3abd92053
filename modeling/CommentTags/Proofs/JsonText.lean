import CommentTags.Json.Printer
import CommentTags.Json.Reader
import Mathlib.Algebra.Group.Nat.Defs

/-!
A text written as a JSON string reads back with its halves joined, so a text without halves reads
back as it was. An escaped unit is read before the text behind it is known, and the reader joins it
with a unit that follows; `consUnit` on the read text therefore has to do what `joinHalves` does on
the text that was written.
-/

namespace CommentTags

namespace CodePoint

theorem ofNat?_toNat (u : CodePoint) : ofNat? u.toNat = some u := by
  cases u with
  | char c =>
    have h : c.toNat.isValidChar := c.valid
    exact dif_pos h
  | half k =>
    have h1 : ¬ (0xD800 + k.val).isValidChar := by
      simp only [Nat.isValidChar]
      omega
    have h2 : 0xD800 ≤ 0xD800 + k.val ∧ 0xD800 + k.val < 0xE000 := by omega
    rw [ofNat?, toNat, dif_neg h1, dif_pos h2]
    simp

theorem toNat_half_lt (k : Fin 2048) : (half k).toNat < 0x10000 := by
  simp only [toNat]
  omega

theorem joined?_eq_none_of_low {first second : Fin 2048} (h : 0x400 ≤ first.val) :
    joined? first second = none := by
  simp only [joined?]
  rw [if_neg (by omega)]

theorem low_of_joined? {first second : Fin 2048} {c : Char} (h : joined? first second = some c) :
    0x400 ≤ second.val := by
  simp only [joined?] at h
  split at h
  · omega
  · cases h

end CodePoint

/-! Hexadecimal digits. -/

theorem hexValue?_digitChar : ∀ n, n < 16 → hexValue? (Nat.digitChar n) = some n := by decide

theorem hexNumber?_hexDigits (w n : Nat) : hexNumber? (hexDigits w n) = some (n % 16 ^ w) := by
  induction w generalizing n with
  | zero => simp [hexNumber?, hexDigits, Nat.mod_one]
  | succ w ih =>
    have hlast : hexValue? (hexDigit n) = some (n % 16) :=
      hexValue?_digitChar _ (Nat.mod_lt _ (by decide))
    have hfront := ih (n / 16)
    simp only [hexNumber?] at hfront ⊢
    rw [hexDigits, List.foldlM_append, hfront]
    simp only [bind, Option.bind, List.foldlM_cons, List.foldlM_nil, hlast, Option.map_some]
    rw [Nat.pow_succ, Nat.mul_comm (16 ^ w) 16, Nat.mod_mul]
    simp only [pure, Option.some.injEq]
    omega

theorem mem_hexDigits {w n : Nat} {c : Char} (h : c ∈ hexDigits w n) :
    ∃ d, d < 16 ∧ c = Nat.digitChar d := by
  induction w generalizing n with
  | zero => simp [hexDigits] at h
  | succ w ih =>
    simp only [hexDigits, List.mem_append, List.mem_singleton] at h
    rcases h with h | h
    · exact ih h
    · exact ⟨n % 16, Nat.mod_lt _ (by decide), h⟩

namespace Json

/-! Joining halves. -/

@[simp]
theorem consUnit_char (paired : Bool) (c : Char) (t : Text) :
    consUnit paired (.char c) t = .char c :: t := by
  cases t <;> rfl

theorem consUnit_low {l : Fin 2048} (h : 0x400 ≤ l.val) (paired : Bool) (t : Text) :
    consUnit paired (.half l) t = .half l :: t := by
  cases t with
  | nil => rfl
  | cons v t =>
    cases v with
    | char c => rfl
    | half k => cases paired <;> simp [consUnit, CodePoint.joined?_eq_none_of_low h]

theorem joinHalves_low {l : Fin 2048} (h : 0x400 ≤ l.val) (t : Text) :
    Text.joinHalves (.half l :: t) = .half l :: Text.joinHalves t := by
  cases t with
  | nil => rfl
  | cons v t =>
    cases v with
    | char c => simp [Text.joinHalves]
    | half k => simp [Text.joinHalves, CodePoint.joined?_eq_none_of_low h]

theorem joinHalves_half_head (l : Fin 2048) (t : Text) :
    (∃ r, Text.joinHalves (.half l :: t) = .half l :: r) ∨
      ∃ c r, Text.joinHalves (.half l :: t) = .char c :: r := by
  cases t with
  | nil => exact .inl ⟨[], rfl⟩
  | cons v t =>
    cases v with
    | char c => exact .inl ⟨Text.joinHalves (.char c :: t), by simp [Text.joinHalves]⟩
    | half k =>
      cases hj : CodePoint.joined? l k with
      | some c => exact .inr ⟨c, Text.joinHalves t, by simp [Text.joinHalves, hj]⟩
      | none => exact .inl ⟨Text.joinHalves (.half k :: t), by simp [Text.joinHalves, hj]⟩

/-- Joining the halves of a text is adding its code points one by one from the right. -/
theorem joinHalves_cons (u : CodePoint) (t : Text) :
    Text.joinHalves (u :: t) = consUnit true u (Text.joinHalves t) := by
  cases u with
  | char c => simp [Text.joinHalves]
  | half h =>
    cases t with
    | nil => rfl
    | cons v t =>
      cases v with
      | char c => simp [Text.joinHalves, consUnit]
      | half l =>
        cases hj : CodePoint.joined? h l with
        | none =>
          rcases joinHalves_half_head l t with ⟨r, hr⟩ | ⟨c, r, hr⟩
          · simp [Text.joinHalves, hj, hr, consUnit]
          · simp [Text.joinHalves, hj, hr, consUnit]
        | some c =>
          -- a second half pairs with nothing behind it, so it is still there to be joined
          simp [Text.joinHalves, hj, joinHalves_low (CodePoint.low_of_joined? hj), consUnit]

theorem half_head_of_joinHalves {t r : Text} {l : Fin 2048}
    (h : Text.joinHalves t = .half l :: r) : ∃ r', t = .half l :: r' := by
  cases t with
  | nil => cases h
  | cons u t =>
    cases u with
    | char c => simp [Text.joinHalves] at h
    | half k =>
      rcases joinHalves_half_head k t with ⟨r', hr⟩ | ⟨c, r', hr⟩
      · rw [hr] at h
        cases h
        exact ⟨t, rfl⟩
      · rw [hr] at h
        cases h

/-! Reading one code point back. -/

theorem readText_plain {c : Char} (hlow : 0x20 ≤ c.toNat) (hq : c ≠ '\x22') (hb : c ≠ '\\')
    (r : Text) :
    readText (.char c :: r) = (readText r).map fun x => (.char c :: x.1, x.2) := by
  have h : ¬ c.toNat < 0x20 := by omega
  rw [readText]
  · simp only [CodePoint.toNat, h, decide_false, Bool.false_or, CodePoint.char.injEq, hb]
    cases readText r <;> rfl
  all_goals simp_all

theorem readText_shortEscape {e c : Char} (hu : e ≠ 'u') (he : escaped? e = some c) (r : Text) :
    readText (.char '\\' :: .char e :: r) =
      (readText r).map fun x => (.char c :: x.1, x.2) := by
  rw [readText]
  · simp only [he, Option.bind_eq_bind, Option.bind_some]
    cases readText r <;> rfl
  · intro _ _ _ _ _ _ h
    exact hu h

theorem readText_unitEscape {u : CodePoint} (h : u.toNat < 0x10000) (r : Text) :
    readText ((unitEscape u.toNat).map .char ++ r) =
      (readText r).map fun x => (consUnit (startsUnit r) u x.1, x.2) := by
  have hmod : u.toNat % 16 ^ 4 = u.toNat := Nat.mod_eq_of_lt h
  have hnum : hexNumber? (hexDigits 4 u.toNat) = some u.toNat := by
    rw [hexNumber?_hexDigits, hmod]
  simp only [hexDigits, List.nil_append, List.cons_append] at hnum
  simp only [unitEscape, hexDigits, List.nil_append, List.cons_append, List.map_cons, List.map_nil,
    readText, hnum, Option.bind_eq_bind, Option.bind_some, CodePoint.ofNat?_toNat]
  cases readText r <;> rfl

/-- A unit that begins with `\u` is recognised as such. -/
theorem startsUnit_escape_half (l : Fin 2048) (r : Text) :
    startsUnit ((escape (.half l)).map .char ++ r) = true := by
  have h := CodePoint.toNat_half_lt l
  simp only [CodePoint.toNat] at h
  simp only [escape, unitEscapes, h, ↓reduceIte, unitEscape, List.map_cons, List.cons_append]
  rfl

/-- Only a half looks at what stands behind it, and it joins nothing but a half. -/
theorem consUnit_paired {paired : Bool} {t : Text}
    (h : ∀ l r, t = .half l :: r → paired = true) (u : CodePoint) :
    consUnit paired u t = consUnit true u t := by
  cases t with
  | nil => cases u <;> rfl
  | cons v t =>
    cases v with
    | char c => cases u <;> rfl
    | half l => rw [h l t rfl]

/-- The halves of a character beyond the 16-bit ones, as they are written. -/
theorem exists_halves {c : Char} (h : ¬ c.toNat < 0x10000) :
    ∃ hi lo : Fin 2048, 0xD800 + (c.toNat - 0x10000) / 0x400 = (CodePoint.half hi).toNat ∧
      0xDC00 + (c.toNat - 0x10000) % 0x400 = (CodePoint.half lo).toNat ∧
      CodePoint.joined? hi lo = some c := by
  have hc : c.toNat < 0xD800 ∨ 0xDFFF < c.toNat ∧ c.toNat < 0x110000 := c.valid
  refine ⟨⟨(c.toNat - 0x10000) / 0x400, by omega⟩,
    ⟨0x400 + (c.toNat - 0x10000) % 0x400, by omega⟩, rfl, by simp only [CodePoint.toNat]; omega, ?_⟩
  have hsum : 0x10000 + 0x400 * ((c.toNat - 0x10000) / 0x400) +
      (0x400 + (c.toNat - 0x10000) % 0x400 - 0x400) = c.toNat := by omega
  simp only [CodePoint.joined?]
  rw [if_pos (by omega), hsum, Char.ofNat_toNat]

theorem readText_unitEscapes {u : CodePoint} {r t rest : Text} (hr : readText r = some (t, rest))
    (hs : ∀ l t', t = .half l :: t' → startsUnit r = true) :
    readText ((unitEscapes u.toNat).map .char ++ r) = some (consUnit true u t, rest) := by
  by_cases hn : u.toNat < 0x10000
  · rw [unitEscapes, if_pos hn, readText_unitEscape hn, hr, ← consUnit_paired hs]
    rfl
  · cases u with
    | half k => exact absurd (CodePoint.toNat_half_lt k) hn
    | char c =>
      simp only [CodePoint.toNat] at hn ⊢
      obtain ⟨hi, lo, hhi, hlo, hjoin⟩ := exists_halves hn
      rw [unitEscapes, if_neg hn, hhi, hlo, List.map_append, List.append_assoc]
      have hlast : readText ((unitEscape (CodePoint.half lo).toNat).map .char ++ r) =
          some (.half lo :: t, rest) := by
        rw [readText_unitEscape (CodePoint.toNat_half_lt lo), hr, Option.map_some,
          consUnit_low (CodePoint.low_of_joined? hjoin)]
      rw [readText_unitEscape (CodePoint.toNat_half_lt hi), hlast, consUnit_char]
      simp [unitEscape, startsUnit, consUnit, hjoin]

/-- A code point is written as a short escape, as itself or as escaped units. -/
theorem escape_cases (u : CodePoint) :
    (∃ e c, u = .char c ∧ escape u = ['\\', e] ∧ e ≠ 'u' ∧ escaped? e = some c) ∨
    (∃ c, u = .char c ∧ escape u = [c] ∧ 0x20 ≤ c.toNat ∧ c.toNat < 0x7F ∧
      c ≠ '\x22' ∧ c ≠ '\\') ∨
    escape u = unitEscapes u.toNat := by
  unfold escape
  split
  · exact .inl ⟨'\x22', '\x22', rfl, rfl, by decide, rfl⟩
  · exact .inl ⟨'\\', '\\', rfl, rfl, by decide, rfl⟩
  · exact .inl ⟨'n', '\n', rfl, rfl, by decide, rfl⟩
  · exact .inl ⟨'r', '\r', rfl, rfl, by decide, rfl⟩
  · exact .inl ⟨'t', '\t', rfl, rfl, by decide, rfl⟩
  · exact .inl ⟨'b', '\x08', rfl, rfl, by decide, rfl⟩
  · exact .inl ⟨'f', '\x0c', rfl, rfl, by decide, rfl⟩
  · rename_i c hq hb _ _ _ _ _
    split
    · rename_i hc
      exact .inr (.inl ⟨c, rfl, rfl, hc.1, hc.2, hq, hb⟩)
    · exact .inr (.inr rfl)
  · exact .inr (.inr rfl)

theorem readText_escape {u : CodePoint} {r t rest : Text} (hr : readText r = some (t, rest))
    (hs : ∀ l t', t = .half l :: t' → startsUnit r = true) :
    readText ((escape u).map .char ++ r) = some (consUnit true u t, rest) := by
  rcases escape_cases u with ⟨e, c, rfl, hesc, hu, he⟩ | ⟨c, rfl, hesc, hlow, _, hq, hb⟩ | hesc
  · rw [hesc, consUnit_char]
    exact (readText_shortEscape hu he r).trans (by rw [hr, Option.map_some])
  · rw [hesc, consUnit_char]
    exact (readText_plain hlow hq hb r).trans (by rw [hr, Option.map_some])
  · rw [hesc]
    exact readText_unitEscapes hr hs

/-- **Texts read back.** What is read is the text with its halves joined. -/
theorem readText_flatMap_escape (t rest : Text) :
    readText ((t.flatMap escape).map .char ++ .char '\x22' :: rest) =
      some (t.joinHalves, rest) := by
  induction t with
  | nil => rfl
  | cons u t ih =>
    rw [List.flatMap_cons, List.map_append, List.append_assoc, joinHalves_cons]
    refine readText_escape ih ?_
    intro l t' hl
    obtain ⟨t'', rfl⟩ := half_head_of_joinHalves hl
    rw [List.flatMap_cons, List.map_append, List.append_assoc]
    exact startsUnit_escape_half l _

/-! Halves in a written text. -/

theorem toNat_of_escaped? {e c : Char} (h : escaped? e = some c) : c.toNat < 0x7F := by
  unfold escaped? at h
  split at h <;> cases h <;> decide

/-- A pair of halves is written as the character that it stands for. -/
theorem escape_joined {hi lo : Fin 2048} {c : Char} (h : CodePoint.joined? hi lo = some c) :
    escape (.char c) = escape (.half hi) ++ escape (.half lo) := by
  unfold CodePoint.joined? at h
  split at h
  · rename_i hrange
    generalize hn : 0x10000 + 0x400 * hi.val + (lo.val - 0x400) = n at h
    have hvalid : n.isValidChar := .inr (by omega)
    have hc : c.toNat = n := by
      rw [← Option.some.inj h, Char.ofNat, dif_pos hvalid]
      rfl
    have hwide : escape (.char c) = unitEscapes c.toNat := by
      rcases escape_cases (.char c) with ⟨e, x, hx, -, -, he⟩ | ⟨x, hx, -, -, hlow, -⟩ | hesc
      · cases hx
        have hsmall := toNat_of_escaped? he
        omega
      · cases hx
        omega
      · exact hesc
    have hhi : escape (.half hi) = unitEscape (0xD800 + hi.val) := by
      rw [escape, unitEscapes, if_pos (by omega)]
    have hlo : escape (.half lo) = unitEscape (0xD800 + lo.val) := by
      rw [escape, unitEscapes, if_pos (by omega)]
    have hfirst : 0xD800 + (n - 0x10000) / 0x400 = 0xD800 + hi.val := by omega
    have hsecond : 0xDC00 + (n - 0x10000) % 0x400 = 0xD800 + lo.val := by omega
    rw [hwide, hhi, hlo, hc, unitEscapes, if_neg (by omega), hfirst, hsecond]
  · cases h

/-- A text is written as if its halves were joined. -/
theorem flatMap_escape_joinHalves (t : Text) : t.joinHalves.flatMap escape = t.flatMap escape := by
  fun_induction Text.joinHalves t with
  | case1 => rfl
  | case2 hi lo r c hjoined ih =>
    rw [List.flatMap_cons, List.flatMap_cons, List.flatMap_cons, ih, escape_joined hjoined,
      List.append_assoc]
  | case3 hi lo r hjoined ih => rw [List.flatMap_cons, ih, ← List.flatMap_cons]
  | case4 c r _ ih => rw [List.flatMap_cons, ih, List.flatMap_cons]

/-! The characters of a written text. -/

/-- Printable ASCII. -/
def isPlainChar (c : Char) : Bool := 0x20 ≤ c.toNat && c.toNat < 0x7F

theorem isPlainChar_of_mem_unitEscapes {n : Nat} {c : Char} (h : c ∈ unitEscapes n) :
    isPlainChar c = true := by
  have hdigit : ∀ d, d < 16 → isPlainChar (Nat.digitChar d) = true := by decide
  have hunit {m : Nat} (hm : c ∈ unitEscape m) : isPlainChar c = true := by
    simp only [unitEscape, List.mem_cons] at hm
    rcases hm with rfl | rfl | hm
    · rfl
    · rfl
    · obtain ⟨d, hd, rfl⟩ := mem_hexDigits hm
      exact hdigit d hd
  unfold unitEscapes at h
  split at h
  · exact hunit h
  · rcases List.mem_append.mp h with h | h
    · exact hunit h
    · exact hunit h

theorem isPlainChar_of_escaped? {e c : Char} (h : escaped? e = some c) : isPlainChar e = true := by
  unfold escaped? at h
  split at h
  all_goals first | rfl | cases h

theorem isPlainChar_of_mem_renderText {t : Text} {c : Char} (h : c ∈ renderText t) :
    isPlainChar c = true := by
  simp only [renderText, List.mem_cons, List.mem_append, List.mem_flatMap, List.not_mem_nil,
    or_false] at h
  rcases h with rfl | ⟨u, -, hc⟩ | rfl
  · rfl
  · rcases escape_cases u with ⟨e, x, -, hesc, -, he⟩ | ⟨x, -, hesc, hlow, hhigh, -⟩ | hesc
    · rw [hesc] at hc
      simp only [List.mem_cons, List.not_mem_nil, or_false] at hc
      rcases hc with rfl | rfl
      · rfl
      · exact isPlainChar_of_escaped? he
    · rw [hesc, List.mem_singleton] at hc
      simp [isPlainChar, hc, hlow, hhigh]
    · rw [hesc] at hc
      exact isPlainChar_of_mem_unitEscapes hc
  · rfl

end Json
end CommentTags
