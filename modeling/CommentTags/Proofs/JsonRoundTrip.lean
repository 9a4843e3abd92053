import CommentTags.Proofs.JsonText
import Mathlib.Data.List.Forall2

/-!
JSON values read back from their text. `ReadsBack` holds of a text, and of an array or an object
if it holds of the parts; numbers are left out, since what follows them can continue their text.
-/

namespace CommentTags
namespace Json

/-- A text, an array or an object begins here. -/
def Opens (cs : List Char) : Prop := ∃ c r, cs = c :: r ∧ (c = '\x22' ∨ c = '[' ∨ c = '{')

/-- The text of `v` begins with a quote or an opening bracket, is plain, and reads as `w` whatever
follows it, as long as `d` more brackets may be opened. -/
structure ReadsBack (d : Nat) (v w : Json) : Prop where
  opens : Opens (render v)
  plain : ∀ c ∈ render v, isPlainChar c
  reads : ∀ n depth rest, (render v).length ≤ n → d ≤ depth →
    readValue n depth ((render v).map .char ++ rest) = .ok (w, rest)

theorem skipGap_cons {c : CodePoint} (h : isGap c = false) (t : Text) :
    skipGap (c :: t) = c :: t := by
  simp [skipGap, h]

theorem Opens.skipGap {cs : List Char} (h : Opens cs) (rest : Text) :
    skipGap (cs.map .char ++ rest) = cs.map .char ++ rest := by
  obtain ⟨c, r, rfl, hc⟩ := h
  apply skipGap_cons
  rcases hc with rfl | rfl | rfl <;> rfl

theorem Opens.length_pos {cs : List Char} (h : Opens cs) : 0 < cs.length := by
  obtain ⟨c, r, rfl, -⟩ := h
  simp

theorem Opens.append {cs : List Char} (h : Opens cs) (ds : List Char) : Opens (cs ++ ds) := by
  obtain ⟨c, r, rfl, hc⟩ := h
  exact ⟨c, r ++ ds, rfl, hc⟩

theorem opens_renderText (t : Text) : Opens (renderText t) := ⟨'\x22', _, rfl, .inl rfl⟩

theorem readsBack_str (d : Nat) (t : Text) : ReadsBack d (.str t) (.str t.joinHalves) where
  opens := opens_renderText t
  plain _ hc := isPlainChar_of_mem_renderText hc
  reads n depth rest hn _ := by
    cases n with
    | zero => simp [render, renderText] at hn
    | succ n =>
      simp only [render, renderText, List.map_cons, List.map_append, List.map_nil,
        List.cons_append, List.append_assoc, List.nil_append, readValue]
      rw [readText_flatMap_escape]

/-! Arrays. -/

theorem readItems_last {n depth : Nat} {s rest : Text} {v : Json}
    (h : readValue n depth s = .ok (v, .char ']' :: rest)) :
    readItems (n + 1) depth s = .ok ([v], rest) := by
  simp only [readItems, h, bind, Except.bind]
  rw [skipGap_cons rfl]
  rfl

theorem readItems_next {n depth : Nat} {s r rest : Text} {v : Json} {vs : List Json}
    (h : readValue n depth s = .ok (v, .char ',' :: r))
    (hr : readItems n depth (skipGap r) = .ok (vs, rest)) :
    readItems (n + 1) depth s = .ok (v :: vs, rest) := by
  simp only [readItems, h, bind, Except.bind]
  rw [skipGap_cons rfl]
  simp only [hr]

theorem readValue_array {n depth : Nat} {cs : List Char} {r rest : Text} {vs : List Json}
    (hcs : Opens cs) (h : readItems n depth (cs.map .char ++ r) = .ok (vs, rest)) :
    readValue (n + 1) (depth + 1) (.char '[' :: (cs.map .char ++ r)) = .ok (array vs, rest) := by
  simp only [readValue]
  rw [hcs.skipGap]
  obtain ⟨c, cs, rfl, hc⟩ := hcs
  split
  · rename_i heq
    cases heq
    simp at hc
  · simp only [h, bind, Except.bind]

theorem opens_renderItems {d : Nat} {v w : Json} (h : ReadsBack d v w) (vs : List Json) :
    Opens (renderItems (v :: vs)) := by
  cases vs with
  | nil => simpa [renderItems] using h.opens
  | cons v' vs => simpa [renderItems] using h.opens.append _

/-- **Items read back**, up to the bracket that closes them. -/
theorem readItems_renderItems {d : Nat} {vs ws : List Json} (h : List.Forall₂ (ReadsBack d) vs ws)
    (hne : vs ≠ []) (n depth : Nat) (rest : Text) (hn : (renderItems vs).length < n)
    (hd : d ≤ depth) :
    readItems n depth ((renderItems vs).map .char ++ .char ']' :: rest) = .ok (ws, rest) := by
  induction h generalizing n with
  | nil => exact absurd rfl hne
  | @cons v w vs ws hv hvs ih =>
    obtain ⟨n, rfl⟩ : ∃ m, n = m + 1 := ⟨n - 1, by omega⟩
    cases hvs with
    | nil =>
      rw [renderItems] at hn ⊢
      exact readItems_last (hv.reads n depth _ (by omega) hd)
    | cons hv' hvs =>
      rw [renderItems] at hn ⊢
      simp only [List.length_append, List.length_cons, List.map_append, List.map_cons,
        List.append_assoc, List.cons_append] at hn ⊢
      have hpos := hv.opens.length_pos
      refine readItems_next (hv.reads n depth _ (by omega) hd) ?_
      rw [(opens_renderItems hv' _).skipGap]
      exact ih (by simp) n (by omega)

theorem plain_renderItems {d : Nat} {vs ws : List Json} (h : List.Forall₂ (ReadsBack d) vs ws) :
    ∀ c ∈ renderItems vs, isPlainChar c := by
  induction h with
  | nil => simp [renderItems]
  | cons hv hvs ih =>
    cases hvs with
    | nil =>
      rw [renderItems]
      exact hv.plain
    | cons hv' hvs =>
      rw [renderItems]
      intro c hc
      rcases List.mem_append.mp hc with hc | hc
      · exact hv.plain c hc
      · rcases List.mem_cons.mp hc with rfl | hc
        · rfl
        · exact ih c hc

theorem readsBack_array {d : Nat} {vs ws : List Json} (h : List.Forall₂ (ReadsBack d) vs ws) :
    ReadsBack (d + 1) (.array vs) (.array ws) where
  opens := ⟨'[', _, by rw [render], .inr (.inl rfl)⟩
  plain c hc := by
    simp only [render, List.mem_cons, List.mem_append, List.not_mem_nil, or_false] at hc
    rcases hc with rfl | hc | rfl
    · rfl
    · exact plain_renderItems h c hc
    · rfl
  reads n depth rest hn hd := by
    simp only [render, List.length_cons, List.length_append, List.map_cons, List.map_append,
      List.map_nil, List.cons_append, List.append_assoc, List.nil_append] at hn ⊢
    obtain ⟨n, rfl⟩ : ∃ m, n = m + 1 := ⟨n - 1, by omega⟩
    obtain ⟨depth, rfl⟩ : ∃ m, depth = m + 1 := ⟨depth - 1, by omega⟩
    cases h with
    | nil => rfl
    | cons hv hvs =>
      exact readValue_array (opens_renderItems hv _)
        (readItems_renderItems (.cons hv hvs) (by simp) n depth rest (by omega) (by omega))

/-! Objects. -/

theorem setField_of_not_mem {key : Text} {seen : List (Text × Json)}
    (h : key ∉ seen.map Prod.fst) (v : Json) : setField key v seen = seen ++ [(key, v)] := by
  induction seen with
  | nil => rfl
  | cons f seen ih =>
    obtain ⟨k, w⟩ := f
    simp only [List.map_cons, List.mem_cons, not_or] at h
    rw [setField, if_neg (Ne.symm h.1), ih h.2]
    rfl

theorem readFields_last {n depth : Nat} {seen : List (Text × Json)} {s key r rest : Text}
    {v : Json} (hkey : readText s = some (key, .char ':' :: r)) (hr : skipGap r = r)
    (h : readValue n depth r = .ok (v, .char '}' :: rest)) :
    readFields (n + 1) depth seen (.char '\x22' :: s) = .ok (setField key v seen, rest) := by
  simp only [readFields, hkey]
  rw [skipGap_cons rfl]
  simp only [hr, h, bind, Except.bind]
  rw [skipGap_cons rfl]
  rfl

theorem readFields_next {n depth : Nat} {seen : List (Text × Json)} {s key r rest : Text}
    {v : Json} (hkey : readText s = some (key, .char ':' :: r)) (hr : skipGap r = r)
    (h : readValue n depth r = .ok (v, .char ',' :: rest)) :
    readFields (n + 1) depth seen (.char '\x22' :: s) =
      readFields n depth (setField key v seen) (skipGap rest) := by
  rw [readFields]
  simp only [hkey]
  rw [skipGap_cons rfl]
  simp only [hr, h, bind, Except.bind]
  rw [skipGap_cons rfl]
  rfl

theorem readValue_object {n depth : Nat} {cs : List Char} {r rest : Text}
    {fs : List (Text × Json)} (hcs : Opens cs)
    (h : readFields n depth [] (cs.map .char ++ r) = .ok (fs, rest)) :
    readValue (n + 1) (depth + 1) (.char '{' :: (cs.map .char ++ r)) = .ok (object fs, rest) := by
  simp only [readValue]
  rw [hcs.skipGap]
  obtain ⟨c, cs, rfl, hc⟩ := hcs
  split
  · rename_i heq
    cases heq
    simp at hc
  · simp only [h, bind, Except.bind]

theorem opens_renderFields (f : Text × Json) (fs : List (Text × Json)) :
    Opens (renderFields (f :: fs)) := by
  obtain ⟨k, v⟩ := f
  cases fs with
  | nil => simpa [renderFields] using (opens_renderText k).append _
  | cons f' fs => simpa [renderFields] using (opens_renderText k).append _

/-- A field reads back if its value does. -/
def FieldReadsBack (d : Nat) (f g : Text × Json) : Prop :=
  f.1.joinHalves = g.1 ∧ ReadsBack d f.2 g.2

/-- **Fields read back**, up to the brace that closes them and behind the fields seen before. -/
theorem readFields_renderFields {d : Nat} {fs gs : List (Text × Json)}
    (h : List.Forall₂ (FieldReadsBack d) fs gs) (hne : fs ≠ []) (n depth : Nat)
    (seen : List (Text × Json)) (rest : Text) (hkeys : ((seen ++ gs).map Prod.fst).Nodup)
    (hn : (renderFields fs).length < n) (hd : d ≤ depth) :
    readFields n depth seen ((renderFields fs).map .char ++ .char '}' :: rest) =
      .ok (seen ++ gs, rest) := by
  induction h generalizing n seen with
  | nil => exact absurd rfl hne
  | @cons f g fs gs hf hfs ih =>
    obtain ⟨k, v⟩ := f
    obtain ⟨k', w⟩ := g
    obtain rfl : k.joinHalves = k' := hf.1
    have hv : ReadsBack d v w := hf.2
    obtain ⟨n, rfl⟩ : ∃ m, n = m + 1 := ⟨n - 1, by omega⟩
    have hset : setField k.joinHalves w seen = seen ++ [(k.joinHalves, w)] := by
      apply setField_of_not_mem
      rw [List.map_append, List.nodup_append] at hkeys
      intro hmem
      exact hkeys.2.2 _ hmem _ (by simp) rfl
    cases hfs with
    | nil =>
      rw [renderFields] at hn ⊢
      simp only [renderText, List.length_append, List.length_cons, List.map_append, List.map_cons,
        List.append_assoc, List.cons_append, List.nil_append] at hn ⊢
      rw [← hset]
      exact readFields_last (readText_flatMap_escape k _) (hv.opens.skipGap _)
        (hv.reads n depth _ (by omega) hd)
    | @cons f' g' fs gs hf' hfs =>
      rw [renderFields] at hn ⊢
      simp only [renderText, List.length_append, List.length_cons, List.map_append, List.map_cons,
        List.append_assoc, List.cons_append, List.nil_append] at hn ⊢
      rw [readFields_next (readText_flatMap_escape k _) (hv.opens.skipGap _)
        (hv.reads n depth _ (by omega) hd), (opens_renderFields _ _).skipGap, hset]
      have hrest := ih (by simp) n (seen ++ [(k.joinHalves, w)]) (by simpa using hkeys) (by omega)
      simpa using hrest

theorem plain_renderFields {d : Nat} {fs gs : List (Text × Json)}
    (h : List.Forall₂ (FieldReadsBack d) fs gs) : ∀ c ∈ renderFields fs, isPlainChar c := by
  induction h with
  | nil => simp [renderFields]
  | @cons f g fs gs hf hfs ih =>
    obtain ⟨k, v⟩ := f
    have hv : ReadsBack d v g.2 := hf.2
    intro c hc
    cases hfs with
    | nil =>
      simp only [renderFields, List.mem_append, List.mem_cons] at hc
      rcases hc with hc | rfl | hc
      · exact isPlainChar_of_mem_renderText hc
      · rfl
      · exact hv.plain c hc
    | cons hf' hfs =>
      simp only [renderFields, List.mem_append, List.mem_cons] at hc
      rcases hc with hc | rfl | hc | rfl | hc
      · exact isPlainChar_of_mem_renderText hc
      · rfl
      · exact hv.plain c hc
      · rfl
      · exact ih c hc

theorem readsBack_object {d : Nat} {fs gs : List (Text × Json)}
    (h : List.Forall₂ (FieldReadsBack d) fs gs) (hkeys : (gs.map Prod.fst).Nodup) :
    ReadsBack (d + 1) (.object fs) (.object gs) where
  opens := ⟨'{', _, by rw [render], .inr (.inr rfl)⟩
  plain c hc := by
    simp only [render, List.mem_cons, List.mem_append, List.not_mem_nil, or_false] at hc
    rcases hc with rfl | hc | rfl
    · rfl
    · exact plain_renderFields h c hc
    · rfl
  reads n depth rest hn hd := by
    simp only [render, List.length_cons, List.length_append, List.map_cons, List.map_append,
      List.map_nil, List.cons_append, List.append_assoc, List.nil_append] at hn ⊢
    obtain ⟨n, rfl⟩ : ∃ m, n = m + 1 := ⟨n - 1, by omega⟩
    obtain ⟨depth, rfl⟩ : ∃ m, depth = m + 1 := ⟨depth - 1, by omega⟩
    cases h with
    | nil => rfl
    | cons hf hfs =>
      exact readValue_object (opens_renderFields _ _)
        (readFields_renderFields (.cons hf hfs) (by simp) n depth [] rest hkeys (by omega)
          (by omega))

/-- **Values read back** from the whole of their text. -/
theorem read_render {d : Nat} {v w : Json} (h : ReadsBack d v w) (hd : d ≤ maxDepth) :
    read ((render v).map .char) = .ok w := by
  have hgap := h.opens.skipGap []
  have hreads := h.reads (2 * (render v).length + 2) maxDepth [] (by omega) hd
  rw [List.append_nil] at hgap hreads
  simp only [read, List.length_map, hgap, hreads, bind, Except.bind]
  rfl

/-! Values that are written alike. -/

theorem renderItems_congr {vs ws : List Json}
    (h : List.Forall₂ (fun v w => render v = render w) vs ws) : renderItems vs = renderItems ws := by
  induction h with
  | nil => rfl
  | cons hv hrest ih =>
    cases hrest with
    | nil => rw [renderItems, renderItems, hv]
    | cons hw hrest => rw [renderItems, renderItems, hv, ih]

theorem renderFields_congr {fs gs : List (Text × Json)}
    (h : List.Forall₂ (fun f g => f.1 = g.1 ∧ render f.2 = render g.2) fs gs) :
    renderFields fs = renderFields gs := by
  induction h with
  | nil => rfl
  | @cons f g fs gs hf hrest ih =>
    obtain ⟨k, v⟩ := f
    obtain ⟨k', w⟩ := g
    obtain ⟨rfl, hv⟩ := hf
    cases hrest with
    | nil => rw [renderFields, renderFields, hv]
    | cons hg hrest => rw [renderFields, renderFields, hv, ih]

theorem render_str_joinHalves (t : Text) : render (.str t.joinHalves) = render (.str t) := by
  rw [render, render, renderText, renderText, flatMap_escape_joinHalves]

end Json
end CommentTags
