import Mathlib.Data.List.Forall2
import CommentTags.Failure

/-!
Computations that may fail: what it takes for one to succeed, step by step or along a list, and
those that refuse their input or take it but never meet a fault.
-/

namespace CommentTags

/-! Success. -/

theorem ok_of_bind {ε α β : Type} {x : Except ε α} {f : α → Except ε β} {b : β}
    (h : x >>= f = .ok b) : ∃ a, x = .ok a ∧ f a = .ok b := by
  cases x with
  | error e => cases h
  | ok a => exact ⟨a, rfl, h⟩

theorem bind_eq_ok {ε α β : Type} {x : Except ε α} {f : α → Except ε β} {b : β} :
    x >>= f = .ok b ↔ ∃ a, x = .ok a ∧ f a = .ok b := by
  constructor
  · exact ok_of_bind
  · rintro ⟨a, rfl, h⟩
    exact h

theorem ok_of_toOption {ε α : Type} {x : Except ε α} {a : α} (h : x.toOption = some a) :
    x = .ok a := by
  cases x with
  | error e => cases h
  | ok b =>
    cases h
    rfl

theorem mapM_eq_ok {ε α β : Type} {f : β → Except ε α} {l : List β} {r : List α} :
    l.mapM f = .ok r ↔ List.Forall₂ (fun b a => f b = .ok a) l r := by
  induction l generalizing r with
  | nil =>
    constructor
    · intro h
      cases h
      exact .nil
    · intro h
      cases h
      rfl
  | cons b l ih =>
    rw [List.mapM_cons]
    constructor
    · intro h
      obtain ⟨a, hb, h⟩ := ok_of_bind h
      obtain ⟨as, hl, h⟩ := ok_of_bind h
      cases h
      exact .cons hb (ih.mp hl)
    · intro h
      cases h with
      | cons hb hl =>
        rw [hb, ih.mpr hl]
        rfl

/-! Faults. -/

/-- Refuses its input or takes it, without a fault. -/
def Faultless {ε α : Type} (x : Except (Failure ε) α) : Prop := ∀ f, x ≠ .error (.fault f)

theorem faultless_ok {ε α : Type} (a : α) : Faultless (.ok a : Except (Failure ε) α) := by
  intro f h
  cases h

theorem faultless_refused {ε α : Type} (e : ε) :
    Faultless (.error (.refused e) : Except (Failure ε) α) := by
  intro f h
  cases h

theorem Faultless.bind {ε α β : Type} {x : Except (Failure ε) α} {k : α → Except (Failure ε) β}
    (hx : Faultless x) (hk : ∀ a, Faultless (k a)) : Faultless (x >>= k) := by
  intro f h
  cases x with
  | error e =>
    cases h
    exact hx f rfl
  | ok a => exact hk a f h

theorem faultless_mapM {ε α β : Type} {f : β → Except (Failure ε) α}
    (hf : ∀ b, Faultless (f b)) (l : List β) : Faultless (l.mapM f) := by
  induction l with
  | nil => exact faultless_ok _
  | cons b l ih =>
    rw [List.mapM_cons]
    refine (hf b).bind fun a => ?_
    refine ih.bind fun as => ?_
    exact faultless_ok _

theorem exists_refused_of_faultless {ε α : Type} {x : Except (Failure ε) α} (hx : Faultless x)
    (h : ∀ a, x ≠ .ok a) : ∃ e, x = .error (.refused e) := by
  match x with
  | .ok a => exact absurd rfl (h a)
  | .error (.refused e) => exact ⟨e, rfl⟩
  | .error (.fault f) => exact absurd rfl (hx f)

end CommentTags
