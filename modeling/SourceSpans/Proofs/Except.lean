import Mathlib.Tactic.TypeStar

/-!
# Steps that may fail

A step after another one is reached only if the first one ends well. These are the two directions in
which this is used: a result goes back to the results of both steps, and an error to the step that
made it. What each step keeps is kept by all of them (`of_foldlM_eq_ok`), and two runs of steps may be
compared step by step (`Agree`).
-/

namespace SourceSpans

variable {α β γ δ ε : Type*} {x : Except ε α}

theorem bind_eq_ok {f : α → Except ε β} {b : β} (h : x.bind f = .ok b) :
    ∃ a, x = .ok a ∧ f a = .ok b := by
  rcases x with e | a
  · cases h
  · exact ⟨a, rfl, h⟩

theorem mapError_eq_ok {f : ε → δ} {a : α} (h : x.mapError f = .ok a) : x = .ok a := by
  rcases x with e | b
  · cases h
  · obtain rfl : b = a := Except.ok.inj h
    rfl

theorem bind_eq_error {f : α → Except ε β} {e : ε} (h : x.bind f = .error e) :
    x = .error e ∨ ∃ a, x = .ok a ∧ f a = .error e := by
  rcases x with e' | a
  · obtain rfl := Except.error.inj h
    exact Or.inl rfl
  · exact Or.inr ⟨a, rfl, h⟩

/-- Steps for each of several things, none of which fails. -/
theorem mapM_eq_ok {f : α → Except ε β} {f' : α → β} {l : List α} (h : ∀ a ∈ l, f a = .ok (f' a)) :
    l.mapM f = .ok (l.map f') := by
  induction l with
  | nil => rfl
  | cons a l ih =>
    rw [List.mapM_cons, h a List.mem_cons_self, ih fun b hb => h b (List.mem_cons_of_mem a hb)]
    rfl

/-- Each result of steps for several things is the result of the step for one of them. -/
theorem exists_of_mem_mapM {f : α → Except ε β} {l : List α} {l' : List β} {b : β}
    (h : l.mapM f = .ok l') (hb : b ∈ l') : ∃ a ∈ l, f a = .ok b := by
  induction l generalizing l' with
  | nil =>
    obtain rfl : [] = l' := Except.ok.inj h
    cases hb
  | cons a l ih =>
    rw [List.mapM_cons] at h
    obtain ⟨b', hb', h⟩ := bind_eq_ok h
    obtain ⟨rest, hrest, h⟩ := bind_eq_ok h
    obtain rfl : b' :: rest = l' := Except.ok.inj h
    rcases List.mem_cons.1 hb with rfl | hb
    · exact ⟨a, List.mem_cons_self, hb'⟩
    · obtain ⟨c, hc, hcb⟩ := ih hrest hb
      exact ⟨c, List.mem_cons_of_mem a hc, hcb⟩

/-- What holds at first and is kept by each step holds in the end. -/
theorem of_foldlM_eq_ok {P : β → Prop} {f : β → α → Except ε β} {l : List α} {b b' : β}
    (h : l.foldlM f b = .ok b') (hb : P b) (hstep : ∀ a b b', P b → f b a = .ok b' → P b') : P b' := by
  induction l generalizing b with
  | nil =>
    obtain rfl : b = b' := Except.ok.inj h
    exact hb
  | cons a l ih =>
    rw [List.foldlM_cons] at h
    obtain ⟨c, hc, h⟩ := bind_eq_ok h
    exact ih h (hstep a b c hb hc)

/-- Two results are both good and related, or they are the same error. -/
inductive Agree (R : α → β → Prop) : Except ε α → Except ε β → Prop
  | ok {a : α} {b : β} (h : R a b) : Agree R (.ok a) (.ok b)
  | error (e : ε) : Agree R (.error e) (.error e)

namespace Agree

variable {R : α → β → Prop} {y : Except ε β}

theorem bind {S : γ → δ → Prop} {f : α → Except ε γ} {f' : β → Except ε δ} (h : Agree R x y)
    (hf : ∀ a b, R a b → Agree S (f a) (f' b)) : Agree S (x.bind f) (y.bind f') := by
  cases h with
  | ok hab => exact hf _ _ hab
  | error e => exact .error e

theorem exists_of_left_eq_ok (h : Agree R x y) {a : α} (ha : x = .ok a) : ∃ b, y = .ok b ∧ R a b := by
  subst ha
  cases h with
  | ok hab => exact ⟨_, rfl, hab⟩

theorem exists_of_right_eq_ok (h : Agree R x y) {b : β} (hb : y = .ok b) : ∃ a, x = .ok a ∧ R a b := by
  subst hb
  cases h with
  | ok hab => exact ⟨_, rfl, hab⟩

end Agree

end SourceSpans
