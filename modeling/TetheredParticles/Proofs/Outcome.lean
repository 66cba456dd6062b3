import Mathlib.Data.List.Forall2
import TetheredParticles.Island.Workspace
/-!
# How computations end

A computation that can fail either has a result or meets a fault. `Ends x fails holds` says of
both endings what is known: a result satisfies `holds`, a fault satisfies `fails`. The rules
below follow the shape of programs, so that a statement about a whole computation is assembled
from statements about its parts.

* `Ends.bind`, `Ends.mono` — sequencing, and weakening.
* `Ends.foldlM`, `Ends.repeatAction` — loops that keep an invariant.
* `Ends.exists_ok` — where no fault is possible there is a result.
-/

namespace TetheredParticles

/-- A computation goes on with its result. -/
@[simp]
theorem ok_bind {α β : Type} (a : α) (f : α → Except Fault β) : (Except.ok a >>= f) = f a := rfl

/-- What comes of a sequence comes of its parts. -/
theorem exists_of_bind_ok {E α β : Type} {x : Except E α} {f : α → Except E β} {b : β}
    (h : (x >>= f) = .ok b) : ∃ a, x = .ok a ∧ f a = .ok b := by
  cases x with
  | error e => cases h
  | ok a => exact ⟨a, rfl, h⟩

/-- What comes of a list comes of each of its elements. -/
theorem exists_of_mapM_ok {E α β : Type} {f : α → Except E β} {xs : List α} {ys : List β}
    (h : xs.mapM f = .ok ys) {x : α} (hx : x ∈ xs) : ∃ y, f x = .ok y := by
  induction xs generalizing ys with
  | nil => cases hx
  | cons first rest ih =>
    rw [List.mapM_cons] at h
    rcases exists_of_bind_ok h with ⟨y, hy, h⟩
    rcases exists_of_bind_ok h with ⟨others, hothers, _⟩
    rcases List.mem_cons.mp hx with rfl | hx
    · exact ⟨y, hy⟩
    · exact ih hothers hx

/-- A result satisfies `holds`, and a fault satisfies `fails`. -/
def Ends {α : Type} (x : Except Fault α) (fails : Fault → Prop) (holds : α → Prop) : Prop :=
  match x with
  | .ok a => holds a
  | .error f => fails f

/-- No fault is possible. -/
def never : Fault → Prop := fun _ => False

instance : DecidablePred never := fun _ => inferInstanceAs (Decidable False)

/-- A computation may be run to see how it ends. -/
instance {α : Type} (x : Except Fault α) (fails : Fault → Prop) (holds : α → Prop)
    [DecidablePred fails] [DecidablePred holds] : Decidable (Ends x fails holds) :=
  match x with
  | .ok a => inferInstanceAs (Decidable (holds a))
  | .error f => inferInstanceAs (Decidable (fails f))

namespace Ends

variable {α β : Type} {x : Except Fault α} {fails fails' : Fault → Prop}

theorem ok {a : α} {holds : α → Prop} (h : holds a) : Ends (.ok a) fails holds := h

theorem pure {a : α} {holds : α → Prop} (h : holds a) :
    Ends (Pure.pure a : Except Fault α) fails holds := h

theorem error {f : Fault} {holds : α → Prop} (h : fails f) : Ends (.error f) fails holds := h

theorem mono {holds holds' : α → Prop} (hx : Ends x fails holds)
    (hf : ∀ f, fails f → fails' f) (hh : ∀ a, holds a → holds' a) : Ends x fails' holds' := by
  cases x with
  | ok a => exact hh a hx
  | error f => exact hf f hx

/-- Only what is known of results is weakened. -/
theorem weaken {holds holds' : α → Prop} (hx : Ends x fails holds)
    (hh : ∀ a, holds a → holds' a) : Ends x fails holds' :=
  hx.mono (fun _ h => h) hh

/-- What is known of an ending in two ways. -/
theorem and {A B : α → Prop} (hx : Ends x fails A) (k : Ends x fails' B) :
    Ends x fails fun a => A a ∧ B a := by
  cases x with
  | ok a => exact ⟨hx, k⟩
  | error f => exact hx

/-- A computation that never fails may be used where faults are possible. -/
theorem ofNever {holds : α → Prop} (hx : Ends x never holds) : Ends x fails holds :=
  hx.mono (fun _ h => h.elim) fun _ h => h

theorem bind {f : α → Except Fault β} {M : α → Prop} {holds : β → Prop}
    (hx : Ends x fails M) (hf : ∀ a, M a → Ends (f a) fails holds) :
    Ends (x >>= f) fails holds := by
  cases x with
  | ok a => exact hf a hx
  | error e => exact hx

/-- What follows a computation may refer to its result. -/
theorem bind_eq {f : α → Except Fault β} {M : α → Prop} {holds : β → Prop}
    (hx : Ends x fails M) (hf : ∀ a, x = .ok a → M a → Ends (f a) fails holds) :
    Ends (x >>= f) fails holds := by
  cases x with
  | ok a => exact hf a rfl hx
  | error e => exact hx

theorem map {f : α → β} {holds : β → Prop} (hx : Ends x fails fun a => holds (f a)) :
    Ends (f <$> x) fails holds := by
  cases x with
  | ok a => exact hx
  | error e => exact hx

theorem of_map {f : α → β} {holds : β → Prop} (h : Ends (f <$> x) fails holds) :
    Ends x fails fun a => holds (f a) := by
  cases x with
  | ok a => exact h
  | error e => exact h

theorem of_eq_ok {a : α} {holds : α → Prop} (hx : x = .ok a) (h : holds a) :
    Ends x fails holds := by
  rw [hx]
  exact h

theorem holds_of_eq {a : α} {holds : α → Prop} (h : Ends x fails holds) (hx : x = .ok a) :
    holds a := by
  rw [hx] at h
  exact h

theorem fails_of_eq {f : Fault} {holds : α → Prop} (h : Ends x fails holds)
    (hx : x = .error f) : fails f := by
  rw [hx] at h
  exact h

/-- Where no fault is possible there is a result. -/
theorem exists_ok {holds : α → Prop} (h : Ends x fails holds) (hn : ∀ f, ¬ fails f) :
    ∃ a, x = .ok a ∧ holds a := by
  cases x with
  | ok a => exact ⟨a, rfl, h⟩
  | error f => exact absurd h (hn f)

theorem exists_of_isOk {holds : α → Prop} (h : Ends x fails holds) (hx : x.isOk = true) :
    ∃ a, x = .ok a ∧ holds a := by
  cases x with
  | ok a => exact ⟨a, rfl, h⟩
  | error f => cases hx

/-- A loop over a list: `I done a` holds after the elements in `done`. -/
theorem foldlM {γ : Type} {f : α → γ → Except Fault α} {I : List γ → α → Prop}
    {xs : List γ} {a : α} (h₀ : I [] a)
    (hf : ∀ done x rest b, xs = done ++ x :: rest → I done b →
      Ends (f b x) fails (I (done ++ [x]))) :
    Ends (xs.foldlM f a) fails (I xs) := by
  suffices h : ∀ rest done b, xs = done ++ rest → I done b →
      Ends (rest.foldlM f b) fails (I xs) from h xs [] a rfl h₀
  intro rest
  induction rest with
  | nil =>
    intro done b hxs hb
    rw [List.append_nil] at hxs
    exact hxs ▸ hb
  | cons x rest ih =>
    intro done b hxs hb
    rw [List.foldlM_cons]
    exact (hf done x rest b hxs hb).bind fun c hc => ih (done ++ [x]) c (by simp [hxs]) hc

/-- A loop over a list that keeps an invariant. -/
theorem foldlM_keeps {γ : Type} {f : α → γ → Except Fault α} {I : α → Prop}
    {xs : List γ} {a : α} (h₀ : I a)
    (hf : ∀ b, ∀ x ∈ xs, I b → Ends (f b x) fails I) :
    Ends (xs.foldlM f a) fails I :=
  foldlM (I := fun _ => I) h₀ fun _ x _ b hxs hb => hf b x (by simp [hxs]) hb

/-- Every element of a list is transformed. -/
theorem mapM {γ : Type} {f : γ → Except Fault α} {R : γ → α → Prop} {xs : List γ}
    (hf : ∀ x ∈ xs, Ends (f x) fails (R x)) :
    Ends (xs.mapM f) fails fun ys => List.Forall₂ R xs ys := by
  induction xs with
  | nil => exact List.Forall₂.nil
  | cons x xs ih =>
    rw [List.mapM_cons]
    refine (hf x (by simp)).bind fun y hy => ?_
    refine (ih fun z hz => hf z (by simp [hz])).bind fun ys hys => ?_
    exact List.Forall₂.cons hy hys

/-- A repeated action that keeps an invariant. -/
theorem repeatAction {action : α → Except Fault α} {I : α → Prop}
    (hf : ∀ a, I a → Ends (action a) fails I) (n : Nat) {a : α} (h₀ : I a) :
    Ends (repeatAction action n a) fails I := by
  induction n generalizing a with
  | zero => exact h₀
  | succ n ih => exact (hf a h₀).bind fun b hb => ih hb

end Ends

/-- Every element of a list has a counterpart in a related one. -/
theorem exists_of_forall₂ {α β : Type} {R : α → β → Prop} {xs : List α} {ys : List β}
    (h : List.Forall₂ R xs ys) {x : α} (hx : x ∈ xs) : ∃ y ∈ ys, R x y := by
  induction h with
  | nil => cases hx
  | cons hxy _ ih =>
    rcases List.mem_cons.mp hx with rfl | hx
    · exact ⟨_, List.mem_cons_self .., hxy⟩
    · obtain ⟨y, hy, hr⟩ := ih hx
      exact ⟨y, List.mem_cons_of_mem _ hy, hr⟩

end TetheredParticles
