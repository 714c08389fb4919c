import Mathlib.Logic.Function.Basic

/-!
# What an update leaves

A map updated at one place holds the new value there and the old ones elsewhere.
-/

open Function (update update_of_ne update_self)

variable {K V W : Type*} [DecidableEq K] {f : K → V} {a b : K} {v : V}

/-- What an updated map holds somewhere is the new value at its place, or an old one elsewhere. -/
theorem update_holds (p : V → Prop) (h : p (update f a v b)) : b = a ∧ p v ∨ b ≠ a ∧ p (f b) := by
  by_cases hb : b = a
  · rw [hb, update_self] at h
    exact .inl ⟨hb, h⟩
  · rw [update_of_ne hb] at h
    exact .inr ⟨hb, h⟩

theorem update_cases {w : V} (h : update f a v b = w) : b = a ∧ v = w ∨ b ≠ a ∧ f b = w :=
  update_holds (· = w) h

/-- An update keeps everywhere what the new value has in common with the old one. -/
theorem update_keeps (g : V → W) (h : g v = g (f a)) (b : K) : g (update f a v b) = g (f b) := by
  by_cases hb : b = a
  · rw [hb, update_self, h]
  · rw [update_of_ne hb]
