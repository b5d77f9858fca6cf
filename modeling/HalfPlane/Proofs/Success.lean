/-
Computations that may fail: when they give a result, and what their steps gave then.
-/
import HalfPlane.Fault

namespace HalfPlane

/-- A computation gives a result. -/
def Succeeds {β : Type} (x : Except Fault β) : Prop := ∃ r, x = .ok r

namespace Succeeds
variable {β γ : Type}

theorem ok (r : β) : Succeeds (.ok r) := ⟨r, rfl⟩

theorem pure (r : β) : Succeeds (Pure.pure r) := ⟨r, rfl⟩

theorem bind {x : Except Fault β} {f : β → Except Fault γ} (hx : Succeeds x)
    (hf : ∀ r, Succeeds (f r)) : Succeeds (x >>= f) := by
  obtain ⟨r, rfl⟩ := hx
  exact hf r

theorem foldlM {f : γ → β → Except Fault γ} :
    ∀ {l : List β} (s : γ), (∀ s, ∀ r ∈ l, Succeeds (f s r)) → Succeeds (l.foldlM f s)
  | [], s, _ => pure s
  | r :: l, s, h => by
    rw [List.foldlM_cons]
    exact (h s r (by simp)).bind fun s => foldlM s fun s r' hr => h s r' (by simp [hr])

/-- A fold whose steps succeed or fail whatever came before succeeds when all of them do. -/
theorem foldlM_iff {f : γ → β → Except Fault γ} {P : β → Prop}
    (step : ∀ s r, Succeeds (f s r) ↔ P r) :
    ∀ (l : List β) (s : γ), Succeeds (l.foldlM f s) ↔ ∀ r ∈ l, P r
  | [], s => iff_of_true (pure s) (by simp)
  | r :: l, s => by
    rw [List.foldlM_cons, List.forall_mem_cons]
    constructor
    · rintro ⟨t, h⟩
      cases first : f s r with
      | error e => rw [first] at h; cases h
      | ok s' =>
        rw [first] at h
        exact ⟨(step s r).1 ⟨s', first⟩, (foldlM_iff step l s').1 ⟨t, h⟩⟩
    · rintro ⟨hr, hl⟩
      exact ((step s r).2 hr).bind fun s' => (foldlM_iff step l s').2 hl

end Succeeds

section
variable {ε β γ : Type} {x : Except ε β}

/-- Both steps of a computation that gives a result gave one. -/
theorem bind_ok_iff {f : β → Except ε γ} {r : γ} :
    (x >>= f) = .ok r ↔ ∃ s, x = .ok s ∧ f s = .ok r := by
  cases x with
  | error e =>
    constructor
    · intro h; cases h
    · rintro ⟨_, h, -⟩; cases h
  | ok s =>
    constructor
    · intro h; exact ⟨s, rfl, h⟩
    · rintro ⟨_, h, hf⟩; cases h; exact hf

theorem map_ok_iff {f : β → γ} {r : γ} : x.map f = .ok r ↔ ∃ s, x = .ok s ∧ f s = r := by
  cases x <;> simp [Except.map]

theorem ok_of_toOption {r : β} (h : x.toOption = some r) : x = .ok r := by
  cases x with
  | error e => cases h
  | ok s => exact congrArg Except.ok (Option.some.inj h)

/-- What a run over a list gives, each element gave. -/
theorem exists_of_mem_mapM {f : β → Except ε γ} {r : γ} :
    ∀ {l : List β} {rs : List γ}, l.mapM f = .ok rs → r ∈ rs → ∃ x ∈ l, f x = .ok r
  | [], rs, h, hr => by
    cases h
    cases hr
  | x :: l, rs, h, hr => by
    rw [List.mapM_cons] at h
    obtain ⟨first, hf, h⟩ := bind_ok_iff.1 h
    obtain ⟨rest, hl, h⟩ := bind_ok_iff.1 h
    cases h
    rcases List.mem_cons.1 hr with rfl | hr
    · exact ⟨x, by simp, hf⟩
    · obtain ⟨y, hy, given⟩ := exists_of_mem_mapM hl hr
      exact ⟨y, by simp [hy], given⟩

end
end HalfPlane
