/-
Calls that are taken by timers which run late, twice or out of turn.

Whoever works on a debouncer does so in sections that nothing else can come between, but the
sections of several of them may come in any order: a timer can still run out after it was
stopped, and a flush lets others in between its two halves. In every order what is taken is
the latest call, if it is still held back: it was neither dropped nor taken before, and the
ticket is its number (`pending_afterAll_iff`, `take_iff_of_make`).
-/
import HalfPlane.Debounce

namespace HalfPlane.Debouncer
variable {β : Type}

/-! ## Sections of work -/

/-- Work on a debouncer that nothing else can come between. -/
inductive Section (β : Type) where
  | call (payload : β)
  | cancel
  /-- The first half of a flush. -/
  | stopTimer
  /-- A timer that runs out, with its ticket, or the second half of a flush, without one. -/
  | take (ticket : Option Nat)

/-- The debouncer after a section. -/
def after (d : Debouncer β) : Section β → Debouncer β
  | .call payload => d.call payload
  | .cancel => d.cancel
  | .stopTimer => d.stopTimer
  | .take ticket => (d.take ticket).2

def afterAll (d : Debouncer β) (past : List (Section β)) : Debouncer β := past.foldl after d

def calls : List (Section β) → Nat
  | [] => 0
  | .call _ :: past => calls past + 1
  | _ :: past => calls past

/-- A section does nothing about a call that is held back under this number: it is no newer
call, no cancellation, and does not take it. -/
def Section.Leaves (number : Nat) : Section β → Prop
  | .stopTimer => True
  | .take (some ticket) => ticket ≠ number
  | _ => False

/-! ## Counting calls -/

theorem calls_append (past more : List (Section β)) :
    calls (past ++ more) = calls past + calls more := by
  induction past with
  | nil => exact (Nat.zero_add _).symm
  | cons s past ih =>
    cases s with
    | call payload =>
      simp only [List.cons_append, calls, ih]
      omega
    | cancel | stopTimer | take => exact ih

theorem calls_of_leaves {number : Nat} {since : List (Section β)}
    (h : ∀ s ∈ since, s.Leaves number) : calls since = 0 := by
  induction since with
  | nil => rfl
  | cons s since ih =>
    have rest := ih fun s hs => h s (by simp [hs])
    cases s with
    | call payload => exact (h (.call payload) (by simp)).elim
    | cancel | stopTimer | take => exact rest

/-! ## What a section does -/

@[simp] theorem pending_stopTimer (d : Debouncer β) : d.stopTimer.pending = d.pending := by
  unfold stopTimer
  split <;> rfl

@[simp] theorem tickets_stopTimer (d : Debouncer β) : d.stopTimer.tickets = d.tickets := by
  unfold stopTimer
  split <;> rfl

@[simp] theorem pending_call (d : Debouncer β) (payload : β) :
    (d.call payload).pending = some payload := pending_stopTimer _

@[simp] theorem tickets_call (d : Debouncer β) (payload : β) :
    (d.call payload).tickets = d.tickets + 1 := congrArg (· + 1) (tickets_stopTimer _)

@[simp] theorem pending_cancel (d : Debouncer β) : d.cancel.pending = none := pending_stopTimer _

@[simp] theorem tickets_cancel (d : Debouncer β) : d.cancel.tickets = d.tickets :=
  tickets_stopTimer _

@[simp] theorem tickets_take (d : Debouncer β) (ticket : Option Nat) :
    (d.take ticket).2.tickets = d.tickets := by
  unfold take
  split <;> rfl

/-- A call is taken if it is held back and the ticket is the latest one. -/
theorem take_eq_some_iff {d : Debouncer β} {ticket : Option Nat} {payload : β} :
    (d.take ticket).1 = some payload ↔
      d.pending = some payload ∧ ∀ k, ticket = some k → k = d.tickets := by
  cases ticket with
  | none => simp [take]
  | some k =>
    by_cases latest : k = d.tickets
    · simp [take, latest]
    · simp [take, latest]

/-- It stays held back exactly while it is left alone. -/
theorem pending_after_iff {d : Debouncer β} {s : Section β} {payload : β} :
    (d.after s).pending = some payload ↔
      s = .call payload ∨ d.pending = some payload ∧ s.Leaves d.tickets := by
  cases s with
  | call other => simp [after, Section.Leaves]
  | cancel => simp [after, Section.Leaves]
  | stopTimer => simp [after, Section.Leaves]
  | take ticket =>
    cases ticket with
    | none => simp [after, take, Section.Leaves]
    | some k =>
      by_cases latest : k = d.tickets
      · simp [after, take, latest, Section.Leaves]
      · simp [after, take, latest, Section.Leaves]

theorem tickets_afterAll :
    ∀ (past : List (Section β)) (d : Debouncer β),
      (d.afterAll past).tickets = d.tickets + calls past
  | [], _ => rfl
  | s :: past, d => by
    have rest := tickets_afterAll past (d.after s)
    show ((d.after s).afterAll past).tickets = _
    rw [rest]
    cases s with
    | call payload =>
      simp only [after, tickets_call, calls]
      omega
    | cancel => simp only [after, tickets_cancel, calls]
    | stopTimer => simp only [after, tickets_stopTimer, calls]
    | take ticket => simp only [after, tickets_take, calls]

/-! ## The call that is held back -/

/-- A call comes first in a list of sections, or after the first one. -/
theorem exists_split_cons {P : List (Section β) → List (Section β) → Prop} {c s : Section β}
    {past : List (Section β)} :
    (∃ before since, s :: past = before ++ c :: since ∧ P before since) ↔
      (s = c ∧ P [] past) ∨
        ∃ before since, past = before ++ c :: since ∧ P (s :: before) since := by
  constructor
  · rintro ⟨before, since, split, h⟩
    cases before with
    | nil => cases split; exact .inl ⟨rfl, h⟩
    | cons _ before => cases split; exact .inr ⟨before, since, rfl, h⟩
  · rintro (⟨rfl, h⟩ | ⟨before, since, rfl, h⟩)
    · exact ⟨[], past, rfl, h⟩
    · exact ⟨s :: before, since, rfl, h⟩

theorem pending_afterAll_iff {payload : β} :
    ∀ {past : List (Section β)} {d : Debouncer β},
      (d.afterAll past).pending = some payload ↔
        (d.pending = some payload ∧ ∀ s ∈ past, s.Leaves d.tickets) ∨
          ∃ before since, past = before ++ .call payload :: since ∧
            ∀ s ∈ since, s.Leaves (d.tickets + calls before + 1)
  | [], d => by simp [afterAll]
  | s :: past, d => by
    have rest : ((d.after s).afterAll past).pending = some payload ↔ _ := pending_afterAll_iff
    show ((d.after s).afterAll past).pending = some payload ↔ _
    rw [rest, pending_after_iff, List.forall_mem_cons, exists_split_cons]
    cases s with
    | call other =>
      have number (before : List (Section β)) :
          d.tickets + (calls before + 1) = d.tickets + 1 + calls before := by omega
      simp [after, calls, Section.Leaves, number]
    | cancel => simp [after, calls, Section.Leaves]
    | stopTimer => simp [after, calls, Section.Leaves]
    | take ticket =>
      simp [after, calls, and_assoc]

/-- Without a newer call nothing comes to be held back. -/
theorem take_afterAll_eq_none {d : Debouncer β} {rest : List (Section β)}
    (h : d.pending = none) (quiet : calls rest = 0) (late : Option Nat) :
    ((d.afterAll rest).take late).1 = none := by
  refine Option.eq_none_iff_forall_ne_some.2 fun payload taken => ?_
  rcases pending_afterAll_iff.1 (take_eq_some_iff.1 taken).1 with
    ⟨held, -⟩ | ⟨before, since, rfl, -⟩
  · rw [h] at held
    cases held
  · rw [calls_append, calls] at quiet
    omega

theorem afterAll_append_cons (d : Debouncer β) (past rest : List (Section β)) (s : Section β) :
    d.afterAll (past ++ s :: rest) = ((d.afterAll past).after s).afterAll rest := by
  simp only [afterAll, List.foldl_append, List.foldl_cons]

theorem pending_take {d : Debouncer β} {ticket : Option Nat}
    (taken : (d.take ticket).1.isSome = true) : (d.take ticket).2.pending = none := by
  unfold take at taken ⊢
  split at taken
  · next latest => rw [if_pos latest]
  · cases taken

/-! ## Timers that run out in turn -/

theorem pending_of_take {d : Debouncer β} {ticket : Option Nat} {payload : β}
    (h : (d.take ticket).2.pending = some payload) : d.pending = some payload := by
  rcases (pending_after_iff (s := .take ticket)).1 h with call | ⟨held, -⟩
  · cases call
  · exact held

theorem pending_of_fire {payload : β} :
    ∀ {due : List Timer} {d : Debouncer β},
      (d.fire due).2.pending = some payload → d.pending = some payload
  | [], _, h => h
  | _ :: _, _, h => pending_of_take (pending_of_fire h)

theorem pending_of_mem_fire {payload : β} :
    ∀ {due : List Timer} {d : Debouncer β}, payload ∈ (d.fire due).1 → d.pending = some payload
  | t :: due, d, h => by
    rcases List.mem_append.1 h with taken | later
    · exact (take_eq_some_iff.1 (Option.mem_toList.1 taken)).1
    · exact pending_of_take (pending_of_mem_fire later)

/-- What waits after a time has waited since before. -/
theorem pending_of_advance {d : Debouncer β} {time : Nat} {payload : β}
    (h : (d.advance time).2.pending = some payload) : d.pending = some payload :=
  pending_of_fire (d := { d with timers := d.timers.dropWhile (·.due ≤ d.now + time) }) h

theorem pending_of_mem_advance {d : Debouncer β} {time : Nat} {payload : β}
    (h : payload ∈ (d.advance time).1) : d.pending = some payload :=
  pending_of_mem_fire (d := { d with timers := d.timers.dropWhile (·.due ≤ d.now + time) }) h

/-! ## Every order of sections -/

/-- Whatever was done with a debouncer, in whatever order, an attempt to take a call takes the
latest one, if that was left alone since and the ticket, if there is one, is its number.
Nothing is taken after that, nor after a cancellation, before a newer call. -/
theorem take_iff_of_make {delay : Int} {d : Debouncer β} (made : make delay = .ok d) :
    (∀ (past : List (Section β)) (ticket : Option Nat) (payload : β),
      ((d.afterAll past).take ticket).1 = some payload ↔
        ∃ before since, past = before ++ .call payload :: since ∧
          (∀ s ∈ since, s.Leaves (calls before + 1)) ∧
          ∀ k, ticket = some k → k = calls before + 1) ∧
      (∀ (past rest : List (Section β)) (ticket late : Option Nat),
        ((d.afterAll past).take ticket).1.isSome = true → calls rest = 0 →
          ((d.afterAll (past ++ .take ticket :: rest)).take late).1 = none) ∧
      ∀ (past rest : List (Section β)) (late : Option Nat), calls rest = 0 →
        ((d.afterAll (past ++ .cancel :: rest)).take late).1 = none := by
  have start : d.pending = none ∧ d.tickets = 0 := by
    unfold make at made
    split at made
    · cases made
    · cases made
      exact ⟨rfl, rfl⟩
  refine ⟨fun past ticket payload => ?_, fun past rest ticket late taken quiet => ?_,
    fun past rest late quiet => ?_⟩
  · rw [take_eq_some_iff, pending_afterAll_iff, tickets_afterAll, start.1, start.2]
    constructor
    · rintro ⟨⟨held, -⟩ | ⟨before, since, rfl, left⟩, latest⟩
      · cases held
      · rw [Nat.zero_add] at left latest
        rw [calls_append, calls, calls_of_leaves left] at latest
        exact ⟨before, since, rfl, left, latest⟩
    · rintro ⟨before, since, rfl, left, latest⟩
      rw [calls_append, calls, calls_of_leaves left]
      simp only [Nat.zero_add]
      exact ⟨.inr ⟨before, since, rfl, left⟩, latest⟩
  · rw [afterAll_append_cons]
    exact take_afterAll_eq_none (pending_take taken) quiet late
  · rw [afterAll_append_cons]
    exact take_afterAll_eq_none (pending_cancel _) quiet late

/-- A call comes between the two halves of a flush, which takes it. Its own timer runs out too
late, and so does one that was stopped before. -/
theorem take_iff_of_flush : ∃ d : Debouncer String, make 300 = .ok d ∧
    let past := [.call "x", .stopTimer, .call "x > 0"]
    ((d.afterAll past).take (some 1)).1 = none ∧
      ((d.afterAll past).take none).1 = some "x > 0" ∧
      ((d.afterAll (past ++ [.take none, .take (some 1)])).take (some 2)).1 = none := by
  obtain ⟨takes, once, -⟩ := @take_iff_of_make String 300 _ rfl
  have flushed := (takes [.call "x", .stopTimer, .call "x > 0"] none "x > 0").2
    ⟨[.call "x", .stopTimer], [], rfl, by simp, by simp⟩
  refine ⟨_, rfl, rfl, flushed, once _ [.take (some 1)] none _ ?_ rfl⟩
  rw [flushed]
  rfl

end HalfPlane.Debouncer
