/-
What holding calls back comes to, whatever came before.

At any moment no call is held back and no timer waits, or one call is held back and its
timer is the only one (`Tidy`). The clock and the number of calls so far are never looked at
but for differences: a debouncer goes on as the same one would later (`later`). So after a
cancellation it goes on like a new one (`Tidy.cancel_eq`).
-/
import HalfPlane.Debounce

namespace HalfPlane
namespace Debouncer
variable {β : Type}

/-! ## What comes of a timer -/

section Advance
variable {d : Debouncer β} {time due : Nat}

theorem advance_of_idle (timers : d.timers = []) :
    d.advance time = ([], { d with now := d.now + time }) := by
  simp only [advance, timers, List.takeWhile_nil, List.dropWhile_nil, fire]

theorem advance_of_due {payload : β} (pending : d.pending = some payload)
    (timers : d.timers = [⟨d.tickets, due⟩]) (late : due ≤ d.now + time) :
    d.advance time =
      ([payload], { d with now := d.now + time, pending := none, current := none, timers := [] }) := by
  simp only [advance, timers, List.takeWhile_cons, List.dropWhile_cons, late, decide_true, if_true,
    List.takeWhile_nil, List.dropWhile_nil, fire, take, Option.all_some, pending]
  rfl

theorem advance_of_early (timers : d.timers = [⟨d.tickets, due⟩]) (early : ¬ due ≤ d.now + time) :
    d.advance time = ([], { d with now := d.now + time }) := by
  simp only [advance, timers, List.takeWhile_cons, List.dropWhile_cons, early, decide_false,
    Bool.false_eq_true, if_false, fire]

end Advance

/-! ## One timer at most -/

/-- A call is held back exactly while a timer waits, which is its own. -/
inductive Tidy (d : Debouncer β) : Prop where
  | idle : d.pending = none → d.current = none → d.timers = [] → Tidy d
  | waiting {payload : β} {due : Nat} : d.pending = some payload → d.current = some d.tickets →
      d.timers = [⟨d.tickets, due⟩] → Tidy d

namespace Tidy
variable {d : Debouncer β}

theorem of_make {delay : Int} (h : make delay = .ok d) : d.Tidy := by
  unfold make at h
  split at h
  · cases h
  · cases h
    exact .idle rfl rfl rfl

/-- Stopping the timer leaves none. -/
theorem stopTimer_eq (h : d.Tidy) : d.stopTimer = { d with current := none, timers := [] } := by
  obtain ⟨delay, now, tickets, pending, current, timers⟩ := d
  cases h with
  | idle _ current timers =>
    dsimp only at current timers
    subst current timers
    rfl
  | waiting _ current timers =>
    dsimp only at current timers
    subst current timers
    simp [stopTimer]

/-- What is held back does not matter for the timer. -/
theorem stopTimer_pending (h : d.Tidy) (pending : Option β) :
    ({ d with pending } : Debouncer β).stopTimer =
      { d with pending, current := none, timers := [] } := by
  have stopped : ({ d with pending } : Debouncer β).stopTimer = { d.stopTimer with pending } := by
    simp only [stopTimer]
    split <;> rfl
  rw [stopped, h.stopTimer_eq]

theorem call_eq (h : d.Tidy) (payload : β) :
    d.call payload =
      { d with
        tickets := d.tickets + 1
        pending := some payload
        current := some (d.tickets + 1)
        timers := [⟨d.tickets + 1, d.now + d.delay⟩] } := by
  rw [call, h.stopTimer_pending]
  rfl

theorem cancel_eq (h : d.Tidy) :
    d.cancel = { d with pending := none, current := none, timers := [] } :=
  h.stopTimer_pending none

theorem call (h : d.Tidy) (payload : β) : (d.call payload).Tidy := by
  rw [h.call_eq]
  exact .waiting rfl rfl rfl

theorem cancel (h : d.Tidy) : d.cancel.Tidy := by
  rw [h.cancel_eq]
  exact .idle rfl rfl rfl

theorem flush (h : d.Tidy) : d.flush.2.Tidy := by
  rw [Debouncer.flush, h.stopTimer_eq]
  exact .idle rfl rfl rfl

theorem advance (h : d.Tidy) (time : Nat) : (d.advance time).2.Tidy := by
  cases h with
  | idle pending current timers =>
    rw [advance_of_idle timers]
    exact .idle pending current timers
  | @waiting payload due pending current timers =>
    by_cases late : due ≤ d.now + time
    · rw [advance_of_due pending timers late]
      exact .idle rfl rfl rfl
    · rw [advance_of_early timers late]
      exact .waiting pending current timers

end Tidy

/-! ## The delay -/

theorem delay_fire : ∀ (due : List Timer) (d : Debouncer β), (d.fire due).2.delay = d.delay
  | [], _ => rfl
  | t :: due, d => by
    have taken : (d.take (some t.ticket)).2.delay = d.delay := by
      unfold take
      split <;> rfl
    simp only [fire, delay_fire due, taken]

theorem delay_advance (d : Debouncer β) (time : Nat) : (d.advance time).2.delay = d.delay :=
  delay_fire _ _

/-! ## The same some calls later -/

end Debouncer

/-- The same timer, for a later call at a later time. -/
def Timer.later (t : Timer) (tickets time : Nat) : Timer := ⟨t.ticket + tickets, t.due + time⟩

namespace Debouncer
variable {β : Type}

/-- The same debouncer after more calls and at a later time, with other payloads. -/
def later (d : Debouncer β) (tickets time : Nat) (rename : β → β) : Debouncer β :=
  { d with
    now := d.now + time
    tickets := d.tickets + tickets
    pending := d.pending.map rename
    current := d.current.map (· + tickets)
    timers := d.timers.map (·.later tickets time) }

/-- What comes of the timers that are due by a time. -/
def ranOut (d : Debouncer β) (now : Nat) : List β × Debouncer β :=
  { d with timers := d.timers.dropWhile (·.due ≤ now) }.fire (d.timers.takeWhile (·.due ≤ now))

theorem advance_eq (d : Debouncer β) (wait : Nat) :
    d.advance wait =
      ((d.ranOut (d.now + wait)).1, { (d.ranOut (d.now + wait)).2 with now := d.now + wait }) :=
  rfl

section Later
variable (d : Debouncer β) (tickets time : Nat) (rename : β → β)

theorem stopTimer_later :
    (d.later tickets time rename).stopTimer = d.stopTimer.later tickets time rename := by
  cases current : d.current with
  | none => simp only [stopTimer, later, current, Option.map_none]
  | some ticket =>
    have same (t : Timer) : ((t.later tickets time).ticket != ticket + tickets) =
        (t.ticket != ticket) := by
      rw [Bool.eq_iff_iff, bne_iff_ne, bne_iff_ne]
      simp only [Timer.later]
      omega
    simp only [stopTimer, later, current, Option.map_some, Option.map_none, List.filter_map,
      Function.comp_def, same]

theorem startTimer_later :
    (d.later tickets time rename).startTimer = d.startTimer.later tickets time rename := by
  simp only [startTimer, later, Option.map_some, List.map_append, List.map_cons, List.map_nil,
    Timer.later, Nat.add_right_comm]

theorem call_later (payload : β) :
    (d.later tickets time rename).call (rename payload) =
      (d.call payload).later tickets time rename := by
  have held : ({ d.later tickets time rename with pending := some (rename payload) }) =
      ({ d with pending := some payload }).later tickets time rename := rfl
  rw [call, held, stopTimer_later, startTimer_later, ← call]

theorem cancel_later :
    (d.later tickets time rename).cancel = d.cancel.later tickets time rename := by
  have dropped : ({ d.later tickets time rename with pending := none }) =
      ({ d with pending := none }).later tickets time rename := rfl
  rw [cancel, dropped, stopTimer_later, ← cancel]

theorem take_later (ticket : Nat) :
    (d.later tickets time rename).take (some (ticket + tickets)) =
      ((d.take (some ticket)).1.map rename,
        (d.take (some ticket)).2.later tickets time rename) := by
  by_cases latest : ticket = d.tickets
  · simp only [take, later, latest, Option.all_some, decide_true, if_true, Option.map_none]
  · have superseded : ¬ ticket + tickets = d.tickets + tickets := by omega
    simp only [take, later, latest, superseded, Option.all_some, decide_false, Bool.false_eq_true,
      if_false, Option.map_none]

theorem fire_later :
    ∀ (due : List Timer) (d : Debouncer β),
      (d.later tickets time rename).fire (due.map (·.later tickets time)) =
        ((d.fire due).1.map rename, (d.fire due).2.later tickets time rename)
  | [], d => rfl
  | t :: due, d => by
    have first : (t.later tickets time).ticket = t.ticket + tickets := rfl
    simp only [fire, List.map_cons, first, take_later, fire_later due, List.map_append,
      Option.toList_map]

theorem ranOut_later (now : Nat) :
    (d.later tickets time rename).ranOut (now + time) =
      ((d.ranOut now).1.map rename, (d.ranOut now).2.later tickets time rename) := by
  have late (t : Timer) : (t.later tickets time).due ≤ now + time ↔ t.due ≤ now :=
    Nat.add_le_add_iff_right
  have due : (d.later tickets time rename).timers.takeWhile (·.due ≤ now + time) =
      (d.timers.takeWhile (·.due ≤ now)).map (·.later tickets time) := by
    simp only [later, List.takeWhile_map, Function.comp_def, late]
  have waiting : (d.later tickets time rename).timers.dropWhile (·.due ≤ now + time) =
      (d.timers.dropWhile (·.due ≤ now)).map (·.later tickets time) := by
    simp only [later, List.dropWhile_map, Function.comp_def, late]
  rw [ranOut, due, waiting]
  exact fire_later tickets time rename _ { d with timers := d.timers.dropWhile (·.due ≤ now) }

/-- Deliveries come after the same wait, however late it is. -/
theorem advance_later (wait : Nat) :
    (d.later tickets time rename).advance wait =
      ((d.advance wait).1.map rename, (d.advance wait).2.later tickets time rename) := by
  have now : (d.later tickets time rename).now + wait = d.now + wait + time :=
    Nat.add_right_comm ..
  rw [advance_eq, advance_eq, now, ranOut_later]
  rfl

end Later

/-- A debouncer after a cancellation is a new one, later. -/
theorem Tidy.cancel_eq_later {d fresh : Debouncer β} (h : d.Tidy) {delay : Int}
    (new : make delay = .ok fresh) (same : d.delay = fresh.delay) (rename : β → β) :
    d.cancel = fresh.later d.tickets d.now rename := by
  unfold make at new
  split at new
  · cases new
  · cases new
    rw [h.cancel_eq, same]
    simp [later]

end Debouncer
end HalfPlane
