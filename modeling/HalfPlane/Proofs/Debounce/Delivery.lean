/-
When a call that is held back comes through.

A call is delivered by the first flush after it, or as soon as it has been quiet for the
delay, and it is lost if another call or a cancellation comes before that. `fate` reads this
off the steps that follow a call, and `comingThrough` off all the steps of a session. A
debouncer holds at most one call, for some time still (`Holds`); every step takes what it
holds to what it holds next (`Holds.step`), and so a session delivers exactly the calls that
come through (`Holds.delivered_session`).
-/
import HalfPlane.Proofs.Debounce

namespace HalfPlane.Debouncer
variable {β : Type}

/-! ## Sessions -/

/-- What is done with a debouncer, or that time passes. -/
inductive Step (β : Type) where
  | call (payload : β)
  | cancel
  | flush
  | advance (time : Nat)

/-- The calls that a step delivers, and the debouncer after it. -/
def step (d : Debouncer β) : Step β → List β × Debouncer β
  | .call payload => ([], d.call payload)
  | .cancel => ([], d.cancel)
  | .flush => (d.flush.1.toList, d.flush.2)
  | .advance time => d.advance time

/-- The calls that reached the receiver and the warnings that came of them, each with the
number of its step. -/
structure Log (β : Type) where
  delivered : List (Nat × β)
  warned : List (Nat × String)

/-- A session whose steps are counted from `n`. The receiver gives a reason if it fails. -/
def session (receiver : β → Option String) (d : Debouncer β) (n : Nat) :
    List (Step β) → Log β × Debouncer β
  | [] => (⟨[], []⟩, d)
  | s :: steps =>
    let (taken, d) := d.step s
    let (log, d) := d.session receiver (n + 1) steps
    (⟨taken.map (n, ·) ++ log.delivered, (warnings receiver taken).map (n, ·) ++ log.warned⟩, d)

/-! ## The calls that come through -/

/-- How many steps pass before a call is delivered, if it is, when it has to be quiet for
`left` yet. -/
def fate (left : Nat) : List (Step β) → Option Nat
  | [] => none
  | .call _ :: _ => none
  | .cancel :: _ => none
  | .flush :: _ => some 0
  | .advance time :: steps =>
    if left ≤ time then some 0 else (fate (left - time) steps).map (· + 1)

/-- The calls of a session that come through, in the order they were made, each with the
number of the step that delivers it. -/
def comingThrough (delay n : Nat) : List (Step β) → List (Nat × β)
  | [] => []
  | .call payload :: steps =>
    ((fate delay steps).map fun k => (n + 1 + k, payload)).toList ++
      comingThrough delay (n + 1) steps
  | _ :: steps => comingThrough delay (n + 1) steps

namespace Step

/-- The time that passes in a step. -/
def time : Step β → Nat
  | .advance time => time
  | _ => 0

/-- Nothing is done, but time may pass. -/
def Waits (s : Step β) : Prop := s = .advance s.time

end Step

def elapsed : List (Step β) → Nat
  | [] => 0
  | s :: steps => s.time + elapsed steps

/-- The first `k` steps only wait and the deadline is after them; the next one is a flush, or
the deadline is reached in it. -/
def ComesAfter (left k : Nat) (steps : List (Step β)) : Prop :=
  ∃ wait s later, steps = wait ++ s :: later ∧ wait.length = k ∧ (∀ w ∈ wait, w.Waits) ∧
    elapsed wait < left ∧ (s = .flush ∨ left ≤ elapsed wait + s.time)

theorem comesAfter_cons_iff {left k : Nat} {s : Step β} {steps : List (Step β)} (yet : 0 < left) :
    ComesAfter left k (s :: steps) ↔
      (k = 0 ∧ (s = .flush ∨ left ≤ s.time)) ∨
        ∃ j, k = j + 1 ∧ s.Waits ∧ s.time < left ∧ ComesAfter (left - s.time) j steps := by
  constructor
  · rintro ⟨wait, s', later, split, rfl, waits, early, reached⟩
    cases wait with
    | nil =>
      cases split
      rw [elapsed, Nat.zero_add] at reached
      exact .inl ⟨rfl, reached⟩
    | cons w wait =>
      cases split
      rw [elapsed] at early reached
      refine .inr ⟨wait.length, rfl, waits s (by simp), by omega, wait, s', later, rfl, rfl,
        fun w hw => waits w (by simp [hw]), by omega, ?_⟩
      exact reached.imp_right fun reached => by omega
  · rintro (⟨rfl, reached⟩ | ⟨j, rfl, waits, early, wait, s', later, rfl, rfl, rest, yet', reached⟩)
    · refine ⟨[], s, steps, rfl, rfl, by simp, yet, ?_⟩
      rwa [elapsed, Nat.zero_add]
    · refine ⟨s :: wait, s', later, rfl, rfl, ?_, ?_, ?_⟩
      · rintro w (_ | ⟨_, hw⟩)
        · exact waits
        · exact rest w hw
      · rw [elapsed]
        omega
      · rw [elapsed]
        exact reached.imp_right fun reached => by omega

/-- The fate of a call, in one sentence. -/
theorem fate_eq_some_iff {k : Nat} :
    ∀ {steps : List (Step β)} {left : Nat}, 0 < left →
      (fate left steps = some k ↔ ComesAfter left k steps)
  | [], left, _ => by
    simp [fate, ComesAfter]
  | s :: steps, left, yet => by
    rw [comesAfter_cons_iff yet]
    cases s with
    | call | cancel =>
      simp [fate, Step.Waits, Step.time]
      omega
    | flush => simp [fate, Step.Waits, eq_comm]
    | advance time =>
      by_cases due : left ≤ time
      · simp [fate, due, Step.time, Nat.not_lt.2 due, eq_comm]
      · have later (j : Nat) : fate (left - time) steps = some j ↔
            ComesAfter (left - time) j steps := fate_eq_some_iff (by omega)
        simp only [fate, due, if_false, Option.map_eq_some_iff, later, Step.Waits, Step.time,
          Nat.lt_of_not_le due, reduceCtorEq, or_self, and_false, false_or, true_and]
        exact exists_congr fun j => and_comm.trans (and_congr_left' eq_comm)

/-! ## What is held -/

/-- What a debouncer holds: a call, and for how long it has to be quiet yet. -/
inductive Holds (d : Debouncer β) : Option (β × Nat) → Prop where
  | idle : d.pending = none → d.current = none → d.timers = [] → Holds d none
  | waiting {payload : β} {left : Nat} : 0 < left → d.pending = some payload →
      d.current = some d.tickets → d.timers = [⟨d.tickets, d.now + left⟩] →
      Holds d (some (payload, left))

/-- What a step delivers, by what was held before it, and what is held after it. -/
def heldAfter (delay : Nat) : Option (β × Nat) → Step β → List β × Option (β × Nat)
  | _, .call payload => ([], some (payload, delay))
  | _, .cancel => ([], none)
  | held, .flush => ((held.map (·.1)).toList, none)
  | none, .advance _ => ([], none)
  | some (payload, left), .advance time =>
    if left ≤ time then ([payload], none) else ([], some (payload, left - time))

namespace Holds
variable {d : Debouncer β} {held : Option (β × Nat)}

theorem tidy (h : d.Holds held) : d.Tidy := by
  cases h with
  | idle pending current timers => exact .idle pending current timers
  | waiting _ pending current timers => exact .waiting pending current timers

theorem timers_length (h : d.Holds held) :
    d.timers.length = if d.pending.isSome then 1 else 0 := by
  cases h with
  | idle pending _ timers => rw [pending, timers]; rfl
  | waiting _ pending _ timers => rw [pending, timers]; rfl

theorem call (h : d.Holds held) (delays : 0 < d.delay) (payload : β) :
    (d.call payload).Holds (some (payload, d.delay)) := by
  rw [h.tidy.call_eq]
  exact .waiting delays rfl rfl rfl

theorem cancel (h : d.Holds held) : d.cancel.Holds none := by
  rw [h.tidy.cancel_eq]
  exact .idle rfl rfl rfl

theorem flush (h : d.Holds held) :
    d.flush.1 = held.map (·.1) ∧ d.flush.2.Holds none := by
  rw [Debouncer.flush, h.tidy.stopTimer_eq]
  cases h with
  | idle pending => exact ⟨pending, .idle rfl rfl rfl⟩
  | waiting _ pending => exact ⟨pending, .idle rfl rfl rfl⟩

theorem advance (h : d.Holds held) (delay time : Nat) :
    (d.advance time).1 = (heldAfter delay held (.advance time)).1 ∧
      (d.advance time).2.Holds (heldAfter delay held (.advance time)).2 := by
  cases h with
  | idle pending current timers =>
    rw [advance_of_idle timers]
    exact ⟨rfl, .idle pending current timers⟩
  | @waiting payload left yet pending current timers =>
    by_cases late : left ≤ time
    · rw [advance_of_due pending timers (Nat.add_le_add_left late _), heldAfter, if_pos late]
      exact ⟨rfl, .idle rfl rfl rfl⟩
    · have early : ¬ d.now + left ≤ d.now + time := by omega
      have same : d.now + time + (left - time) = d.now + left := by omega
      rw [advance_of_early timers early, heldAfter, if_neg late]
      exact ⟨rfl, .waiting (by omega) pending current (same ▸ timers)⟩

/-- A step delivers what was held if its time has come, and leads to what is held next. -/
theorem step (h : d.Holds held) (delays : 0 < d.delay) (s : Step β) :
    (d.step s).1 = (heldAfter d.delay held s).1 ∧
      (d.step s).2.Holds (heldAfter d.delay held s).2 := by
  cases s with
  | call payload => exact ⟨rfl, h.call delays payload⟩
  | cancel => exact ⟨rfl, h.cancel⟩
  | flush =>
    obtain ⟨taken, after⟩ := h.flush
    exact ⟨congrArg Option.toList taken, after⟩
  | advance time => exact h.advance d.delay time

theorem delay_step (h : d.Holds held) (s : Step β) : (d.step s).2.delay = d.delay := by
  cases s with
  | call payload =>
    show (d.call payload).delay = d.delay
    rw [h.tidy.call_eq]
  | cancel =>
    show d.cancel.delay = d.delay
    rw [h.tidy.cancel_eq]
  | flush =>
    show (d.stopTimer.take none).2.delay = d.delay
    rw [h.tidy.stopTimer_eq]
    rfl
  | advance time => exact delay_advance d time

end Holds

/-! ## What a session delivers -/

/-- The call held at the start of a session, if it comes through. -/
def heldThrough (n : Nat) (held : Option (β × Nat)) (steps : List (Step β)) : List (Nat × β) :=
  match held with
  | none => []
  | some (payload, left) => ((fate left steps).map fun k => (n + k, payload)).toList

theorem heldThrough_cons (delay n : Nat) (held : Option (β × Nat)) (s : Step β)
    (steps : List (Step β)) :
    heldThrough n held (s :: steps) ++ comingThrough delay n (s :: steps) =
      (heldAfter delay held s).1.map (n, ·) ++
        (heldThrough (n + 1) (heldAfter delay held s).2 steps ++
          comingThrough delay (n + 1) steps) := by
  cases s with
  | call payload => rcases held with _ | ⟨held, left⟩ <;> rfl
  | cancel => rcases held with _ | ⟨held, left⟩ <;> rfl
  | flush => rcases held with _ | ⟨held, left⟩ <;> rfl
  | advance time =>
    rcases held with _ | ⟨held, left⟩
    · rfl
    · by_cases due : left ≤ time
      · simp [heldThrough, heldAfter, comingThrough, fate, due]
      · have counted : (fun k => (n + k, held)) ∘ (· + 1) = fun k => (n + 1 + k, held) := by
          funext k
          simp only [Function.comp_apply, Prod.mk.injEq, and_true]
          omega
        simp [heldThrough, heldAfter, comingThrough, fate, due, counted]

theorem Holds.delivered_session (receiver : β → Option String) :
    ∀ (steps : List (Step β)) {d : Debouncer β} {held : Option (β × Nat)} (n : Nat),
      d.Holds held → 0 < d.delay →
      (d.session receiver n steps).1.delivered =
        heldThrough n held steps ++ comingThrough d.delay n steps
  | [], d, held, n, _, _ => by
    rcases held with _ | ⟨held, left⟩ <;> rfl
  | s :: steps, d, held, n, h, delays => by
    obtain ⟨taken, after⟩ := h.step delays s
    have delay := h.delay_step s
    have rest := after.delivered_session receiver steps (n + 1) (delay ▸ delays)
    rw [delay] at rest
    rw [heldThrough_cons, ← taken, ← rest]
    rfl

theorem warned_session (receiver : β → Option String) :
    ∀ (steps : List (Step β)) (d : Debouncer β) (n : Nat),
      (d.session receiver n steps).1.warned =
        (d.session receiver n steps).1.delivered.filterMap fun (k, payload) =>
          (receiver payload).map fun reason => (k, warning reason)
  | [], _, _ => rfl
  | s :: steps, d, n => by
    have first : (warnings receiver (d.step s).1).map (n, ·) =
        ((d.step s).1.map (n, ·)).filterMap fun (k, payload) =>
          (receiver payload).map fun reason => (k, warning reason) := by
      simp only [warnings, List.map_filterMap, List.filterMap_map, Function.comp_def,
        Option.map_map]
    simp only [session, List.filterMap_append, ← first, ← warned_session receiver steps]

/-- Where a session leads does not depend on the receiver. -/
theorem session_snd (receiver : β → Option String) :
    ∀ (steps : List (Step β)) (d : Debouncer β) (n : Nat),
      (d.session receiver n steps).2 = steps.foldl (fun d s => (d.step s).2) d
  | [], _, _ => rfl
  | s :: steps, d, n => session_snd receiver steps (d.step s).2 (n + 1)

theorem Holds.session :
    ∀ (steps : List (Step β)) {d : Debouncer β} {held : Option (β × Nat)},
      d.Holds held → 0 < d.delay → ∃ held', (steps.foldl (fun d s => (d.step s).2) d).Holds held'
  | [], _, held, h, _ => ⟨held, h⟩
  | s :: steps, _, _, h, delays =>
    (h.step delays s).2.session steps (h.delay_step s ▸ delays)

/-- Time may pass bit by bit. -/
theorem Holds.advance_add {d : Debouncer β} {held : Option (β × Nat)} (h : d.Holds held)
    (time more : Nat) :
    d.advance (time + more) =
      ((d.advance time).1 ++ ((d.advance time).2.advance more).1,
        ((d.advance time).2.advance more).2) := by
  cases h with
  | idle _ _ timers =>
    have next : ({ d with now := d.now + time } : Debouncer β).advance more = _ :=
      advance_of_idle timers
    rw [advance_of_idle timers, advance_of_idle timers, next, Nat.add_assoc]
    rfl
  | @waiting payload left yet pending _ timers =>
    by_cases soon : left ≤ time
    · have reached : d.now + left ≤ d.now + (time + more) := by omega
      rw [advance_of_due pending timers reached,
        advance_of_due pending timers (Nat.add_le_add_left soon _), advance_of_idle rfl,
        Nat.add_assoc]
      rfl
    · have early : ¬ d.now + left ≤ d.now + time := by omega
      rw [advance_of_early timers early]
      by_cases late : left ≤ time + more
      · have due : d.now + left ≤ d.now + time + more := by omega
        have next := advance_of_due (d := { d with now := d.now + time }) pending timers due
        rw [advance_of_due pending timers (Nat.add_le_add_left late _), next, Nat.add_assoc]
        rfl
      · have early' : ¬ d.now + left ≤ d.now + time + more := by omega
        have next := advance_of_early (d := { d with now := d.now + time }) timers early'
        rw [advance_of_early timers (Nat.add_assoc .. ▸ early'), next, Nat.add_assoc]
        rfl

/-! ## Debouncing -/

/-- What a debouncer with a delay does, whatever is done with it. -/
structure Debounces (d : Debouncer β) (delay : Nat) : Prop where
  /-- The calls that come through reach the receiver, each once and in its step, in the order
  they were made, and nothing else does. -/
  delivered (receiver : β → Option String) (steps : List (Step β)) :
    (d.session receiver 0 steps).1.delivered = comingThrough delay 0 steps
  /-- A call that the receiver fails on leaves a warning. -/
  warned (receiver : β → Option String) (steps : List (Step β)) :
    (d.session receiver 0 steps).1.warned =
      (comingThrough delay 0 steps).filterMap fun (k, payload) =>
        (receiver payload).map fun reason => (k, warning reason)
  /-- It leaves nothing else. -/
  unmoved (receiver : β → Option String) (steps : List (Step β)) :
    (d.session receiver 0 steps).2 = (d.session (fun _ => none) 0 steps).2
  /-- One timer waits while a call is held back, and none otherwise. -/
  timers (receiver : β → Option String) (steps : List (Step β)) :
    (d.session receiver 0 steps).2.timers.length =
      if (d.session receiver 0 steps).2.pending.isSome then 1 else 0
  /-- Nothing is late: it makes no difference if time passes bit by bit. -/
  gradual (receiver : β → Option String) (steps : List (Step β)) (time more : Nat) :
    let after := (d.session receiver 0 steps).2
    after.advance (time + more) =
      ((after.advance time).1 ++ ((after.advance time).2.advance more).1,
        ((after.advance time).2.advance more).2)

/-- With any delay there is a debouncer, and it delivers the calls that come through. These
are the ones that are flushed before their deadline or reach it, with nothing done in
between. -/
theorem debounces_of_make {delay : Int} (positive : 0 < delay) :
    (∃ d : Debouncer β, make delay = .ok d ∧ d.Debounces delay.toNat) ∧
      ∀ (steps : List (Step β)) (k : Nat),
        fate delay.toNat steps = some k ↔ ComesAfter delay.toNat k steps := by
  let d : Debouncer β := ⟨delay.toNat, 0, 0, none, none, []⟩
  have made : make delay = .ok d := if_neg (Int.not_le.2 positive)
  have held : d.Holds none := .idle rfl rfl rfl
  have delays : 0 < d.delay := by
    show 0 < delay.toNat
    omega
  have holds := fun steps => held.session steps delays
  have delivered (receiver : β → Option String) (steps : List (Step β)) :=
    held.delivered_session receiver steps 0 delays
  refine ⟨⟨_, made, ?_⟩, fun steps k => fate_eq_some_iff delays⟩
  exact
    { delivered
      warned := fun receiver steps => by rw [warned_session, delivered]; rfl
      unmoved := fun receiver steps => by rw [session_snd, session_snd]
      timers := fun receiver steps => by
        obtain ⟨_, after⟩ := holds steps
        rw [session_snd]
        exact after.timers_length
      gradual := fun receiver steps time more => by
        obtain ⟨_, after⟩ := holds steps
        rw [session_snd]
        exact after.advance_add time more }

/-- Of five calls the second and the third come through, the one when it is due and the other
at a flush. The receiver fails on the latter. -/
theorem debounces_of_typing : ∃ d : Debouncer Nat, make 300 = .ok d ∧
    let log := (d.session (fun n => if n = 3 then some "three" else none) 0
      [.call 1, .advance 100, .call 2, .advance 299, .advance 1, .flush, .call 3, .advance 10,
        .flush, .flush, .call 4, .cancel, .advance 400, .call 5, .advance 299]).1
    log.delivered = [(4, 2), (8, 3)] ∧
      log.warned = [(8, "DebouncedCall callback failed: three")] := by
  obtain ⟨⟨d, made, debounces⟩, -⟩ := @debounces_of_make Nat 300 (by decide)
  refine ⟨d, made, ?_⟩
  dsimp only
  rw [debounces.delivered, debounces.warned]
  decide

end HalfPlane.Debouncer
