/-
Holding a call back until there has been quiet for a while.

A call replaces the one held back and starts a timer; when the timer runs out the last
call is delivered. Each step below is one section of work that nothing else can come
between, so any interleaving is a sequence of steps. A timer carries the number of its
call, its ticket; a ticket that is no longer the latest has no effect.
-/
import HalfPlane.Scalar

namespace HalfPlane

/-- A timer that is still waiting. -/
structure Timer where
  ticket : Nat
  due : Nat
deriving DecidableEq

/-- A delayed delivery of the latest of several calls, on a clock of milliseconds. -/
structure Debouncer (β : Type) where
  /-- How long it has to be quiet. -/
  delay : Nat
  now : Nat
  tickets : Nat
  pending : Option β
  /-- The timer that the next call or cancellation stops. -/
  current : Option Nat
  /-- The timers that wait, in the order they were started: all wait equally long, so
  they run out in that order. -/
  timers : List Timer

namespace Debouncer
variable {β : Type}

/-- Nothing held back. The delay has to be positive. -/
def make (delay : Int) : Except Fault (Debouncer β) :=
  if delay ≤ 0 then .error .noDelay
  else .ok ⟨delay.toNat, 0, 0, none, none, []⟩

def seconds {α : Type} [Scalar α] (d : Debouncer β) : α := Scalar.ofInt d.delay / 1000.0

/-! ## Steps -/

/-- Stop the current timer, if there is one. -/
def stopTimer (d : Debouncer β) : Debouncer β :=
  match d.current with
  | none => d
  | some ticket =>
    { d with current := none, timers := d.timers.filter fun t => t.ticket != ticket }

def startTimer (d : Debouncer β) : Debouncer β :=
  let ticket := d.tickets + 1
  { d with
    tickets := ticket
    current := some ticket
    timers := d.timers ++ [⟨ticket, d.now + d.delay⟩] }

/-- Hold a call back, in place of the one before. -/
def call (d : Debouncer β) (payload : β) : Debouncer β :=
  { d with pending := some payload }.stopTimer.startTimer

/-- Drop the call held back. -/
def cancel (d : Debouncer β) : Debouncer β := { d with pending := none }.stopTimer

/-- Take the call held back, if the ticket is the latest one. Without a ticket it is taken
in any case. The timer still runs, but nothing stops it from here on. -/
def take (d : Debouncer β) (ticket : Option Nat) : Option β × Debouncer β :=
  if ticket.all (· = d.tickets) then (d.pending, { d with pending := none, current := none })
  else (none, d)

/-! ## Whole operations -/

/-- Deliver the call held back at once: its timer stops, then it is taken. -/
def flush (d : Debouncer β) : Option β × Debouncer β := d.stopTimer.take none

def fire (d : Debouncer β) : List Timer → List β × Debouncer β
  | [] => ([], d)
  | t :: rest =>
    let (taken, d) := d.take (some t.ticket)
    let (more, d) := d.fire rest
    (taken.toList ++ more, d)

/-- Move the clock on. The timers that are due by then run out in turn. -/
def advance (d : Debouncer β) (time : Nat) : List β × Debouncer β :=
  let now := d.now + time
  let due := d.timers.takeWhile (·.due ≤ now)
  let (taken, d) := { d with timers := d.timers.dropWhile (·.due ≤ now) }.fire due
  (taken, { d with now })

/-! ## Deliveries that fail -/

/-- What is said when the receiver of a call fails. Nothing else comes of it. -/
def warning (reason : String) : String := "DebouncedCall callback failed: " ++ reason

/-- The warnings after some deliveries to a receiver that may fail. -/
def warnings (receiver : β → Option String) (taken : List β) : List String :=
  taken.filterMap fun payload => (receiver payload).map warning

end Debouncer
end HalfPlane
