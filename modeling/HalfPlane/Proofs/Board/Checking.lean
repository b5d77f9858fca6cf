/-
Texts that are checked while a session goes on.

A check has three steps: a timer takes the text that waits, the text is read, and it is handed
over, unless the board has started over since it was typed. Anything may come between them,
steps of other checks too. Whatever does, it can be read off the past where the text of a check
comes from and how far its stamp is behind (`Traced`), so what is handed over was typed last
when it was taken, and after the board last started over (`checks_of_make`). Where nothing
comes between, the checks are those of a time that passes (`advance_eq_turns`).
-/
import HalfPlane.Proofs.Board.Reachable
import HalfPlane.Proofs.Board.Steady
import HalfPlane.Proofs.Debounce.Sections

namespace HalfPlane.Board
variable {α : Type}

/-! ## Checks under way -/

/-- The check of a text, from when a timer took it. -/
inductive Check (α : Type) where
  | taken (v : Validation)
  | parsed (v : Validation) (form : Option (LinearForm α))
  /-- The text was handed over or dropped, or no text waited. -/
  | ended

namespace Check

def subject : Check α → Option Validation
  | .taken v | .parsed v _ => some v
  | .ended => none

def ofTaken : Option Validation → Check α
  | none => .ended
  | some v => .taken v

def parse [Scalar α] : Check α → Check α
  | .taken v => .parsed v (LinearForm.ofText? v.text)
  | c => c

/-- What is handed over on a generation of the board. -/
def result (generation : Nat) : Check α → Option (Checked α)
  | .parsed v form => if v.generation = generation then some ⟨v.text, form⟩ else none
  | _ => none

def finish : Check α → Check α
  | .parsed _ _ => .ended
  | c => c

/-- What is handed over for a check was parsed, and is stamped with the generation. -/
theorem result_eq_some_iff {generation : Nat} {check : Check α} {c : Checked α} :
    check.result generation = some c ↔
      ∃ v, check = .parsed v c.form ∧ v.text = c.text ∧ v.generation = generation := by
  cases check with
  | taken v => simp [Check.result]
  | ended => simp [Check.result]
  | parsed v form =>
    obtain ⟨text, form'⟩ := c
    simp only [Check.result, Option.ite_none_right_eq_some, Option.some.injEq, Checked.mk.injEq,
      Check.parsed.injEq]
    constructor
    · rintro ⟨same, rfl, rfl⟩
      exact ⟨v, ⟨rfl, rfl⟩, rfl, same⟩
    · rintro ⟨_, ⟨rfl, rfl⟩, rfl, same⟩
      exact ⟨same, rfl, rfl⟩

end Check

/-- A board with the checks that were begun, in that order. -/
structure Busy (α : Type) where
  board : Board α
  checks : List (Check α)

/-- What can happen to a board while texts are checked. A timer may also run out in the midst of
a reset, but taking a text does not look at the generation, so that is as if it had come
before. -/
inductive Event (α : Type) where
  | act (a : Action α)
  /-- A timer runs out, with its ticket, and a check begins. Without a ticket it is a flush. -/
  | take (ticket : Option Nat)
  | parse (i : Nat)
  | handOver (i : Nat)

/-- The texts that an action hands over itself. -/
def handed : Except Fault (Answer α) → List (Checked α)
  | .ok (.checked texts) => texts
  | _ => []

theorem not_mem_handed_map {β : Type} {r : Except Fault β} {answer : β → Answer α}
    (quiet : ∀ x, handed (.ok (answer x)) = []) (c : Checked α) : c ∉ handed (r.map answer) := by
  cases r with
  | error e => exact List.not_mem_nil
  | ok x =>
    show c ∉ handed (.ok (answer x))
    rw [quiet]
    exact List.not_mem_nil

namespace Busy
variable [Coordinate α]

/-- The texts that an event hands over, and the board after it. -/
def perform (s : Busy α) : Event α → List (Checked α) × Busy α
  | .act a => (handed (s.board.perform a).1, { s with board := s.board.after a })
  | .take ticket =>
    let (taken, validator) := s.board.validator.take ticket
    ([], ⟨{ s.board with validator }, s.checks ++ [.ofTaken taken]⟩)
  | .parse i => ([], { s with checks := s.checks.modify i Check.parse })
  | .handOver i =>
    ((s.checks[i]?.bind (Check.result s.board.generation)).toList,
      { s with checks := s.checks.modify i Check.finish })

def after (s : Busy α) (e : Event α) : Busy α := (s.perform e).2

def afterAll (s : Busy α) (events : List (Event α)) : Busy α := events.foldl after s

/-- All the texts that are handed over, in turn. -/
def handedOver (s : Busy α) : List (Event α) → List (Checked α)
  | [] => []
  | e :: events => (s.perform e).1 ++ (s.after e).handedOver events

end Busy

/-! ## Checks that nothing comes between -/

/-- The checks that timers make one after another, when `n` were begun before. -/
def turns : Nat → List Timer → List (Event α)
  | _, [] => []
  | n, t :: due =>
    .take (some t.ticket) :: .parse n :: .handOver n :: turns (n + 1) due

section Turns
variable [Coordinate α]

/-- Reading a text and handing it over at once is to deliver it. -/
theorem result_parse (b : Board α) (taken : Option Validation) :
    ((Check.ofTaken taken).parse.result b.generation).toList =
      taken.toList.filterMap fun v => b.delivered v.text v.generation := by
  cases taken with
  | none => rfl
  | some v =>
    simp only [Check.ofTaken, Check.parse, Check.result, delivered, Int.natCast_inj,
      Option.toList_some, List.filterMap_cons, List.filterMap_nil]
    split <;> rfl

theorem modify_length {γ : Type} (f : γ → γ) (l : List γ) (x : γ) :
    (l ++ [x]).modify l.length f = l ++ [f x] := by
  simp [List.modify_eq_take_drop]

/-- One check from its first step to its last. -/
theorem run_turn (b : Board α) (checks : List (Check α)) (ticket : Nat) (events : List (Event α)) :
    let s := Busy.mk b checks
    let turn := .take (some ticket) :: .parse checks.length :: .handOver checks.length :: events
    let done := Busy.mk { b with validator := (b.validator.take (some ticket)).2 }
      (checks ++ [(Check.ofTaken (b.validator.take (some ticket)).1).parse.finish])
    s.handedOver turn =
        ((b.validator.take (some ticket)).1.toList.filterMap fun v =>
          b.delivered v.text v.generation) ++ done.handedOver events ∧
      s.afterAll turn = done.afterAll events := by
  intro s turn done
  have parsed : (s.after (.take (some ticket))).after (.parse checks.length) =
      ⟨done.board, checks ++ [(Check.ofTaken (b.validator.take (some ticket)).1).parse]⟩ :=
    congrArg (Busy.mk done.board) (modify_length _ _ _)
  have finished : ((s.after (.take (some ticket))).after (.parse checks.length)).after
      (.handOver checks.length) = done := by
    rw [parsed]
    exact congrArg (Busy.mk done.board) (modify_length _ _ _)
  have result := result_parse b (b.validator.take (some ticket)).1
  constructor
  · show [] ++ ([] ++ (_ ++ _)) = _
    rw [finished, parsed, ← result, List.nil_append, List.nil_append]
    simp only [Busy.perform, List.getElem?_concat_length, Option.bind_some]
    rfl
  · show ((((s.after _).after _).after _).afterAll events) = _
    rw [finished]

/-- The checks of several timers, one after another, are what comes of them when they fire. -/
theorem run_turns :
    ∀ (due : List Timer) (b : Board α) (checks : List (Check α)),
      (Busy.mk b checks).handedOver (turns checks.length due) =
          (b.validator.fire due).1.filterMap (fun v => b.delivered v.text v.generation) ∧
        ((Busy.mk b checks).afterAll (turns checks.length due)).board =
          { b with validator := (b.validator.fire due).2 }
  | [], b, checks => ⟨rfl, rfl⟩
  | t :: due, b, checks => by
    obtain ⟨handed, after⟩ := run_turn b checks t.ticket (turns (checks.length + 1) due)
    obtain ⟨handed', after'⟩ := run_turns due
      { b with validator := (b.validator.take (some t.ticket)).2 }
      (checks ++ [(Check.ofTaken (b.validator.take (some t.ticket)).1).parse.finish])
    rw [List.length_append] at handed' after'
    constructor
    · refine handed.trans ?_
      rw [Debouncer.fire, List.filterMap_append]
      exact congrArg _ handed'
    · exact (congrArg Busy.board after).trans after'

/-- Time that passes is the checks of the timers that are due, one after another. -/
theorem advance_eq_turns (b : Board α) (checks : List (Check α)) (time : Nat) :
    let now := b.validator.now + time
    let waiting := b.validator.timers.dropWhile (·.due ≤ now)
    let s := Busy.mk { b with validator := { b.validator with timers := waiting } } checks
    let due := turns checks.length (b.validator.timers.takeWhile (·.due ≤ now))
    let done := (s.afterAll due).board
    b.advance time =
      (s.handedOver due, { done with validator := { done.validator with now } }) := by
  intro now waiting s due done
  obtain ⟨handed, after⟩ := run_turns (b.validator.timers.takeWhile (·.due ≤ now)) s.board checks
  refine Prod.ext handed.symm ?_
  show _ = { (s.afterAll due).board with
    validator := { (s.afterAll due).board.validator with now } }
  rw [after]
  rfl

end Turns

/-! ## What a past tells -/

def Event.isReset : Event α → Bool
  | .act .reset => true
  | _ => false

def Event.isTake : Event α → Bool
  | .take _ => true
  | _ => false

/-- The text was typed last, and this is what happened since. -/
def LastTyped (past : List (Event α)) (text : String) (since : List (Event α)) : Prop :=
  ∃ before, past = before ++ .act (.validateLater text) :: since ∧
    ∀ other, Event.act (.validateLater other) ∉ since

/-- The check with this number began when the text had been typed last, and this is what
happened since the text was typed. -/
def Taken (past : List (Event α)) (i : Nat) (text : String) (since : List (Event α)) : Prop :=
  ∃ earlier ticket later waiting, past = earlier ++ .take ticket :: later ∧
    earlier.countP Event.isTake = i ∧ LastTyped earlier text waiting ∧
    since = waiting ++ .take ticket :: later

theorem LastTyped.snoc {past since : List (Event α)} {text : String} (h : LastTyped past text since)
    {e : Event α} (other : ∀ text, e ≠ .act (.validateLater text)) :
    LastTyped (past ++ [e]) text (since ++ [e]) := by
  obtain ⟨before, rfl, last⟩ := h
  refine ⟨before, by simp, fun text mem => ?_⟩
  rcases List.mem_append.1 mem with mem | mem
  · exact last text mem
  · exact other text (List.mem_singleton.1 mem).symm

theorem LastTyped.of_typing (past : List (Event α)) (text : String) :
    LastTyped (past ++ [.act (.validateLater text)]) text [] :=
  ⟨past, rfl, by simp⟩

theorem Taken.snoc {past since : List (Event α)} {i : Nat} {text : String}
    (h : Taken past i text since) (e : Event α) : Taken (past ++ [e]) i text (since ++ [e]) := by
  obtain ⟨earlier, ticket, later, waiting, rfl, count, typed, rfl⟩ := h
  exact ⟨earlier, ticket, later ++ [e], waiting, by simp, count, typed, by simp⟩

theorem LastTyped.taken {past since : List (Event α)} {text : String}
    (h : LastTyped past text since) (ticket : Option Nat) :
    Taken (past ++ [.take ticket]) (past.countP Event.isTake) text (since ++ [.take ticket]) :=
  ⟨past, ticket, [], since, rfl, rfl, h, rfl⟩

theorem isReset_iff {e : Event α} : e.isReset = true ↔ e = .act .reset := by
  unfold Event.isReset
  split <;> simp_all

theorem countP_isReset_eq_zero {events : List (Event α)} :
    events.countP Event.isReset = 0 ↔ Event.act .reset ∉ events := by
  simp only [List.countP_eq_zero, isReset_iff]
  exact ⟨fun h mem => h _ mem rfl, fun h e mem reset => h (reset ▸ mem)⟩

/-! ## What an event does -/

section Events
variable [Coordinate α]

/-- Only a reset counts the generation on. -/
theorem generation_after (b : Board α) (a : Action α) :
    (b.after a).generation = b.generation + [Event.act a].countP Event.isReset := by
  cases steady : a.unsteady with
  | false =>
    have kept := ((Steady.refl b).after steady).generation
    cases a with
    | reset | validateLater | advance | close => cases steady
    | _ => exact kept
  | true =>
    cases a with
    | reset => exact (Steady.reset b).generation
    | validateLater | advance | close => rfl
    | _ => cases steady

/-- A text that waits did so before, or was just typed and is stamped with the generation. -/
theorem waiting_after {b : Board α} {a : Action α} {v : Validation}
    (h : (b.after a).validator.pending = some v) :
    (b.validator.pending = some v ∧ ∀ text, a ≠ .validateLater text) ∨
      a = .validateLater v.text ∧ v.generation = b.generation := by
  cases steady : a.unsteady with
  | false =>
    rw [((Steady.refl b).after steady).validator] at h
    exact .inl ⟨h, fun text typing => by rw [typing] at steady; cases steady⟩
  | true =>
    cases a with
    | reset =>
      have stopped : (b.after .reset).validator = b.validator.cancel := (Steady.reset b).validator
      rw [stopped, Debouncer.pending_cancel] at h
      cases h
    | validateLater text =>
      have typed : (b.after (.validateLater text)).validator.pending =
          some ⟨text, b.generation⟩ := Debouncer.pending_call _ _
      rw [typed] at h
      cases h
      exact .inr ⟨rfl, rfl⟩
    | advance time => exact .inl ⟨Debouncer.pending_of_advance h, by simp⟩
    | close =>
      have stopped : (b.after .close).validator.pending = none := Debouncer.pending_cancel _
      rw [stopped] at h
      cases h
    | _ => cases steady

/-- How a check comes to be what it is after an event. -/
inductive Arises (s : Busy α) (i : Nat) : Event α → Check α → Prop where
  | kept {e : Event α} {c : Check α} : s.checks[i]? = some c → Arises s i e c
  | begun {ticket : Option Nat} : i = s.checks.length →
      Arises s i (.take ticket) (.ofTaken (s.board.validator.take ticket).1)
  | parsed {v : Validation} : s.checks[i]? = some (.taken v) →
      Arises s i (.parse i) (.parsed v (LinearForm.ofText? v.text))
  | ended {v : Validation} {form : Option (LinearForm α)} :
      s.checks[i]? = some (.parsed v form) → Arises s i (.handOver i) .ended

theorem getElem?_modify_eq_some {γ : Type} {f : γ → γ} {l : List γ} {i j : Nat} {x : γ}
    (h : (l.modify j f)[i]? = some x) :
    (j = i ∧ ∃ y, l[i]? = some y ∧ f y = x) ∨ l[i]? = some x := by
  rw [List.getElem?_modify, Option.map_eq_map, Option.map_eq_some_iff] at h
  obtain ⟨y, found, same⟩ := h
  split at same
  · next at_i => exact .inl ⟨at_i, y, found, same⟩
  · exact .inr (same ▸ found)

theorem arises {s : Busy α} {e : Event α} {i : Nat} {c : Check α}
    (h : (s.after e).checks[i]? = some c) : Arises s i e c := by
  cases e with
  | act a => exact .kept h
  | take ticket =>
    have begun : (s.checks ++ [Check.ofTaken (s.board.validator.take ticket).1])[i]? = some c := h
    rw [List.getElem?_append] at begun
    split at begun
    · exact .kept begun
    · rw [List.getElem?_singleton] at begun
      split at begun
      · cases begun
        exact .begun (by omega)
      · cases begun
  | parse j =>
    rcases getElem?_modify_eq_some h with ⟨rfl, c₀, found, rfl⟩ | same
    · cases c₀ with
      | taken v => exact .parsed found
      | parsed | ended => exact .kept found
    · exact .kept same
  | handOver j =>
    rcases getElem?_modify_eq_some h with ⟨rfl, c₀, found, rfl⟩ | same
    · cases c₀ with
      | parsed v form => exact .ended found
      | taken | ended => exact .kept found
    · exact .kept same

/-- Where the texts come from that wait or are checked. A stamp is behind the generation of
the board by the resets since. -/
structure Traced (past : List (Event α)) (s : Busy α) : Prop where
  begun : s.checks.length = past.countP Event.isTake
  waiting : ∀ v, s.board.validator.pending = some v → ∃ since, LastTyped past v.text since ∧
    v.generation + since.countP Event.isReset = s.board.generation
  underway : ∀ (i : Nat) c v, s.checks[i]? = some c → c.subject = some v → ∃ since,
    Taken past i v.text since ∧ v.generation + since.countP Event.isReset = s.board.generation
  honest : ∀ (i : Nat) v form, s.checks[i]? = some (.parsed v form) →
    form = LinearForm.ofText? v.text

namespace Traced
variable {past : List (Event α)} {s : Busy α}

theorem generation_step (s : Busy α) (e : Event α) :
    (s.after e).board.generation = s.board.generation + [e].countP Event.isReset := by
  cases e with
  | act a => exact generation_after s.board a
  | take | parse | handOver => rfl

theorem waiting_step (h : Traced past s) {e : Event α} {v : Validation}
    (waits : (s.after e).board.validator.pending = some v) :
    ∃ since, LastTyped (past ++ [e]) v.text since ∧
      v.generation + since.countP Event.isReset = (s.after e).board.generation := by
  have kept (before : s.board.validator.pending = some v)
      (other : ∀ text, e ≠ .act (.validateLater text)) :
      ∃ since, LastTyped (past ++ [e]) v.text since ∧
        v.generation + since.countP Event.isReset = (s.after e).board.generation := by
    obtain ⟨since, typed, stamp⟩ := h.waiting v before
    refine ⟨since ++ [e], typed.snoc other, ?_⟩
    rw [generation_step, List.countP_append, ← stamp, Nat.add_assoc]
  cases e with
  | act a =>
    rcases waiting_after waits with ⟨before, other⟩ | ⟨rfl, stamp⟩
    · exact kept before fun text same => other text (Event.act.inj same)
    · refine ⟨[], .of_typing past v.text, ?_⟩
      rw [generation_step, stamp]
      rfl
  | take ticket => exact kept (Debouncer.pending_of_take waits) (by simp)
  | parse i => exact kept waits (by simp)
  | handOver i => exact kept waits (by simp)

theorem underway_step (h : Traced past s) {e : Event α} {i : Nat} {c : Check α} {v : Validation}
    (found : (s.after e).checks[i]? = some c) (subject : c.subject = some v) :
    ∃ since, Taken (past ++ [e]) i v.text since ∧
      v.generation + since.countP Event.isReset = (s.after e).board.generation := by
  have kept {c₀ : Check α} (before : s.checks[i]? = some c₀) (subject : c₀.subject = some v) :
      ∃ since, Taken (past ++ [e]) i v.text since ∧
        v.generation + since.countP Event.isReset = (s.after e).board.generation := by
    obtain ⟨since, taken, stamp⟩ := h.underway i c₀ v before subject
    refine ⟨since ++ [e], taken.snoc e, ?_⟩
    rw [generation_step, List.countP_append, ← stamp, Nat.add_assoc]
  cases arises found with
  | kept before => exact kept before subject
  | parsed before => exact kept before subject
  | ended => cases subject
  | @begun ticket last =>
    cases taken : (s.board.validator.take ticket).1 with
    | none => rw [taken] at subject; cases subject
    | some w =>
      rw [taken] at subject
      cases subject
      obtain ⟨since, typed, stamp⟩ := h.waiting v (Debouncer.take_eq_some_iff.1 taken).1
      refine ⟨since ++ [.take ticket], ?_, ?_⟩
      · rw [last, h.begun]
        exact typed.taken ticket
      · rw [generation_step, List.countP_append, ← stamp, Nat.add_assoc]

theorem step (h : Traced past s) (e : Event α) : Traced (past ++ [e]) (s.after e) where
  begun := by
    rw [List.countP_append, ← h.begun]
    cases e with
    | act a => rfl
    | take ticket => exact List.length_append
    | parse i => exact List.length_modify _ _ _
    | handOver i => exact List.length_modify _ _ _
  waiting _ waits := h.waiting_step waits
  underway _ _ _ found subject := h.underway_step found subject
  honest i v form found := by
    generalize now : Check.parsed v form = c at found
    cases arises found with
    | kept before => exact h.honest i v form (now ▸ before)
    | parsed => cases now; rfl
    | @begun ticket =>
      cases taken : (s.board.validator.take ticket).1 <;> rw [taken] at now <;> cases now
    | ended => cases now

theorem run {past : List (Event α)} {s : Busy α} (h : Traced past s) :
    ∀ events : List (Event α), Traced (past ++ events) (s.afterAll events)
  | [] => by rwa [List.append_nil]
  | e :: events => by
    have rest := (h.step e).run events
    rwa [List.append_assoc] at rest

/-- On a new board nothing waits and nothing is checked. -/
theorem of_make {width height zoom : α} {palette : List String} {delay : Int} {b : Board α}
    (made : Board.make width height zoom palette delay = .ok b) :
    Traced ([] : List (Event α)) ⟨b, []⟩ := by
  obtain ⟨register, -, made⟩ := bind_ok_iff.1 made
  obtain ⟨view, -, made⟩ := bind_ok_iff.1 made
  obtain ⟨validator, idle, made⟩ := bind_ok_iff.1 made
  cases made
  have nothing : validator.pending = none := by
    unfold Debouncer.make at idle
    split at idle
    · cases idle
    · cases idle; rfl
  exact
    { begun := rfl
      waiting := fun v waits => by cases nothing.symm.trans waits
      underway := fun i c v found => by cases found
      honest := fun i v form found => by cases found }

end Traced

/-! ## What is handed over -/

/-- Of the actions only time that passes hands over texts, but for a delivery by hand. -/
theorem of_mem_handed {b : Board α} {a : Action α} {c : Checked α}
    (h : c ∈ handed (b.perform a).1) :
    (∃ time, a = .advance time ∧ c ∈ (b.advance time).1) ∨
      ∃ text generation, a = .deliver text generation := by
  cases a with
  | advance time => exact .inl ⟨time, rfl, h⟩
  | deliver text generation => exact .inr ⟨text, generation, rfl⟩
  | pointerDown | pointerMove | wheel | touchStart | touchMove | pan | validateLater | close =>
    cases h
  | _ => exact absurd h (not_mem_handed_map (fun _ => rfl) c)

/-- What time hands over was waiting, stamped with the generation. -/
theorem of_mem_advance {b : Board α} {time : Nat} {c : Checked α} (h : c ∈ (b.advance time).1) :
    c.form = LinearForm.ofText? c.text ∧
      ∃ v, b.validator.pending = some v ∧ v.text = c.text ∧ v.generation = b.generation := by
  obtain ⟨v, due, delivered⟩ := List.mem_filterMap.1 h
  unfold Board.delivered at delivered
  split at delivered
  · next same =>
    cases delivered
    exact ⟨rfl, v, Debouncer.pending_of_mem_advance due, rfl, Int.ofNat_inj.1 same⟩
  · cases delivered

namespace Traced
variable {past : List (Event α)} {s : Busy α}

/-- What time hands over was typed last, on the generation of the board. -/
theorem of_advance (h : Traced past s) {time : Nat} {c : Checked α}
    (given : c ∈ (s.board.advance time).1) :
    c.form = LinearForm.ofText? c.text ∧
      ∃ since, Event.act .reset ∉ since ∧ LastTyped past c.text since := by
  obtain ⟨honest, v, waits, text, now⟩ := of_mem_advance given
  obtain ⟨since, typed, stamp⟩ := h.waiting v waits
  exact ⟨honest, since, countP_isReset_eq_zero.1 (by omega), text ▸ typed⟩

/-- What a check hands over had been typed last when it was taken, on the generation of the
board. -/
theorem of_handOver (h : Traced past s) {i : Nat} {c : Checked α}
    (given : c ∈ (s.perform (.handOver i)).1) :
    c.form = LinearForm.ofText? c.text ∧
      ∃ since, Event.act .reset ∉ since ∧ Taken past i c.text since := by
  obtain ⟨check, found, result⟩ := Option.bind_eq_some_iff.1 (Option.mem_toList.1 given)
  obtain ⟨v, rfl, text, now⟩ := Check.result_eq_some_iff.1 result
  obtain ⟨since, taken, stamp⟩ := h.underway i _ v found rfl
  exact ⟨text ▸ h.honest i v _ found, since, countP_isReset_eq_zero.1 (by omega), text ▸ taken⟩

/-- A text that was read is handed over unless the board has started over since it was typed. -/
theorem handOver_eq (h : Traced past s) {i : Nat} {v : Validation} {form : Option (LinearForm α)}
    (found : s.checks[i]? = some (.parsed v form)) :
    ∃ since, Taken past i v.text since ∧
      (Event.act .reset ∈ since → (s.perform (.handOver i)).1 = []) ∧
      (Event.act .reset ∉ since →
        (s.perform (.handOver i)).1 = [⟨v.text, LinearForm.ofText? v.text⟩]) := by
  obtain ⟨since, taken, stamp⟩ := h.underway i _ v found rfl
  have given : (s.perform (.handOver i)).1 =
      (Check.result s.board.generation (.parsed v form)).toList := by
    simp only [Busy.perform, found, Option.bind_some]
  rw [h.honest i v form found] at given
  refine ⟨since, taken, fun again => ?_, fun still => ?_⟩
  · have behind : v.generation ≠ s.board.generation := fun same =>
      countP_isReset_eq_zero.1 (by omega) again
    rw [given, Check.result, if_neg behind]
    rfl
  · have now : v.generation = s.board.generation := by
      rw [← stamp, countP_isReset_eq_zero.2 still, Nat.add_zero]
    rw [given, Check.result, if_pos now]
    rfl

end Traced

/-- Whatever comes between the steps of the checks, what is handed over is the form of a text
that had been typed last when it was taken, and the board has not started over since it was
typed. A check hands its text over in that case, and otherwise nothing. No step of a check
changes the board but for the text that waits. -/
theorem checks_of_make {width height zoom : α} {palette : List String} {delay : Int} {b : Board α}
    (made : Board.make width height zoom palette delay = .ok b) (past : List (Event α)) :
    let s := (Busy.mk b []).afterAll past
    (∀ e c, c ∈ (s.perform e).1 → (∀ text generation, e ≠ .act (.deliver text generation)) →
      c.form = LinearForm.ofText? c.text ∧ ∃ since, Event.act .reset ∉ since ∧
        ((∃ i, e = .handOver i ∧ Taken past i c.text since) ∨
          ∃ time, e = .act (.advance time) ∧ LastTyped past c.text since)) ∧
      (∀ (i : Nat) v form, s.checks[i]? = some (.parsed v form) →
        ∃ since, Taken past i v.text since ∧
          (Event.act .reset ∈ since → (s.perform (.handOver i)).1 = []) ∧
          (Event.act .reset ∉ since →
            (s.perform (.handOver i)).1 = [⟨v.text, LinearForm.ofText? v.text⟩])) ∧
      (∀ i, (s.after (.parse i)).board = s.board ∧ (s.after (.handOver i)).board = s.board) ∧
      (∀ text generation, s.after (.act (.deliver text generation)) = s) ∧
      (∀ ticket, ∃ validator, (s.after (.take ticket)).board = { s.board with validator }) ∧
      ∀ time, ∃ validator, (s.after (.act (.advance time))).board = { s.board with validator } := by
  intro s
  have traced : Traced past s := (Traced.of_make made).run past
  refine ⟨fun e c given own => ?_, fun i v form found => traced.handOver_eq found,
    fun i => ⟨rfl, rfl⟩, fun text generation => rfl, fun ticket => ⟨_, rfl⟩, fun time => ⟨_, rfl⟩⟩
  cases e with
  | act a =>
    rcases of_mem_handed given with ⟨time, rfl, given⟩ | ⟨text, generation, rfl⟩
    · obtain ⟨honest, since, still, typed⟩ := traced.of_advance given
      exact ⟨honest, since, still, .inr ⟨time, rfl, typed⟩⟩
    · exact absurd rfl (own text generation)
  | take ticket => cases given
  | parse i => cases given
  | handOver i =>
    obtain ⟨honest, since, still, taken⟩ := traced.of_handOver given
    exact ⟨honest, since, still, .inl ⟨i, rfl, taken⟩⟩

end Events

/-- A second text is typed before the first one is taken, and handed over once it is read. When
the board starts over in between, nothing is. -/
theorem checks_of_typing : ∃ (b : Board Float) (c : Checked Float),
    Board.make 600.0 600.0 40.0 Register.standardPalette 300 = .ok b ∧
    let s := (Busy.mk b []).afterAll
      [.act (.validateLater "x"), .act (.validateLater "x > 0"), .take (some 2), .parse 0]
    (s.perform (.handOver 0)).1 = [c] ∧ c.text = "x > 0" ∧
      c.form = LinearForm.ofText? "x > 0" ∧
      ((s.after (.act .reset)).perform (.handOver 0)).1.isEmpty = true := by
  obtain ⟨b, made, run⟩ := exists_made (p := fun b =>
    let s := (Busy.mk b []).afterAll
      [.act (.validateLater "x"), .act (.validateLater "x > 0"), .take (some 2), .parse 0]
    (s.perform (.handOver 0)).1.map (·.text) == ["x > 0"] &&
      ((s.after (.act .reset)).perform (.handOver 0)).1.isEmpty) (by decide +kernel)
  simp only [Bool.and_eq_true, beq_iff_eq, List.map_eq_singleton_iff] at run
  obtain ⟨⟨c, given, text⟩, dropped⟩ := run
  obtain ⟨honest, -⟩ := (checks_of_make made _).1 (.handOver 0) c (by rw [given]; simp) (by simp)
  exact ⟨b, c, made, given, text, text ▸ honest, dropped⟩

end HalfPlane.Board
