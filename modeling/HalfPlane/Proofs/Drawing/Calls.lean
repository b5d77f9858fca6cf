/-
Which calls are made for a picture when some of them raise something.

Calls are made in order up to the first one that raises, and what it raises is all that is raised
(`Stops`, by one step for a call that is made and one for a call that is not). The figure is opened
before them and closed after them, once, wherever they stop, and it is saved by the last of them: so
a picture is saved only if everything was drawn (`paint_stops`).
-/
import HalfPlane.Drawing.Plan
import HalfPlane.Proofs.Arithmetic
import HalfPlane.Proofs.Double.Laws

namespace HalfPlane.Drawing
variable {α ε : Type}

/-! ## One call after another -/

/-- Calls that were made of those wanted, the first of which has the number `i`. -/
structure Stops (raises : Nat → Call α → Option ε) (i : Nat) (wanted : List (Call α))
    (a : Attempt ε α) : Prop where
  part : a.calls <+: wanted
  passed : ∀ k c, a.calls[k]? = some c → raises (i + k) c = none
  /-- What is raised is what the next call raises. -/
  next : a.raised = wanted[a.calls.length]?.bind (raises (i + a.calls.length))
  whole : a.raised = none → a.calls = wanted

namespace Stops
variable {raises : Nat → Call α → Option ε} {i : Nat} {c : Call α} {wanted : List (Call α)}
  {a : Attempt ε α}

theorem nil : Stops raises i [] ⟨[], none⟩ where
  part := List.prefix_refl _
  passed _ _ there := by cases there
  next := rfl
  whole _ := rfl

/-- A call that raises something is not made, and none after it. -/
theorem halt {e : ε} (raised : raises i c = some e) : Stops raises i (c :: wanted) ⟨[], some e⟩ where
  part := List.nil_prefix
  passed _ _ there := by cases there
  next := raised.symm
  whole none := by cases none

/-- Otherwise it is made, and the others follow it. -/
theorem cons (passes : raises i c = none) (h : Stops raises (i + 1) wanted a) :
    Stops raises i (c :: wanted) ⟨c :: a.calls, a.raised⟩ where
  part := List.cons_prefix_cons.2 ⟨rfl, h.part⟩
  passed k d there := by
    cases k with
    | zero =>
      cases there
      exact passes
    | succ k =>
      rw [← Nat.add_assoc, Nat.add_right_comm]
      exact h.passed k d there
  next := by
    rw [h.next, List.length_cons, List.getElem?_cons_succ, ← Nat.add_assoc, Nat.add_right_comm]
  whole none := congrArg (c :: ·) (h.whole none)

theorem attempt (raises : Nat → Call α → Option ε) :
    ∀ (i : Nat) (wanted : List (Call α)), Stops raises i wanted (attempt raises i wanted)
  | _, [] => nil
  | i, c :: rest => by
    unfold Drawing.attempt
    cases raised : raises i c with
    | some e => exact halt raised
    | none => exact cons raised (attempt raises (i + 1) rest)

/-- All that is wanted was done exactly if nothing was raised. -/
theorem whole_iff (h : Stops raises i wanted a) : a.calls = wanted ↔ a.raised = none := by
  refine ⟨fun all => ?_, h.whole⟩
  rw [h.next, all, List.getElem?_eq_none (Nat.le_refl _)]
  rfl

/-- And that is so exactly if no call raises anything. -/
theorem quiet_iff (h : Stops raises i wanted a) :
    a.raised = none ↔ ∀ k c, wanted[k]? = some c → raises (i + k) c = none := by
  refine ⟨fun none => h.whole none ▸ h.passed, fun quiet => ?_⟩
  rw [h.next]
  cases there : wanted[a.calls.length]? with
  | none => rfl
  | some c => exact quiet _ c there

/-- The first call that raises something stops the others, and what it raises is raised. -/
theorem at_first (h : Stops raises i wanted a) {k : Nat} {c : Call α} {e : ε}
    (there : wanted[k]? = some c) (raised : raises (i + k) c = some e)
    (first : ∀ j < k, ∀ d, wanted[j]? = some d → raises (i + j) d = none) :
    a.calls = wanted.take k ∧ a.raised = some e := by
  obtain ⟨rest, hw⟩ := h.part
  have length : a.calls.length = k := by
    rcases Nat.lt_trichotomy a.calls.length k with short | same | long
    · -- A call before the first one that raises stopped the others.
      have none : a.raised = none := by
        rw [h.next]
        cases next : wanted[a.calls.length]? with
        | none => rfl
        | some d => exact first _ short d next
      have within := (List.getElem?_eq_some_iff.1 there).1
      rw [h.whole none] at short
      omega
    · exact same
    · have made : a.calls[k]? = some c := by
        rw [← hw, List.getElem?_append_left long] at there
        exact there
      rw [h.passed k c made] at raised
      cases raised
  refine ⟨?_, ?_⟩
  · rw [← length, ← hw, List.take_left]
  · rw [h.next, length, there]
    exact raised

end Stops

/-! ## The calls of a picture -/

section Names
variable [Scalar α]

/-- Every mark takes one call, and a box two. -/
theorem length_ofMark (m : Mark α) : (ofMark m).length = 1 ∨ (ofMark m).length = 2 := by
  cases m with
  | control => exact .inr rfl
  | rect | segment | polygon | label | marker => exact .inl rfl

/-- What is drawn before the figure is saved. -/
def drawing (marks : List (Mark α)) (width height : α) : List (Call α) :=
  setUp width height ++ marks.flatMap ofMark

/-- Drawing neither opens the figure, nor saves or closes it. -/
theorem name_of_mem_drawing {marks : List (Mark α)} {width height : α} {c : Call α}
    (h : c ∈ drawing marks width height) : c.name ∉ ["figure", "savefig", "close"] := by
  rcases List.mem_append.1 h with h | h
  · simp only [setUp, List.mem_cons, List.not_mem_nil, or_false] at h
    rcases h with rfl | rfl | rfl | rfl | rfl <;> simp
  · obtain ⟨m, -, h⟩ := List.mem_flatMap.1 h
    cases m with
    | control =>
      simp only [ofMark, List.mem_cons, List.not_mem_nil, or_false] at h
      rcases h with rfl | rfl <;> simp [box, caption, addPatch]
    | rect | segment | polygon | label | marker =>
      rw [List.mem_singleton.1 h]
      simp [rect, segment, polygon, label, marker, addPatch]

/-- Only the last of the calls for a picture saves it. -/
theorem saved_iff {marks : List (Mark α)} {width height : α} {path : String} {made : List (Call α)}
    (part : made <+: drawing marks width height ++ [save path]) :
    (∃ c ∈ made, c.name = "savefig") ↔ made = drawing marks width height ++ [save path] := by
  constructor
  · rintro ⟨c, hc, name⟩
    rcases List.prefix_concat_iff.1 part with whole | front
    · exact whole
    · have other := name_of_mem_drawing (front.subset hc)
      simp [name] at other
  · rintro rfl
    exact ⟨save path, by simp, rfl⟩

end Names

/-- Whatever the calls for a picture of positive size raise, those that are made come in order, the
figure is opened before them and closed once after them, and it is saved only if nothing was raised.
What the first call that raises something raises is what is raised in the end. -/
theorem paint_stops [Coordinate α] [LawfulCoordinate α] (raises : Nat → Call α → Option ε)
    (marks : List (Mark α)) {width height : α} (wide : 0.0 < width) (high : 0.0 < height)
    (path : String) :
    let wanted := setUp width height ++ marks.flatMap ofMark ++ [save path]
    ∃ made raised,
      paint raises marks width height (some path) =
        .ok ⟨openFigure width height :: made ++ [closeFigure], raised⟩ ∧
      made <+: wanted ∧
      (∀ m ∈ marks, (ofMark m).length = 1 ∨ (ofMark m).length = 2) ∧
      (∀ c ∈ made, c.name ≠ "figure" ∧ c.name ≠ "close") ∧
      (made = wanted ↔ raised = none) ∧
      ((∃ c ∈ made, c.name = "savefig") ↔ raised = none) ∧
      (raised = none ↔ ∀ k c, wanted[k]? = some c → raises k c = none) ∧
      ∀ k c e, wanted[k]? = some c → raises k c = some e →
        (∀ j < k, ∀ d, wanted[j]? = some d → raises j d = none) →
        made = wanted.take k ∧ raised = some e := by
  intro wanted
  have stops : Stops raises 0 wanted (attempt raises 0 wanted) := .attempt raises 0 wanted
  have positive : ¬ (width ≤ 0.0 ∨ height ≤ 0.0) := by
    rintro (narrow | low)
    · exact LawfulCoordinate.lt_irrefl _ (LawfulCoordinate.lt_of_lt_of_le wide narrow)
    · exact LawfulCoordinate.lt_irrefl _ (LawfulCoordinate.lt_of_lt_of_le high low)
  refine ⟨(attempt raises 0 wanted).calls, (attempt raises 0 wanted).raised, if_neg positive,
    stops.part, fun m _ => length_ofMark m, fun c hc => ?_, stops.whole_iff,
    (saved_iff stops.part).trans stops.whole_iff, ?_, fun k c e there raised first => ?_⟩
  · rcases List.mem_append.1 (stops.part.subset hc) with hc | hc
    · have other := name_of_mem_drawing hc
      simp only [List.mem_cons, not_or] at other
      exact ⟨other.1, other.2.2.1⟩
    · rw [List.mem_singleton.1 hc]
      simp [save]
  · simpa only [Nat.zero_add] using stops.quiet_iff
  · exact stops.at_first there (by rwa [Nat.zero_add]) fun j hj d hd => by
      rw [Nat.zero_add]
      exact first j hj d hd

/-- The box of a side and its caption; the caption cannot be written. -/
def boxed : List (Mark Float) :=
  [.control ⟨"d1", .regionA, 270.0, 285.0, 60.0, 30.0, "#4e31aa", true, .region⟩]

def unwritten (i : Nat) (_ : Call Float) : Option String :=
  if i = 6 then some "cannot draw text" else none

theorem paint_stops_of_boxed : ∃ (a : Attempt String Float),
    paint unwritten boxed 600.0 600.0 (some "plane.png") = .ok a ∧
      a.calls.map (·.name) = ["figure", "add_axes", "set_xlim", "set_ylim", "set_aspect", "axis",
        "add_patch", "close"] ∧
      a.raised = some "cannot draw text" := by
  have positive : (0.0 : Float) < 600.0 := by decide +kernel
  obtain ⟨made, raised, painted, -, -, -, -, -, -, first⟩ :=
    paint_stops unwritten boxed positive positive "plane.png"
  obtain ⟨rfl, rfl⟩ := first 6 _ "cannot draw text" rfl rfl fun j hj d _ => if_neg hj.ne
  exact ⟨_, painted, rfl, rfl⟩

end HalfPlane.Drawing
