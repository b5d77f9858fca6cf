/-
What a run says to attempts at corners, and which corners they solve.

A run that has come to its attempts has a board on which no corner was marked. `Told` is what
holds after some of them: each was replied to by its own corner alone and those before it, and
solved are the corners that an attempt got right. One more attempt keeps it (`Told.step`), and so
do all of them (`Told.run`).
-/
import HalfPlane.Double
import HalfPlane.Proofs.Command.Transcript

namespace HalfPlane.Command
variable {α : Type}

/-- An attempt at a corner: its index, and the texts typed for its coordinates. -/
structure Attempt where
  index : Nat
  x : String
  y : String

/-- A value of the option spells out an attempt: a whole number, a colon, and two texts with a
comma between them. -/
def Spells (value : Option String) (a : Attempt) : Prop :=
  ∃ index : String, value = some (index ++ ":" ++ a.x ++ "," ++ a.y) ∧ ':' ∉ index.toList ∧
    ',' ∉ a.x.toList ∧ ',' ∉ a.y.toList ∧ Decimal.readWhole index = some (a.index : Int)

namespace Attempt
variable [Scalar α] [Readable α] [Exact α]

/-- Both coordinates are those of the point, to one decimal place. -/
def Right (p : Point α) (a : Attempt) : Prop := Board.rating p a.x a.y = some (true, true)

instance (p : Point α) (a : Attempt) : Decidable (a.Right p) :=
  inferInstanceAs (Decidable (Board.rating p a.x a.y = some (true, true)))

/-- What is said to an attempt at a corner at a point, after others. -/
def reply (p : Point α) (before : List Attempt) (a : Attempt) : Feedback :=
  if ∃ e ∈ before, e.index = a.index ∧ e.Right p then .noActive else Board.grading p a.x a.y

def line (p : Point α) (before : List Attempt) (a : Attempt) : String :=
  "vertex " ++ toString a.index ++ ": " ++ (a.reply p before).message

end Attempt

section Replies
variable [Scalar α] [Readable α] [Exact α]

/-- The lines that are printed for attempts at corners, one after another. -/
def Replies (vertices : List (Vertex α)) (attempts : List Attempt) (lines : List String) : Prop :=
  lines.length = attempts.length ∧ ∀ (k : Nat) (a : Attempt) (v : Vertex α),
    attempts[k]? = some a → vertices[a.index]? = some v →
    lines[k]? = some (a.line v.point (attempts.take k))

theorem Replies.nil (vertices : List (Vertex α)) : Replies vertices [] [] :=
  ⟨rfl, fun _ _ _ h => by cases h⟩

theorem Replies.snoc {vertices : List (Vertex α)} {attempts : List Attempt} {lines : List String}
    (h : Replies vertices attempts lines) {a : Attempt} {v : Vertex α}
    (hv : vertices[a.index]? = some v) :
    Replies vertices (attempts ++ [a]) (lines ++ [a.line v.point attempts]) := by
  obtain ⟨length, said⟩ := h
  refine ⟨by simp [length], fun k e w he hw => ?_⟩
  rcases Nat.lt_trichotomy k attempts.length with before | rfl | past
  · rw [List.getElem?_append_left before] at he
    rw [List.getElem?_append_left (by omega), List.take_append_of_le_length before.le]
    exact said k e w he hw
  · rw [List.getElem?_concat_length, Option.some.injEq] at he
    subst he
    rw [hv, Option.some.injEq] at hw
    subst hw
    rw [← length, List.getElem?_concat_length, length, List.take_left]
  · rw [List.getElem?_eq_none (by simp; omega)] at he
    cases he

end Replies

/-! ## One attempt -/

variable [Coordinate α] {t : Transcript α}

section
variable {i : Nat} {v : Vertex α}

theorem Transcript.splitAnswer_eq {index x y : String} (colon : ':' ∉ index.toList)
    (left : ',' ∉ x.toList) (right : ',' ∉ y.toList) :
    splitAnswer (index ++ ":" ++ x ++ "," ++ y) = some (index, x, y) := by
  have before : ∀ c ∈ index.toList, decide (c ≠ ':') = true := fun c hc =>
    decide_eq_true fun same => colon (same ▸ hc)
  have text : (index ++ ":" ++ x ++ "," ++ y).toList =
      index.toList ++ ':' :: (x.toList ++ ',' :: y.toList) := by simp
  have behind : commaParts (String.ofList (x.toList ++ ',' :: y.toList)) = [x, y] := by
    rw [commaParts, String.toList_ofList, List.splitOn_append_cons_self_of_not_mem left,
      List.splitOn_eq_singleton right]
    simp
  have rest : ∀ cs, (':' :: cs).dropWhile (fun c => decide (c ≠ ':')) = ':' :: cs := fun _ => rfl
  have taken : ∀ cs, (':' :: cs).takeWhile (fun c => decide (c ≠ ':')) = [] := fun _ => rfl
  simp only [splitAnswer, text, List.dropWhile_append_of_pos before,
    List.takeWhile_append_of_pos before, rest, taken, behind, List.append_nil, String.ofList_toList]

theorem Transcript.answer_eq {value : Option String} {a : Attempt} (h : Spells value a) :
    t.answer value = (t.select a.index).next fun t => t.submit a.index a.x a.y := by
  obtain ⟨index, rfl, colon, left, right, whole⟩ := h
  simp only [answer, answerText, splitAnswer_eq colon left right, whole]

omit [Coordinate α] in
theorem Transcript.select_board (h : t.board.Orderly) (hv : t.board.vertices[i]? = some v) :
    ∃ t', t.select i = (none, t') ∧ t'.board = t.board.selecting i ∧ t'.printed = t.printed := by
  unfold select Board.selecting
  by_cases selected : t.board.selected = some i
  · rw [if_pos selected, if_pos (by rw [selected]; rfl)]
    exact ⟨t, rfl, rfl, rfl⟩
  · have other : ¬ t.board.selected.map Int.ofNat = some (i : Int) := by
      rintro same
      obtain ⟨j, hj, same⟩ := Option.map_eq_some_iff.1 same
      rw [hj, Int.ofNat.inj same] at selected
      exact selected rfl
    obtain ⟨f, said⟩ : ∃ f, (t.board.select i).1 = .ok f := by
      rw [h.select_eq hv selected]
      split <;> exact ⟨_, rfl⟩
    rw [if_neg selected, if_neg other]
    split
    · next failed => rw [failed] at said; cases said
    · next failed => rw [failed] at said; cases said
    · next chosen => rw [chosen]; exact ⟨_, rfl, rfl, rfl⟩

theorem Transcript.submit_board {x y : String} {f : Feedback}
    (said : (t.board.submit x y).1 = .ok f) :
    ∃ t', t.submit i x y = (none, t') ∧ t'.board = (t.board.submit x y).2 ∧
      t'.printed = t.printed ++ ["vertex " ++ toString i ++ ": " ++ f.message] := by
  unfold submit
  split
  · next failed => rw [failed] at said; cases said
  · next named =>
    rw [named] at said ⊢
    cases said
    exact ⟨_, rfl, rfl, rfl⟩

end

/-- What holds after some attempts at the corners of a board on which none was marked. -/
structure Told (start : Transcript α) (attempts : List Attempt) (t : Transcript α) : Prop where
  orderly : t.board.Orderly
  bare : t.board.vertices.map Vertex.bare = start.board.vertices.map Vertex.bare
  solved : ∀ (i : Nat) (v : Vertex α), start.board.vertices[i]? = some v →
    (t.board.SolvedAt i ↔ ∃ a ∈ attempts, a.index = i ∧ a.Right v.point)
  printed : ∃ lines, t.printed = start.printed ++ lines ∧
    Replies start.board.vertices attempts lines

namespace Told
variable {start : Transcript α} {attempts : List Attempt}

theorem of_fresh (fresh : start.board.Fresh) : Told start [] start where
  orderly := fresh.orderly
  bare := rfl
  solved i _ _ := iff_of_false (fresh.not_solvedAt i) (by simp)
  printed := ⟨[], by simp, .nil _⟩

/-- One more attempt is replied to by its own corner and the attempts before. -/
theorem step (h : Told start attempts t) {value : Option String} {a : Attempt}
    (spelled : Spells value a) (inRange : a.index < start.board.vertices.length) :
    ∃ t', t.answer value = (none, t') ∧ Told start (attempts ++ [a]) t' := by
  have hv := List.getElem?_eq_getElem inRange
  generalize start.board.vertices[a.index] = v at hv
  obtain ⟨w, hw, same⟩ := exists_of_map_bare h.bare.symm hv
  have point := Vertex.point_of_bare same
  have solvedBefore := (Board.solvedAt_iff hw).symm.trans (h.solved a.index v hv)
  obtain ⟨t₁, selects, board, printed⟩ := Transcript.select_board h.orderly hw
  have attempted := h.orderly.attempt hw a.x a.y
  rw [← board] at attempted
  obtain ⟨t₂, submits, board', printed'⟩ := Transcript.submit_board (i := a.index) attempted.said
  refine ⟨t₂, ?_, ?_, ?_, fun i u hu => ?_, ?_⟩
  · rw [Transcript.answer_eq spelled, selects]
    exact submits
  · rw [board']
    exact attempted.orderly
  · rw [board']
    exact attempted.bare.trans h.bare
  · rw [board', attempted.solved, h.solved i u hu, point]
    simp only [List.mem_append, List.mem_singleton, or_and_right, exists_or, exists_eq_left]
    refine or_congr_right ⟨?_, ?_⟩ <;>
    · rintro ⟨rfl, right⟩
      rw [hv, Option.some.injEq] at hu
      exact ⟨rfl, hu ▸ right⟩
  · obtain ⟨lines, before, replies⟩ := h.printed
    refine ⟨_, ?_, replies.snoc hv⟩
    rw [printed', printed, before, List.append_assoc, point]
    simp only [solvedBefore]
    rfl

/-- Every attempt of a run is replied to by its own corner and the attempts before. -/
theorem run {values : List (Option String)} {more : List Attempt}
    (spelled : List.Forall₂ Spells values more) :
    ∀ {attempts : List Attempt} {t : Transcript α}, Told start attempts t →
      (∀ a ∈ more, a.index < start.board.vertices.length) →
      ∃ t', t.each Transcript.answer values = (none, t') ∧ Told start (attempts ++ more) t' := by
  induction spelled with
  | nil =>
    intro attempts t h _
    exact ⟨t, rfl, by rwa [List.append_nil]⟩
  | @cons value a values more spelled _ ih =>
    intro attempts t h inRange
    obtain ⟨t₁, answered, told⟩ := h.step spelled (inRange a (by simp))
    obtain ⟨t₂, rest, told⟩ := ih told fun a ha => inRange a (by simp [ha])
    refine ⟨t₂, ?_, ?_⟩
    · rw [Transcript.each, answered]
      exact rest
    · rwa [List.append_assoc] at told

end Told

/-! ## A whole run -/

/-- The transcript of a run that has just made its board. -/
def opening (level : Level) (b : Board α) : Transcript α := ⟨b, level, [], [], []⟩

/-- A run with these arguments makes the board `b`, claims what it is to claim on the way to `t`,
and gets past the points on the way to `u`. -/
structure Comes (arguments : List String) (s : Settings α) (level : Level) (b : Board α)
    (t u : Transcript α) : Prop where
  settings : Settings.ofArguments arguments = .ok s
  tells : s.level = some level
  texts : s.allTexts ≠ []
  made : boardOf s = .ok b
  claimed : ((opening level b).each Transcript.cast s.allTexts).next (claimAll s) = (none, t)
  checked : t.each Transcript.point s.points = (none, u)

namespace Comes
variable {arguments : List String} {s : Settings α} {level : Level} {b : Board α}
  {u : Transcript α}

theorem fresh_of_boardOf (made : boardOf s = .ok b) : b.Fresh := by
  obtain ⟨_, -, made⟩ := bind_ok_iff.1 made
  obtain ⟨_, -, made⟩ := bind_ok_iff.1 made
  obtain ⟨_, -, made⟩ := bind_ok_iff.1 made
  obtain ⟨_, -, made⟩ := bind_ok_iff.1 made
  split at made
  · cases made
  · obtain ⟨_, -, made⟩ := bind_ok_iff.1 made
    obtain ⟨_, make, made⟩ := bind_ok_iff.1 made
    cases made
    exact (Board.Fresh.of_make make).of_same rfl rfl

theorem fresh_claimAll (s : Settings α) (t : Transcript α) (fresh : t.board.Fresh) :
    (claimAll s t).2.board.Fresh := by
  unfold claimAll
  split
  · exact Transcript.each_keeps (P := fun t => t.board.Fresh) Transcript.fresh_claim _ fresh
  · exact fresh

theorem fresh (h : Comes arguments s level b t u) : t.board.Fresh := by
  have start : (opening level b).board.Fresh := fresh_of_boardOf h.made
  have cast := Transcript.each_keeps (P := fun t => t.board.Fresh) Transcript.fresh_cast
    s.allTexts start
  have claimed := Step.next_keeps (f := claimAll s) cast (fresh_claimAll s)
  rw [h.claimed] at claimed
  exact claimed

theorem sameCorners (h : Comes arguments s level b t u) : t.SameCorners u := by
  have same := Transcript.each_keeps (P := t.SameCorners) (f := Transcript.point)
    (fun u point h => ⟨(u.sameCorners_point point).1.trans h.1,
      (u.sameCorners_point point).2.trans h.2⟩) s.points ⟨rfl, rfl⟩
  rw [h.checked] at same
  exact same

/-- Such a run prints what its transcript holds in the end. -/
theorem runArguments_printed (h : Comes arguments s level b t u) (around : Surroundings α) :
    (runArguments around arguments).printed = (carryOut around s (opening level b)).2.printed := by
  simp only [runArguments, h.settings, run, h.tells, wanted, runAt, h.texts, if_false, h.made]
  rfl

end Comes

/-- The attempts of a run, all well formed and at corners that are there once everything is cast
and claimed, are replied to one by one, whatever their order. An attempt at a corner that an
earlier one got right is told to select a corner first; any other is graded by its own corner
alone. In the end the solved corners are those that some attempt got right. -/
theorem attempts_replied {arguments : List String} {s : Settings α} {level : Level} {b : Board α}
    {t u : Transcript α} (comes : Comes arguments s level b t u) {attempts : List Attempt}
    (spelled : List.Forall₂ Spells s.answers attempts)
    (inRange : ∀ a ∈ attempts, a.index < t.board.vertices.length) (around : Surroundings α) :
    ∃ final : Transcript α, (carryOut around s (opening level b)).2 = final ∧
      (runArguments around arguments).printed = final.printed ∧
      (∃ lines rest, final.printed = u.printed ++ lines ++ rest ∧
        Replies t.board.vertices attempts lines) ∧
      final.board.vertices.map Vertex.bare = t.board.vertices.map Vertex.bare ∧
      ∀ (i : Nat) (v : Vertex α), t.board.vertices[i]? = some v →
        (final.board.SolvedAt i ↔ ∃ a ∈ attempts, a.index = i ∧ a.Right v.point) := by
  obtain ⟨vertices, selected⟩ := comes.sameCorners
  have fresh : u.board.Fresh := comes.fresh.of_same vertices selected
  rw [← vertices] at inRange ⊢
  obtain ⟨w, answered, told⟩ := Told.run spelled (Told.of_fresh fresh) inRange
  rw [List.nil_append] at told
  have ends : carryOut around s (opening level b) =
      (w.exhibit around s).next (printSnapshot s) := by
    simp only [carryOut, comes.claimed, Step.next_none, comes.checked, answered]
  have shows : w.Extends (carryOut around s (opening level b)).2 := by
    rw [ends]
    exact Step.next_keeps (.exhibit around s w) fun _ h => h.printSnapshot s
  obtain ⟨lines, printed, replies⟩ := told.printed
  obtain ⟨rest, more⟩ := shows.printed
  refine ⟨_, rfl, comes.runArguments_printed around, ⟨lines, rest, ?_, replies⟩, ?_, ?_⟩
  · rw [← more, printed]
  · rw [shows.board]
    exact told.bare
  · rw [shows.board]
    exact told.solved

/-! ## A run with a triangle -/

/-- The sides of a triangle, and attempts at its corners in no particular order. -/
def triangle : List String :=
  ["x >= 0", "y >= 0", "x + y <= 3", "--vertex-answer", "0:0,1", "--vertex-answer", "2:3,0",
    "--vertex-answer", "0:0,0", "--vertex-answer", "0:0,0", "--vertex-answer", "1:,2"]

def triangleAttempts : List Attempt :=
  [⟨0, "0", "1"⟩, ⟨2, "3", "0"⟩, ⟨0, "0", "0"⟩, ⟨0, "0", "0"⟩, ⟨1, "", "2"⟩]

/-- Surroundings where nothing fails. -/
def calm : Surroundings Float := ⟨fun _ _ => false, "", "", none, none, .text ""⟩

-- The first corner is named in two attempts, with the last one solved in between.
example : (runArguments calm triangle).printed.drop 6 =
    ["vertex 0: x correct, y incorrect", "vertex 2: Correct! Well done!",
      "vertex 0: Correct! Well done!", "vertex 0: Select an intersection point first.",
      "vertex 1: Please enter both x and y coordinates!"] := by decide +kernel

theorem spells_triangleAttempts :
    List.Forall₂ Spells [some "0:0,1", some "2:3,0", some "0:0,0", some "0:0,0", some "1:,2"]
      triangleAttempts := by
  unfold triangleAttempts
  refine .cons ?_ (.cons ?_ (.cons ?_ (.cons ?_ (.cons ?_ .nil))))
  · exact ⟨"0", by decide +kernel⟩
  · exact ⟨"2", by decide +kernel⟩
  · exact ⟨"0", by decide +kernel⟩
  · exact ⟨"0", by decide +kernel⟩
  · exact ⟨"1", by decide +kernel⟩

theorem exists_triangle : ∃ (s : Settings Float) (b : Board Float) (t u : Transcript Float),
    Comes triangle s .warning b t u ∧ t.board.vertices.length = 3 ∧
      s.answers = [some "0:0,1", some "2:3,0", some "0:0,0", some "0:0,0", some "1:,2"] := by
  have run : (Settings.ofArguments triangle).toOption.any (fun s : Settings Float =>
      s.level == some .warning && s.allTexts != [] &&
      (s.answers == [some "0:0,1", some "2:3,0", some "0:0,0", some "0:0,0", some "1:,2"]) &&
      (boardOf s).toOption.any fun b =>
        let t := ((opening .warning b).each Transcript.cast s.allTexts).next (claimAll s)
        let u := t.2.each Transcript.point s.points
        t.1.isNone && u.1.isNone && t.2.board.vertices.length == 3) = true := by decide +kernel
  simp only [Option.any_eq_true, Bool.and_eq_true, beq_iff_eq, bne_iff_ne,
    Option.isNone_iff_eq_none] at run
  obtain ⟨s, settings, ⟨⟨level, texts⟩, answers⟩, b, made, ⟨claimed, checked⟩, corners⟩ := run
  exact ⟨s, b, _, _, ⟨ok_of_toOption settings, level, texts, ok_of_toOption made,
    Prod.ext claimed rfl, Prod.ext checked rfl⟩, corners, answers⟩

theorem attempts_replied_of_triangle : ∃ t u final : Transcript Float,
    t.board.vertices.length = 3 ∧ (runArguments calm triangle).printed = final.printed ∧
      (∃ lines rest, final.printed = u.printed ++ lines ++ rest ∧
        Replies t.board.vertices triangleAttempts lines) ∧
      ∀ i v, t.board.vertices[i]? = some v →
        (final.board.SolvedAt i ↔ ∃ a ∈ triangleAttempts, a.index = i ∧ a.Right v.point) := by
  obtain ⟨s, b, t, u, comes, corners, answers⟩ := exists_triangle
  have spelled : List.Forall₂ Spells s.answers triangleAttempts := by
    rw [answers]
    exact spells_triangleAttempts
  obtain ⟨final, -, printed, replies, -, solved⟩ := attempts_replied comes spelled
    (fun a ha => by
      have small : triangleAttempts.all (fun a => a.index < 3) = true := by decide
      rw [corners]
      exact of_decide_eq_true (List.all_eq_true.1 small a ha)) calm
  exact ⟨t, u, final, corners, printed, replies, solved⟩

end HalfPlane.Command
