/-
Runs of signs, and the one sign that each of them stands for.

The rounds over adjacent signs replace one pair after another, in an order that depends on the
kinds of the pairs. What comes out does not: taken from its end, a run always comes down to the
same sign (`reduced`), because the sign of a pair is a product and products are associative
(`joined_joined`). So no replacement changes what a text comes down to
(`reduced_replacePair`), and a text in which no round finds anything has come down already
(`Lone.reduced_eq`). A round that finds a pair makes the text shorter, so they come to an end.
-/
import Mathlib.Data.List.SplitBy
import Mathlib.Logic.Function.Iterate
import HalfPlane.Proofs.Formula.Normal

namespace HalfPlane.Formula

/-! ## Runs -/

def bothSigns (c d : Char) : Bool := decide (IsSign c ∧ IsSign d)

/-- The runs of a text. Signs that stand side by side are one run, and every other character is
a run of its own. -/
def signRuns (cs : List Char) : List (List Char) := cs.splitBy bothSigns

/-- The sign that a run of signs stands for. -/
def runSign (run : List Char) : Char := if run.count '-' % 2 = 1 then '-' else '+'

/-- What is left of a run: its sign, if it is made of signs. -/
def collapsed (run : List Char) : List Char :=
  if (run.all fun c => decide (IsSign c)) = true then [runSign run] else run

/-! ## Taking a text from its end -/

/-- The sign that two signs stand for. -/
def product (c d : Char) : Char := if c = d then '+' else '-'

/-- A character in front of a text. Two signs that meet become the one they stand for. -/
def joined (c : Char) : List Char → List Char
  | [] => [c]
  | d :: ds => if IsSign c ∧ IsSign d then product c d :: ds else c :: d :: ds

/-- What a text comes down to. -/
def reduced (cs : List Char) : List Char := cs.foldr joined []

@[simp] theorem reduced_nil : reduced [] = [] := rfl

@[simp] theorem reduced_cons (c : Char) (cs : List Char) :
    reduced (c :: cs) = joined c (reduced cs) := rfl

theorem joined_apart {c d : Char} (h : ¬ (IsSign c ∧ IsSign d)) (ds : List Char) :
    joined c (d :: ds) = c :: d :: ds := by
  simp only [joined, h, if_false]

theorem joined_signs {c d : Char} (hc : IsSign c) (hd : IsSign d) (ds : List Char) :
    joined c (d :: ds) = product c d :: ds := by
  simp only [joined, hc, hd, and_self, if_true]

theorem joined_other {c : Char} (h : ¬ IsSign c) (ds : List Char) : joined c ds = c :: ds := by
  cases ds with
  | nil => rfl
  | cons d ds => exact joined_apart (fun both => h both.1) ds

theorem isSign_product (c d : Char) : IsSign (product c d) := by
  unfold product
  split
  · exact .inl rfl
  · exact .inr rfl

theorem isSign_runSign (run : List Char) : IsSign (runSign run) := by
  unfold runSign
  split
  · exact .inr rfl
  · exact .inl rfl

theorem product_assoc {p q d : Char} (hp : IsSign p) (hq : IsSign q) (hd : IsSign d) :
    product p (product q d) = product (product p q) d := by
  rcases hp with rfl | rfl <;> rcases hq with rfl | rfl <;> rcases hd with rfl | rfl <;> rfl

theorem joined_joined {p q : Char} (hp : IsSign p) (hq : IsSign q) (ds : List Char) :
    joined p (joined q ds) = joined (product p q) ds := by
  cases ds with
  | nil => exact joined_signs hp hq []
  | cons d ds =>
    by_cases hd : IsSign d
    · rw [joined_signs hq hd, joined_signs hp (isSign_product q d),
        joined_signs (isSign_product p q) hd, product_assoc hp hq hd]
    · rw [joined_apart (fun both => hd both.2), joined_signs hp hq,
        joined_apart (fun both => hd both.2)]

/-- A pair that is replaced by its sign makes no difference to what a text comes down to. -/
theorem reduced_replacePair {p q : Char} (hp : IsSign p) (hq : IsSign q) (cs : List Char) :
    reduced (replacePair p q [product p q] cs) = reduced cs := by
  fun_induction replacePair p q [product p q] cs with
  | case1 c d rest found ih =>
    obtain ⟨rfl, rfl⟩ := found
    simp only [List.singleton_append, reduced_cons, ih, joined_joined hp hq]
  | case2 c d rest other ih => rw [reduced_cons, ih, ← reduced_cons]
  | case3 cs short => rfl

theorem reduced_signRound (cs : List Char) : reduced (signRound cs) = reduced cs := by
  have plus : IsSign '+' := .inl rfl
  have minus : IsSign '-' := .inr rfl
  unfold signRound
  exact (reduced_replacePair plus plus _).trans ((reduced_replacePair minus plus _).trans
    ((reduced_replacePair plus minus _).trans (reduced_replacePair minus minus _)))

theorem Lone.reduced_eq {cs : List Char} (h : Lone cs) : reduced cs = cs := by
  induction cs with
  | nil => rfl
  | cons c cs ih =>
    rw [reduced_cons, ih h.tail]
    cases cs with
    | nil => rfl
    | cons d cs => exact joined_apart (List.isChain_cons_cons.1 h).1 cs

/-! ## Rounds -/

theorem isChain_of_short {R : Char → Char → Prop} {cs : List Char}
    (short : ∀ c d rest, cs = c :: d :: rest → False) : cs.IsChain R := by
  cases cs with
  | nil => exact .nil
  | cons c cs =>
    cases cs with
    | nil => exact .singleton c
    | cons d rest => exact absurd rfl (short c d rest)

/-- A replacement that finds its pair makes the text shorter. -/
theorem replacePair_shortens (p q s : Char) (cs : List Char) :
    (replacePair p q [s] cs).length ≤ cs.length ∧
      (cs.length ≤ (replacePair p q [s] cs).length →
        cs.IsChain fun c d => ¬ (c = p ∧ d = q)) := by
  fun_induction replacePair p q [s] cs with
  | case1 c d rest found ih =>
    have shorter := ih.1
    simp only [List.singleton_append, List.length_cons]
    exact ⟨by omega, fun same => by omega⟩
  | case2 c d rest other ih =>
    simp only [List.length_cons, Nat.add_le_add_iff_right] at ih ⊢
    exact ⟨ih.1, fun same => List.isChain_cons_cons.2 ⟨other, ih.2 same⟩⟩
  | case3 cs short => exact ⟨Nat.le_refl _, fun _ => isChain_of_short short⟩

/-- A round that does not make the text shorter found no two signs side by side. -/
theorem lone_of_signRound {cs : List Char} (h : cs.length ≤ (signRound cs).length) : Lone cs := by
  unfold signRound at h
  dsimp only at h
  have first := replacePair_shortens '-' '-' '+' cs
  generalize h₁ : replacePair '-' '-' ['+'] cs = cs₁ at h first
  have second := replacePair_shortens '+' '-' '-' cs₁
  generalize h₂ : replacePair '+' '-' ['-'] cs₁ = cs₂ at h second
  have third := replacePair_shortens '-' '+' '-' cs₂
  generalize h₃ : replacePair '-' '+' ['-'] cs₂ = cs₃ at h third
  have fourth := replacePair_shortens '+' '+' '+' cs₃
  -- None of the four replacements found its pair, so each had the text as it was.
  have none₁ := first.2 (by omega)
  obtain rfl : cs₁ = cs := h₁.symm.trans (replacePair_eq none₁)
  have none₂ := second.2 (by omega)
  obtain rfl : cs₂ = cs₁ := h₂.symm.trans (replacePair_eq none₂)
  have none₃ := third.2 (by omega)
  obtain rfl : cs₃ = cs₂ := h₃.symm.trans (replacePair_eq none₃)
  have none₄ := fourth.2 (by omega)
  refine List.isChain_iff_getElem.2 fun i hi both => ?_
  have pairs := fun (p q : Char) (none : cs₃.IsChain fun c d => ¬ (c = p ∧ d = q)) =>
    List.isChain_iff_getElem.1 none i hi
  rcases both with ⟨hc | hc, hd | hd⟩
  · exact pairs _ _ none₄ ⟨hc, hd⟩
  · exact pairs _ _ none₂ ⟨hc, hd⟩
  · exact pairs _ _ none₃ ⟨hc, hd⟩
  · exact pairs _ _ none₁ ⟨hc, hd⟩

theorem lone_collapseSigns (cs : List Char) : Lone (collapseSigns cs) := by
  fun_induction collapseSigns cs with
  | case1 cs shorter ih => exact ih
  | case2 cs longer => exact lone_of_signRound (by omega)

theorem collapseSigns_eq_reduced (cs : List Char) : collapseSigns cs = reduced cs := by
  rw [← (lone_collapseSigns cs).reduced_eq]
  fun_induction collapseSigns cs with
  | case1 cs shorter ih => rw [ih, reduced_signRound]
  | case2 cs longer => rfl

/-- The rounds go on as long as two signs stand side by side, and no longer. -/
theorem exists_rounds (cs : List Char) :
    ∃ rounds ≤ cs.length, (∀ k < rounds, ¬ Lone (signRound^[k] cs)) ∧
      collapseSigns cs = signRound^[rounds] cs := by
  fun_induction collapseSigns cs with
  | case1 cs shorter ih =>
    obtain ⟨rounds, bound, busy, same⟩ := ih
    refine ⟨rounds + 1, by omega, fun k hk => ?_, same⟩
    cases k with
    | zero =>
      intro lone
      have lone : Lone cs := lone
      rw [lone.signRound] at shorter
      omega
    | succ k => exact busy k (by omega)
  | case2 cs longer => exact ⟨0, by omega, fun k hk => by omega, rfl⟩

/-! ## What is left of a run -/

theorem runSign_singleton {c : Char} (h : IsSign c) : runSign [c] = c := by
  rcases h with rfl | rfl <;> rfl

theorem product_runSign {c : Char} (h : IsSign c) (run : List Char) :
    product c (runSign run) = runSign (c :: run) := by
  unfold product runSign
  rcases h with rfl | rfl
  · rw [List.count_cons_of_ne (by decide)]
    by_cases odd : run.count '-' % 2 = 1
    · simp only [odd, if_true]; rfl
    · simp only [odd, if_false, if_true]
  · rw [List.count_cons_self]
    by_cases odd : run.count '-' % 2 = 1
    · have even : ¬ (run.count '-' + 1) % 2 = 1 := by omega
      simp only [odd, even, if_true, if_false]
    · have next : (run.count '-' + 1) % 2 = 1 := by omega
      simp only [odd, next, if_true, if_false]
      rfl

/-- A run of signs with no further sign behind it comes down to its sign. -/
theorem reduced_signs {run rest : List Char} (written : run ≠ []) (signs : ∀ c ∈ run, IsSign c)
    (stop : ∀ d ∈ rest.head?, ¬ IsSign d) :
    reduced (run ++ rest) = runSign run :: reduced rest := by
  induction run with
  | nil => exact absurd rfl written
  | cons c run ih =>
    have hc := signs c (by simp)
    cases run with
    | nil =>
      rw [runSign_singleton hc, List.singleton_append, reduced_cons]
      cases rest with
      | nil => rfl
      | cons d rest =>
        have hd := stop d rfl
        rw [reduced_cons, joined_other hd, joined_apart (fun both => hd both.2)]
    | cons d run =>
      have further : ∀ e ∈ d :: run, IsSign e := fun e he => signs e (by simp [he])
      rw [List.cons_append, reduced_cons, ih (by simp) further, joined_signs hc (isSign_runSign _),
        product_runSign hc]

/-- Characters that are pairwise joined into one run are signs, unless there is only one. -/
theorem signs_of_run {run : List Char}
    (h : run.IsChain fun c d => bothSigns c d = true) :
    (∃ c, run = [c] ∧ ¬ IsSign c) ∨ ∀ c ∈ run, IsSign c := by
  induction run with
  | nil => exact .inr (by simp)
  | cons c run ih =>
    cases run with
    | nil =>
      by_cases hc : IsSign c
      · exact .inr (by simpa using hc)
      · exact .inl ⟨c, rfl, hc⟩
    | cons d run =>
      right
      obtain ⟨both, further⟩ := List.isChain_cons_cons.1 h
      obtain ⟨hc, hd⟩ := of_decide_eq_true both
      rcases ih further with ⟨e, same, he⟩ | signs
      · simp only [List.cons.injEq] at same
        rw [← same.1] at he
        exact absurd hd he
      · exact List.forall_mem_cons.2 ⟨hc, signs⟩

/-- A text put together from runs comes down to what is left of each of them. -/
theorem reduced_flatten {runs : List (List Char)} (written : [] ∉ runs)
    (joins : ∀ run ∈ runs, run.IsChain fun c d => bothSigns c d = true)
    (ends : runs.IsChain fun run next => ∃ h h', bothSigns (run.getLast h) (next.head h') = false) :
    reduced runs.flatten = runs.flatMap collapsed := by
  induction runs with
  | nil => rfl
  | cons run runs ih =>
    have rest := ih (fun h => written (by simp [h])) (fun r hr => joins r (by simp [hr])) ends.tail
    rw [List.flatten_cons, List.flatMap_cons, ← rest]
    rcases signs_of_run (joins run (by simp)) with ⟨c, rfl, other⟩ | signs
    · have left : collapsed [c] = [c] := by simp [collapsed, other]
      rw [left, List.singleton_append, reduced_cons, joined_other other, List.singleton_append]
    · have all : (run.all fun c => decide (IsSign c)) = true := by
        simpa [List.all_eq_true] using signs
      have left : collapsed run = [runSign run] := by simp only [collapsed, all, if_true]
      have proper : run ≠ [] := fun h => written (by simp [h])
      rw [left, List.singleton_append]
      refine reduced_signs proper signs fun d hd => ?_
      cases runs with
      | nil => cases hd
      | cons next runs =>
        obtain ⟨h, h', apart⟩ := (List.isChain_cons_cons.1 ends).1
        rw [List.flatten_cons, List.head?_append_of_ne_nil _ h', List.head?_eq_some_head h'] at hd
        cases hd
        intro sign
        exact of_decide_eq_false apart ⟨signs _ (List.getLast_mem h), sign⟩

/-- The rounds over adjacent signs come to an end, whatever the text: there are as many as it takes
until no two signs stand side by side, at most one for each character. What is left is the text
with each run of signs replaced by its sign, and everything else in its place. -/
theorem collapseSigns_eq_runs (cs : List Char) :
    (∃ rounds ≤ cs.length, (∀ k < rounds, ¬ Lone (signRound^[k] cs)) ∧
        Lone (signRound^[rounds] cs) ∧ collapseSigns cs = signRound^[rounds] cs) ∧
      collapseSigns cs = (signRuns cs).flatMap collapsed ∧ Lone (collapseSigns cs) := by
  have lone := lone_collapseSigns cs
  obtain ⟨rounds, bound, busy, same⟩ := exists_rounds cs
  refine ⟨⟨rounds, bound, busy, same ▸ lone, same⟩, ?_, lone⟩
  have runs := reduced_flatten (List.nil_notMem_splitBy bothSigns cs)
    (fun _ => List.isChain_of_mem_splitBy) (List.isChain_getLast_head_splitBy bothSigns cs)
  rw [List.flatten_splitBy] at runs
  rw [collapseSigns_eq_reduced, runs, signRuns]

/-- Three minus signs are one, and two of them are a plus. -/
example : collapseSigns ['-', '-', '-', 'x', '+', '-', '-', '2'] = ['-', 'x', '+', '2'] := by
  decide +kernel

end HalfPlane.Formula
