/-
A form that is written out as plain text is read back from it.

The text spells out the words of a reading, one signed atom for each coefficient that is not
zero (`Shown`), and the form of that reading collects the numbers as they were written. So it has
the same operator, and coefficients that are kept (`plain_reads_back`).
-/
import HalfPlane.Proofs.Form.OfText
import HalfPlane.Proofs.Form.PlainNumber
import HalfPlane.Proofs.Formula.Normal
import HalfPlane.Proofs.Geometry.Sides

namespace HalfPlane
open Scalar Formula

/-- A literal has no blanks. -/
theorem Formula.Literal.blankless_text {l : Literal} (proper : l.Proper) :
    Text.blankless l.text = (Token.number l).chars :=
  List.filter_eq_self.2 fun c hc => by simp [(Token.spells_of_literal proper c hc).clean.1]

namespace Formula
open Text

/-! ## Signed atoms -/

/-- The sign of a coefficient, as it is written. -/
def Sign.ofValue (v : ℚ) : Sign := if v < 0 then .minus else .plus

/-- At the start of a text only a minus shows. -/
def Sign.leading : Sign → Option Sign
  | .plus => none
  | .minus => some .minus

theorem Sign.value_leading (s : Sign) : ((s.leading.getD .plus).value : ℚ) = s.value := by
  cases s <;> rfl

/-- The words of signed atoms at the start of a text. -/
def leadWords : List (Sign × Atom) → List Token
  | [] => []
  | (s, a) :: others => (s.leading.map Sign.word).toList ++ a.words ++ Summands.otherWords others

theorem leadWords_append {atoms : List (Sign × Atom)} (some : atoms ≠ [])
    (others : List (Sign × Atom)) :
    leadWords (atoms ++ others) = leadWords atoms ++ Summands.otherWords others := by
  cases atoms with
  | nil => exact absurd rfl some
  | cons first atoms => simp [leadWords, Summands.otherWords]

/-- Signed atoms are a sum. -/
theorem exists_summands {atoms : List (Sign × Atom)} (some : atoms ≠ []) :
    ∃ s : Summands, s.words = leadWords atoms ∧
      (s.terms : List (Term ℚ)) = Summands.otherTerms atoms := by
  cases atoms with
  | nil => exact absurd rfl some
  | cons first others =>
    obtain ⟨sign, atom⟩ := first
    refine ⟨⟨sign.leading, atom, others⟩, rfl, ?_⟩
    simp only [Summands.terms, Summands.otherTerms, List.map_cons, sign.value_leading]

end Formula

/-! ## What is written of a coefficient -/

theorem kept_signed {v w : ℚ} (counts : tolerance ≤ |v|) (h : Stands w |v|) :
    Kept v ((Sign.ofValue v).value * w) := by
  have kept := h.kept counts
  unfold Sign.ofValue
  split
  · next neg =>
    rw [abs_of_neg neg] at kept
    simpa [Sign.value] using kept.neg
  · next nonneg =>
    rw [abs_of_nonneg (not_lt.1 nonneg)] at kept
    simpa [Sign.value] using kept

/-- The text of a coefficient, as signed atoms of one kind: what they come to is what becomes of the
coefficient. -/
structure Shown (first : Bool) (unknown : Option Unknown) (v : ℚ) (text : String)
    (atoms : List (Sign × Atom)) (w : ℚ) : Prop where
  spells : Text.blankless text =
    spelled (if first then leadWords atoms else Summands.otherWords atoms)
  totals : ∀ u, Term.total u (Summands.otherTerms atoms) = if u = unknown then w else 0
  missing : atoms = [] ↔ v = 0
  counted : LinearForm.Counted w
  kept : Kept v w

theorem shown_zero (first : Bool) (unknown : Option Unknown) : Shown first unknown 0 "" [] 0 where
  spells := by cases first <;> rfl
  totals u := by simp [Summands.otherTerms, Term.total]
  missing := by simp
  counted := .inl rfl
  kept := .refl 0

theorem blankless_signText (first : Bool) (v : ℚ) :
    Text.blankless (LinearForm.signText first v) =
      spelled (if first then ((Sign.ofValue v).leading.map Sign.word).toList
        else [(Sign.ofValue v).word]) := by
  unfold LinearForm.signText Sign.ofValue
  rw [decimal_zero]
  by_cases neg : v < 0
  · cases first <;> simp [neg] <;> decide
  · cases first <;> simp [neg] <;> decide

/-- A signed atom shows a coefficient that counts. -/
theorem shown_atom {v w : ℚ} (counts : tolerance ≤ |v|) (stands : Stands w |v|) (first : Bool)
    {unknown : Option Unknown} {a : Atom} {text : String}
    (spells : Text.blankless text = spelled a.words)
    (term : ∀ sign : ℚ, a.term sign = ⟨unknown, sign * w⟩) :
    Shown first unknown v (LinearForm.signText first v ++ text) [(Sign.ofValue v, a)]
      ((Sign.ofValue v).value * w) where
  spells := by
    rw [Text.blankless_append, blankless_signText, spells]
    cases first <;> simp [leadWords, Summands.otherWords, spelled]
  totals u := by
    simp only [Summands.otherTerms, List.map_cons, List.map_nil, term, Term.total, List.sum_cons,
      List.sum_nil, add_zero, Term.part, eq_comm]
  missing := iff_of_false (by simp) (ne_zero_of_counts counts)
  counted := by
    have size : |((Sign.ofValue v).value * w : ℚ)| = |w| := by
      cases Sign.ofValue v <;> simp [Sign.value]
    refine .inr (size ▸ stands.counts.trans (le_abs_self w))
  kept := kept_signed counts stands

namespace LinearForm

/-- The number in front of an unknown and the unknown are an atom; the number one does not
show. -/
theorem exists_factor {m : ℚ} (h : tolerance ≤ m) (u : Unknown) :
    ∃ (factor : String) (a : Atom) (w : ℚ),
      (if negligible (m - 1.0) then pure "" else plainNumber m) = .ok factor ∧
      Text.blankless (factor ++ u.name) = spelled a.words ∧
      (∀ sign : ℚ, a.term sign = ⟨some u, sign * w⟩) ∧ Stands w m := by
  have name : Text.blankless u.name = (Token.unknown u).chars := by cases u <;> decide
  split
  · next one =>
    rw [negligible_iff, decimal_one] at one
    have stands : Stands ((1 : ℤ) : ℚ) m := .of_integer h (by rwa [Int.cast_one])
    rw [Int.cast_one] at stands
    refine ⟨"", .unknown u, 1, rfl, ?_, fun sign => ?_, stands⟩
    · rw [Text.blankless_append, name]
      simp [Atom.words]
    · rw [mul_one]
      rfl
  · obtain ⟨l, proper, written, stands⟩ := exists_literal h
    refine ⟨l.text, .multiple l proper false u, l.value, written, ?_, fun _ => rfl, stands⟩
    rw [Text.blankless_append, name, Literal.blankless_text proper]
    simp [Atom.words]

/-- What a part of the text is does not change what is written behind it. -/
theorem part_eq {zero : Prop} [Decidable zero] {term : Except Fault String} {text : String}
    {behind : String → Except Fault String}
    (h : (if zero then pure "" else term) = .ok text) :
    (if zero then pure "" >>= behind else term >>= behind) = behind text := by
  split at h
  · next missing =>
    rw [if_pos missing, h]
    rfl
  · next there =>
    rw [if_neg there, h]
    rfl

/-- Nothing is written of zero, and of a coefficient that counts a signed atom is. -/
theorem exists_shown_of {first : Bool} {unknown : Option Unknown} {v : ℚ} (h : Counted v)
    {term : Except Fault String}
    (there : tolerance ≤ |v| → ∃ (text : String) (a : Atom) (w : ℚ),
      term = .ok (signText first v ++ text) ∧ Text.blankless text = spelled a.words ∧
      (∀ sign : ℚ, a.term sign = ⟨unknown, sign * w⟩) ∧ Stands w |v|) :
    ∃ text atoms w, (if isZero v then pure "" else term) = .ok text ∧
      Shown first unknown v text atoms w := by
  rcases h with rfl | counts
  · exact ⟨"", [], 0, if_pos ((isZero_iff_eq 0).2 rfl), shown_zero first unknown⟩
  · have nonzero : ¬ isZero v = true := fun zero =>
      ne_zero_of_counts counts ((isZero_iff_eq v).1 zero)
    obtain ⟨text, a, w, written, spells, term, stands⟩ := there counts
    exact ⟨_, _, _, (if_neg nonzero).trans written, shown_atom counts stands first spells term⟩

theorem exists_shown (first : Bool) {v : ℚ} (h : Counted v) (u : Unknown) :
    ∃ text atoms w, (if isZero v then pure "" else plainTerm first v u.name) = .ok text ∧
      Shown first (some u) v text atoms w := by
  refine exists_shown_of h fun counts => ?_
  obtain ⟨factor, a, w, written, spells, term, stands⟩ := exists_factor counts u
  refine ⟨factor ++ u.name, a, w, ?_, spells, term, stands⟩
  rw [← String.append_assoc, plainTerm, Scalar.abs_eq]
  exact part_eq written

theorem exists_shown_constant {v : ℚ} (h : Counted v) :
    ∃ text atoms w, (if isZero v then pure "" else plainConstant v) = .ok text ∧
      Shown false none v text atoms w := by
  refine exists_shown_of h fun counts => ?_
  obtain ⟨l, proper, written, stands⟩ := exists_literal counts
  refine ⟨l.text, .constant l proper, l.value, ?_, ?_, fun _ => rfl, stands⟩
  · rw [plainConstant, Scalar.abs_eq, written]
    rfl
  · rw [Literal.blankless_text proper]
    simp [Atom.words]

end LinearForm

/-! ## The whole text -/

/-- The comparison that an operator is written as. -/
def Operator.comparison : Operator → Comparison
  | .lt => .lt
  | .le => .le
  | .gt => .gt
  | .ge => .ge
  | .eq => .eq

theorem Operator.operator?_comparison (o : Operator) : o.comparison.operator? = some o := by
  cases o <;> rfl

/-- The right side of every text that is written: zero. -/
def zeroSide : Summands := ⟨none, .constant (.ofNat 0) (Literal.proper_ofNat 0), []⟩

theorem zeroSide_total (u : Option Unknown) :
    Term.total u (zeroSide.terms : List (Term ℚ)) = 0 := by
  have zero : ((Literal.ofNat 0).value : ℚ) = 0 := by
    rw [Literal.value_ofNat, Nat.cast_zero]
  simp [zeroSide, Summands.terms, Summands.otherTerms, Atom.term, zero, Term.total, Term.part]

theorem blankless_comparison (o : Operator) :
    Text.blankless (" " ++ o.symbol ++ " 0") =
      spelled (.comparison o.comparison :: zeroSide.words) := by
  cases o <;> decide

namespace LinearForm
variable {f : LinearForm ℚ}

section Parts
variable {x y z : String} {xs ys zs : List (Sign × Atom)} {a b c : ℚ}
  (hx : Shown true (some .x) f.a x xs a) (hy : Shown (isZero f.a) (some .y) f.b y ys b)
  (hz : Shown false none f.c z zs c) (unknowns : ¬ (f.a = 0 ∧ f.b = 0))
include hx hy unknowns

theorem atoms_ne_nil : xs ++ ys ≠ [] := fun none =>
  unknowns ⟨hx.missing.1 (List.append_eq_nil_iff.1 none).1,
    hy.missing.1 (List.append_eq_nil_iff.1 none).2⟩

include hz

/-- The terms of a text are a sum of all its atoms. -/
theorem blankless_terms :
    Text.blankless (x ++ y ++ z) = spelled (leadWords (xs ++ ys ++ zs)) := by
  have front : Text.blankless (x ++ y) = spelled (leadWords (xs ++ ys)) := by
    rw [Text.blankless_append, hx.spells, hy.spells]
    cases zero : isZero f.a with
    | true =>
      -- The second unknown stands at the start of the text.
      obtain rfl : xs = [] := hx.missing.2 ((isZero_iff_eq _).1 zero)
      rfl
    | false =>
      have some : xs ≠ [] := fun none => by
        rw [hx.missing.1 none, (isZero_iff_eq 0).2 rfl] at zero
        cases zero
      rw [leadWords_append some, spelled_append]
      rfl
  rw [Text.blankless_append, front, hz.spells, leadWords_append (atoms_ne_nil hx hy unknowns),
    spelled_append]
  rfl

omit unknowns in
theorem total_terms (u : Option Unknown) :
    Term.total u (Summands.otherTerms (xs ++ ys ++ zs)) =
      (if u = some .x then a else 0) + (if u = some .y then b else 0) +
        if u = none then c else 0 := by
  rw [← hx.totals, ← hy.totals, ← hz.totals, ← Term.total_append, ← Term.total_append]
  simp [Summands.otherTerms]

/-- The text is read as the form with the coefficients that its atoms show. -/
theorem ofText?_of_shown :
    ofText? (x ++ y ++ z ++ " " ++ f.operator.symbol ++ " 0") = some ⟨a, b, c, f.operator⟩ := by
  have nonempty : xs ++ ys ++ zs ≠ [] := fun none =>
    atoms_ne_nil hx hy unknowns (List.append_eq_nil_iff.1 none).1
  obtain ⟨s, words, terms⟩ := exists_summands nonempty
  let r : Reading := ⟨s, f.operator.comparison, zeroSide⟩
  have spells : Text.blankless (x ++ y ++ z ++ " " ++ f.operator.symbol ++ " 0") =
      spelled r.words := by
    have sides : x ++ y ++ z ++ " " ++ f.operator.symbol ++ " 0" =
        (x ++ y ++ z) ++ (" " ++ f.operator.symbol ++ " 0") := by simp only [String.append_assoc]
    rw [sides, Text.blankless_append, blankless_comparison, blankless_terms hx hy hz unknowns,
      ← words, ← spelled_append]
    rfl
  have collects (u : Option Unknown) : collected u (r.formula : Formula ℚ) =
      (if u = some .x then a else 0) + (if u = some .y then b else 0) +
        if u = none then c else 0 := by
    rw [collected_eq_totals, ← total_terms hx hy hz, ← terms]
    exact sub_eq_self.2 (zeroSide_total u)
  have first : collected (some .x) (r.formula : Formula ℚ) = a := by simp [collects]
  have second : collected (some .y) (r.formula : Formula ℚ) = b := by simp [collects]
  have rest : collected none (r.formula : Formula ℚ) = c := by simp [collects]
  have read : ofText _ = .ok (r.formula : Formula ℚ) := ofText_of_text (r.text_eq_normalize spells)
  have line : ¬ (a = 0 ∧ b = 0) := by rwa [hx.kept.zero, hy.kept.zero]
  rw [ofText?_eq_collectedForm? read, collectedForm?, first, second, rest]
  exact ofCoefficients?_eq hx.counted hy.counted hz.counted line
    f.operator.operator?_comparison

end Parts

/-- The forms that are read are those that are read back. -/
theorem settled_of_read {text : String} (h : ofText? text = some f) :
    f.Proper ∧ Counted f.c := by
  unfold ofText? at h
  split at h
  · cases h
  · next shape _ =>
    refine ⟨.of_ofShape? h, ?_⟩
    have constant {a b c : ℚ} {comparison : Comparison}
        (h : ofCoefficients? a b c comparison = some f) : Counted f.c := by
      unfold ofCoefficients? at h
      split at h
      · cases h
      · dsimp only at h
        split at h <;> cases h
        exact counted_settled c
    rcases shape with _ | ⟨_ | _⟩ | _ | _ <;> simp only [ofShape?] at h <;>
      exact constant h

/-- A form that can have been read is written as a text that is read as the same form, up to what
twelve places cannot tell. -/
theorem plain_reads_back (proper : f.Proper) (constant : Counted f.c) :
    ∃ text g, f.plain = .ok text ∧ ofText? text = some g ∧ g.operator = f.operator ∧
      Kept f.a g.a ∧ Kept f.b g.b ∧ Kept f.c g.c ∧
      (Neat f.a → Neat f.b → Neat f.c → g = f) := by
  obtain ⟨x, xs, a, writtenX, hx⟩ := exists_shown true proper.first .x
  obtain ⟨y, ys, b, writtenY, hy⟩ := exists_shown (isZero f.a) proper.second .y
  obtain ⟨z, zs, c, writtenZ, hz⟩ := exists_shown_constant constant
  have written : f.plain = .ok (x ++ y ++ z ++ " " ++ f.operator.symbol ++ " 0") :=
    (part_eq writtenX).trans ((part_eq writtenY).trans (part_eq writtenZ))
  refine ⟨_, _, written, ofText?_of_shown hx hy hz proper.unknowns, rfl, hx.kept, hy.kept, hz.kept,
    fun neatA neatB neatC => ?_⟩
  rw [hx.kept.neat neatA, hy.kept.neat neatB, hz.kept.neat neatC]

/-- `-1.5x + y <= 0` -/
def steep : LinearForm ℚ := ⟨-3 / 2, 1, 0, .le⟩

theorem neat_slope : Neat (-3 / 2) where
  places := ⟨-1500000000000, by norm_num⟩
  clear := by
    refine .inr fun n => ?_
    rw [tolerance_eq, le_abs]
    rcases le_or_gt n (-2) with low | high
    · left
      have below : (n : ℚ) ≤ -2 := by exact_mod_cast low
      linarith
    · right
      have above : (-1 : ℚ) ≤ n := by exact_mod_cast Int.add_one_le_of_lt high
      linarith

theorem neat_intCast {n : ℤ} : Neat n := ⟨⟨n * 10 ^ 12, by push_cast; ring⟩, .inl ⟨n, rfl⟩⟩

theorem steep_reads_back :
    steep.plain = .ok "-1.5x + y <= 0" ∧ ofText? "-1.5x + y <= 0" = some steep := by
  have written : steep.plain = .ok "-1.5x + y <= 0" := by decide +kernel
  have proper : steep.Proper := by
    refine ⟨.inr ?_, .inr ?_, ?_⟩ <;> norm_num [steep, tolerance_eq]
  obtain ⟨text, g, plain, read, -, -, -, -, same⟩ := plain_reads_back proper (.inl rfl)
  obtain rfl : "-1.5x + y <= 0" = text := Except.ok.inj (written.symm.trans plain)
  rw [same neat_slope (by exact_mod_cast neat_intCast (n := 1))
    (by exact_mod_cast neat_intCast (n := 0))] at read
  exact ⟨written, read⟩

end LinearForm

end HalfPlane
