/-
The colours that a register gives out go round its palette.

A palette may hold a colour more than once. What counts are its distinct colours, each at its first
place: a search of the palette is one of these (`find?_eraseDups`), and the colours in use are the
first so many of them. There are two ways to start over, a list of colours in use that is as long
as the palette and a palette in which no colour is left, and both come to the first colour
(`next_over`). So one more colour keeps to the cycle (`Given.next`), and any run of uses does
(`Cycles.run`).
-/
import HalfPlane.Proofs.Register.Recency

namespace HalfPlane

/-! ## The distinct elements of a list -/

section Distinct
variable {β : Type} [BEq β] [LawfulBEq β]

theorem nodup_eraseDups : ∀ l : List β, l.eraseDups.Nodup
  | [] => List.nodup_nil
  | a :: l => by
    rw [List.eraseDups_cons, List.nodup_cons]
    exact ⟨by simp, nodup_eraseDups (l.filter fun b => !b == a)⟩
termination_by l => l.length
decreasing_by exact Nat.lt_succ_of_le (List.length_filter_le _ l)

theorem length_eraseDups_le (l : List β) : l.eraseDups.length ≤ l.length :=
  ((nodup_eraseDups l).subperm fun _ h => List.mem_eraseDups.1 h).length_le

/-- A search never gets to the repetitions. -/
theorem find?_eraseDups (p : β → Bool) : ∀ l : List β, l.eraseDups.find? p = l.find? p
  | [] => rfl
  | a :: l => by
    rw [List.eraseDups_cons, List.find?_cons, List.find?_cons]
    cases found : p a with
    | true => rfl
    | false =>
      show (l.filter fun b => !b == a).eraseDups.find? p = l.find? p
      rw [find?_eraseDups p (l.filter fun b => !b == a), List.find?_filter]
      congr 1
      funext b
      by_cases same : b = a
      · simp [same, found]
      · simp [same]
termination_by l => l.length
decreasing_by exact Nat.lt_succ_of_le (List.length_filter_le _ l)

/-- With the first `k` elements of a list in use, the next one is the first that is not. -/
theorem find?_unused {l : List β} (once : l.Nodup) (k : Nat) :
    l.find? (fun a => !(l.take k).contains a) = l[k]? := by
  induction k generalizing l with
  | zero => cases l <;> simp
  | succ k ih =>
    cases l with
    | nil => simp
    | cons a l =>
      rw [List.nodup_cons] at once
      rw [List.take_succ_cons, List.find?_cons_of_neg (by simp), List.getElem?_cons_succ,
        ← ih once.2]
      refine List.find?_congr fun b hb => ?_
      have other : b ≠ a := fun same => once.1 (same ▸ hb)
      simp [other]

end Distinct

/-! ## One colour -/

namespace Colors
variable {c : Colors}

/-- The distinct colours of a palette, each at its first place. -/
def distinct (c : Colors) : List String := c.palette.eraseDups

theorem distinct_nodup (c : Colors) : c.distinct.Nodup := nodup_eraseDups _

theorem first_of_distinct (c : Colors) : ∃ others, c.distinct = c.first :: others :=
  ⟨_, List.eraseDups_cons⟩

theorem distinct_length_pos (c : Colors) : 0 < c.distinct.length := by
  obtain ⟨others, h⟩ := c.first_of_distinct
  rw [h]
  exact Nat.succ_pos _

theorem find?_left {used : List String} {k : Nat} (h : used = c.distinct.take k) :
    (c.palette.find? fun color => !used.contains color) = c.distinct[k]? := by
  rw [← find?_eraseDups, h]
  exact find?_unused c.distinct_nodup k

/-- While colours are left, the next of them is given. -/
theorem next_left {k : Nat} (used : c.used = c.distinct.take k) (left : k < c.distinct.length) :
    c.next = (c.distinct[k], { c with used := c.distinct.take (k + 1) }) := by
  have short : ¬ c.palette.length ≤ c.used.length := by
    have fits : c.distinct.length ≤ c.palette.length := length_eraseDups_le _
    rw [used, List.length_take]
    omega
  have found := find?_left used
  rw [List.getElem?_eq_getElem left] at found
  unfold next
  simp only [if_neg short, found]
  rw [used, List.take_append_getElem left]

/-- When all of them are in use the first one is given: either as many are in use as the palette is
long, or none of the palette is left. -/
theorem next_over (used : c.used = c.distinct) :
    c.next = (c.first, { c with used := [c.first] }) := by
  obtain ⟨others, distinct⟩ := c.first_of_distinct
  unfold next
  split
  · have fresh : c.restart.used = c.restart.distinct.take 0 := rfl
    have first : c.restart.distinct[0]? = some c.first := by
      show c.distinct[0]? = _
      rw [distinct]
      rfl
    simp only [find?_left fresh, first]
    rfl
  · have all : c.used = c.distinct.take c.distinct.length := by rw [List.take_length, used]
    simp only [find?_left all, List.getElem?_length]

/-- How many of `m` colours are in use when `n` have been given: from one to all of them, once one
has been given. -/
def inUse (m : Nat) : Nat → Nat
  | 0 => 0
  | n + 1 => n % m + 1

theorem inUse_cases {m : Nat} (pos : 0 < m) (n : Nat) :
    inUse m n = n % m ∨ inUse m n = m ∧ n % m = 0 := by
  cases n with
  | zero => exact .inl (Nat.zero_mod m).symm
  | succ n =>
    have next : (n + 1) % m = (n % m + 1) % m := by rw [Nat.mod_add_mod]
    have turn := Nat.mod_lt n pos
    by_cases all : n % m + 1 = m
    · right
      rw [inUse, next, all, Nat.mod_self]
      exact ⟨rfl, rfl⟩
    · left
      have more : n % m + 1 < m := by omega
      rw [inUse, next, Nat.mod_eq_of_lt more]

/-- So many colours have been given since the palette was started. -/
def Given (c : Colors) (n : Nat) : Prop := c.used = c.distinct.take (inUse c.distinct.length n)

theorem given_restart (c : Colors) : c.restart.Given 0 := rfl

/-- The next colour is the one whose turn it is, and the cycle goes on. -/
theorem Given.next {n : Nat} (h : c.Given n) :
    c.distinct[n % c.distinct.length]? = some c.next.1 ∧ c.next.2.palette = c.palette ∧
      c.next.2.Given (n + 1) := by
  have turn : n % c.distinct.length < c.distinct.length := Nat.mod_lt n c.distinct_length_pos
  rcases inUse_cases c.distinct_length_pos n with more | ⟨all, first⟩
  · rw [Given, more] at h
    rw [next_left h turn]
    exact ⟨List.getElem?_eq_getElem turn, rfl, rfl⟩
  · rw [Given, all, List.take_length] at h
    obtain ⟨others, distinct⟩ := c.first_of_distinct
    rw [next_over h, first]
    refine ⟨by rw [distinct]; rfl, rfl, ?_⟩
    show [c.first] = c.distinct.take (n % c.distinct.length + 1)
    rw [first, distinct]
    rfl

end Colors

namespace Register
variable {α : Type}

/-! ## Runs of uses -/

/-- What a register is used for: a request, or an access to what it remembers. -/
inductive Use (α : Type) where
  | request (request : Request)
  | access (access : Access α)

/-- Whether a use starts the labels and the colours over. -/
def Use.startsOver : Use α → Bool
  | .request .restart | .access .restart => true
  | _ => false

variable [Scalar α] [Exact α]

def use (r : Register α) : Use α → Register α
  | .request request => (r.serve request).2
  | .access access => r.access access

def useAll (r : Register α) (uses : List (Use α)) : Register α := uses.foldl use r

/-- The colour that a use takes: one that is asked for, or that of a form that is entered. -/
def taken? (r : Register α) : Use α → Option String
  | .request .nextColor => some r.nextColor.1
  | .request (.readEntry text) =>
    (r.read text).1.map fun _ => (r.read text).2.nextLabel.2.nextColor.1
  | _ => none

/-- The colours taken by a run of uses after these, in order. Starting over begins anew. -/
def taken : Register α → List String → List (Use α) → List String
  | _, colors, [] => colors
  | r, colors, u :: uses =>
    (r.use u).taken (if u.startsOver then [] else colors ++ (r.taken? u).toList) uses

omit [Exact α] in
theorem colors_read (r : Register α) (text : String) : (r.read text).2.colors = r.colors := by
  obtain ⟨memo, h⟩ := r.read_memo text
  rw [h]

/-- A use starts the colours over, takes the next one, or leaves them alone. -/
theorem use_cases (r : Register α) (u : Use α) :
    (u.startsOver = true ∧ (r.use u).colors = r.colors.restart) ∨
    (u.startsOver = false ∧ r.taken? u = some r.colors.next.1 ∧
      (r.use u).colors = r.colors.next.2) ∨
    (u.startsOver = false ∧ r.taken? u = none ∧ (r.use u).colors = r.colors) := by
  cases u with
  | access access =>
    cases access with
    | lookUp | remember => exact .inr (.inr ⟨rfl, rfl, rfl⟩)
    | restart => exact .inl ⟨rfl, rfl⟩
  | request request =>
    cases request with
    | nextLabel => exact .inr (.inr ⟨rfl, rfl, rfl⟩)
    | nextColor => exact .inr (.inl ⟨rfl, rfl, rfl⟩)
    | restart => exact .inl ⟨rfl, rfl⟩
    | read text => exact .inr (.inr ⟨rfl, rfl, r.colors_read text⟩)
    | readEntry text =>
      have kept := r.colors_read text
      simp only [use, serve, readEntry, taken?]
      generalize r.read text = found at kept ⊢
      obtain ⟨_ | form, after⟩ := found
      · exact .inr (.inr ⟨rfl, rfl, kept⟩)
      · exact .inr (.inl ⟨rfl, congrArg (fun c : Colors => some c.next.1) kept,
          congrArg (·.next.2) kept⟩)

/-- An entry has the next colour. -/
theorem color_of_readEntry {r : Register α} {text : String} {q : Inequality α}
    (h : (r.readEntry text).1 = .ok (some q)) : q.color = r.colors.next.1 := by
  have kept := r.colors_read text
  unfold readEntry at h
  generalize r.read text = found at h kept
  obtain ⟨_ | form, after⟩ := found
  · cases h
  · simp only [enter] at h
    cases written : form.plain with
    | error e => rw [written] at h; cases h
    | ok plain =>
      rw [written] at h
      cases h
      exact congrArg (·.next.1) kept

/-! ## The cycle -/

/-- A register over this palette that has given these colours since it was started, the distinct
ones of the palette in turn. -/
structure Cycles (palette : List String) (r : Register α) (colors : List String) : Prop where
  palette_eq : r.colors.palette = palette
  given : r.colors.Given colors.length
  turns : ∀ i, i < colors.length →
    colors[i]? = palette.eraseDups[i % palette.eraseDups.length]?

/-- Every `m`-th number falls into any `m` numbers in a row. -/
theorem exists_turn {m k : Nat} (h : k < m) (i : Nat) : ∃ j, i ≤ j ∧ j < i + m ∧ j % m = k := by
  have rest := Nat.mod_lt i (Nat.zero_lt_of_lt h)
  refine ⟨i + (k + m - i % m) % m, Nat.le_add_right _ _,
    Nat.add_lt_add_left (Nat.mod_lt _ (Nat.zero_lt_of_lt h)) i, ?_⟩
  have whole : i + (k + m - i % m) = k + m * (i / m + 1) := by
    have parts := Nat.div_add_mod i m
    rw [Nat.mul_succ]
    omega
  rw [Nat.add_mod_mod, whole, Nat.add_mul_mod_self_left, Nat.mod_eq_of_lt h]

namespace Cycles
variable {palette : List String} {r : Register α} {colors : List String}

omit [Scalar α] [Exact α] in
/-- The colour whose turn it is. -/
theorem next (h : Cycles palette r colors) :
    palette.eraseDups[colors.length % palette.eraseDups.length]? = some r.colors.next.1 := by
  have turn := h.given.next.1
  rw [Colors.distinct, h.palette_eq] at turn
  exact turn

omit [Scalar α] [Exact α] in
theorem of_next (h : Cycles palette r colors) {after : Register α}
    (same : after.colors = r.colors.next.2) :
    Cycles palette after (colors ++ [r.colors.next.1]) where
  palette_eq := by rw [same, h.given.next.2.1, h.palette_eq]
  given := by
    rw [same, List.length_append]
    exact h.given.next.2.2
  turns i hi := by
    rw [List.length_append, List.length_singleton] at hi
    rcases Nat.lt_succ_iff_lt_or_eq.1 hi with before | rfl
    · rw [List.getElem?_append_left before, h.turns i before]
    · rw [List.getElem?_concat_length, h.next]

/-- One use keeps to the cycle. -/
theorem use (h : Cycles palette r colors) (u : Use α) :
    Cycles palette (r.use u) (if u.startsOver then [] else colors ++ (r.taken? u).toList) := by
  rcases r.use_cases u with ⟨starts, same⟩ | ⟨on, taken, same⟩ | ⟨on, taken, same⟩
  · rw [starts, if_pos rfl]
    refine ⟨by rw [same]; exact h.palette_eq, ?_, fun i hi => absurd hi (Nat.not_lt_zero i)⟩
    rw [same]
    exact Colors.given_restart _
  · rw [on, taken]
    exact h.of_next same
  · rw [on, taken]
    refine ⟨by rw [same]; exact h.palette_eq, ?_, ?_⟩
    · rw [same]
      simpa using h.given
    · simpa using h.turns

/-- Any run of uses does. -/
theorem run (h : Cycles palette r colors) (uses : List (Use α)) :
    Cycles palette (r.useAll uses) (r.taken colors uses) := by
  induction uses generalizing r colors with
  | nil => exact h
  | cons u uses ih => exact ih (h.use u)

omit [Scalar α] [Exact α] in
/-- Between two times that a colour is given all of the palette are given. -/
theorem all_between (h : Cycles palette r colors) {i j : Nat} (later : i < j)
    (hj : j < colors.length) (same : colors[i]? = colors[j]?) :
    ∀ color ∈ palette, ∃ k, i ≤ k ∧ k < j ∧ colors[k]? = some color := by
  intro color mem
  obtain ⟨t, ht, rfl⟩ := List.getElem_of_mem (List.mem_eraseDups.2 mem)
  have pos := Nat.zero_lt_of_lt ht
  -- The two times are a whole number of rounds apart.
  have round : i % palette.eraseDups.length = j % palette.eraseDups.length := by
    rw [h.turns i (later.trans hj), h.turns j hj] at same
    exact (List.getElem?_inj (Nat.mod_lt i pos) (nodup_eraseDups palette)).1 same
  have apart : palette.eraseDups.length ≤ j - i :=
    Nat.le_of_dvd (by omega) ((Nat.modEq_iff_dvd' later.le).1 round)
  obtain ⟨k, from_i, within, turn⟩ := exists_turn ht i
  refine ⟨k, from_i, by omega, ?_⟩
  rw [h.turns k (by omega), turn, List.getElem?_eq_getElem ht]

end Cycles

/-- A new register, used in any way, gives out the distinct colours of its palette in turn, from the
first one whenever it is started over. So no colour is given again before all of them have been. -/
theorem colors_go_round {palette : List String} (colours : palette ≠ []) (initial : String)
    {memory : Int} (room : 1 ≤ memory) :
    ∃ r : Register α, make palette initial memory = .ok r ∧ ∀ uses : List (Use α),
      let distinct := palette.eraseDups
      let colors := r.taken [] uses
      let after := r.useAll uses
      (∀ i, i < colors.length → colors[i]? = distinct[i % distinct.length]?) ∧
        distinct[colors.length % distinct.length]? = some after.nextColor.1 ∧
        (∀ text q, (after.readEntry text).1 = .ok (some q) →
          distinct[colors.length % distinct.length]? = some q.color) ∧
        ∀ i j, i < j → j < colors.length → colors[i]? = colors[j]? →
          ∀ color ∈ palette, ∃ k, i ≤ k ∧ k < j ∧ colors[k]? = some color := by
  obtain ⟨first, others, rfl⟩ := List.exists_cons_of_ne_nil colours
  have made : make (first :: others) initial memory =
      .ok (⟨initial, 0, ⟨first, others, []⟩, .empty memory.toNat⟩ : Register α) :=
    make_eq rfl initial room
  have fresh : Cycles (first :: others)
      (⟨initial, 0, ⟨first, others, []⟩, .empty memory.toNat⟩ : Register α) [] :=
    ⟨rfl, rfl, fun i hi => absurd hi (Nat.not_lt_zero i)⟩
  refine ⟨_, made, fun uses => ?_⟩
  have cycles := fresh.run uses
  refine ⟨cycles.turns, cycles.next, fun text q entered => ?_, fun i j => cycles.all_between⟩
  rw [cycles.next, color_of_readEntry entered]

/-- A round broken off by starting over, and then two entries: of a text remembered as unreadable,
and of one remembered under a form that cannot be written out. -/
def rounds : List (Use Float) :=
  [.request .nextColor, .request .nextLabel, .request .nextColor, .request .nextColor,
    .access .restart, .request .nextColor,
    .access (.remember "x" none), .request (.readEntry "x"),
    .access (.remember "y" (some ⟨1.0 / 0.0, 0.0, 0.0, .gt⟩)), .request (.readEntry "y"),
    .request .nextColor]

/-- The colours since then go round the two colours of a palette that holds one of them twice: the
text that is unreadable takes none, and the entry that is refused takes one. -/
theorem colors_go_round_of_repeated : ∃ r : Register Float,
    make ["#4e31aa", "#4e31aa", "#2c3e50"] "d" 1 = .ok r ∧
    ((r.useAll (rounds.take 9)).readEntry "y").1.toOption.isNone = true ∧
    r.taken [] rounds = ["#4e31aa", "#2c3e50", "#4e31aa"] ∧
    (r.useAll rounds).nextColor.1 = "#2c3e50" ∧
    ∀ color ∈ ["#4e31aa", "#4e31aa", "#2c3e50"],
      ∃ k, 0 ≤ k ∧ k < 2 ∧ (r.taken [] rounds)[k]? = some color := by
  have colours : ["#4e31aa", "#4e31aa", "#2c3e50"] ≠ [] := by simp
  have room : (1 : Int) ≤ 1 := by decide
  obtain ⟨r, made, run⟩ := colors_go_round (α := Float) colours "d" room
  obtain ⟨-, next, -, between⟩ := run rounds
  have taken : r.taken [] rounds = ["#4e31aa", "#2c3e50", "#4e31aa"] := by
    cases made
    decide +kernel
  rw [taken] at next between
  refine ⟨r, made, ?_, taken, ?_, ?_⟩
  · cases made
    decide +kernel
  · exact (Option.some.inj next).symm
  · rw [taken]
    exact between 0 2 (by decide) (by decide) rfl

end Register
end HalfPlane
